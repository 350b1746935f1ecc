/-
Byte spans into a source unit.

Offsets have 32 bits.  A span is half open, from its first byte up to, not including, its
stop.  A diagnostic locates text by an offset and a length instead, which a span has only if
it does not stop before it starts.
-/
import Reify.Text.Slice

namespace Reify

structure Span where
  start : UInt32
  stop : UInt32
  deriving DecidableEq, Repr

/-- Where a diagnostic points: an offset and a length, in bytes. -/
structure Extent where
  offset : Nat
  length : Nat
  deriving DecidableEq, Repr

namespace Span

/-- The span between two offsets, each cut to 32 bits. -/
def ofRange (start stop : Nat) : Span := ⟨start.toUInt32, stop.toUInt32⟩

def isEmpty (s : Span) : Bool := s.start == s.stop

/-- The offset and length of a span that does not stop before it starts. -/
def extent? (s : Span) : Option Extent :=
  if s.start ≤ s.stop then some ⟨s.start.toNat, s.stop.toNat - s.start.toNat⟩ else none

/-- The text a span covers, if it lies in the source and between characters. -/
def slice? (s : Span) (source : String) : Option String :=
  (Text.slice? source.toList s.start.toNat s.stop.toNat).map String.ofList

theorem extent?_eq_none_iff {s : Span} : s.extent? = none ↔ s.stop < s.start := by
  unfold extent?
  split <;> simp_all

theorem ofRange_of_lt {start stop : Nat} (hs : start < UInt32.size) (ht : stop < UInt32.size) :
    (ofRange start stop).start.toNat = start ∧ (ofRange start stop).stop.toNat = stop :=
  ⟨UInt32.toNat_ofNat_of_lt hs, UInt32.toNat_ofNat_of_lt ht⟩

end Span
end Reify
