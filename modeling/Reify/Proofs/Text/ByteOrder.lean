/-
The order of texts is the order of their bytes.

In UTF-8 a character is a leading byte, which tells how many bytes follow, and then six bits a
byte.  Longer characters have greater leading bytes, and among those of one length the bytes
compare like the digits of a number.  So texts compare character by character as they compare
byte by byte.
-/
import Mathlib.Data.List.Lex
import Mathlib.Data.String.Basic

namespace Reify
namespace Text

def bytes (s : String) : List UInt8 := s.toUTF8.data.toList

theorem bytes_eq (s : String) : bytes s = s.toList.flatMap String.utf8EncodeChar := by
  have hencoded : s.toByteArray = s.toList.utf8Encode := by
    rw [← String.toByteArray_ofList, String.ofList_toList]
  rw [bytes, String.toUTF8_eq_toByteArray, hencoded, List.utf8Encode, List.data_toByteArray,
    List.toList_toArray]

theorem ofNat_lt_ofNat {a b : Nat} (hb : b < 256) (hab : a < b) :
    UInt8.ofNat a < UInt8.ofNat b := by
  rw [UInt8.lt_iff_toNat_lt, UInt8.toNat_ofNat', UInt8.toNat_ofNat', Nat.mod_eq_of_lt hb]
  omega

/-! ## Characters -/

/-- The last `k` bytes of a character that takes more than one. -/
def continued (v : Nat) : Nat → List UInt8
  | 0 => []
  | k + 1 => UInt8.ofNat (v / 64 ^ k % 64 + 128) :: continued v k

/-- How many bytes follow the leading byte. -/
def following (v : Nat) : Nat :=
  if v ≤ 0x7f then 0 else if v ≤ 0x7ff then 1 else if v ≤ 0xffff then 2 else 3

/-- What is added to the leading bits of a character with `k` bytes to follow. -/
def leadMark : Nat → Nat
  | 0 => 0
  | 1 => 0xc0
  | 2 => 0xe0
  | _ => 0xf0

def leadByte (v : Nat) : Nat := v / 64 ^ following v + leadMark (following v)

theorem leadByte_cases (v : Nat) :
    v ≤ 0x7f ∧ following v = 0 ∧ leadByte v = v ∨
      0x7f < v ∧ v ≤ 0x7ff ∧ following v = 1 ∧ leadByte v = v / 64 + 0xc0 ∨
      0x7ff < v ∧ v ≤ 0xffff ∧ following v = 2 ∧ leadByte v = v / 4096 + 0xe0 ∨
      0xffff < v ∧ following v = 3 ∧ leadByte v = v / 262144 + 0xf0 := by
  unfold leadByte following
  by_cases hone : v ≤ 0x7f
  · left
    simp [hone, leadMark]
  right
  by_cases htwo : v ≤ 0x7ff
  · left
    simp [hone, htwo, leadMark]
    omega
  right
  by_cases hthree : v ≤ 0xffff
  · left
    simp [hone, htwo, hthree, leadMark]
    omega
  · right
    simp [hone, htwo, hthree, leadMark]
    omega

theorem toNat_lt (c : Char) : c.toNat < 0x110000 := by
  have hvalid := c.valid
  simp only [UInt32.isValidChar, Nat.isValidChar] at hvalid
  show c.val.toNat < _
  omega

theorem utf8EncodeChar_eq (c : Char) : String.utf8EncodeChar c =
    UInt8.ofNat (leadByte c.toNat) :: continued c.toNat (following c.toNat) := by
  have hvalid := toNat_lt c
  unfold String.utf8EncodeChar
  show (if c.toNat ≤ 0x7f then _ else if c.toNat ≤ 0x7ff then _ else
    if c.toNat ≤ 0xffff then _ else _) = _
  rcases leadByte_cases c.toNat with ⟨hone, hk, hlead⟩ | ⟨hone, htwo, hk, hlead⟩ |
    ⟨htwo, hthree, hk, hlead⟩ | ⟨hthree, hk, hlead⟩
  · rw [if_pos hone, hk, hlead]
    rfl
  · have hbits : c.toNat / 64 % 0x20 = c.toNat / 64 := Nat.mod_eq_of_lt (by omega)
    rw [if_neg (by omega), if_pos htwo, hk, hlead]
    simp [continued, hbits]
  · have hbits : c.toNat / 4096 % 0x10 = c.toNat / 4096 := Nat.mod_eq_of_lt (by omega)
    rw [if_neg (by omega), if_neg (by omega), if_pos hthree, hk, hlead]
    simp [continued, hbits]
  · have hbits : c.toNat / 262144 % 0x08 = c.toNat / 262144 := Nat.mod_eq_of_lt (by omega)
    rw [if_neg (by omega), if_neg (by omega), if_neg (by omega), hk, hlead]
    simp [continued, hbits]

/-- Among characters with as many bytes to follow, those bytes decide if the leading ones do
not. -/
theorem continued_append_lt {v w : Nat} (h : v < w) (k : Nat) (hlead : v / 64 ^ k = w / 64 ^ k)
    (as bs : List UInt8) : continued v k ++ as < continued w k ++ bs := by
  induction k with
  | zero =>
    rw [Nat.pow_zero, Nat.div_one, Nat.div_one] at hlead
    omega
  | succ k ih =>
    have hv : v / 64 ^ k / 64 = v / 64 ^ (k + 1) := by rw [Nat.div_div_eq_div_mul, Nat.pow_succ]
    have hw : w / 64 ^ k / 64 = w / 64 ^ (k + 1) := by rw [Nat.div_div_eq_div_mul, Nat.pow_succ]
    rw [continued, continued, List.cons_append, List.cons_append, List.cons_lt_cons_iff]
    rcases Nat.lt_or_eq_of_le (Nat.div_le_div_right (c := 64 ^ k) (Nat.le_of_lt h)) with hlt | heq
    · exact .inl (ofNat_lt_ofNat (by omega) (by omega))
    · exact .inr ⟨by rw [heq], ih heq⟩

/-- A smaller character has smaller bytes, whatever follows either. -/
theorem utf8EncodeChar_append_lt {c d : Char} (h : c < d) (as bs : List UInt8) :
    String.utf8EncodeChar c ++ as < String.utf8EncodeChar d ++ bs := by
  have hlt : c.toNat < d.toNat := h
  have hvalid := toNat_lt d
  have hc := leadByte_cases c.toNat
  have hd := leadByte_cases d.toNat
  have hbyte : leadByte d.toNat < 256 := by omega
  rw [utf8EncodeChar_eq, utf8EncodeChar_eq, List.cons_append, List.cons_append,
    List.cons_lt_cons_iff]
  by_cases hlength : following c.toNat = following d.toNat
  · have hle : c.toNat / 64 ^ following c.toNat ≤ d.toNat / 64 ^ following c.toNat :=
      Nat.div_le_div_right (Nat.le_of_lt hlt)
    have hleadc : leadByte c.toNat =
      c.toNat / 64 ^ following c.toNat + leadMark (following c.toNat) := rfl
    have hleadd : leadByte d.toNat =
        d.toNat / 64 ^ following c.toNat + leadMark (following c.toNat) := by
      rw [hlength, leadByte]
    rcases Nat.lt_or_eq_of_le hle with hless | hsame
    · exact .inl (ofNat_lt_ofNat hbyte (by omega))
    · rw [← hlength]
      exact .inr ⟨by rw [hleadc, hleadd, hsame], continued_append_lt hlt _ hsame as bs⟩
  · exact .inl (ofNat_lt_ofNat hbyte (by omega))

/-! ## Texts -/

theorem flatMap_utf8EncodeChar_lt {cs ds : List Char} (h : cs < ds) :
    cs.flatMap String.utf8EncodeChar < ds.flatMap String.utf8EncodeChar := by
  induction cs generalizing ds with
  | nil =>
    cases ds with
    | nil => exact absurd h (List.not_lt_nil _)
    | cons d ds =>
      rw [List.flatMap_nil, List.flatMap_cons, utf8EncodeChar_eq, List.cons_append]
      exact List.nil_lt_cons _ _
  | cons c cs ih =>
    cases ds with
    | nil => exact absurd h (List.not_lt_nil _)
    | cons d ds =>
      rw [List.flatMap_cons, List.flatMap_cons]
      rcases List.cons_lt_cons_iff.mp h with hlt | ⟨rfl, hlt⟩
      · exact utf8EncodeChar_append_lt hlt _ _
      · exact List.append_left_lt (ih hlt)

theorem bytes_lt {s t : String} (h : s < t) : bytes s < bytes t := by
  rw [bytes_eq, bytes_eq]
  exact flatMap_utf8EncodeChar_lt (String.lt_iff.mp h)

theorem map_bytes_lt {ss ts : List String} (h : ss < ts) : ss.map bytes < ts.map bytes := by
  induction ss generalizing ts with
  | nil =>
    cases ts with
    | nil => exact absurd h (List.not_lt_nil _)
    | cons t ts => exact List.nil_lt_cons _ _
  | cons s ss ih =>
    cases ts with
    | nil => exact absurd h (List.not_lt_nil _)
    | cons t ts =>
      rw [List.map_cons, List.map_cons, List.cons_lt_cons_iff]
      rcases List.cons_lt_cons_iff.mp h with hlt | ⟨rfl, hlt⟩
      · exact .inl (bytes_lt hlt)
      · exact .inr ⟨rfl, ih hlt⟩

end Text
end Reify
