/-
The walk under oracles that it cannot tell apart.

Where two oracles agree at every node of a tree about lowering and about what is selected, the
walk finds the same rewrites.
-/
import Reify.Proofs.Lowering.Agreement
import Reify.Rewrite.Walk

namespace Reify
namespace Rewrite

variable {o o' : Oracle} {t : Tree}

theorem ofSelection_congr (h : t.Everywhere (Oracle.AgreeAt o o')) (s : Selection) :
    ofSelection o t s = ofSelection o' t s := by
  refine List.filterMap_congr fun i _ => ?_
  cases hslot : t.callArguments[i]? with
  | none => rfl
  | some slot =>
    have hnode := lowerReflected_congr (h.argument (List.mem_of_getElem? hslot)) s.drop
    rw [Option.map_some, Option.map_some, hnode]

theorem collectAll_congr {ts : List Tree} (h : ∀ c ∈ ts, collect o c = collect o' c) :
    collectAll o ts = collectAll o' ts := by
  rw [collectAll_eq, collectAll_eq]
  exact List.flatMap_congr h

theorem collectOutside_congr {ts : List Tree} (h : ∀ c ∈ ts, collect o c = collect o' c)
    (slots : List Nat) (index : Nat) :
    collectOutside o slots index ts = collectOutside o' slots index ts := by
  induction ts generalizing index with
  | nil => rfl
  | cons c ts ih =>
    rw [List.forall_mem_cons] at h
    rw [collectOutside, collectOutside, h.1, ih h.2, ih h.2]

theorem collectBeside_congr {ts : List Tree} (h : ∀ c ∈ ts, collect o c = collect o' c)
    (hbelow : ∀ c ∈ ts, ∀ d ∈ c.children, collect o d = collect o' d) (slots : List Nat) :
    collectBeside o slots ts = collectBeside o' slots ts := by
  induction ts with
  | nil => rfl
  | cons c ts ih =>
    rw [List.forall_mem_cons] at h hbelow
    obtain ⟨info, children⟩ := c
    have hchildren : ∀ d ∈ children, collect o d = collect o' d := hbelow.1
    rw [collectBeside, collectBeside, h.1, ih h.2 hbelow.2, collectAll_congr h.2,
      collectOutside_congr hchildren]

theorem collect_congr (h : t.Everywhere (Oracle.AgreeAt o o'))
    (hselect : t.Everywhere fun n => select? o n = select? o' n) : collect o t = collect o' t := by
  induction t using Tree.induct_below with
  | node t ih =>
    have hchildren : ∀ c ∈ t.children, collect o c = collect o' c := fun c hc =>
      (ih c hc).1 (h.child hc) (hselect.child hc)
    -- In an argument list the walk leaves arguments out, so it is followed a level further down.
    have hbelow : ∀ c ∈ t.children, ∀ d ∈ c.children, collect o d = collect o' d :=
      fun c hc d hd => (ih c hc).2 d hd ((h.child hc).child hd) ((hselect.child hc).child hd)
    have hhere := hselect.here
    have hslots := ofSelection_congr h
    obtain ⟨info, children⟩ := t
    have hall : collectAll o children = collectAll o' children := collectAll_congr hchildren
    have hbeside (slots : List Nat) :
        collectBeside o slots children = collectBeside o' slots children :=
      collectBeside_congr hchildren hbelow slots
    rw [collect, collect, hhere]
    simp only [hall, hbeside, hslots]

end Rewrite
end Reify
