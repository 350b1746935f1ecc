/-
What a listing of a directory contains.

The files below a directory are those that some steps lead to, and a listing has each of them
once, in the order of their steps.  So it does not depend on the order in which the entries of
any directory come, as long as no two of them have the same name.
-/
import Mathlib.Data.List.Nodup
import Reify.Directory
import Reify.Proofs.Project.Path
import Reify.Proofs.Text.ByteOrder

namespace Reify
namespace Entry

/-- In each directory the entries have names, no two of them the same. -/
inductive WellNamed : Entry → Prop
  | file (text : String) : WellNamed (.file text)
  | directory {entries : List (String × Entry)} (distinct : (entries.map Prod.fst).Nodup)
      (names : ∀ entry ∈ entries, Path.IsName entry.1)
      (below : ∀ entry ∈ entries, WellNamed entry.2) : WellNamed (.directory entries)

variable {d e : Entry} {steps : List String}

/-! ## Finding -/

theorem find?_directory (entries : List (String × Entry)) (step : String) (rest : List String) :
    (directory entries).find? (step :: rest) =
      (entries.lookup step).bind fun next => next.find? rest := by
  rw [find?, child?]
  cases entries.lookup step <;> rfl

theorem find?_file_eq_some {text text' : String} :
    (file text).find? steps = some (file text') ↔ steps = [] ∧ text = text' := by
  cases steps with
  | nil => simp [find?]
  | cons step rest => simp [find?, child?]

theorem find?_append (d : Entry) (here rest : List String) :
    d.find? (here ++ rest) = (d.find? here).bind fun next => next.find? rest := by
  induction here generalizing d with
  | nil => rfl
  | cons step here ih =>
    cases d with
    | file text => rfl
    | directory entries =>
      rw [List.cons_append, find?_directory, find?_directory, Option.bind_assoc]
      exact Option.bind_congr fun next _ => ih next

theorem lookup_eq_some_iff_mem {entries : List (String × Entry)}
    (h : (entries.map Prod.fst).Nodup) {name : String} :
    entries.lookup name = some e ↔ (name, e) ∈ entries := by
  rw [List.lookup_eq_some_iff]
  constructor
  · rintro ⟨before, after, rfl, -⟩
    simp
  · intro hmem
    obtain ⟨before, after, rfl⟩ := List.append_of_mem hmem
    rw [List.map_append, List.map_cons, List.nodup_middle, List.nodup_cons] at h
    refine ⟨before, after, rfl, fun entry hentry => ?_⟩
    have hname : name ≠ entry.1 := fun heq =>
      h.1 (List.mem_append_left _ (List.mem_map.mpr ⟨entry, hentry, heq.symm⟩))
    simpa using hname

theorem find?_singleton (d : Entry) (name : String) : d.find? [name] = d.child? name := by
  rw [find?]
  cases d.child? name <;> rfl

/-- What is found in a well named directory is well named, and names lead to it. -/
theorem WellNamed.find? (h : d.WellNamed) (he : d.find? steps = some e) :
    e.WellNamed ∧ ∀ s ∈ steps, Path.IsName s := by
  induction steps generalizing d with
  | nil =>
    obtain rfl := Option.some.inj he
    exact ⟨h, List.forall_mem_nil _⟩
  | cons step rest ih =>
    cases h with
    | file text => cases he
    | @directory entries distinct names below =>
      rw [find?_directory, Option.bind_eq_some_iff] at he
      obtain ⟨next, hnext, he⟩ := he
      have hmem := (lookup_eq_some_iff_mem distinct).mp hnext
      obtain ⟨hwell, hrest⟩ := ih (below _ hmem) he
      exact ⟨hwell, List.forall_mem_cons.mpr ⟨names _ hmem, hrest⟩⟩

/-! ## Walking -/

theorem mem_walk (h : e.WellNamed) {here : List String} :
    steps ∈ walk here e ↔
      ∃ rest text, steps = here ++ rest ∧ e.find? rest = some (file text) := by
  induction h generalizing here with
  | file text =>
    rw [walk, List.mem_singleton]
    simp only [find?_file_eq_some]
    constructor
    · rintro rfl
      exact ⟨[], text, (List.append_nil _).symm, rfl, rfl⟩
    · rintro ⟨rest, _, rfl, rfl, -⟩
      exact List.append_nil _
  | @directory entries distinct _ _ ih =>
    rw [walk, walkEach_eq, List.mem_flatMap]
    constructor
    · rintro ⟨⟨name, next⟩, hmem, hsteps⟩
      obtain ⟨rest, text, rfl, hfound⟩ := (ih _ hmem).mp hsteps
      refine ⟨name :: rest, text, by simp, ?_⟩
      rw [find?_directory, (lookup_eq_some_iff_mem distinct).mpr hmem]
      exact hfound
    · rintro ⟨rest, text, rfl, hfound⟩
      cases rest with
      | nil => cases hfound
      | cons name rest =>
        rw [find?_directory, Option.bind_eq_some_iff] at hfound
        obtain ⟨next, hnext, hfound⟩ := hfound
        have hmem := (lookup_eq_some_iff_mem distinct).mp hnext
        exact ⟨_, hmem, (ih _ hmem).mpr ⟨rest, text, by simp, hfound⟩⟩

theorem nodup_walk (h : e.WellNamed) (here : List String) : (walk here e).Nodup := by
  induction h generalizing here with
  | file text => exact List.nodup_singleton _
  | @directory entries distinct _ below ih =>
    rw [walk, walkEach_eq, List.nodup_flatMap]
    refine ⟨fun entry hentry => ih entry hentry _, ?_⟩
    have hnames : entries.Pairwise fun a b => a.1 ≠ b.1 := List.pairwise_map.mp distinct
    refine hnames.imp_of_mem fun {a b} ha hb hne => ?_
    intro steps hstepsa hstepsb
    obtain ⟨rest, -, hrest, -⟩ := (mem_walk (below a ha)).mp hstepsa
    obtain ⟨rest', -, hrest', -⟩ := (mem_walk (below b hb)).mp hstepsb
    rw [hrest, List.append_assoc, List.append_assoc, List.append_cancel_left_eq] at hrest'
    exact hne (List.cons.inj hrest').1

/-! ## Listing -/

/-- The steps lead to a file below the directory `name`, and its extension is `ext`. -/
def FileBelow (d : Entry) (name ext : String) (steps : List String) : Prop :=
  ∃ above stem text, stem ≠ "" ∧ steps = name :: above ++ [stem ++ "." ++ ext] ∧
    d.find? steps = some (file text)

theorem FileBelow.steps_ofSteps {name ext : String} (h : d.FileBelow name ext steps)
    (hd : d.WellNamed) : (Path.ofSteps steps).steps = steps := by
  obtain ⟨above, stem, text, -, rfl, hfile⟩ := h
  exact Path.steps_ofSteps (List.cons_ne_nil _ _) (hd.find? hfile).2

/-- Paths in the order of their steps, byte by byte, and none of them twice. -/
def Ascending (paths : List Path) : Prop :=
  paths.Pairwise fun p q => p.steps.map Text.bytes < q.steps.map Text.bytes

/-- A listing has the files below the directory with the extension, each once and in order. -/
theorem list_eq_ok (h : d.WellNamed) {name ext : String} (hdot : '.' ∉ ext.toList)
    {entries : List (String × Entry)} (hname : d.find? [name] = some (directory entries)) :
    ∃ paths, d.list name ext = .ok paths ∧ Ascending paths ∧
      ∀ p, p ∈ paths ↔ ∃ steps, d.FileBelow name ext steps ∧ p = Path.ofSteps steps := by
  have hwell := (h.find? hname).1
  have hwalk : walkEach [name] entries = walk [name] (directory entries) := rfl
  let found := (walk [name] (directory entries)).filter fun steps =>
    (Path.ofSteps steps).extension? == some ext
  have hlist : d.list name ext = .ok ((Path.inOrder found).map .ofSteps) := by
    rw [list, ← find?_singleton, hname]
    rfl
  have hfind (rest : List String) :
      d.find? (name :: rest) = (directory entries).find? rest := by
    rw [← List.singleton_append, find?_append, hname, Option.bind_some]
  have hmem (steps : List String) : steps ∈ found ↔ d.FileBelow name ext steps := by
    rw [List.mem_filter, mem_walk hwell, beq_iff_eq]
    constructor
    · rintro ⟨⟨rest, text, rfl, hfound⟩, hextension⟩
      have hfile : d.find? (name :: rest) = some (file text) := (hfind rest).trans hfound
      have hnames := (h.find? hfile).2
      obtain ⟨above, stem, hstem, hsteps⟩ :=
        (Path.extension?_ofSteps (List.cons_ne_nil _ _) hnames hdot).mp hextension
      -- The directory itself is no file, so the file name is not the first step.
      cases above with
      | nil =>
        obtain rfl : rest = [] := (List.cons.inj hsteps).2
        cases hfound
      | cons first above =>
        obtain ⟨rfl, hrest⟩ := List.cons.inj hsteps
        exact ⟨above, stem, text, hstem, by rw [hrest]; rfl, hfile⟩
    · rintro ⟨above, stem, text, hstem, rfl, hfile⟩
      have hnames := (h.find? hfile).2
      refine ⟨⟨above ++ [stem ++ "." ++ ext], text, rfl, ?_⟩, ?_⟩
      · rw [← hfile, ← hfind]
        rfl
      · exact (Path.extension?_ofSteps (List.cons_ne_nil _ _) hnames hdot).mpr
          ⟨name :: above, stem, hstem, rfl⟩
  have hsorted : (Path.inOrder found).Pairwise (· < ·) :=
    Path.inOrder_pairwise ((nodup_walk hwell _).filter _)
  have hordered (steps : List String) : steps ∈ Path.inOrder found ↔ d.FileBelow name ext steps :=
    ((Path.inOrder_perm found).mem_iff).trans (hmem steps)
  refine ⟨_, hlist, List.pairwise_map.mpr ?_, fun p => ?_⟩
  · refine hsorted.imp_of_mem fun {a b} ha hb hlt => ?_
    rw [((hordered a).mp ha).steps_ofSteps h, ((hordered b).mp hb).steps_ofSteps h]
    exact Text.map_bytes_lt hlt
  · rw [List.mem_map]
    simp only [hordered, eq_comm]

theorem Ascending.ext {ps qs : List Path} (hp : Ascending ps) (hq : Ascending qs)
    (h : ∀ p, p ∈ ps ↔ p ∈ qs) : ps = qs := by
  have nodup {rs : List Path} (hr : Ascending rs) : rs.Nodup := by
    refine List.Pairwise.imp (fun hlt => ?_) hr
    rintro rfl
    exact List.lt_irrefl _ hlt
  have hperm : ps.Perm qs := (List.perm_ext_iff_of_nodup (nodup hp) (nodup hq)).mpr h
  exact hperm.eq_of_pairwise (fun p q _ _ hpq hqp => absurd hqp (List.lt_asymm hpq)) hp hq

/-! ## Rearranging -/

/-- The same directory with its entries, at any depth, in any other order. -/
inductive Rearranged : Entry → Entry → Prop
  | refl (e : Entry) : Rearranged e e
  | permute {entries entries' : List (String × Entry)} (perm : entries.Perm entries') :
    Rearranged (.directory entries) (.directory entries')
  | inside {before after : List (String × Entry)} {name : String} {e e' : Entry}
      (inner : Rearranged e e') :
    Rearranged (.directory (before ++ (name, e) :: after))
      (.directory (before ++ (name, e') :: after))
  | trans {e e' e'' : Entry} (first : Rearranged e e') (second : Rearranged e' e'') :
    Rearranged e e''

/-- What can be told of an entry without its own entries: the text of a file. -/
def glimpse : Entry → Option String
  | file text => some text
  | directory _ => none

def LooksAlike (d d' : Entry) : Prop :=
  ∀ steps, (d'.find? steps).map glimpse = (d.find? steps).map glimpse

theorem Rearranged.wellNamed {d' : Entry} (h : Rearranged d d') (hd : d.WellNamed) :
    d'.WellNamed := by
  induction h with
  | refl => exact hd
  | permute perm =>
    cases hd with
    | directory distinct names below =>
      exact .directory ((perm.map Prod.fst).nodup_iff.mp distinct)
        (fun entry hentry => names entry (perm.mem_iff.mpr hentry))
        fun entry hentry => below entry (perm.mem_iff.mpr hentry)
  | @inside before after name e e' _ ih =>
    cases hd with
    | directory distinct names below =>
      have hnames : (before ++ (name, e') :: after).map Prod.fst =
          (before ++ (name, e) :: after).map Prod.fst := by simp
      refine .directory (hnames ▸ distinct) (fun entry hentry => ?_) fun entry hentry => ?_
      · obtain ⟨other, hother, heq⟩ := List.mem_map.mp (hnames ▸ List.mem_map_of_mem hentry)
        exact heq ▸ names other hother
      · rcases List.mem_append.mp hentry with hmem | hmem
        · exact below entry (List.mem_append_left _ hmem)
        · rcases List.mem_cons.mp hmem with rfl | hmem
          · exact ih (below (name, e) (by simp))
          · exact below entry (List.mem_append_right _ (List.mem_cons_of_mem _ hmem))
  | trans _ _ ih ih' => exact ih' (ih hd)

theorem Rearranged.looksAlike {d' : Entry} (h : Rearranged d d') (hd : d.WellNamed) :
    LooksAlike d d' := by
  induction h with
  | refl => exact fun _ => rfl
  | @permute entries entries' perm =>
    intro steps
    cases steps with
    | nil => rfl
    | cons step rest =>
      cases hd with
      | directory distinct =>
        have distinct' := (perm.map Prod.fst).nodup_iff.mp distinct
        have hlookup : entries'.lookup step = entries.lookup step := Option.ext fun e => by
          rw [lookup_eq_some_iff_mem distinct', lookup_eq_some_iff_mem distinct,
            perm.mem_iff]
        rw [find?_directory, find?_directory, hlookup]
  | @inside before after name e e' _ ih =>
    intro steps
    cases steps with
    | nil => rfl
    | cons step rest =>
      cases hd with
      | directory _ _ below =>
        have halike := ih (below (name, e) (by simp)) rest
        rw [find?_directory, find?_directory, List.lookup_append, List.lookup_append]
        cases before.lookup step with
        | some found => rfl
        | none =>
          rw [List.lookup_cons, List.lookup_cons]
          by_cases hstep : (step == name) = true
          · simpa [hstep] using halike
          · simp [hstep]
  | trans first _ ih ih' =>
    exact fun steps => (ih' (first.wellNamed hd) steps).trans (ih hd steps)

theorem resolve_cons (root : Entry) (here : List String) (step : String) (rest : List String) :
    resolve root here (step :: rest) =
      if step = "" ∨ step = "." then resolve root here rest
      else if step = ".." then
        if here.isEmpty then resolveOutside rest else resolve root here.dropLast rest
      else
        match (root.find? (here ++ [step])).map glimpse with
        | none => .error (missing step)
        | some none => resolve root (here ++ [step]) rest
        | some (some text) => if rest.isEmpty then .ok (file text) else .error .notADirectory := by
  by_cases hempty : step = ""
  · subst hempty
    rw [resolve, if_pos (.inl rfl)]
  by_cases hhere : step = "."
  · subst hhere
    rw [resolve, if_pos (.inr rfl)]
  rw [if_neg (not_or.mpr ⟨hempty, hhere⟩)]
  by_cases habove : step = ".."
  · subst habove
    rw [resolve, if_pos rfl]
  rw [if_neg habove, resolve]
  · cases root.find? (here ++ [step]) with
    | none => rfl
    | some next => cases next <;> rfl
  all_goals assumption

section

variable {d' : Entry} (h : LooksAlike d d')

include h

theorem LooksAlike.find?_eq_file_iff {text : String} :
    d'.find? steps = some (file text) ↔ d.find? steps = some (file text) := by
  have hiff (e : Entry) : e.find? steps = some (file text) ↔
      (e.find? steps).map glimpse = some (some text) := by
    cases e.find? steps with
    | none => simp
    | some found => cases found <;> simp [glimpse]
  rw [hiff, hiff, h steps]

theorem LooksAlike.resolve_eq (here rest : List String) :
    d'.resolve here rest = d.resolve here rest := by
  induction rest generalizing here with
  | nil => rfl
  | cons step rest ih => rw [resolve_cons, resolve_cons, h, ih, ih, ih]

theorem LooksAlike.read_eq (base p : Path) : d'.read base p = d.read base p := by
  have hlocate : d'.locate p = d.locate p := by
    rw [locate, locate, h.resolve_eq]
  rw [read, read, hlocate]

/-- The listing is the same whatever the order of the entries is. -/
theorem LooksAlike.list_eq (hd : d.WellNamed) (hd' : d'.WellNamed) {name ext : String}
    (hdot : '.' ∉ ext.toList) : d'.list name ext = d.list name ext := by
  have hname := h [name]
  have hfiles (steps : List String) :
      d'.FileBelow name ext steps ↔ d.FileBelow name ext steps := by
    simp only [FileBelow, h.find?_eq_file_iff]
  cases hfound : d.find? [name] with
  | none =>
    have hfound' : d'.find? [name] = none := by simpa [hfound] using hname
    rw [list, list, ← find?_singleton, ← find?_singleton, hfound, hfound']
  | some e =>
    obtain ⟨e', hfound', hglimpse⟩ : ∃ e', d'.find? [name] = some e' ∧ e'.glimpse = e.glimpse := by
      simpa [hfound, Option.map_eq_some_iff] using hname
    cases e with
    | file text =>
      cases e' with
      | file text' =>
        rw [list, list, ← find?_singleton, ← find?_singleton, hfound, hfound']
      | directory entries' => cases hglimpse
    | directory entries =>
      cases e' with
      | file text' => cases hglimpse
      | directory entries' =>
        obtain ⟨paths, hlist, hordered, hmem⟩ := list_eq_ok hd hdot hfound
        obtain ⟨paths', hlist', hordered', hmem'⟩ := list_eq_ok hd' hdot hfound'
        have hsame : paths' = paths := hordered'.ext hordered fun p => by
          simp only [hmem', hmem, hfiles]
        rw [hlist, hlist', hsame]

end

/-! ## Reading -/

theorem resolve_file {root : Entry} {here rest : List String} {text : String} (hne : rest ≠ [])
    (hnames : ∀ s ∈ rest, Path.IsName s) (hfile : root.find? (here ++ rest) = some (file text)) :
    root.resolve here rest = .ok (file text) := by
  induction rest generalizing here with
  | nil => exact absurd rfl hne
  | cons step rest ih =>
    rw [List.forall_mem_cons] at hnames
    obtain ⟨hstep, hnames⟩ := hnames
    have hplain : ¬(step = "" ∨ step = ".") := not_or.mpr ⟨hstep.nonempty, hstep.here⟩
    rw [resolve_cons, if_neg hplain, if_neg hstep.above]
    rw [List.append_cons] at hfile
    obtain ⟨next, hnext, hrest⟩ :=
      Option.bind_eq_some_iff.mp ((find?_append root (here ++ [step]) rest).symm.trans hfile)
    rw [hnext]
    cases rest with
    | nil =>
      obtain rfl := Option.some.inj hrest
      rfl
    | cons after rest =>
      cases next with
      | file text' => cases hrest
      | directory entries => exact ih (List.cons_ne_nil _ _) hnames hfile

theorem FileBelow.locate {name ext : String} (h : d.FileBelow name ext steps)
    (hd : d.WellNamed) : ∃ text, d.find? steps = some (file text) ∧
      d.locate (Path.ofSteps steps) = .ok (file text) := by
  obtain ⟨above, stem, text, -, rfl, hfile⟩ := h
  have hnames := (hd.find? hfile).2
  have hne : name :: above ++ [stem ++ "." ++ ext] ≠ [] := List.cons_ne_nil _ _
  refine ⟨text, hfile, ?_⟩
  rw [Entry.locate, Path.isAbsolute_ofSteps hne hnames, Path.pieces_ofSteps hne hnames,
    Path.map_ofList_map_toList]
  exact resolve_file hne hnames hfile

end Entry
end Reify
