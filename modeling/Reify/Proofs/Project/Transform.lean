/-
Transforming a project, source by source.

The sources are transformed in the order of their paths and each as if it were transformed
alone, up to the first that cannot be, whose failure is the failure of all.  In which order
the entries of a directory come makes no difference to any of it.
-/
import Reify.Project
import Reify.Proofs.Project.Listing

namespace Reify

/-! ## One after the other -/

section Sequence

variable {α β ε : Type} {f : α → Except ε β} {a : α} {as : List α}

theorem mapM_cons_of_error {e : ε} (h : f a = .error e) : (a :: as).mapM f = .error e := by
  rw [List.mapM_cons, h]
  rfl

theorem mapM_cons_of_ok {b : β} (h : f a = .ok b) :
    (a :: as).mapM f = (as.mapM f).map (b :: ·) := by
  rw [List.mapM_cons, h]
  cases hrest : as.mapM f <;> rfl

theorem mapM_eq_ok_iff {bs : List β} :
    as.mapM f = .ok bs ↔ List.Forall₂ (fun a b => f a = .ok b) as bs := by
  induction as generalizing bs with
  | nil =>
    cases bs with
    | nil => exact ⟨fun _ => .nil, fun _ => rfl⟩
    | cons b bs => exact ⟨nofun, nofun⟩
  | cons a as ih =>
    cases ha : f a with
    | error e =>
      rw [mapM_cons_of_error ha]
      constructor
      · nofun
      · rintro (- | ⟨hb, -⟩)
        cases ha.symm.trans hb
    | ok b =>
      rw [mapM_cons_of_ok ha]
      constructor
      · intro h
        cases hrest : as.mapM f with
        | error e =>
          rw [hrest] at h
          cases h
        | ok cs =>
          rw [hrest] at h
          obtain rfl := Except.ok.inj h
          exact .cons ha (ih.mp hrest)
      · rintro (- | ⟨hb, hrest⟩)
        obtain rfl := Except.ok.inj (ha.symm.trans hb)
        rw [ih.mpr hrest]
        rfl

theorem exists_of_forall₂ {R : α → β → Prop} {bs : List β} (h : List.Forall₂ R as bs) :
    ∀ a ∈ as, ∃ b, R a b := by
  induction h with
  | nil => exact List.forall_mem_nil _
  | cons hab _ ih => exact List.forall_mem_cons.mpr ⟨⟨_, hab⟩, ih⟩

theorem mapM_eq_error_iff {e : ε} :
    as.mapM f = .error e ↔ ∃ before a after, as = before ++ a :: after ∧
      (∀ x ∈ before, ∃ b, f x = .ok b) ∧ f a = .error e := by
  induction as with
  | nil =>
    constructor
    · nofun
    · rintro ⟨before, a, after, h, -⟩
      cases before <;> cases h
  | cons a as ih =>
    cases ha : f a with
    | error e' =>
      rw [mapM_cons_of_error ha]
      constructor
      · intro h
        obtain rfl := Except.error.inj h
        exact ⟨[], a, as, rfl, List.forall_mem_nil _, ha⟩
      · rintro ⟨before, a', after, h, hbefore, ha'⟩
        cases before with
        | nil =>
          obtain ⟨rfl, -⟩ := List.cons.inj h
          exact congrArg _ (Except.error.inj (ha.symm.trans ha'))
        | cons first before =>
          obtain ⟨rfl, -⟩ := List.cons.inj h
          obtain ⟨b, hb⟩ := hbefore a List.mem_cons_self
          cases ha.symm.trans hb
    | ok b =>
      have hmap : (as.mapM f).map (b :: ·) = .error e ↔ as.mapM f = .error e := by
        cases as.mapM f with
        | error e' => exact ⟨fun h => congrArg _ (Except.error.inj h),
            fun h => congrArg _ (Except.error.inj h)⟩
        | ok bs => exact ⟨nofun, nofun⟩
      rw [mapM_cons_of_ok ha, hmap, ih]
      constructor
      · rintro ⟨before, a', after, rfl, hbefore, ha'⟩
        exact ⟨a :: before, a', after, rfl, List.forall_mem_cons.mpr ⟨⟨b, ha⟩, hbefore⟩, ha'⟩
      · rintro ⟨before, a', after, h, hbefore, ha'⟩
        cases before with
        | nil =>
          obtain ⟨rfl, -⟩ := List.cons.inj h
          cases ha.symm.trans ha'
        | cons first before =>
          obtain ⟨-, rfl⟩ := List.cons.inj h
          exact ⟨before, a', after, rfl, (List.forall_mem_cons.mp hbefore).2, ha'⟩

end Sequence

/-- What is said of a stop when all sources are transformed: the source, unless it could not
even be read. -/
def Stop.doing (path : Path) : Stop → List String
  | .badSource _ => ["Failed to transform " ++ path.text]
  | _ => []

theorem Transformer.transformRead_doing (f : Transformer) (grammar : Grammar) (path : Path)
    (text : Except ReadError String) :
    f.transformRead grammar path text [] ["Failed to transform " ++ path.text] =
      (f.transformRead grammar path text [] []).mapError
        fun halt => ⟨halt.stop.doing path, halt.stop⟩ := by
  cases text with
  | error cause => rfl
  | ok source =>
    show Halt.during _ _ = (Halt.during _ _).mapError _
    cases f.transform grammar path source <;> rfl

namespace Project

variable {p : Project} {grammar : Grammar} {f : Transformer} {paths : List Path}

/-! ## All sources -/

/-- The transform of one source among all: its output with its path, or its failure. -/
def transformOne (p : Project) (grammar : Grammar) (path : Path) :
    Except Halt (Path × TransformOutput) :=
  match p.transform grammar path with
  | .ok out => .ok (path, out)
  | .error halt => .error ⟨halt.stop.doing path, halt.stop⟩

theorem transformAll_eq (hconfig : p.transformer = .ok f) (hsources : p.sources = .ok paths) :
    p.transformAll grammar = paths.mapM (p.transformOne grammar) := by
  have hone (path : Path) : p.transform grammar path =
      f.transformRead grammar path (p.directory.read p.root path) [] [] := by
    rw [transform, hconfig]
    rfl
  have hall : p.transformAll grammar = paths.mapM fun path => do
      return (path, ← f.transformRead grammar path (p.directory.read p.root path) []
        ["Failed to transform " ++ path.text]) := by
    rw [transformAll, hconfig, hsources]
    rfl
  rw [hall]
  congr 1
  funext path
  rw [transformOne, hone, f.transformRead_doing]
  cases f.transformRead grammar path (p.directory.read p.root path) [] [] <;> rfl

theorem transformOne_eq_ok_iff {path : Path} {out : Path × TransformOutput} :
    p.transformOne grammar path = .ok out ↔
      out.1 = path ∧ p.transform grammar path = .ok out.2 := by
  obtain ⟨path', out⟩ := out
  rw [transformOne]
  cases p.transform grammar path with
  | ok out' => simp [eq_comm]
  | error halt => simp

theorem transformOne_eq_error_iff {path : Path} {halt : Halt} :
    p.transformOne grammar path = .error halt ↔
      ∃ cause, p.transform grammar path = .error cause ∧
        halt = ⟨cause.stop.doing path, cause.stop⟩ := by
  rw [transformOne]
  cases p.transform grammar path with
  | ok out => simp
  | error cause => simp [eq_comm]

/-- The failure of all is the failure of the first source that cannot be transformed. -/
theorem transformAll_eq_error_iff (hconfig : p.transformer = .ok f)
    (hsources : p.sources = .ok paths) {halt : Halt} :
    p.transformAll grammar = .error halt ↔ ∃ before path after cause,
      paths = before ++ path :: after ∧
        (∀ q ∈ before, ∃ out, p.transform grammar q = .ok out) ∧
        p.transform grammar path = .error cause ∧
        halt = ⟨cause.stop.doing path, cause.stop⟩ := by
  have hbefore (q : Path) : (∃ out, p.transformOne grammar q = .ok out) ↔
      ∃ out, p.transform grammar q = .ok out := by
    simp only [transformOne_eq_ok_iff, Prod.exists, exists_and_left, exists_eq_left]
  rw [transformAll_eq hconfig hsources, mapM_eq_error_iff]
  simp only [hbefore, transformOne_eq_error_iff, exists_and_left]

theorem exists_transformAll_eq_error_iff (hconfig : p.transformer = .ok f)
    (hsources : p.sources = .ok paths) :
    (∃ halt, p.transformAll grammar = .error halt) ↔
      ∃ path ∈ paths, ∃ cause, p.transform grammar path = .error cause := by
  constructor
  · rintro ⟨halt, h⟩
    obtain ⟨before, path, after, cause, rfl, -, hcause, -⟩ :=
      (transformAll_eq_error_iff hconfig hsources).mp h
    exact ⟨path, by simp, cause, hcause⟩
  · rintro ⟨path, hpath, cause, hcause⟩
    cases hall : p.transformAll grammar with
    | error halt => exact ⟨halt, rfl⟩
    | ok outs =>
      rw [transformAll_eq hconfig hsources, mapM_eq_ok_iff] at hall
      obtain ⟨out, hout⟩ := exists_of_forall₂ hall path hpath
      cases hcause.symm.trans (transformOne_eq_ok_iff.mp hout).2

/-! ## The order of entries -/

section

variable {d' : Entry} (h : p.directory.LooksAlike d')

include h

theorem transform_of_looksAlike (path : Path) :
    ({ p with directory := d' } : Project).transform grammar path = p.transform grammar path := by
  show (do (← p.transformer).transformRead grammar path (d'.read p.root path) [] []) = _
  rw [h.read_eq]
  rfl

theorem load_of_looksAlike (root : Path) :
    load root d' = (load root p.directory).map fun q => { q with directory := d' } := by
  have htypes : loadTypes root d' = loadTypes root p.directory := by
    rw [loadTypes, loadTypes, h.read_eq]
  have hconfig : loadConfig root d' = loadConfig root p.directory := by
    rw [loadConfig, loadConfig, h.read_eq]
  rw [load, load, htypes, hconfig]
  cases Halt.during ["Failed to load types for " ++ root.text] (loadTypes root p.directory) with
  | error halt => rfl
  | ok types =>
    cases Halt.during ["Failed to parse transform config: " ++ (root.join configFile).text]
      (loadConfig root p.directory) <;> rfl

end

/-- Of a project whose `src` is a directory and whose configuration is valid, the sources are the
files below `src` with the extension `ts`, each once and in the order of their paths, byte by
byte and step by step.  All of them are transformed in that order, each as it is transformed
alone, or none if one of them fails, and then the first to fail says why.  In which order
directories have their entries makes no difference. -/
theorem transforms_sources_in_order (p : Project) (grammar : Grammar)
    (hnamed : p.directory.WellNamed) {entries : List (String × Entry)}
    (hreadable : p.directory.find? ["src"] = some (.directory entries)) {f : Transformer}
    (hconfig : p.transformer = .ok f) :
    (∃ paths, p.sources = .ok paths ∧ Entry.Ascending paths ∧
      (∀ path, path ∈ paths ↔
        ∃ steps, p.directory.FileBelow "src" "ts" steps ∧ path = .ofSteps steps) ∧
      (∀ path ∈ paths, ∃ text, p.directory.locate path = .ok (.file text)) ∧
      (∀ outs, p.transformAll grammar = .ok outs ↔
        List.Forall₂ (fun path out => out.1 = path ∧ p.transform grammar path = .ok out.2)
          paths outs) ∧
      ((∃ halt, p.transformAll grammar = .error halt) ↔
        ∃ path ∈ paths, ∃ cause, p.transform grammar path = .error cause) ∧
      ∀ halt, p.transformAll grammar = .error halt ↔ ∃ before path after cause,
        paths = before ++ path :: after ∧
          (∀ q ∈ before, ∃ out, p.transform grammar q = .ok out) ∧
          p.transform grammar path = .error cause ∧
          halt = ⟨cause.stop.doing path, cause.stop⟩) ∧
      ∀ d', p.directory.Rearranged d' →
        load p.root d' = (load p.root p.directory).map (fun q => { q with directory := d' }) ∧
          ({ p with directory := d' } : Project).sources = p.sources ∧
          ({ p with directory := d' } : Project).transformAll grammar = p.transformAll grammar ∧
          ∀ path, ({ p with directory := d' } : Project).transform grammar path =
            p.transform grammar path := by
  have hdot : '.' ∉ "ts".toList := by decide
  obtain ⟨paths, hlist, hordered, hmem⟩ := Entry.list_eq_ok hnamed hdot hreadable
  have hsources : p.sources = .ok paths := by
    rw [sources, hlist]
    rfl
  refine ⟨⟨paths, hsources, hordered, hmem, fun path hpath => ?_, fun outs => ?_,
    exists_transformAll_eq_error_iff hconfig hsources,
    fun halt => transformAll_eq_error_iff hconfig hsources⟩, fun d' hrearranged => ?_⟩
  · obtain ⟨steps, hsteps, rfl⟩ := (hmem path).mp hpath
    obtain ⟨text, -, htext⟩ := hsteps.locate hnamed
    exact ⟨text, htext⟩
  · rw [transformAll_eq hconfig hsources, mapM_eq_ok_iff]
    simp only [transformOne_eq_ok_iff]
  · have halike := hrearranged.looksAlike hnamed
    have hsources' : ({ p with directory := d' } : Project).sources = .ok paths := by
      show Halt.during [] ((d'.list "src" "ts").mapError .unread) = .ok paths
      rw [halike.list_eq hnamed (hrearranged.wellNamed hnamed) hdot, hlist]
      rfl
    have htransform (path : Path) : ({ p with directory := d' } : Project).transform grammar path =
        p.transform grammar path := transform_of_looksAlike halike path
    refine ⟨load_of_looksAlike halike p.root, hsources'.trans hsources.symm, ?_, htransform⟩
    have hconfig' : ({ p with directory := d' } : Project).transformer = .ok f := hconfig
    rw [transformAll_eq hconfig' hsources', transformAll_eq hconfig hsources]
    congr 1
    funext path
    rw [transformOne, transformOne, htransform]

/-- A file `a.ts` beside a directory `a`, and a name between the two. -/
def crossing : List (String × Entry) :=
  [("a.ts", .file "reflect(() => 1);"), ("notes.md", .file ""), ("a-b.ts", .file "("),
    ("a", .directory [("b.ts", .file "reflect(() => 1);")])]

def holding (entries : List (String × Entry)) : Project :=
  ⟨⟨"/p"⟩, .directory [("types.toml", .file ""), ("src", .directory entries)], {}, {}⟩

def callToken (name : String) (start stop : Nat) : Concrete :=
  .node ⟨name, none, false, false, false, false, start, stop⟩ []

/-- The tree of `reflect(() => 1);`. -/
def reflectOne : Concrete :=
  .node ⟨"program", none, true, false, false, false, 0, 17⟩
    [.node ⟨"expression_statement", none, true, false, false, false, 0, 17⟩
      [.node ⟨"call_expression", none, true, false, false, false, 0, 16⟩
        [.node ⟨"identifier", some "function", true, false, false, false, 0, 7⟩ [],
          .node ⟨"arguments", some "arguments", true, false, false, false, 7, 16⟩
            [callToken "(" 7 8,
              .node ⟨"arrow_function", none, true, false, false, false, 8, 15⟩
                [.node ⟨"formal_parameters", some "parameters", true, false, false, false, 8, 10⟩
                    [callToken "(" 8 9, callToken ")" 9 10],
                  callToken "=>" 11 13,
                  .node ⟨"number", some "body", true, false, false, false, 14, 15⟩ []],
              callToken ")" 15 16]],
        callToken ";" 16 17]]

/-- The tree of `(`, which is an error. -/
def openOnly : Concrete :=
  .node ⟨"program", none, true, false, false, true, 0, 1⟩
    [.node ⟨"ERROR", none, true, false, true, true, 0, 1⟩ [callToken "(" 0 1]]

def callGrammar : Grammar := fun _ source =>
  .ok (if source = "(" then openOnly else reflectOne)

/-- The first source is reflected, the second has a syntax error, which ends the transform of
all; and nothing changes when the entries come in another order. -/
theorem crossing_in_order :
    (holding crossing).sources = .ok [⟨"src/a/b.ts"⟩, ⟨"src/a-b.ts"⟩, ⟨"src/a.ts"⟩] ∧
      (∃ out, (holding crossing).transform callGrammar ⟨"src/a/b.ts"⟩ = .ok out ∧
        out.rewrites = [⟨.reflect, ⟨8, 15⟩,
          .functionDecl [] (.blockStmt [.returnStmt (.numberLiteralExpr "1")])⟩]) ∧
      (holding crossing).transformAll callGrammar =
        .error ⟨["Failed to transform src/a-b.ts"],
          .badSource ⟨⟨"src/a-b.ts"⟩, [.unexpected "src/a-b.ts" "(" "source unit" ⟨0, 1⟩]⟩⟩ ∧
      (holding crossing.reverse).sources = (holding crossing).sources ∧
      (holding crossing.reverse).transformAll callGrammar =
        (holding crossing).transformAll callGrammar := by
  have hinner : (Entry.directory [("b.ts", .file "reflect(() => 1);")]).WellNamed :=
    .directory (by decide) (by decide) (List.forall_mem_singleton.mpr (.file _))
  have hentries : (Entry.directory crossing).WellNamed := by
    refine .directory (by decide) (by decide) ?_
    rw [crossing, List.forall_mem_cons, List.forall_mem_cons, List.forall_mem_cons,
      List.forall_mem_singleton]
    exact ⟨.file _, .file _, .file _, hinner⟩
  have hnamed : (holding crossing).directory.WellNamed :=
    .directory (by decide) (by decide)
      (List.forall_mem_cons.mpr ⟨.file _, List.forall_mem_singleton.mpr hentries⟩)
  have hrearranged : (holding crossing).directory.Rearranged (holding crossing.reverse).directory :=
    @Entry.Rearranged.inside [("types.toml", .file "")] [] _ _ _
      (.permute (List.reverse_perm crossing).symm)
  obtain ⟨⟨paths, hpaths, -, -, -, -, -, hfails⟩, hsame⟩ :=
    transforms_sources_in_order (holding crossing) callGrammar hnamed rfl rfl
  have hsources : (holding crossing).sources =
      .ok [⟨"src/a/b.ts"⟩, ⟨"src/a-b.ts"⟩, ⟨"src/a.ts"⟩] := by rfl
  obtain rfl := Except.ok.inj (hpaths.symm.trans hsources)
  obtain ⟨out, hout⟩ : ∃ out,
      (holding crossing).transform callGrammar ⟨"src/a/b.ts"⟩ = .ok out := ⟨_, rfl⟩
  obtain ⟨-, hreverse, hall, -⟩ := hsame _ hrearranged
  refine ⟨hsources, ⟨_, rfl, rfl⟩, (hfails _).mpr ?_, hreverse, hall⟩
  refine ⟨[⟨"src/a/b.ts"⟩], ⟨"src/a-b.ts"⟩, [⟨"src/a.ts"⟩], _, rfl, ?_, rfl, rfl⟩
  exact List.forall_mem_singleton.mpr ⟨out, hout⟩

end Project
end Reify
