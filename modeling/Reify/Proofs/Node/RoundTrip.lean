/-
Documents of nodes are read back as the nodes.

`Document.Relaxed d e` says that `e` is `d` with null members left out of records and unknown
ones added, at any depth.  A field of a node then reads as its value, whether it is relaxed or
left out (`Value.readAt_of_relaxed`, `Value.readAt_of_left_out`), and fields that read as the
values of a node make the node (`ofFields_eq_some`).  So reading gives the node back, by
induction on the nodes (`readsBack`).
-/
import Mathlib.Data.List.Forall2
import Mathlib.Data.List.Nodup
import Reify.Proofs.Node.Value

namespace Reify
namespace Document

/-- Members of records are left out if they are null, and others are added, at any depth.  What
a record holds under a key stays there, relaxed itself; under a key that the record does not
have, anything may stand. -/
inductive Relaxed : Document → Document → Prop
  | same (d : Document) : Relaxed d d
  | list {ds es} (items : List.Forall₂ Relaxed ds es) : Relaxed (.list ds) (.list es)
  | record {ds es}
      (kept : ∀ key d e, ds.lookup key = some d → es.lookup key = some e → Relaxed d e)
      (leftOut : ∀ key d, ds.lookup key = some d → es.lookup key = none → d = .null) :
    Relaxed (.record ds) (.record es)

/-- A member is found under its key, relaxed, or it was null and is left out. -/
structure MembersRelaxed (ds es : List (String × Document)) : Prop where
  kept : ∀ key d e, ds.lookup key = some d → es.lookup key = some e → Relaxed d e
  leftOut : ∀ key d, ds.lookup key = some d → es.lookup key = none → d = .null

theorem relaxed_record {ds : List (String × Document)} {e : Document}
    (h : Relaxed (.record ds) e) : ∃ es, e = .record es ∧ MembersRelaxed ds es := by
  cases h with
  | same =>
    refine ⟨ds, rfl, ?_, ?_⟩
    · intro key d e hd he
      obtain rfl := Option.some.inj (hd.symm.trans he)
      exact .same d
    · intro key d hd hnone
      rw [hd] at hnone
      cases hnone
  | record kept leftOut => exact ⟨_, rfl, kept, leftOut⟩

theorem relaxed_of_forall {ds es : List (String × Document)}
    (kept : ∀ m ∈ ds, ∀ e, es.lookup m.1 = some e → Relaxed m.2 e)
    (leftOut : ∀ m ∈ ds, es.lookup m.1 = none → m.2 = .null) :
    Relaxed (.record ds) (.record es) := by
  have mem {key : String} {d : Document} (h : ds.lookup key = some d) : (key, d) ∈ ds := by
    obtain ⟨before, after, rfl, -⟩ := List.lookup_eq_some_iff.mp h
    exact List.mem_append_right before List.mem_cons_self
  exact .record (fun key d e hd he => kept (key, d) (mem hd) e he)
    fun key d hd he => leftOut (key, d) (mem hd) he

theorem relaxed_list {ds : List Document} {e : Document} (h : Relaxed (.list ds) e) :
    ∃ es, e = .list es ∧ List.Forall₂ Relaxed ds es := by
  cases h with
  | same => exact ⟨ds, rfl, List.forall₂_same.mpr fun d _ => .same d⟩
  | list items => exact ⟨_, rfl, items⟩

theorem relaxed_text {s : String} {e : Document} (h : Relaxed (.text s) e) : e = .text s := by
  cases h
  rfl

theorem lookup_zip {keys : List String} {ds : List Document} (hnodup : keys.Nodup) {key : String}
    {d : Document} (h : (key, d) ∈ keys.zip ds) : (keys.zip ds).lookup key = some d := by
  induction keys generalizing ds with
  | nil => cases h
  | cons k keys ih =>
    cases ds with
    | nil => cases h
    | cons d' ds =>
      rw [List.nodup_cons] at hnodup
      rw [List.zip_cons_cons, List.lookup_cons]
      rcases List.mem_cons.mp h with heq | htail
      · obtain ⟨rfl, rfl⟩ := Prod.mk.inj heq
        rw [beq_self_eq_true]
      · have hne : key ≠ k := by
          rintro rfl
          exact hnodup.1 (List.of_mem_zip htail).1
        rw [beq_false_of_ne hne]
        exact ih hnodup.2 htail

end Document

open Document

namespace Node

/-! ## Members of a node's document -/

def members (n : Node) : List (String × Document) :=
  ("kind", .text n.kind.name) :: n.kind.fields.zip (n.values.map Value.toDocument)

theorem toDocument_eq_members (n : Node) : n.toDocument = .record n.members := toDocument_eq n

theorem nodup_fields (k : NodeKind) : ("kind" :: k.fields).Nodup := by
  cases k <;> decide

theorem lookup_members {n : Node} {key : String} {v : Value}
    (h : (key, v) ∈ n.kind.fields.zip n.values) :
    n.members.lookup key = some v.toDocument := by
  have hnodup := List.nodup_cons.mp (nodup_fields n.kind)
  have hmem : (key, v.toDocument) ∈ n.kind.fields.zip (n.values.map Value.toDocument) := by
    rw [List.zip_map_right]
    exact List.mem_map.mpr ⟨(key, v), h, rfl⟩
  have hne : key ≠ "kind" := by
    rintro rfl
    exact hnodup.1 (List.of_mem_zip h).1
  rw [members, List.lookup_cons, beq_false_of_ne hne]
  exact lookup_zip hnodup.2 hmem

/-! ## Fields -/

def Value.ReadAt (fs : Fields) (key : String) : Value → Prop
  | node n => fs.nodeAt key = some n
  | nodes ns => fs.nodesAt key = some ns
  | optionalNode n? => fs.optionalAt key (·.node) = some n?
  | text s => fs.textAt key = some s
  | optionalText s? => fs.optionalAt key (·.text) = some s?
  | parts ps => (fs.lookup key).bind (·.parts) = some ps
  | flag b => (fs.lookup key).bind (·.flag) = some b
  | string raw => fs.textAt key = some raw
  | number raw => fs.textAt key = some raw
  | thunk expr => fs.textAt key = some expr
  | error e => (fs.lookup key).bind (·.error) = some e

theorem ofFields_eq_some {n : Node} {fs : Fields}
    (h : List.Forall₂ (Value.ReadAt fs) n.kind.fields n.values) :
    ofFields n.kind fs = some n := by
  cases n <;>
    simp only [kind, values, NodeKind.fields, List.forall₂_cons, List.forall₂_nil_left_iff,
      and_true, Value.ReadAt] at h
  all_goals simp only [kind, ofFields, h, Option.bind_eq_bind, Option.bind_some]

/-- However its document is relaxed, a node is read back, if the tag of a name is its kind. -/
def ReadsBack (n : Node) : Prop :=
  ∀ e, Relaxed n.toDocument e → ∃ es, e = .record es ∧
    ∀ tag : Reading → Option NodeKind, (∀ name, tag { text := some name } = NodeKind.ofName? name) →
      nodeOfRecord tag (Reading.ofMembers es) = some n

/-- A node inside another is read back as a node, and as nothing else. -/
theorem ReadsBack.reading {n : Node} (h : n.ReadsBack) {e : Document}
    (he : Relaxed n.toDocument e) :
    (Reading.ofDocument e).node = some n ∧ (Reading.ofDocument e).text = none ∧
      (Reading.ofDocument e).isNull = false := by
  obtain ⟨es, rfl, hread⟩ := h e he
  exact ⟨hread Reading.tag fun _ => rfl, rfl, rfl⟩

/-! ## Values -/

theorem mapM_ofItems_eq_some {α : Type} {f : α → Document} {get : Reading → Option α}
    {xs : List α} {es : List Document} (h : List.Forall₂ Relaxed (xs.map f) es)
    (hread : ∀ x ∈ xs, ∀ e, Relaxed (f x) e → get (Reading.ofDocument e) = some x) :
    (Reading.ofItems es).mapM get = some xs := by
  induction xs generalizing es with
  | nil =>
    cases h
    rfl
  | cons x xs ih =>
    rw [List.forall_mem_cons] at hread
    rcases h with _ | ⟨hhead, htail⟩
    rw [Reading.ofItems, List.mapM_cons, hread.1 _ hhead, ih htail hread.2]
    rfl

def partToDocument : TemplatePart → Document
  | .literal s => .text s
  | .expr n => n.toDocument

theorem partsToDocuments_eq (ps : List TemplatePart) :
    partsToDocuments ps = ps.map partToDocument := by
  induction ps with
  | nil => rfl
  | cons p ps ih => cases p <;> rw [partsToDocuments, ih, List.map_cons] <;> rfl

theorem part_ofDocument {p : TemplatePart} {e : Document}
    (hp : ∀ n, p.node? = some n → n.ReadsBack) (he : Relaxed (partToDocument p) e) :
    (Reading.ofDocument e).part = some p := by
  cases p with
  | literal s =>
    rw [relaxed_text he]
    rfl
  | expr n =>
    obtain ⟨hnode, htext, -⟩ := (hp n rfl).reading he
    rw [Reading.part, htext, hnode]
    rfl

theorem error_ofDocument {error : ErrorValue} {e : Document}
    (he : Relaxed (errorDocument error) e) : (Reading.ofDocument e).error = some error := by
  obtain ⟨es, rfl, hmembers⟩ := relaxed_record he
  have hfield (key value : String) (hkey : List.lookup key
      [("name", Document.text error.name), ("message", .text error.message)] = some (.text value)) :
      Fields.textAt (Reading.ofMembers es) key = some value := by
    rw [Fields.textAt, Reading.lookup_ofMembers]
    cases hlookup : es.lookup key with
    | none => cases hmembers.leftOut key _ hkey hlookup
    | some e =>
      rw [relaxed_text (hmembers.kept key _ e hkey hlookup)]
      rfl
  have hname := hfield "name" error.name rfl
  have hmessage := hfield "message" error.message rfl
  show errorOf (Reading.ofMembers es) = some error
  rw [errorOf, hname, hmessage]
  rfl

theorem toDocument_ne_null (n : Node) : n.toDocument ≠ .null := by
  rw [toDocument_eq_members]
  nofun

theorem Value.readAt_of_relaxed {fs : Fields} {key : String} {v : Value} {e : Document}
    (hlookup : fs.lookup key = some (Reading.ofDocument e)) (he : Relaxed v.toDocument e)
    (hchildren : ∀ c ∈ v.children, c.ReadsBack) : v.ReadAt fs key := by
  cases v with
  | node n =>
    obtain ⟨hnode, -, -⟩ := (hchildren n List.mem_cons_self).reading he
    rw [ReadAt, Fields.nodeAt, hlookup, Option.bind_some, hnode]
  | nodes ns =>
    rw [toDocument, toDocuments_eq] at he
    obtain ⟨es, rfl, hitems⟩ := relaxed_list he
    rw [ReadAt, Fields.nodesAt, hlookup, Option.bind_some]
    exact mapM_ofItems_eq_some hitems fun n hn e he => ((hchildren n hn).reading he).1
  | optionalNode n? =>
    rw [ReadAt, Fields.optionalAt, hlookup]
    cases n? with
    | none =>
      cases he
      rfl
    | some n =>
      obtain ⟨hnode, -, hnull⟩ := (hchildren n List.mem_cons_self).reading he
      simp only [hnull, hnode]
      rfl
  | optionalText s? =>
    rw [ReadAt, Fields.optionalAt, hlookup]
    cases s? with
    | none =>
      cases he
      rfl
    | some s =>
      rw [relaxed_text he]
      rfl
  | parts ps =>
    rw [toDocument, partsToDocuments_eq] at he
    obtain ⟨es, rfl, hitems⟩ := relaxed_list he
    rw [ReadAt, hlookup, Option.bind_some]
    have hparts : ∀ p ∈ ps, ∀ n, p.node? = some n → n.ReadsBack := fun p hp n hn =>
      hchildren n (List.mem_filterMap.mpr ⟨p, hp, hn⟩)
    exact mapM_ofItems_eq_some hitems fun p hp e he => part_ofDocument (hparts p hp) he
  | error error =>
    rw [ReadAt, hlookup, Option.bind_some]
    exact error_ofDocument he
  | flag b =>
    cases he
    rw [ReadAt, hlookup]
    rfl
  | text s | string s | number s | thunk s =>
    cases he
    rw [ReadAt, Fields.textAt, hlookup]
    rfl

theorem Value.readAt_of_left_out {fs : Fields} {key : String} {v : Value}
    (hlookup : fs.lookup key = none) (hnull : v.toDocument = .null) : v.ReadAt fs key := by
  cases v with
  | optionalNode n? =>
    cases n? with
    | none => rw [ReadAt, Fields.optionalAt, hlookup]
    | some n => exact absurd hnull n.toDocument_ne_null
  | optionalText s? =>
    cases s? with
    | none => rw [ReadAt, Fields.optionalAt, hlookup]
    | some s => cases hnull
  | node n => exact absurd hnull n.toDocument_ne_null
  | _ => cases hnull

/-! ## Nodes -/

theorem length_fields (n : Node) : n.kind.fields.length = n.values.length := by
  cases n <;> rfl

theorem readsBack (n : Node) : n.ReadsBack := by
  induction n using induct with
  | node n ih =>
    intro e he
    rw [toDocument_eq_members] at he
    obtain ⟨es, rfl, hmembers⟩ := relaxed_record he
    refine ⟨es, rfl, fun tag htag => ?_⟩
    have hkind : (Reading.ofMembers es).lookup "kind" = some { text := some n.kind.name } := by
      rw [Reading.lookup_ofMembers]
      cases hlookup : es.lookup "kind" with
      | none => cases hmembers.leftOut "kind" _ rfl hlookup
      | some e =>
        rw [relaxed_text (hmembers.kept "kind" _ e rfl hlookup)]
        rfl
    have hfields : List.Forall₂ (Value.ReadAt (Reading.ofMembers es)) n.kind.fields n.values := by
      refine List.forall₂_iff_zip.mpr ⟨n.length_fields, fun {key v} hzip => ?_⟩
      have hv : v ∈ n.values := (List.of_mem_zip hzip).2
      have hmember := lookup_members hzip
      have hfound := Reading.lookup_ofMembers key es
      cases hlookup : es.lookup key with
      | none =>
        rw [hlookup] at hfound
        exact Value.readAt_of_left_out hfound (hmembers.leftOut key _ hmember hlookup)
      | some e =>
        rw [hlookup] at hfound
        exact Value.readAt_of_relaxed hfound (hmembers.kept key _ e hmember hlookup)
          fun c hc => ih c (mem_children hv hc)
    rw [nodeOfRecord, hkind, Option.bind_some, htag, NodeKind.ofName?_name]
    exact ofFields_eq_some hfields

/-- A node is read back from its document, also if the document is relaxed; so what is read
from any document is read again from its own. -/
theorem ofDocument?_roundTrip (n : Node) :
    ofDocument? n.toDocument = some n ∧
      (∀ e, Relaxed n.toDocument e → ofDocument? e = some n) ∧
      ∀ d, ofDocument? d = some n → ofDocument? n.toDocument = some n := by
  have hrelaxed : ∀ e, Relaxed n.toDocument e → ofDocument? e = some n := by
    intro e he
    obtain ⟨es, rfl, hread⟩ := n.readsBack e he
    exact hread nameTag fun _ => rfl
  have hsame := hrelaxed n.toDocument (.same n.toDocument)
  exact ⟨hsame, hrelaxed, fun _ _ => hsame⟩

/-- A statement without a finalizer and a handler without a variable, both left out, each with
a member that is passed over. -/
theorem tryStmt_roundTrip :
    ofDocument? (.record [("kind", .text "TryStmt"), ("span", .list [.number 0, .number 1]),
        ("tryBlock", (blockStmt []).toDocument),
        ("catchClause", .record [("kind", .text "CatchClause"), ("block", (blockStmt []).toDocument),
          ("finallyBlock", .null)])]) =
      some (.tryStmt (.blockStmt []) (some (.catchClause none (.blockStmt []))) none) := by
  refine (ofDocument?_roundTrip _).2.1 _ (relaxed_of_forall ?_ ?_)
  all_goals
    simp only [NodeKind.fields, List.zip_cons_cons, List.zip_nil_left, List.forall_mem_cons]
  · refine ⟨?_, ?_, ?_, ?_, List.forall_mem_nil _⟩
    · rintro _ ⟨⟩
      exact .same _
    · rintro _ ⟨⟩
      exact .same _
    · rintro _ ⟨⟩
      refine relaxed_of_forall ?_ ?_
      all_goals
        simp only [NodeKind.fields, List.zip_cons_cons, List.zip_nil_left, List.forall_mem_cons]
      · refine ⟨?_, nofun, ?_, List.forall_mem_nil _⟩
        · rintro _ ⟨⟩
          exact .same _
        · rintro _ ⟨⟩
          exact .same _
      · exact ⟨nofun, fun _ => rfl, nofun, List.forall_mem_nil _⟩
    · nofun
  · exact ⟨nofun, nofun, nofun, fun _ => rfl, List.forall_mem_nil _⟩

end Node
end Reify
