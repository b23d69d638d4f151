import HyperSchema.Proofs.Store.Ids
import HyperSchema.Proofs.Table
import HyperSchema.Store.Resolution

/-!
# The documents of a store

What a store finds is decided by its tables alone; recording that something is missing touches none
of them. A document that is added is found under its own URI, whatever ids there are in it.
-/

namespace HyperSchema

namespace Store

variable {s s' : Store} {uri : String} {v document : Json}

theorem find?_eq (s : Store) (uri : String) :
    s.find? uri = (Table.get? s.top.schemas uri).or
      (s.below.findSome? (fun l => Table.get? l.schemas uri)) := by
  rw [find?, layers, List.findSome?_cons]
  cases Table.get? s.top.schemas uri <;> rfl

/-! ### Recording what is missing -/

structure SameDocuments (s s' : Store) : Prop where
  schemas : s'.top.schemas = s.top.schemas
  below : s'.below = s.below

namespace SameDocuments

protected theorem rfl : SameDocuments s s := ⟨rfl, rfl⟩

theorem trans {s'' : Store} (h : SameDocuments s s') (h' : SameDocuments s' s'') :
    SameDocuments s s'' :=
  ⟨h'.schemas.trans h.schemas, h'.below.trans h.below⟩

theorem find? (h : SameDocuments s s') (uri : String) : s'.find? uri = s.find? uri := by
  rw [find?_eq, find?_eq, h.schemas, h.below]

theorem contains (h : SameDocuments s s') (uri : String) : s'.contains uri = s.contains uri := by
  rw [Store.contains, Store.contains, h.find?]

theorem references (h : SameDocuments s s') : s'.references = s.references := by
  rw [Store.references, Store.references, layers, layers, List.flatMap_cons, List.flatMap_cons,
    h.schemas, h.below]

end SameDocuments

theorem sameDocuments_recordMissing (s : Store) (base : String) :
    SameDocuments s (s.recordMissing base) := ⟨rfl, rfl⟩

theorem sameDocuments_markMissing (s : Store) (uri : String) :
    SameDocuments s (s.markMissing uri) := by
  rw [markMissing]
  split
  · exact .rfl
  · exact s.sameDocuments_recordMissing _

theorem sameDocuments_noteTarget (s : Store) (target : String) :
    SameDocuments s (s.noteTarget target) := by
  rw [noteTarget]
  split
  · exact .rfl
  · exact s.sameDocuments_recordMissing _

theorem sameDocuments_noteTargets (s : Store) (targets : List String) :
    SameDocuments s (targets.foldl noteTarget s) := by
  induction targets generalizing s with
  | nil => exact .rfl
  | cons target rest ih =>
      exact (s.sameDocuments_noteTarget target).trans (ih (s.noteTarget target))

theorem mem_missing_noteTarget {target base : String} :
    base ∈ (s.noteTarget target).top.missing ↔ base ∈ s.top.missing
      ∨ s.contains target = false ∧ s.contains (SchemaUri.base target) = false
        ∧ base = SchemaUri.base target := by
  rw [noteTarget]
  split
  · next h =>
    refine ⟨.inl, ?_⟩
    intro h
    rcases h with hmem | ⟨htarget, hbase, -⟩
    · exact hmem
    · rw [htarget, hbase] at h
      cases h
  · next h =>
    rw [Bool.or_eq_true, not_or, Bool.not_eq_true, Bool.not_eq_true] at h
    rw [recordMissing]
    dsimp only
    rw [NameSet.mem_insert, or_comm]
    refine or_congr_right ⟨fun heq => ⟨h.1, h.2, heq⟩, fun hall => hall.2.2⟩

theorem mem_missing_noteTargets {targets : List String} {base : String} :
    base ∈ (targets.foldl noteTarget s).top.missing ↔ base ∈ s.top.missing
      ∨ ∃ target ∈ targets, s.contains target = false
        ∧ s.contains (SchemaUri.base target) = false ∧ base = SchemaUri.base target := by
  induction targets generalizing s with
  | nil => simp
  | cons target rest ih =>
      have hsame := (s.sameDocuments_noteTarget target).contains
      rw [List.foldl_cons, ih, mem_missing_noteTarget, or_assoc]
      simp only [hsame, List.mem_cons, or_and_right, exists_or, exists_eq_left]

/-- Missing is what any layer has recorded and none has. -/
theorem mem_missing_iff {base : String} :
    base ∈ s.missing ↔ (∃ l ∈ s.layers, base ∈ l.missing) ∧ s.contains base = false := by
  have hall : ∀ (layers : List Layer) (all : NameSet),
      base ∈ layers.foldl (fun all l => NameSet.insertAll all l.missing) all
        ↔ base ∈ all ∨ ∃ l ∈ layers, base ∈ l.missing := by
    intro layers
    induction layers with
    | nil => simp
    | cons l rest ih =>
        intro all
        rw [List.foldl_cons, ih, NameSet.mem_insertAll, or_assoc]
        simp only [List.mem_cons, or_and_right, exists_or, exists_eq_left]
  rw [missing, List.mem_filter, hall, Bool.not_eq_true']
  exact and_congr_left' (or_iff_right List.not_mem_nil)

/-! ### Adding a document -/

theorem find?_put (s : Store) (uri : String) (v : Json) (u : String) :
    (s.put uri v).find? u = if u = uri then some v else s.find? u := by
  rw [find?_eq, find?_eq, put, Table.get?_insert]
  split <;> rfl

theorem get?_addNamed (named : List (String × Json)) (u : String) :
    Table.get? (named.foldl addNamed s).top.schemas u
      = (Table.get? s.top.schemas u).or (Table.get? named u) := by
  induction named generalizing s with
  | nil => rw [List.foldl_nil, Table.get?_nil, Option.or_none]
  | cons entry rest ih =>
      rw [List.foldl_cons, ih, addNamed]
      dsimp only
      rw [Table.get?_insertNew, Option.or_assoc, Table.get?_cons]
      by_cases heq : u = entry.1
      · rw [if_pos heq, if_pos heq.symm, Option.some_or]
      · rw [if_neg heq, if_neg (Ne.symm heq), Option.none_or]

theorem below_addNamed (named : List (String × Json)) :
    (named.foldl addNamed s).below = s.below := by
  induction named generalizing s with
  | nil => rfl
  | cons entry rest ih => exact ih

/-- After an addition a document is found under its URI. Under other URIs the top layer has what it
had, and besides that the schemas that have these URIs as their ids. -/
theorem find?_add (s : Store) (uri : String) (document : Json) (u : String) :
    (s.add uri document).find? u
      = if u = SchemaUri.normalize uri then some (document.scan (SchemaUri.normalize uri)).value
        else ((Table.get? s.top.schemas u).or
          (Table.get? (document.scan (SchemaUri.normalize uri)).named u)).or
          (s.below.findSome? (fun l => Table.get? l.schemas u)) := by
  rw [add, (sameDocuments_noteTargets _ _).find?, find?_eq, get?_addNamed, below_addNamed, put]
  dsimp only
  rw [Table.get?_insert]
  split
  · rw [Option.some_or, Option.some_or]
  · rfl

theorem find?_add_of_no_ids (s : Store) (uri : String) (hids : document.ids = []) (u : String) :
    (s.add uri document).find? u
      = if u = SchemaUri.normalize uri then some (document.scan (SchemaUri.normalize uri)).value
        else s.find? u := by
  rw [find?_add, Json.named_scan _ hids, Table.get?_nil, Option.or_none, ← find?_eq]

theorem find?_add_self (s : Store) (uri : String) (document : Json) :
    (s.add uri document).find? (SchemaUri.normalize uri)
      = some (document.scan (SchemaUri.normalize uri)).value := by
  rw [find?_add, if_pos rfl]

theorem contains_add (uri : String) (document : Json) {u : String} (h : s.contains u = true) :
    (s.add uri document).contains u = true := by
  rw [contains, find?_eq] at h
  rw [contains, find?_add]
  split
  · rfl
  · cases htop : Table.get? s.top.schemas u with
    | some w => rfl
    | none =>
        rw [htop, Option.none_or] at h
        rw [Option.none_or, Option.isSome_or, h, Bool.or_true]

theorem below_add (s : Store) (uri : String) (document : Json) :
    (s.add uri document).below = s.below := by
  rw [add, (sameDocuments_noteTargets _ _).below, below_addNamed]
  rfl

theorem mem_missing_addNamed {named : List (String × Json)} {base : String} :
    base ∈ (named.foldl addNamed s).top.missing
      ↔ base ∈ s.top.missing ∧ ∀ name ∈ Table.keys named, base ≠ SchemaUri.base name := by
  induction named generalizing s with
  | nil => simp [Table.keys]
  | cons entry rest ih =>
      have hkeys : Table.keys (entry :: rest) = entry.1 :: Table.keys rest := rfl
      rw [List.foldl_cons, ih, addNamed, hkeys, List.forall_mem_cons]
      dsimp only
      rw [NameSet.mem_erase, and_assoc]

/-- The URIs under which an addition stores something: that of the document, and the ids in it. -/
def names (uri : String) (document : Json) : List String :=
  SchemaUri.normalize uri :: Table.keys (document.scan (SchemaUri.normalize uri)).named

/-- The URIs under which an addition puts something: that of the document, and the ids in it that
are not taken in the top layer. -/
def arrivals (s : Store) (uri : String) (document : Json) : List String :=
  SchemaUri.normalize uri
    :: (Table.keys (document.scan (SchemaUri.normalize uri)).named).filter
      (fun name => !Table.has s.top.schemas name)

theorem find?_add_of_not_mem {document : Json} {u : String} (h : u ∉ s.arrivals uri document) :
    (s.add uri document).find? u = s.find? u := by
  rw [arrivals, List.mem_cons, not_or] at h
  rw [find?_add, if_neg h.1, find?_eq]
  cases htop : Table.get? s.top.schemas u with
  | some v => rfl
  | none =>
      have hfree : Table.has s.top.schemas u = false := by rw [Table.has, htop]; rfl
      have hnamed : u ∉ Table.keys (document.scan (SchemaUri.normalize uri)).named := fun hkey =>
        h.2 (List.mem_filter.2 ⟨hkey, by rw [hfree]; rfl⟩)
      rw [Table.get?_eq_none_iff.2 hnamed, Option.or_none]

/-- An addition takes the documents of these names from the record, whether they came or not, and
then puts those on it that the references read need. -/
theorem mem_missing_add {document : Json} {base : String} :
    base ∈ (s.add uri document).top.missing
      ↔ (base ∈ s.top.missing ∧ ∀ name ∈ names uri document, base ≠ SchemaUri.base name)
        ∨ ∃ target ∈ (document.scan (SchemaUri.normalize uri)).targets,
          (s.add uri document).contains target = false
            ∧ (s.add uri document).contains (SchemaUri.base target) = false
            ∧ base = SchemaUri.base target := by
  have hsame := fun u => (sameDocuments_noteTargets
    ((document.scan (SchemaUri.normalize uri)).named.foldl addNamed
      (s.put (SchemaUri.normalize uri) (document.scan (SchemaUri.normalize uri)).value))
    (document.scan (SchemaUri.normalize uri)).targets).contains u
  rw [names, List.forall_mem_cons, ← and_assoc, add, mem_missing_noteTargets, mem_missing_addNamed]
  simp only [hsame]
  rw [put]
  dsimp only
  rw [NameSet.mem_erase]

theorem references_eq_nil_iff :
    s.references = [] ↔ ∀ l ∈ s.layers, ∀ entry ∈ l.schemas, entry.2.references = [] := by
  rw [references, List.flatMap_eq_nil_iff]
  apply forall₂_congr
  intro l _
  rw [List.flatMap_eq_nil_iff]

theorem references_addNamed {named : List (String × Json)} (hs : s.references = [])
    (hnamed : ∀ entry ∈ named, entry.2.references = []) :
    (named.foldl addNamed s).references = [] := by
  induction named generalizing s with
  | nil => exact hs
  | cons entry rest ih =>
      rw [List.forall_mem_cons] at hnamed
      refine ih ?_ hnamed.2
      rw [references_eq_nil_iff, layers, List.forall_mem_cons] at hs ⊢
      refine ⟨fun e he => ?_, hs.2⟩
      rcases Table.mem_of_mem_insertNew he with rfl | he
      · exact hnamed.1
      · exact hs.1 e he

theorem references_put (hs : s.references = []) (hv : v.references = []) :
    (s.put uri v).references = [] := by
  rw [references_eq_nil_iff, layers, List.forall_mem_cons] at hs ⊢
  refine ⟨fun e he => ?_, hs.2⟩
  rcases Table.mem_of_mem_insert he with rfl | he
  · exact hv
  · exact hs.1 e he

end Store

end HyperSchema
