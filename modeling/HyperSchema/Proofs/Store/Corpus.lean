import HyperSchema.Proofs.Store.Growth

/-!
# Stores filled with documents

Documents without ids under distinct URIs without fragments are stored one behind the other. The
store finds what was put into it, in whatever order that happened, and it grows with each document.
A document is noted as missing when a reference has been read that needs it, until it comes.
-/

namespace HyperSchema

/-- Documents with the URIs they are to be stored under. -/
abbrev Corpus := List (String × Json)

namespace Corpus

variable {docs docs' : Corpus} {s s' : Store} {uri base : String} {document v : Json}

def stored (d : String × Json) : String × Json := (d.1, (d.2.scan d.1).value)

def targets (docs : Corpus) : List String := docs.flatMap (fun d => (d.2.scan d.1).targets)

/-- Documents that can be stored in any order: none of them can be taken for another. -/
structure Separate (docs : Corpus) : Prop where
  distinct : Table.Distinct docs
  plain : ∀ d ∈ docs, '#' ∉ d.1.toList
  unnamed : ∀ d ∈ docs, (d.2.scan d.1).named = []

structure Fills (docs : Corpus) (s : Store) : Prop where
  schemas : s.top.schemas = docs.map stored
  below : s.below = []

theorem keys_stored (docs : Corpus) : Table.keys (docs.map stored) = Table.keys docs := by
  rw [Table.keys, List.map_map]
  rfl

theorem Separate.of_sublist (hsub : docs.Sublist docs') (h : Separate docs') : Separate docs where
  distinct := List.Nodup.sublist (hsub.map Prod.fst) h.distinct
  plain := fun d hd => h.plain d (hsub.subset hd)
  unnamed := fun d hd => h.unnamed d (hsub.subset hd)

theorem Separate.of_append {d : String × Json} (h : Separate (docs ++ [d])) :
    Separate docs ∧ d.1 ∉ Table.keys docs := by
  refine ⟨h.of_sublist (List.sublist_append_left _ _), fun hmem => ?_⟩
  have hdistinct := h.distinct
  rw [Table.Distinct, Table.keys, List.map_append, List.nodup_append] at hdistinct
  exact hdistinct.2.2 d.1 hmem d.1 (List.mem_singleton_self _) rfl

theorem Separate.of_perm (hperm : docs.Perm docs') (h : Separate docs) : Separate docs' where
  distinct := (hperm.map Prod.fst).nodup h.distinct
  plain := fun d hd => h.plain d (hperm.mem_iff.2 hd)
  unnamed := fun d hd => h.unnamed d (hperm.mem_iff.2 hd)

theorem mem_keys_append {d : String × Json} {key : String} :
    key ∈ Table.keys (docs ++ [d]) ↔ key ∈ Table.keys docs ∨ key = d.1 := by
  rw [Table.keys, List.map_append, List.mem_append]
  exact or_congr_right List.mem_singleton

theorem mem_targets_append {d : String × Json} {target : String} :
    target ∈ targets (docs ++ [d]) ↔ target ∈ targets docs ∨ target ∈ (d.2.scan d.1).targets := by
  rw [targets, List.flatMap_append, List.mem_append, List.flatMap_singleton]
  rfl

namespace Fills

variable (h : Fills docs s)

include h

theorem find?_eq (uri : String) : s.find? uri = Table.get? (docs.map stored) uri := by
  rw [Store.find?_eq, h.below, h.schemas, List.findSome?_nil, Option.or_none]

theorem find?_eq_none_iff : s.find? uri = none ↔ uri ∉ Table.keys docs := by
  rw [h.find?_eq, Table.get?_eq_none_iff, keys_stored]

theorem contains_iff : s.contains uri = true ↔ uri ∈ Table.keys docs := by
  rw [Store.contains, Option.isSome_iff_ne_none, Ne, h.find?_eq_none_iff, not_not]

theorem find?_of_hash (hdocs : Separate docs) (hhash : '#' ∈ uri.toList) :
    s.find? uri = none := by
  rw [h.find?_eq_none_iff]
  intro hmem
  obtain ⟨d, hd, rfl⟩ := List.mem_map.1 hmem
  exact hdocs.plain d hd hhash

theorem references_eq : s.references = docs.flatMap (fun d => (stored d).2.references) := by
  rw [Store.references, Store.layers, h.below, List.flatMap_cons, List.flatMap_nil, List.append_nil,
    h.schemas, List.flatMap_map]

theorem mem_missing_iff :
    base ∈ s.missing ↔ base ∈ s.top.missing ∧ base ∉ Table.keys docs := by
  rw [Store.mem_missing_iff, Store.layers, h.below, ← Bool.not_eq_true, h.contains_iff]
  simp only [List.mem_singleton, exists_eq_left]

theorem contains_base_of_settled (hdocs : Separate docs) (hsettled : s.Settled uri) :
    s.contains (SchemaUri.base uri) = true := by
  rcases Store.contains_of_settled hsettled with hown | hbase
  · have hhash : '#' ∉ (SchemaUri.normalize uri).toList := by
      intro hhash
      rw [Store.contains, h.find?_of_hash hdocs hhash] at hown
      cases hown
    rwa [← SchemaUri.base_normalize, SchemaUri.base_of_no_hash hhash]
  · exact hbase

end Fills

theorem Fills.resolution_eq (h : Fills docs s) (h' : Fills docs' s') (hdocs : Separate docs)
    (hperm : docs.Perm docs') (uri : String) : s'.resolution uri = s.resolution uri := by
  refine Store.resolution_congr (fun u => ?_) uri
  rw [h.find?_eq, h'.find?_eq]
  refine Table.get?_eq_of_perm ?_ (hperm.map stored) u
  rw [Table.Distinct, keys_stored]
  exact hdocs.distinct

/-! ### Adding a document -/

section

variable {d : String × Json} (hdocs : Separate (docs ++ [d]))

include hdocs

theorem hash_not_mem : '#' ∉ d.1.toList :=
  hdocs.plain d (List.mem_append_right _ (List.mem_singleton_self _))

theorem add_eq (s : Store) : s.add d.1 d.2
    = (d.2.scan d.1).targets.foldl Store.noteTarget (s.put d.1 (d.2.scan d.1).value) := by
  rw [Store.add, SchemaUri.normalize_of_no_hash (hash_not_mem hdocs),
    hdocs.unnamed d (List.mem_append_right _ (List.mem_singleton_self _)), List.foldl_nil]

theorem Fills.add (h : Fills docs s) : Fills (docs ++ [d]) (s.add d.1 d.2) := by
  have hsame := Store.sameDocuments_noteTargets (s.put d.1 (d.2.scan d.1).value)
    (d.2.scan d.1).targets
  have hfresh : Table.get? (docs.map stored) d.1 = none := by
    rw [Table.get?_eq_none_iff, keys_stored]
    exact hdocs.of_append.2
  refine ⟨?_, ?_⟩
  · rw [add_eq hdocs, hsame.schemas, Store.put, h.schemas]
    dsimp only
    rw [Table.insert_of_fresh hfresh, List.map_append]
    rfl
  · rw [add_eq hdocs, hsame.below]
    exact h.below

theorem Fills.grows (h : Fills docs s) : s.Grows (s.add d.1 d.2) where
  find := by
    intro uri v hfind
    rw [h.find?_eq] at hfind
    rw [(h.add hdocs).find?_eq]
    have hdistinct : Table.Distinct ((docs ++ [d]).map stored) := by
      rw [Table.Distinct, keys_stored]
      exact hdocs.distinct
    refine Table.get?_of_mem hdistinct ?_
    rw [List.map_append]
    exact List.mem_append_left _ (Table.mem_of_get? hfind)
  plain := fun hhash => (h.add hdocs).find?_of_hash hdocs hhash
  references := by
    rw [h.references_eq, (h.add hdocs).references_eq, List.flatMap_append, List.length_append]
    exact Nat.le_add_right _ _

theorem mem_missing_add (h : Fills docs s) :
    base ∈ (s.add d.1 d.2).top.missing ↔ base ∈ s.top.missing ∧ base ≠ d.1
      ∨ base ∉ Table.keys (docs ++ [d])
        ∧ ∃ target ∈ (d.2.scan d.1).targets, base = SchemaUri.base target := by
  have hadd := h.add hdocs
  have hplain := SchemaUri.normalize_of_no_hash (hash_not_mem hdocs)
  have hcontains : ∀ uri, (s.add d.1 d.2).contains uri = false
      ↔ uri ∉ Table.keys (docs ++ [d]) := by
    intro uri
    rw [← hadd.contains_iff, Bool.not_eq_true]
  rw [Store.mem_missing_add, Store.names, hplain,
    hdocs.unnamed d (List.mem_append_right _ (List.mem_singleton_self _)), Table.keys,
    List.map_nil, List.forall_mem_singleton, SchemaUri.base_of_no_hash (hash_not_mem hdocs)]
  apply or_congr_right
  constructor
  · intro h
    obtain ⟨target, htarget, -, hbase, rfl⟩ := h
    exact ⟨(hcontains _).1 hbase, target, htarget, rfl⟩
  · intro h
    obtain ⟨hbase, target, htarget, rfl⟩ := h
    refine ⟨target, htarget, (hcontains _).2 fun hmem => ?_, (hcontains _).2 hbase, rfl⟩
    -- a target that has a document of its own is the URI of this document
    obtain ⟨e, he, rfl⟩ := List.mem_map.1 hmem
    rw [SchemaUri.base_of_no_hash (hdocs.plain e he)] at hbase
    exact hbase hmem

end

end Corpus

end HyperSchema
