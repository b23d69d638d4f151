import HyperSchema.Proofs.Store.Documents
import HyperSchema.Proofs.Store.Targets

/-!
# Stores without references

Scanning a document without references changes nothing in it, and the schemas in it that have an id
are parts of it. In a store of such documents a URI leads to what it names or nowhere: nothing is
followed, and nothing goes in circles.
-/

namespace HyperSchema

namespace Scan

variable {scope key : String} {v : Json} {rest : List (String × Json)}

/-- A scan that left a value as it is, and found nothing in it that refers to anything. -/
structure Untouched {α : Type} (scanned : Scanned α) (v : α) : Prop where
  value : scanned.value = v
  targets : scanned.targets = []
  named : ∀ entry ∈ scanned.named, entry.2.references = []

theorem target?_eq_none (h : Json.referencesOfMembers ((key, v) :: rest) = []) :
    target? scope key v = none := by
  rw [target?]
  split
  · next hkey =>
    cases v with
    | string s =>
        rw [Json.referencesOfMembers, if_pos hkey] at h
        cases h
    | _ => rfl
  · rfl

theorem references_cons_eq_nil (h : Json.referencesOfMembers ((key, v) :: rest) = []) :
    v.references = [] ∧ Json.referencesOfMembers rest = [] := by
  have hsubset := Schema.referencesOfMembers_cons_subset (key, v) rest
  rw [h] at hsubset
  exact List.append_eq_nil_iff.1 (List.subset_nil.1 hsubset)

mutual

theorem untouched_value (root : Bool) (scope : String) :
    ∀ v : Json, v.references = [] → Untouched (value root scope v) v
  | .null, _ => ⟨rfl, rfl, fun _ hmem => absurd hmem List.not_mem_nil⟩
  | .bool _, _ => ⟨rfl, rfl, fun _ hmem => absurd hmem List.not_mem_nil⟩
  | .number _, _ => ⟨rfl, rfl, fun _ hmem => absurd hmem List.not_mem_nil⟩
  | .string _, _ => ⟨rfl, rfl, fun _ hmem => absurd hmem List.not_mem_nil⟩
  | .array items, h => by
      rw [Json.references] at h
      have hinner := untouched_list scope items h
      rw [value]
      exact ⟨congrArg Json.array hinner.value, hinner.targets, hinner.named⟩
  | .object ms, h => by
      have hinner := untouched_members (scopeOf scope ms) ms (by rwa [Json.references] at h)
      rw [value]
      refine ⟨congrArg Json.object hinner.value, hinner.targets, fun entry hmem => ?_⟩
      rcases List.mem_append.1 hmem with hmem | hmem
      · exact hinner.named entry hmem
      · rw [naming, hinner.value] at hmem
        split at hmem
        · cases hmem
        · split at hmem
          · obtain rfl := List.mem_singleton.1 hmem
            exact h
          · cases hmem

theorem untouched_list (scope : String) :
    ∀ items : List Json, Json.referencesOfItems items = [] → Untouched (list scope items) items
  | [], _ => ⟨rfl, rfl, fun _ hmem => absurd hmem List.not_mem_nil⟩
  | v :: rest, h => by
      rw [Json.referencesOfItems] at h
      obtain ⟨hfirst, hmore⟩ := List.append_eq_nil_iff.1 h
      have first := untouched_value false scope v hfirst
      have more := untouched_list scope rest hmore
      rw [list]
      refine ⟨?_, ?_, ?_⟩
      · dsimp only
        rw [first.value, more.value]
      · dsimp only
        rw [first.targets, more.targets]
        rfl
      · exact List.forall_mem_append.2 ⟨first.named, more.named⟩

theorem untouched_members (scope : String) :
    ∀ ms : List (String × Json), Json.referencesOfMembers ms = [] → Untouched (members scope ms) ms
  | [], _ => ⟨rfl, rfl, fun _ hmem => absurd hmem List.not_mem_nil⟩
  | (key, v) :: rest, h => by
      obtain ⟨hfirst, hmore⟩ := references_cons_eq_nil h
      have more := untouched_members scope rest hmore
      have first : Untouched (if isData key then ⟨v, [], []⟩ else value false scope v) v := by
        split
        · exact ⟨rfl, rfl, fun _ hmem => absurd hmem List.not_mem_nil⟩
        · exact untouched_value false scope v hfirst
      rw [members, target?_eq_none h]
      refine ⟨?_, ?_, ?_⟩
      · dsimp only
        rw [first.value, more.value]
      · dsimp only
        rw [first.targets, more.targets]
        rfl
      · exact List.forall_mem_append.2 ⟨first.named, more.named⟩

end

end Scan

namespace Store

variable {s : Store} {uri : String} {v w document : Json}

/-! ### Nothing is followed -/

theorem reference?_eq_none (h : v.references = []) : v.reference? = none := by
  cases href : v.reference? with
  | none => rfl
  | some target =>
      have hmem := Json.mem_references_of_reference? href
      rw [h] at hmem
      cases hmem

theorem walk_of_no_references {bound : Nat} {tokens visited : List String}
    (hv : v.references = []) :
    s.walk (bound + 1) uri v tokens visited = some .nodeAbsent
      ∨ ∃ w, s.walk (bound + 1) uri v tokens visited = some (.found uri w) := by
  rw [walk]
  cases hadvance : advance? v tokens with
  | none => exact .inl rfl
  | some next =>
      obtain ⟨w, rest⟩ := next
      have hw : w.references = [] :=
        List.subset_nil.1 (hv ▸ references_subset_of_advance? hadvance)
      dsimp only
      rw [reference?_eq_none hw]
      exact .inr ⟨w, rfl⟩

/-- Without references a URI leads to what it names, or nowhere. -/
theorem resolution_of_no_references (h : s.references = []) (uri : String) :
    (∃ w, s.resolution uri = .found uri w) ∨ (∃ base, s.resolution uri = .documentAbsent base)
      ∨ s.resolution uri = .nodeAbsent := by
  rw [resolution]
  cases hentrance : s.entrance? uri with
  | none => exact .inr (.inl ⟨_, rfl⟩)
  | some next =>
      obtain ⟨v, tokens⟩ := next
      have hv : v.references = [] :=
        List.subset_nil.1 (h ▸ references_subset_of_entrance? hentrance)
      dsimp only
      rcases s.walk_of_no_references hv with hwalk | ⟨w, hwalk⟩
      · rw [hwalk]
        exact .inr (.inr rfl)
      · rw [hwalk]
        exact .inl ⟨w, rfl⟩

theorem resolution_of_find? (hfind : s.find? uri = some v) (hv : v.references = []) :
    s.resolution uri = .found uri v := by
  rw [resolution, entrance?, hfind]
  dsimp only
  rw [walk, advance?]
  dsimp only
  rw [reference?_eq_none hv]
  rfl

/-! ### Adding a document -/

theorem references_add (uri : String) (hs : s.references = [])
    (hdocument : document.references = []) : (s.add uri document).references = [] := by
  have huntouched := Scan.untouched_value true (SchemaUri.normalize uri) document hdocument
  rw [add, (sameDocuments_noteTargets _ _).references]
  refine references_addNamed (references_put hs ?_) huntouched.named
  rw [Json.scan, huntouched.value]
  exact hdocument

theorem find?_add_of_no_references (s : Store) (uri : String) (h : document.references = []) :
    (s.add uri document).find? (SchemaUri.normalize uri) = some document := by
  rw [find?_add_self, Json.scan, (Scan.untouched_value true _ document h).value]

end Store

end HyperSchema
