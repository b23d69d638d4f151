import HyperSchema.Proofs.Store.Tidy

/-!
# The references that a document brings

Scanning makes references absolute; it neither adds one nor takes one away. The references in a
store after an addition are those that were there before and those of the scanned document, and what
an addition finds missing is a document of one of these.
-/

namespace HyperSchema

theorem Json.referencesOfMembers_append (entry : String × Json) (rest : List (String × Json)) :
    Json.referencesOfMembers (entry :: rest)
      = Json.referencesOfMembers [entry] ++ Json.referencesOfMembers rest := by
  obtain ⟨key, v⟩ := entry
  cases v with
  | string s => simp [Json.referencesOfMembers]
  | _ => simp [Json.referencesOfMembers]

namespace Scan

/-- A scan that keeps the number of references, with all that it found among them. -/
structure Counted {α : Type} (references : α → List String) (v : α) (scanned : Scanned α) :
    Prop where
  length : (references scanned.value).length = (references v).length
  targets : scanned.targets ⊆ references scanned.value
  named : ∀ entry ∈ scanned.named, entry.2.references ⊆ references scanned.value

variable {scope key : String} {v : Json}

theorem counted_data (v : Json) : Counted Json.references v ⟨v, [], []⟩ :=
  ⟨rfl, List.nil_subset _, fun _ hmem => absurd hmem List.not_mem_nil⟩

theorem exists_written {target : String} (h : target? scope key v = some target) :
    key = "$ref" ∧ ∃ written, v = .string written ∧ SchemaUri.resolve scope written = target := by
  unfold target? at h
  split at h
  · next hkey =>
    obtain ⟨written, hwritten, heq⟩ := Option.map_eq_some_iff.1 h
    exact ⟨hkey, written, eq_string_of_asString? hwritten, heq⟩
  · cases h

theorem Counted.append {α β : Type} {f : α → List String} {g : β → List String}
    {first : Scanned α} {more : Scanned β} {v : α} {rest : β} (hfirst : Counted f v first)
    (hmore : Counted g rest more) {γ : Type} {references : γ → List String} {w w' : γ}
    (hw : references w = f first.value ++ g more.value) (hw' : references w' = f v ++ g rest) :
    Counted references w' ⟨w, first.targets ++ more.targets, first.named ++ more.named⟩ where
  length := by
    show (references w).length = (references w').length
    rw [hw, hw', List.length_append, List.length_append, hfirst.length, hmore.length]
  targets := by
    show first.targets ++ more.targets ⊆ references w
    rw [hw, List.append_subset]
    exact ⟨List.subset_append_of_subset_left _ hfirst.targets,
      List.subset_append_of_subset_right _ hmore.targets⟩
  named := fun entry hentry => by
    show entry.2.references ⊆ references w
    rw [hw]
    rcases List.mem_append.1 hentry with hentry | hentry
    · exact List.subset_append_of_subset_left _ (hfirst.named entry hentry)
    · exact List.subset_append_of_subset_right _ (hmore.named entry hentry)

mutual

theorem counted_value (root : Bool) (scope : String) :
    ∀ v : Json, Counted Json.references v (value root scope v)
  | .null => counted_data _
  | .bool _ => counted_data _
  | .number _ => counted_data _
  | .string _ => counted_data _
  | .array items => by
      obtain ⟨hlength, htargets, hnamed⟩ := counted_list scope items
      rw [value]
      refine ⟨?_, ?_, ?_⟩ <;> dsimp only <;> rw [Json.references]
      · rwa [Json.references]
      · exact htargets
      · exact hnamed
  | .object ms => by
      obtain ⟨hlength, htargets, hnamed⟩ := counted_members (scopeOf scope ms) ms
      rw [value]
      refine ⟨?_, ?_, fun entry hentry => ?_⟩ <;> dsimp only <;> rw [Json.references]
      · rwa [Json.references]
      · exact htargets
      · rcases List.mem_append.1 hentry with hentry | hentry
        · exact hnamed entry hentry
        · unfold naming at hentry
          split at hentry
          · cases hentry
          · split at hentry
            · rw [List.mem_singleton.1 hentry, Json.references]
              exact List.Subset.refl _
            · cases hentry

theorem counted_list (scope : String) :
    ∀ items : List Json, Counted Json.referencesOfItems items (list scope items)
  | [] => ⟨rfl, List.nil_subset _, fun _ hmem => absurd hmem List.not_mem_nil⟩
  | v :: rest => by
      rw [list]
      exact (counted_value false scope v).append (counted_list scope rest)
        (Json.referencesOfItems.eq_2 _ _) (Json.referencesOfItems.eq_2 _ _)

theorem counted_members (scope : String) :
    ∀ ms : List (String × Json), Counted Json.referencesOfMembers ms (members scope ms)
  | [] => ⟨rfl, List.nil_subset _, fun _ hmem => absurd hmem List.not_mem_nil⟩
  | (key, v) :: rest => by
      have hfirst : Counted (fun w => Json.referencesOfMembers [(key, w)]) v
          (match target? scope key v with
            | some target => ⟨.string target, [target], []⟩
            | none => if isData key then ⟨v, [], []⟩ else value false scope v) := by
        cases htarget : target? scope key v with
        | some target =>
            obtain ⟨rfl, written, rfl, -⟩ := exists_written htarget
            exact ⟨rfl, List.Subset.refl _, fun _ hmem => absurd hmem List.not_mem_nil⟩
        | none =>
            dsimp only
            split
            · exact ⟨rfl, List.nil_subset _, fun _ hmem => absurd hmem List.not_mem_nil⟩
            · have hkept : target? scope key (value false scope v).value = none := by
                rwa [target?, asString?_value]
              obtain ⟨hlength, htargets, hnamed⟩ := counted_value false scope v
              refine ⟨?_, ?_, fun entry hentry => ?_⟩
              · rw [referencesOfMembers_cons _ hkept, referencesOfMembers_cons _ htarget,
                  List.length_append, List.length_append, hlength]
              · rw [referencesOfMembers_cons _ hkept]
                exact List.subset_append_of_subset_left _ htargets
              · rw [referencesOfMembers_cons _ hkept]
                exact List.subset_append_of_subset_left _ (hnamed entry hentry)
      rw [members]
      exact hfirst.append (counted_members scope rest) (Json.referencesOfMembers_append _ _)
        (Json.referencesOfMembers_append _ _)

end

end Scan

namespace Store

variable {s : Store} {uri target : String} {document : Json}

theorem mem_references_iff :
    target ∈ s.references ↔ ∃ l ∈ s.layers, ∃ entry ∈ l.schemas, target ∈ entry.2.references := by
  rw [references, List.mem_flatMap]
  exact exists_congr (fun l => and_congr_right (fun _ => List.mem_flatMap))

theorem mem_references_addNamed {named : List (String × Json)}
    (h : target ∈ (named.foldl addNamed s).references) :
    target ∈ s.references ∨ ∃ entry ∈ named, target ∈ entry.2.references := by
  induction named generalizing s with
  | nil => exact .inl h
  | cons entry rest ih =>
      rcases ih h with hstore | ⟨other, hother, htarget⟩
      · obtain ⟨l, hl, e, he, htarget⟩ := mem_references_iff.1 hstore
        rcases List.mem_cons.1 hl with rfl | hl
        · rcases Table.mem_of_mem_insertNew he with rfl | he
          · exact .inr ⟨entry, List.mem_cons_self, htarget⟩
          · exact .inl (mem_references_iff.2 ⟨s.top, List.mem_cons_self, e, he, htarget⟩)
        · exact .inl (mem_references_iff.2 ⟨l, List.mem_cons_of_mem _ hl, e, he, htarget⟩)
      · exact .inr ⟨other, List.mem_cons_of_mem _ hother, htarget⟩

theorem mem_references_add (h : target ∈ (s.add uri document).references) :
    target ∈ s.references
      ∨ target ∈ (document.scan (SchemaUri.normalize uri)).value.references := by
  have hcounted := Scan.counted_value true (SchemaUri.normalize uri) document
  rw [add, (sameDocuments_noteTargets _ _).references] at h
  rcases mem_references_addNamed h with hput | ⟨entry, hentry, htarget⟩
  · obtain ⟨l, hl, e, he, htarget⟩ := mem_references_iff.1 hput
    rcases List.mem_cons.1 hl with rfl | hl
    · rcases Table.mem_of_mem_insert he with rfl | he
      · exact .inr htarget
      · exact .inl (mem_references_iff.2 ⟨s.top, List.mem_cons_self, e, he, htarget⟩)
    · exact .inl (mem_references_iff.2 ⟨l, List.mem_cons_of_mem _ hl, e, he, htarget⟩)
  · exact .inr (hcounted.named entry hentry htarget)

end Store

end HyperSchema
