import HyperSchema.Proofs.Schema.Parts

/-!
# Where references can lead

Following references does not leave the store: what is found is part of a stored document, and the
URI it is found under is the one that was asked for or the target of a reference.
-/

namespace HyperSchema

theorem Json.mem_references_of_reference? {v : Json} {target : String}
    (h : v.reference? = some target) : target ∈ v.references := by
  cases v with
  | object members => exact Schema.mem_references_of_text? h
  | _ => cases h

namespace Store

variable {s : Store} {v w : Json} {uri target : String} {tokens rest : List String}

theorem references_subset_of_find? (h : s.find? uri = some v) : v.references ⊆ s.references := by
  obtain ⟨l, hl, hget⟩ := List.exists_of_findSome?_eq_some h
  intro t ht
  refine List.mem_flatMap.2 ⟨l, hl, List.mem_flatMap.2 ⟨(uri, v), Table.mem_of_get? hget, ht⟩⟩

theorem references_subset_of_step? {token : String} (h : step? v token = some w) :
    w.references ⊆ v.references := by
  cases v with
  | object members =>
      rw [Json.references]
      exact Schema.references_subset_of_mem (Table.mem_of_get? h)
  | array items =>
      obtain ⟨i, -, hi⟩ := Option.bind_eq_some_iff.1 h
      rw [Json.references.eq_1]
      exact Schema.references_subset_of_mem_items (List.mem_of_getElem? hi)
  | _ => cases h

theorem references_subset_of_advance? (h : advance? v tokens = some (w, rest)) :
    w.references ⊆ v.references := by
  induction tokens generalizing v with
  | nil =>
      obtain ⟨rfl, -⟩ := Prod.mk.inj (Option.some.inj h)
      exact List.Subset.refl _
  | cons token tokens ih =>
      rw [advance?] at h
      split at h
      · obtain ⟨rfl, -⟩ := Prod.mk.inj (Option.some.inj h)
        exact List.Subset.refl _
      · obtain ⟨next, hnext, h⟩ := Option.bind_eq_some_iff.1 h
        exact List.Subset.trans (ih h) (references_subset_of_step? hnext)

theorem references_subset_of_pointer_walk? (h : Pointer.walk? v tokens = some w) :
    w.references ⊆ v.references := by
  induction tokens generalizing v with
  | nil =>
      obtain rfl := Option.some.inj h
      exact List.Subset.refl _
  | cons token tokens ih =>
      obtain ⟨next, hnext, h⟩ := Option.bind_eq_some_iff.1 h
      apply List.Subset.trans (ih h)
      cases v with
      | object members =>
          rw [Json.references]
          exact Schema.references_subset_of_mem (Table.mem_of_get? hnext)
      | array items =>
          obtain ⟨i, -, hi⟩ := Option.bind_eq_some_iff.1 hnext
          rw [Json.references.eq_1]
          exact Schema.references_subset_of_mem_items (List.mem_of_getElem? hi)
      | _ => cases hnext

theorem references_subset_of_entrance? (h : s.entrance? uri = some (v, tokens)) :
    v.references ⊆ s.references := by
  rw [entrance?] at h
  split at h
  · next hfind =>
    obtain ⟨rfl, -⟩ := Prod.mk.inj (Option.some.inj h)
    exact references_subset_of_find? hfind
  · obtain ⟨document, hfind, h⟩ := Option.map_eq_some_iff.1 h
    obtain ⟨rfl, -⟩ := Prod.mk.inj h
    exact references_subset_of_find? hfind

theorem references_subset_of_shortcut? (h : s.shortcut? target = some v) :
    v.references ⊆ s.references := by
  rw [shortcut?] at h
  split at h
  · next hfind =>
    obtain rfl := Option.some.inj h
    exact references_subset_of_find? hfind
  · obtain ⟨document, hfind, h⟩ := Option.bind_eq_some_iff.1 h
    exact List.Subset.trans (references_subset_of_pointer_walk? h)
      (references_subset_of_find? hfind)

theorem of_walk_eq_found {bound : Nat} {visited : List String} {found : String}
    (hv : v.references ⊆ s.references)
    (h : s.walk bound uri v tokens visited = some (.found found w)) :
    (found = uri ∨ found ∈ s.references) ∧ w.references ⊆ s.references := by
  induction bound generalizing uri v tokens visited with
  | zero => cases h
  | succ bound ih =>
      rw [walk] at h
      split at h
      · cases h
      · next here rest hadvance =>
        have hhere := List.Subset.trans (references_subset_of_advance? hadvance) hv
        split at h
        · obtain ⟨rfl, rfl⟩ := Resolution.found.inj (Option.some.inj h)
          exact ⟨.inl rfl, hhere⟩
        · next target htarget =>
          have hmem := hhere (Json.mem_references_of_reference? htarget)
          split at h
          · cases h
          · split at h
            · split at h
              · next next tokens' hentrance =>
                obtain ⟨hfound, hw⟩ := ih (references_subset_of_entrance? hentrance) h
                refine ⟨.inr ?_, hw⟩
                rcases hfound with rfl | hfound
                · exact hmem
                · exact hfound
              · cases h
            · split at h
              · next next hshortcut =>
                exact ih (references_subset_of_shortcut? hshortcut) h
              · cases h

theorem of_resolution_eq_found {found : String} (h : s.resolution uri = .found found w) :
    (found = uri ∨ found ∈ s.references) ∧ w.references ⊆ s.references := by
  rw [resolution] at h
  split at h
  · next v tokens hentrance =>
    cases hwalk : s.walk (s.references.length + 2) uri v tokens [] with
    | none =>
        rw [hwalk] at h
        cases h
    | some r =>
        rw [hwalk] at h
        rw [Option.getD_some] at h
        rw [h] at hwalk
        exact of_walk_eq_found (references_subset_of_entrance? hentrance) hwalk
  · cases h

end Store

end HyperSchema
