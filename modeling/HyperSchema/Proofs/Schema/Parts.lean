import HyperSchema.Store.Resolution
import HyperSchema.Validation.Reading

/-!
# The schemas in a schema

Below its keywords a schema document holds further schemas: single ones, lists and tables of them.
They are smaller than the document, and their references are among its references.
-/

namespace HyperSchema.Schema

/-! ### Keywords with lists and tables

A keyword that should have a list or a table and has none counts as if it were empty. -/

def listOf (keywords : Table Json) (key : String) : List Json :=
  match Table.get? keywords key with
  | some (.array subs) => subs
  | _ => []

def tableOf (keywords : Table Json) (key : String) : Table Json :=
  match Table.get? keywords key with
  | some (.object table) => table
  | _ => []

section

variable {keywords : Table Json} {key : String}

theorem listOf_of_get? {subs : List Json} (h : Table.get? keywords key = some (.array subs)) :
    listOf keywords key = subs := by rw [listOf, h]

theorem listOf_of_ne (h : ∀ subs, Table.get? keywords key ≠ some (.array subs)) :
    listOf keywords key = [] := by
  rw [listOf]
  split
  · next subs hget => exact absurd hget (h subs)
  · rfl

theorem tableOf_of_get? {table : Table Json} (h : Table.get? keywords key = some (.object table)) :
    tableOf keywords key = table := by rw [tableOf, h]

theorem tableOf_of_ne (h : ∀ table, Table.get? keywords key ≠ some (.object table)) :
    tableOf keywords key = [] := by
  rw [tableOf]
  split
  · next table hget => exact absurd hget (h table)
  · rfl

theorem listOf_of_absent (hnone : Table.get? keywords key = none) : listOf keywords key = [] := by
  rw [listOf, hnone]

theorem tableOf_of_absent (hnone : Table.get? keywords key = none) : tableOf keywords key = [] := by
  rw [tableOf, hnone]

theorem forall_list_iff {P : List Json → Prop} (hnil : P []) :
    (∀ subs, Table.get? keywords key = some (.array subs) → P subs)
      ↔ P (listOf keywords key) := by
  by_cases hsome : ∃ subs, Table.get? keywords key = some (.array subs)
  · obtain ⟨subs, hget⟩ := hsome
    rw [listOf_of_get? hget, hget]
    refine ⟨fun h => h subs rfl, fun h other hother => ?_⟩
    rwa [← Json.array.inj (Option.some.inj hother)]
  · rw [listOf_of_ne (fun subs hget => hsome ⟨subs, hget⟩)]
    exact iff_of_true (fun subs hget => absurd ⟨subs, hget⟩ hsome) hnil

theorem forall_table_iff {P : Table Json → Prop} (hnil : P []) :
    (∀ table, Table.get? keywords key = some (.object table) → P table)
      ↔ P (tableOf keywords key) := by
  by_cases hsome : ∃ table, Table.get? keywords key = some (.object table)
  · obtain ⟨table, hget⟩ := hsome
    rw [tableOf_of_get? hget, hget]
    refine ⟨fun h => h table rfl, fun h other hother => ?_⟩
    rwa [← Json.object.inj (Option.some.inj hother)]
  · rw [tableOf_of_ne (fun table hget => hsome ⟨table, hget⟩)]
    exact iff_of_true (fun table hget => absurd ⟨table, hget⟩ hsome) hnil

theorem exists_table_iff {P : Table Json → Prop} (hnil : ¬P []) :
    (∃ table, Table.get? keywords key = some (.object table) ∧ P table)
      ↔ P (tableOf keywords key) := by
  constructor
  · intro h
    obtain ⟨table, hget, h⟩ := h
    rwa [tableOf_of_get? hget]
  · intro h
    by_cases hsome : ∃ table, Table.get? keywords key = some (.object table)
    · obtain ⟨table, hget⟩ := hsome
      rw [tableOf_of_get? hget] at h
      exact ⟨table, hget, h⟩
    · rw [tableOf_of_ne (fun table hget => hsome ⟨table, hget⟩)] at h
      exact absurd h hnil

end

/-! ### Subschemas -/

/-- The keys that a dependency asks for; if it is a schema, it asks for none. -/
def dependentKeys : Json → List String
  | .string name => [name]
  | .array names => names.filterMap Json.asString?
  | _ => []

/-- The schemas that stand directly below the keywords of a schema. -/
inductive Sub (keywords : Table Json) : Json → Prop where
  | single (key : String) {sub : Json}
      (hkey : key ∈ ["not", "items", "additionalItems", "additionalProperties"])
      (hget : Table.get? keywords key = some sub) : Sub keywords sub
  | listed (key : String) {subs : List Json} {sub : Json}
      (hkey : key ∈ ["allOf", "anyOf", "oneOf", "items"])
      (hget : Table.get? keywords key = some (.array subs)) (hmem : sub ∈ subs) : Sub keywords sub
  | named (key : String) {name : String} {table : Table Json} {sub : Json}
      (hkey : key ∈ ["properties", "patternProperties", "dependencies"])
      (hget : Table.get? keywords key = some (.object table)) (hmem : (name, sub) ∈ table) :
      Sub keywords sub

theorem not_sub_nil (sub : Json) : ¬Sub [] sub := by
  intro h
  cases h with
  | single _ _ hget => cases hget
  | listed _ _ hget _ => cases hget
  | named _ _ hget _ => cases hget

theorem Sub.sizeOf_lt {keywords : Table Json} {sub : Json} (h : Sub keywords sub) :
    sizeOf sub < sizeOf (Json.object keywords) := by
  rw [Json.object.sizeOf_spec]
  cases h with
  | single _ _ hget => exact Nat.lt_add_left 1 (Json.sizeOf_get?_lt hget)
  | listed _ _ hget hmem =>
      have hlist := Json.sizeOf_get?_lt hget
      have hitem := List.sizeOf_lt_of_mem hmem
      rw [Json.array.sizeOf_spec] at hlist
      omega
  | named _ _ hget hmem =>
      have htable := Json.sizeOf_get?_lt hget
      have hentry := List.sizeOf_lt_of_mem hmem
      rw [Json.object.sizeOf_spec] at htable
      rw [Prod.mk.sizeOf_spec] at hentry
      omega

theorem sub_of_mem_listOf {keywords : Table Json} {key : String} {sub : Json}
    (hkey : key ∈ ["allOf", "anyOf", "oneOf", "items"])
    (hmem : sub ∈ listOf keywords key) : Sub keywords sub := by
  by_cases hsome : ∃ subs, Table.get? keywords key = some (.array subs)
  · obtain ⟨subs, hget⟩ := hsome
    rw [listOf_of_get? hget] at hmem
    exact .listed key hkey hget hmem
  · rw [listOf_of_ne (fun subs hget => hsome ⟨subs, hget⟩)] at hmem
    cases hmem

theorem sub_of_mem_tableOf {keywords : Table Json} {key : String} {entry : String × Json}
    (hkey : key ∈ ["properties", "patternProperties", "dependencies"])
    (hmem : entry ∈ tableOf keywords key) : Sub keywords entry.2 := by
  by_cases hsome : ∃ table, Table.get? keywords key = some (.object table)
  · obtain ⟨table, hget⟩ := hsome
    rw [tableOf_of_get? hget] at hmem
    exact .named key hkey hget hmem
  · rw [tableOf_of_ne (fun table hget => hsome ⟨table, hget⟩)] at hmem
    cases hmem

/-- The schemas that stand in a document at any depth, the document itself included. -/
inductive Within (document : Json) : Json → Prop where
  | whole : Within document document
  | inner {keywords : Table Json} {sub : Json} (above : Within document (.object keywords))
      (hsub : Sub keywords sub) : Within document sub

theorem Within.trans {document schema sub : Json} (habove : Within document schema)
    (hbelow : Within schema sub) : Within document sub := by
  induction hbelow with
  | whole => exact habove
  | inner _ hsub ih => exact .inner ih hsub

/-! ### References -/

theorem referencesOfMembers_cons_subset (entry : String × Json) (rest : Table Json) :
    entry.2.references ++ Json.referencesOfMembers rest
      ⊆ Json.referencesOfMembers (entry :: rest) := by
  obtain ⟨key, v⟩ := entry
  intro target htarget
  cases v with
  | string s =>
      rw [Json.referencesOfMembers]
      rw [Json.references] at htarget
      · exact List.mem_append_right _ htarget
      all_goals simp
  | _ =>
      rw [Json.referencesOfMembers]
      · exact htarget
      all_goals simp

theorem references_subset_of_mem {members : Table Json} {entry : String × Json}
    (hmem : entry ∈ members) : entry.2.references ⊆ Json.referencesOfMembers members := by
  induction members with
  | nil => cases hmem
  | cons first rest ih =>
      intro target htarget
      apply referencesOfMembers_cons_subset first rest
      rcases List.mem_cons.1 hmem with rfl | hmem
      · exact List.mem_append_left _ htarget
      · exact List.mem_append_right _ (ih hmem htarget)

theorem references_subset_of_mem_items {items : List Json} {item : Json} (hmem : item ∈ items) :
    item.references ⊆ Json.referencesOfItems items := by
  induction items with
  | nil => cases hmem
  | cons first rest ih =>
      intro target htarget
      rw [Json.referencesOfItems]
      rcases List.mem_cons.1 hmem with rfl | hmem
      · exact List.mem_append_left _ htarget
      · exact List.mem_append_right _ (ih hmem htarget)

theorem references_subset_of_sub {keywords : Table Json} {sub : Json} (hsub : Sub keywords sub) :
    sub.references ⊆ (Json.object keywords).references := by
  rw [Json.references]
  cases hsub with
  | single _ _ hget => exact references_subset_of_mem (Table.mem_of_get? hget)
  | listed _ _ hget hmem =>
      have hlist := references_subset_of_mem (Table.mem_of_get? hget)
      rw [Json.references] at hlist
      exact fun _ htarget => hlist (references_subset_of_mem_items hmem htarget)
  | named _ _ hget hmem =>
      have htable := references_subset_of_mem (Table.mem_of_get? hget)
      rw [Json.references] at htable
      exact fun _ htarget => htable (references_subset_of_mem hmem htarget)

theorem mem_references_of_text? {keywords : Table Json} {target : String}
    (h : Node.text? keywords "$ref" = some target) :
    target ∈ (Json.object keywords).references := by
  have hmem : ("$ref", Json.string target) ∈ keywords := by
    obtain ⟨v, hget, hv⟩ := Option.bind_eq_some_iff.1 h
    cases v with
    | string s =>
        obtain rfl := Option.some.inj hv
        exact Table.mem_of_get? hget
    | _ => cases hv
  rw [Json.references]
  clear h
  induction keywords with
  | nil => cases hmem
  | cons first rest ih =>
      rcases List.mem_cons.1 hmem with rfl | hmem
      · rw [Json.referencesOfMembers, if_pos rfl]
        exact List.mem_append_left _ (List.mem_singleton_self _)
      · exact referencesOfMembers_cons_subset first rest (List.mem_append_right _ (ih hmem))

end HyperSchema.Schema
