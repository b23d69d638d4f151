import HyperSchema.Store.Scan

/-!
# Documents without ids

Only schemas with an id of their own are stored under other URIs than that of their document. A
document without ids is stored under one URI only.
-/

namespace HyperSchema

namespace Json

mutual

def ids : Json → List String
  | .array items => idsOfItems items
  | .object members => idsOfMembers members
  | _ => []

def idsOfItems : List Json → List String
  | [] => []
  | v :: rest => ids v ++ idsOfItems rest

def idsOfMembers : List (String × Json) → List String
  | [] => []
  | (key, v) :: rest =>
    (if key = "id" then v.asString?.toList else []) ++ ids v ++ idsOfMembers rest

end

end Json

namespace Scan

theorem ownId?_eq_none {ms : Table Json} (scope : String) (h : Json.idsOfMembers ms = []) :
    ownId? scope ms = none := by
  have hid : (Table.get? ms "id").bind Json.asString? = none := by
    induction ms with
    | nil => rfl
    | cons first rest ih =>
        obtain ⟨key, v⟩ := first
        rw [Json.idsOfMembers, List.append_eq_nil_iff, List.append_eq_nil_iff] at h
        rw [Table.get?_cons]
        split
        · next hkey =>
          rw [if_pos hkey] at h
          cases hv : v.asString? with
          | none => exact hv
          | some id =>
              rw [hv] at h
              cases h.1.1
        · exact ih h.2
  rw [ownId?, hid]

mutual

theorem named_value (root : Bool) (scope : String) :
    ∀ v : Json, v.ids = [] → (value root scope v).named = []
  | .null, _ => rfl
  | .bool _, _ => rfl
  | .number _, _ => rfl
  | .string _, _ => rfl
  | .array items, h => by
      rw [value]
      exact named_list scope items (by rwa [Json.ids] at h)
  | .object ms, h => by
      rw [Json.ids] at h
      rw [value]
      dsimp only
      rw [named_members _ ms h, List.nil_append, naming, ownId?_eq_none scope h]
      exact ite_self _

theorem named_list (scope : String) :
    ∀ items : List Json, Json.idsOfItems items = [] → (list scope items).named = []
  | [], _ => rfl
  | v :: rest, h => by
      rw [Json.idsOfItems, List.append_eq_nil_iff] at h
      rw [list]
      dsimp only
      rw [named_value false scope v h.1, named_list scope rest h.2, List.append_nil]

theorem named_members (scope : String) :
    ∀ ms : List (String × Json), Json.idsOfMembers ms = [] → (members scope ms).named = []
  | [], _ => rfl
  | (key, v) :: rest, h => by
      rw [Json.idsOfMembers, List.append_eq_nil_iff, List.append_eq_nil_iff] at h
      rw [members]
      dsimp only
      rw [named_members scope rest h.2, List.append_nil]
      split
      · rfl
      · split
        · rfl
        · exact named_value false scope v h.1.2

end

end Scan

theorem Json.named_scan {document : Json} (uri : String) (h : document.ids = []) :
    (document.scan uri).named = [] := Scan.named_value true uri document h

end HyperSchema
