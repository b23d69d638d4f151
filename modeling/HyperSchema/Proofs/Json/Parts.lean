import HyperSchema.Proofs.Pointer.Escape
import HyperSchema.Proofs.Table
import HyperSchema.Validation.Evaluation

/-!
# The parts of a value

A part of a value is what stands in it at some place, at any depth, the value itself included. A
part never reaches further down than the whole. Where no object has a key twice, there is one part
at each pointer: this is what makes a pointer a name for a part.
-/

namespace HyperSchema.Json

/-- What stands in a value at a pointer, where the value itself stands at a pointer of its own. -/
inductive PartAt (v : Json) (path : String) : Json → String → Prop where
  | whole : PartAt v path v path
  | item {items : List Json} {place : String} {i : Nat} {w : Json}
      (above : PartAt v path (.array items) place) (here : items[i]? = some w) :
      PartAt v path w (Node.itemPath place i)
  | member {members : List (String × Json)} {place key : String} {w : Json}
      (above : PartAt v path (.object members) place) (here : (key, w) ∈ members) :
      PartAt v path w (Pointer.child place key)

namespace PartAt

variable {v w x : Json} {path place target : String}

theorem trans (hpart : PartAt v path w place) (hbelow : PartAt w place x target) :
    PartAt v path x target := by
  induction hbelow with
  | whole => exact hpart
  | item _ here ih => exact .item ih here
  | member _ here ih => exact .member ih here

theorem length_le (hpart : PartAt v path w place) :
    path.toList.length ≤ place.toList.length := by
  induction hpart with
  | whole => exact Nat.le_refl _
  | @item _ place i _ _ _ ih =>
      exact Nat.le_trans ih (Nat.le_of_lt (Pointer.length_lt_length_child place (Text.natText i)))
  | @member _ place key _ _ _ ih =>
      exact Nat.le_trans ih (Nat.le_of_lt (Pointer.length_lt_length_child place key))

end PartAt

/-! ### Height -/

theorem height_le_of_getElem? {items : List Json} {i : Nat} {w : Json} (h : items[i]? = some w) :
    w.height ≤ heightItems items := by
  induction items generalizing i with
  | nil => simp at h
  | cons v rest ih =>
      rw [heightItems]
      cases i with
      | zero =>
          obtain rfl : v = w := by simpa using h
          exact Nat.le_max_left _ _
      | succ i => exact Nat.le_trans (ih (by simpa using h)) (Nat.le_max_right _ _)

theorem height_le_of_mem {members : List (String × Json)} {key : String} {w : Json}
    (h : (key, w) ∈ members) : w.height ≤ heightMembers members := by
  induction members with
  | nil => simp at h
  | cons entry rest ih =>
      obtain ⟨k, v⟩ := entry
      rw [heightMembers]
      rcases List.mem_cons.1 h with heq | hrest
      · obtain ⟨-, rfl⟩ := Prod.mk.inj heq
        exact Nat.le_max_left _ _
      · exact Nat.le_trans (ih hrest) (Nat.le_max_right _ _)

/-- A part either is the whole at its own pointer or is less high. -/
theorem PartAt.eq_or_height_lt {v w : Json} {path place : String}
    (hpart : PartAt v path w place) : w = v ∧ place = path ∨ w.height < v.height := by
  induction hpart with
  | whole => exact .inl ⟨rfl, rfl⟩
  | @item items place i w _ here ih =>
      have hlow : w.height < (Json.array items).height := by
        rw [height]
        exact Nat.lt_succ_of_le (height_le_of_getElem? here)
      rcases ih with ⟨rfl, -⟩ | hlt
      · exact .inr hlow
      · exact .inr (Nat.lt_trans hlow hlt)
  | @member members place key w _ here ih =>
      have hlow : w.height < (Json.object members).height := by
        rw [height]
        exact Nat.lt_succ_of_le (height_le_of_mem here)
      rcases ih with ⟨rfl, -⟩ | hlt
      · exact .inr hlow
      · exact .inr (Nat.lt_trans hlow hlt)

/-! ### One part at each pointer -/

theorem UniqueKeys.of_getElem? {items : List Json} {i : Nat} {w : Json}
    (hkeys : UniqueKeysItems items) (h : items[i]? = some w) : w.UniqueKeys := by
  induction items generalizing i with
  | nil => simp at h
  | cons v rest ih =>
      rw [UniqueKeysItems] at hkeys
      cases i with
      | zero =>
          obtain rfl : v = w := by simpa using h
          exact hkeys.1
      | succ i => exact ih hkeys.2 (by simpa using h)

theorem UniqueKeys.of_mem {members : List (String × Json)} {key : String} {w : Json}
    (hkeys : UniqueKeysMembers members) (h : (key, w) ∈ members) : w.UniqueKeys := by
  induction members with
  | nil => simp at h
  | cons entry rest ih =>
      obtain ⟨k, v⟩ := entry
      rw [UniqueKeysMembers] at hkeys
      rcases List.mem_cons.1 h with heq | hrest
      · obtain ⟨-, rfl⟩ := Prod.mk.inj heq
        exact hkeys.1
      · exact ih hkeys.2 hrest

theorem UniqueKeys.of_get? {members : Table Json} {key : String} {w : Json}
    (hkeys : (Json.object members).UniqueKeys) (h : Table.get? members key = some w) :
    w.UniqueKeys := by
  rw [UniqueKeys] at hkeys
  exact of_mem hkeys.2 (Table.mem_of_get? h)

theorem PartAt.uniqueKeys {v w : Json} {path place : String} (hpart : PartAt v path w place)
    (hkeys : v.UniqueKeys) : w.UniqueKeys := by
  induction hpart with
  | whole => exact hkeys
  | item _ here ih =>
      rw [UniqueKeys] at ih
      exact UniqueKeys.of_getElem? ih here
  | member _ here ih =>
      rw [UniqueKeys] at ih
      exact UniqueKeys.of_mem ih.2 here

theorem eq_of_mem_of_distinct {members : Table Json} {key : String} {v w : Json}
    (hdistinct : Table.Distinct members) (hv : (key, v) ∈ members) (hw : (key, w) ∈ members) :
    v = w := by
  have hget := Table.get?_of_mem hdistinct hv
  rw [Table.get?_of_mem hdistinct hw] at hget
  exact (Option.some.inj hget).symm

theorem PartAt.place_ne_child {v w : Json} {path place token : String}
    (hpart : PartAt v path w place) : path ≠ Pointer.child place token := by
  intro heq
  have hlt := Pointer.length_lt_length_child place token
  rw [← heq] at hlt
  exact absurd hpart.length_le (Nat.not_le_of_lt hlt)

theorem PartAt.eq_whole {v w : Json} {path place : String} (hpart : PartAt v path w place)
    (hplace : place = path) : w = v := by
  cases hpart with
  | whole => rfl
  | item above _ => exact absurd hplace.symm above.place_ne_child
  | member above _ => exact absurd hplace.symm above.place_ne_child

/-- A pointer names one part. The last token of the pointer tells how the part was reached. -/
theorem PartAt.unique {v w x : Json} {path place : String} (hkeys : v.UniqueKeys)
    (hw : PartAt v path w place) (hx : PartAt v path x place) : w = x := by
  induction hw generalizing x with
  | whole => exact (hx.eq_whole rfl).symm
  | @item items place i w above here ih =>
      generalize hplace : Node.itemPath place i = target at hx
      cases hx with
      | whole => exact absurd hplace.symm above.place_ne_child
      | item above' here' =>
          obtain ⟨rfl, htoken⟩ := Pointer.child_injective hplace
          obtain rfl := Text.natText_injective htoken
          obtain rfl := Json.array.inj (ih above')
          exact Option.some.inj (here.symm.trans here')
      | member above' _ =>
          obtain ⟨rfl, -⟩ := Pointer.child_injective hplace
          exact absurd (ih above') (by simp)
  | @member members place key w above here ih =>
      generalize hplace : Pointer.child place key = target at hx
      cases hx with
      | whole => exact absurd hplace.symm above.place_ne_child
      | item above' _ =>
          obtain ⟨rfl, -⟩ := Pointer.child_injective hplace
          exact absurd (ih above') (by simp)
      | member above' here' =>
          obtain ⟨rfl, rfl⟩ := Pointer.child_injective hplace
          obtain rfl := Json.object.inj (ih above')
          have hunique := above.uniqueKeys hkeys
          rw [UniqueKeys] at hunique
          exact eq_of_mem_of_distinct hunique.1 here here'

end HyperSchema.Json
