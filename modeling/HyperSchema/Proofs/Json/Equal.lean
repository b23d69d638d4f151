import HyperSchema.Json.Equal
import HyperSchema.Proofs.Json.Steps

/-!
# Equality by value is an equivalence

Where no object has a key twice, two values are equal exactly when the same stands at the same
places in both: containers of one sort, or the same null, boolean, number or string. For objects
this takes a count, as only the members of one side are looked for in the other. Whatever is
determined by what stands at the places of a value does not tell equal values apart, and so equality
is reflexive, symmetric and transitive, and does not see the order of members.
-/

namespace HyperSchema.Json

variable {v w x : Json} {items : List Json} {members : Table Json}

/-- The values are alike but for what is in them. -/
inductive SameRoot : Json → Json → Prop where
  | null : SameRoot .null .null
  | bool (b : Bool) : SameRoot (.bool b) (.bool b)
  | number {m n : Number} (h : m.toFloat.signed = n.toFloat.signed) :
      SameRoot (.number m) (.number n)
  | string (s : String) : SameRoot (.string s) (.string s)
  | array (items items' : List Json) : SameRoot (.array items) (.array items')
  | object (members members' : Table Json) : SameRoot (.object members) (.object members')

def Same (v w : Json) : Prop := equal v w = true

/-! ### One step down -/

theorem equalItems_iff {items' : List Json} :
    equalItems items items' = true ↔ List.Forall₂ Same items items' := by
  induction items generalizing items' with
  | nil => cases items' <;> simp [equalItems]
  | cons v rest ih =>
      cases items' with
      | nil => simp [equalItems]
      | cons w rest' => rw [equalItems, Bool.and_eq_true, ih, List.forall₂_cons, Same]

theorem foundIn_iff {members' : Table Json} : foundIn members members' = true
    ↔ ∀ entry ∈ members, ∃ w, Table.get? members' entry.1 = some w ∧ Same entry.2 w := by
  induction members with
  | nil => simp [foundIn]
  | cons entry rest ih =>
      obtain ⟨key, v⟩ := entry
      rw [foundIn, Bool.and_eq_true, ih, List.forall_mem_cons]
      refine and_congr_left fun _ => ?_
      cases Table.get? members' key with
      | none => simp
      | some w => simp [Same]

theorem same_array_iff {items' : List Json} :
    Same (.array items) (.array items') ↔ List.Forall₂ Same items items' := by
  rw [Same, equal, equalItems_iff]

theorem same_object_iff {members' : Table Json} (h : Table.Distinct members)
    (h' : Table.Distinct members') : Same (.object members) (.object members')
      ↔ ∀ key, Option.Rel Same (Table.get? members key) (Table.get? members' key) := by
  rw [Same, equal, Bool.and_eq_true, beq_iff_eq, foundIn_iff]
  exact Table.rel_get?_iff h h'

theorem forall₂_iff_getElem? {α : Type} {R : α → α → Prop} {l m : List α} :
    List.Forall₂ R l m ↔ ∀ i : ℕ, Option.Rel R l[i]? m[i]? := by
  induction l generalizing m with
  | nil =>
      cases m with
      | nil => exact iff_of_true .nil fun _ => .none
      | cons b rest => exact iff_of_false (fun h => nomatch h) fun h => nomatch h 0
  | cons a rest ih =>
      cases m with
      | nil => exact iff_of_false (fun h => nomatch h) fun h => nomatch h 0
      | cons b rest' =>
          rw [List.forall₂_cons, ih]
          constructor
          · intro h i
            cases i with
            | zero => exact .some h.1
            | succ i => exact h.2 i
          · intro h
            have hfirst : Option.Rel R (some a) (some b) := h 0
            refine ⟨?_, fun i => h (i + 1)⟩
            cases hfirst with
            | some hab => exact hab

theorem sameRoot_of_same (h : Same v w) : SameRoot v w := by
  rw [Same] at h
  cases v <;> cases w <;> simp [equal] at h
  case null => exact .null
  case bool => exact h ▸ .bool _
  case number => exact .number (of_decide_eq_true h)
  case string => exact h ▸ .string _
  case array => exact .array _ _
  case object => exact .object _ _

/-- Equal values have the same root, and equal values one step down. -/
theorem same_iff_step (hv : v.UniqueKeys) (hw : w.UniqueKeys) :
    Same v w ↔ SameRoot v w ∧ ∀ step, Option.Rel Same (v.step? step) (w.step? step) := by
  constructor
  · intro h
    have hroot := sameRoot_of_same h
    refine ⟨hroot, ?_⟩
    cases hroot with
    | array =>
        intro step
        cases step with
        | member key => exact .none
        | item i => exact forall₂_iff_getElem?.1 (same_array_iff.1 h) i
    | object =>
        rw [UniqueKeys] at hv hw
        intro step
        cases step with
        | member key => exact (same_object_iff hv.1 hw.1).1 h key
        | item i => exact .none
    | _ => exact fun _ => .none
  · intro h
    obtain ⟨hroot, hstep⟩ := h
    cases hroot with
    | null => rfl
    | bool b => simp [Same, equal]
    | number hsigned => exact decide_eq_true hsigned
    | string s => simp [Same, equal]
    | array =>
        rw [same_array_iff, forall₂_iff_getElem?]
        exact fun i => hstep (.item i)
    | object =>
        rw [UniqueKeys] at hv hw
        rw [same_object_iff hv.1 hw.1]
        exact fun key => hstep (.member key)

/-! ### All the way down -/

theorem sizeOf_step?_lt {step : Step} (h : v.step? step = some w) : sizeOf w < sizeOf v := by
  cases v with
  | object members =>
      cases step with
      | member key =>
          have hmember := Json.sizeOf_get?_lt h
          rw [Json.object.sizeOf_spec]
          omega
      | item i => cases h
  | array items =>
      cases step with
      | member key => cases h
      | item i =>
          have hitem := List.sizeOf_lt_of_mem (List.mem_of_getElem? h)
          rw [Json.array.sizeOf_spec]
          omega
  | _ => cases h

theorem rel_bind {α β : Type} {R : α → α → Prop} {S : β → β → Prop} {o o' : Option α}
    {f : α → Option β} (h : Option.Rel R o o')
    (hf : ∀ a a', o = some a → o' = some a' → R a a' → Option.Rel S (f a) (f a')) :
    Option.Rel S (o.bind f) (o'.bind f) := by
  cases h with
  | none => exact .none
  | some hpair => exact hf _ _ rfl rfl hpair

theorem rel_at?_of_same (hv : v.UniqueKeys) (hw : w.UniqueKeys) (h : Same v w)
    (place : List Step) : Option.Rel SameRoot (v.at? place) (w.at? place) := by
  induction place generalizing v w with
  | nil => exact .some (sameRoot_of_same h)
  | cons step rest ih =>
      exact rel_bind (((same_iff_step hv hw).1 h).2 step) fun _ _ hv' hw' hsame =>
        ih (hv.step? hv') (hw.step? hw') hsame

/-- Values are equal when the same places are in both, with the same root there. -/
theorem same_of_rel_at? {v w : Json} (hv : v.UniqueKeys) (hw : w.UniqueKeys)
    (h : ∀ place, Option.Rel SameRoot (v.at? place) (w.at? place)) : Same v w := by
  refine (same_iff_step hv hw).2 ⟨?_, fun step => ?_⟩
  · cases h [] with
    | some hroot => exact hroot
  · have hbelow : ∀ rest, Option.Rel SameRoot ((v.step? step).bind fun next => next.at? rest)
        ((w.step? step).bind fun next => next.at? rest) := fun rest => h (step :: rest)
    cases hv' : v.step? step with
    | none =>
        rw [hv'] at hbelow
        cases hw' : w.step? step with
        | none => exact .none
        | some w' =>
            rw [hw'] at hbelow
            exact nomatch hbelow []
    | some v' =>
        rw [hv'] at hbelow
        cases hw' : w.step? step with
        | none =>
            rw [hw'] at hbelow
            exact nomatch hbelow []
        | some w' =>
            rw [hw'] at hbelow
            have := sizeOf_step?_lt hv'
            exact .some (same_of_rel_at? (hv.step? hv') (hw.step? hw') hbelow)
termination_by sizeOf v

/-- Values are equal exactly when the same stands at the same places. -/
theorem same_iff_at? (hv : v.UniqueKeys) (hw : w.UniqueKeys) :
    Same v w ↔ ∀ place, Option.Rel SameRoot (v.at? place) (w.at? place) :=
  ⟨rel_at?_of_same hv hw, same_of_rel_at? hv hw⟩

/-! ### An equivalence -/

namespace SameRoot

theorem refl (v : Json) : SameRoot v v := by
  cases v with
  | null => exact .null
  | bool b => exact .bool b
  | number n => exact .number rfl
  | string s => exact .string s
  | array items => exact .array _ _
  | object members => exact .object _ _

theorem symm (h : SameRoot v w) : SameRoot w v := by
  cases h with
  | null => exact .null
  | bool b => exact .bool b
  | number h => exact .number h.symm
  | string s => exact .string s
  | array => exact .array _ _
  | object => exact .object _ _

theorem trans (h : SameRoot v w) (h' : SameRoot w x) : SameRoot v x := by
  cases h with
  | number h =>
      cases h' with
      | number h' => exact .number (h.trans h')
  | array =>
      cases h' with
      | array => exact .array _ _
  | object =>
      cases h' with
      | object => exact .object _ _
  | _ => exact h'

end SameRoot

theorem Same.refl (hv : v.UniqueKeys) : Same v v := by
  refine (same_iff_at? hv hv).2 fun place => ?_
  cases v.at? place with
  | none => exact .none
  | some part => exact .some (.refl part)

theorem Same.symm (hv : v.UniqueKeys) (hw : w.UniqueKeys) (h : Same v w) : Same w v := by
  refine (same_iff_at? hw hv).2 fun place => ?_
  have hplace := (same_iff_at? hv hw).1 h place
  generalize v.at? place = left, w.at? place = right at hplace ⊢
  cases hplace with
  | none => exact .none
  | some hroot => exact .some hroot.symm

theorem Same.trans (hv : v.UniqueKeys) (hw : w.UniqueKeys) (hx : x.UniqueKeys) (h : Same v w)
    (h' : Same w x) : Same v x := by
  refine (same_iff_at? hv hx).2 fun place => ?_
  have hplace := (same_iff_at? hv hw).1 h place
  have hplace' := (same_iff_at? hw hx).1 h' place
  generalize v.at? place = left, w.at? place = middle, x.at? place = right at hplace hplace' ⊢
  cases hplace with
  | none =>
      cases hplace' with
      | none => exact .none
  | some hroot =>
      cases hplace' with
      | some hroot' => exact .some (hroot.trans hroot')

theorem same_equivalence : Equivalence fun v w : { v : Json // v.UniqueKeys } => Same v.1 w.1 where
  refl v := .refl v.2
  symm := fun {v w} => .symm v.2 w.2
  trans := fun {v w x} => .trans v.2 w.2 x.2

/-! ### The order of members -/

/-- One value becomes the other when members of objects in it change places. -/
inductive Reordered : Json → Json → Prop where
  | refl (v : Json) : Reordered v v
  | members {members members' : Table Json} (h : members.Perm members') :
      Reordered (.object members) (.object members')
  | item {v w : Json} (front back : List Json) (h : Reordered v w) :
      Reordered (.array (front ++ v :: back)) (.array (front ++ w :: back))
  | member {v w : Json} (front back : Table Json) (key : String) (h : Reordered v w) :
      Reordered (.object (front ++ (key, v) :: back)) (.object (front ++ (key, w) :: back))
  | trans {v w x : Json} (h : Reordered v w) (h' : Reordered w x) : Reordered v x

theorem uniqueKeysItems_iff : UniqueKeysItems items ↔ ∀ item ∈ items, item.UniqueKeys := by
  induction items with
  | nil => simp [UniqueKeysItems]
  | cons v rest ih => rw [UniqueKeysItems, ih, List.forall_mem_cons]

theorem uniqueKeysMembers_iff :
    UniqueKeysMembers members ↔ ∀ entry ∈ members, entry.2.UniqueKeys := by
  induction members with
  | nil => simp [UniqueKeysMembers]
  | cons entry rest ih => rw [UniqueKeysMembers, ih, List.forall_mem_cons]

theorem same_object_of_mem {members' : Table Json} (h' : Table.Distinct members')
    (hlength : members.length = members'.length)
    (h : ∀ entry ∈ members, ∃ w, (entry.1, w) ∈ members' ∧ Same entry.2 w) :
    Same (.object members) (.object members') := by
  rw [Same, equal, Bool.and_eq_true, beq_iff_eq, foundIn_iff]
  refine ⟨hlength, fun entry hentry => ?_⟩
  obtain ⟨w, hw, hsame⟩ := h entry hentry
  exact ⟨w, Table.get?_of_mem h' hw, hsame⟩

namespace Reordered

theorem uniqueKeys (h : Reordered v w) (hv : v.UniqueKeys) : w.UniqueKeys := by
  induction h with
  | refl => exact hv
  | members h =>
      rw [UniqueKeys, uniqueKeysMembers_iff] at hv ⊢
      exact ⟨(h.map Prod.fst).nodup hv.1, fun entry hentry => hv.2 entry (h.mem_iff.2 hentry)⟩
  | item front back _ ih =>
      rw [UniqueKeys, uniqueKeysItems_iff, List.forall_mem_append, List.forall_mem_cons] at hv ⊢
      exact ⟨hv.1, ih hv.2.1, hv.2.2⟩
  | member front back key _ ih =>
      rw [UniqueKeys, uniqueKeysMembers_iff, List.forall_mem_append, List.forall_mem_cons] at hv ⊢
      refine ⟨?_, hv.2.1, ih hv.2.2.1, hv.2.2.2⟩
      have hdistinct := hv.1
      rwa [Table.Distinct, Table.keys, List.map_append, List.map_cons] at hdistinct ⊢
  | trans _ _ ih ih' => exact ih' (ih hv)

theorem same (h : Reordered v w) (hv : v.UniqueKeys) : Same v w := by
  induction h with
  | refl => exact .refl hv
  | members h =>
      have hw := (Reordered.members h).uniqueKeys hv
      rw [UniqueKeys, uniqueKeysMembers_iff] at hv hw
      exact same_object_of_mem hw.1 h.length_eq fun entry hentry =>
        ⟨entry.2, h.mem_iff.1 hentry, .refl (hv.2 entry hentry)⟩
  | item front back _ ih =>
      rw [UniqueKeys, uniqueKeysItems_iff, List.forall_mem_append, List.forall_mem_cons] at hv
      rw [same_array_iff]
      have hfront := List.forall₂_same.2 fun item hitem => Same.refl (hv.1 item hitem)
      have hback := List.forall₂_same.2 fun item hitem => Same.refl (hv.2.2 item hitem)
      exact List.rel_append hfront (.cons (ih hv.2.1) hback)
  | @member v w front back key h ih =>
      have hw := (Reordered.member front back key h).uniqueKeys hv
      rw [UniqueKeys, uniqueKeysMembers_iff, List.forall_mem_append, List.forall_mem_cons] at hv
      rw [UniqueKeys] at hw
      refine same_object_of_mem hw.1 ?_ ?_
      · rw [List.length_append, List.length_append, List.length_cons, List.length_cons]
      · rw [List.forall_mem_append, List.forall_mem_cons]
        refine ⟨fun entry hentry => ?_, ⟨w, ?_, ih hv.2.2.1⟩, fun entry hentry => ?_⟩
        · exact ⟨entry.2, List.mem_append_left _ hentry, .refl (hv.2.1 entry hentry)⟩
        · exact List.mem_append_right _ List.mem_cons_self
        · exact ⟨entry.2, List.mem_append_right _ (List.mem_cons_of_mem _ hentry),
            .refl (hv.2.2.2 entry hentry)⟩
  | trans h h' ih ih' =>
      have hw := h.uniqueKeys hv
      exact (ih hv).trans hv hw (h'.uniqueKeys hw) (ih' hw)

theorem same_iff {v' w' : Json} (hv : v.UniqueKeys) (hw : w.UniqueKeys) (h : Reordered v v')
    (h' : Reordered w w') : Same v' w' ↔ Same v w := by
  have hv' := h.uniqueKeys hv
  have hw' := h'.uniqueKeys hw
  constructor
  · intro hsame
    have hforth := (h.same hv).trans hv hv' hw' hsame
    exact hforth.trans hv hw' hw ((h'.same hw).symm hw hw')
  · intro hsame
    have hforth := ((h.same hv).symm hv hv').trans hv' hv hw hsame
    exact hforth.trans hv' hw hw' (h'.same hw)

end Reordered

end HyperSchema.Json
