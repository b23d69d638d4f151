import HyperSchema.Table
import Mathlib.Data.List.Permutation

/-!
# Tables with distinct keys

Writing to a table keeps its keys distinct. Tables with distinct keys are determined by what is
found in them, up to the order of the entries.
-/

namespace HyperSchema.Table

variable {α : Type u} {t t' : Table α} {key other : String} {x y : α}

/-! ### What is found -/

theorem get?_insert (t : Table α) (key : String) (x : α) (other : String) :
    get? (insert t key x) other = if other = key then some x else get? t other := by
  split
  · next h => rw [h, get?_insert_self]
  · next h => exact get?_insert_of_ne t x (Ne.symm h)

theorem get?_eq_none_of_not_has (h : ¬has t key = true) : get? t key = none := by
  rwa [has, Option.isSome_iff_ne_none, not_not] at h

theorem get?_insertNew (t : Table α) (key : String) (x : α) (other : String) :
    get? (insertNew t key x) other
      = (get? t other).or (if other = key then some x else none) := by
  rw [insertNew]
  split
  · next hthere =>
    split
    · next heq =>
      obtain ⟨y, hy⟩ := Option.isSome_iff_exists.1 hthere
      rw [heq, hy, Option.some_or]
    · rw [Option.or_none]
  · next hfresh =>
    rw [get?_insert]
    split
    · next heq => rw [heq, get?_eq_none_of_not_has hfresh, Option.none_or]
    · rw [Option.or_none]

theorem get?_eq_none_iff : get? t key = none ↔ key ∉ keys t := by
  induction t with
  | nil => exact iff_of_true rfl List.not_mem_nil
  | cons first rest ih =>
      obtain ⟨k, y⟩ := first
      rw [get?_cons, keys, List.map_cons, List.mem_cons, not_or]
      split
      · next h => exact iff_of_false (fun h => nomatch h) (fun hne => hne.1 h.symm)
      · next h =>
        rw [ih]
        exact ⟨fun hrest => ⟨Ne.symm h, hrest⟩, fun hboth => hboth.2⟩

theorem mem_keys_iff : key ∈ keys t ↔ ∃ x, get? t key = some x := by
  rw [← Option.isSome_iff_exists, Option.isSome_iff_ne_none, ne_eq, get?_eq_none_iff, not_not]

theorem get?_map (f : String → α → β) (t : Table α) (key : String) :
    get? (t.map (fun entry => (entry.1, f entry.1 entry.2))) key = (get? t key).map (f key) := by
  induction t with
  | nil => rfl
  | cons first rest ih =>
      rw [List.map_cons, get?_cons, get?_cons, ih]
      split
      · next h => rw [h, Option.map_some]
      · rfl

/-! ### Which entries there are -/

theorem mem_of_mem_insert {entry : String × α} (h : entry ∈ insert t key x) :
    entry = (key, x) ∨ entry ∈ t := by
  induction t with
  | nil => exact .inl (List.mem_singleton.1 h)
  | cons first rest ih =>
      obtain ⟨k, y⟩ := first
      rw [insert] at h
      split at h
      · rcases List.mem_cons.1 h with h | h
        · exact .inl h
        · exact .inr (List.mem_cons_of_mem _ h)
      · rcases List.mem_cons.1 h with rfl | h
        · exact .inr List.mem_cons_self
        · rcases ih h with h | h
          · exact .inl h
          · exact .inr (List.mem_cons_of_mem _ h)

theorem mem_of_mem_insertNew {entry : String × α} (h : entry ∈ insertNew t key x) :
    entry = (key, x) ∨ entry ∈ t := by
  rw [insertNew] at h
  split at h
  · exact .inr h
  · exact mem_of_mem_insert h

theorem insert_of_fresh (h : get? t key = none) : insert t key x = t ++ [(key, x)] := by
  induction t with
  | nil => rfl
  | cons first rest ih =>
      obtain ⟨k, y⟩ := first
      rw [get?_cons] at h
      split at h
      · cases h
      · next hk => rw [insert, if_neg hk, ih h, List.cons_append]

theorem erase_of_fresh (h : get? t key = none) : erase t key = t := by
  induction t with
  | nil => rfl
  | cons first rest ih =>
      obtain ⟨k, y⟩ := first
      rw [get?_cons] at h
      split at h
      · cases h
      · next hk => rw [erase, if_neg hk, ih h]

theorem keys_insert_of_get? (h : get? t key = some y) : keys (insert t key x) = keys t := by
  induction t with
  | nil => cases h
  | cons first rest ih =>
      obtain ⟨k, z⟩ := first
      rw [get?_cons] at h
      rw [insert]
      split at h
      · next hk => rw [if_pos hk, keys, keys, List.map_cons, List.map_cons, hk]
      · next hk =>
        rw [if_neg hk, keys, List.map_cons, ← keys, ih h]
        rfl

theorem insert_of_get? (h : get? t key = some x) : insert t key x = t := by
  induction t with
  | nil => cases h
  | cons entry rest ih =>
      obtain ⟨k, y⟩ := entry
      rw [get?_cons] at h
      rw [insert]
      split
      · next hk =>
        rw [if_pos hk] at h
        rw [hk, Option.some.inj h]
      · next hk =>
        rw [if_neg hk] at h
        rw [ih h]

theorem insert_insert (t : Table α) (key : String) (x y : α) :
    insert (insert t key x) key y = insert t key y := by
  induction t with
  | nil => exact if_pos rfl
  | cons entry rest ih =>
      obtain ⟨k, z⟩ := entry
      rw [insert, insert]
      split
      · exact if_pos rfl
      · next hk => rw [insert, if_neg hk, ih]

theorem insert_comm (h : has t key = true) (hne : key ≠ other) (x y : α) :
    insert (insert t key x) other y = insert (insert t other y) key x := by
  induction t with
  | nil => cases h
  | cons first rest ih =>
      obtain ⟨k, z⟩ := first
      by_cases hkey : k = key
      · have hother : k ≠ other := hkey ▸ hne
        rw [insert, if_pos hkey, insert, if_neg hne, insert, if_neg hother, insert, if_pos hkey]
      · rw [has, get?_cons, if_neg hkey] at h
        by_cases hother : k = other
        · rw [insert, if_neg hkey, insert, if_pos hother, insert, if_pos hother, insert,
            if_neg (Ne.symm hne)]
        · rw [insert, if_neg hkey, insert, if_neg hother, insert, if_neg hother, insert,
            if_neg hkey, ih h]

theorem Distinct.insert (h : Distinct t) (key : String) (x : α) :
    Distinct (Table.insert t key x) := by
  rw [Distinct]
  cases hget : get? t key with
  | some y =>
      rw [keys_insert_of_get? hget]
      exact h
  | none =>
      rw [insert_of_fresh hget, keys, List.map_append]
      refine List.nodup_append.2 ⟨h, List.nodup_singleton _, fun a ha b hb => ?_⟩
      obtain rfl := List.mem_singleton.1 hb
      intro heq
      subst heq
      exact get?_eq_none_iff.1 hget ha

/-! ### Distinct keys -/

theorem get?_of_mem (hdistinct : Distinct t) (h : (key, x) ∈ t) : get? t key = some x := by
  induction t with
  | nil => cases h
  | cons first rest ih =>
      obtain ⟨k, y⟩ := first
      obtain ⟨hfresh, hrest⟩ := List.nodup_cons.1 hdistinct
      rw [get?_cons]
      rcases List.mem_cons.1 h with heq | h
      · obtain ⟨rfl, rfl⟩ := Prod.mk.inj heq
        rw [if_pos rfl]
      · have hkey : key ∈ keys rest := List.mem_map_of_mem (f := Prod.fst) h
        have hne : k ≠ key := fun heq => hfresh (heq ▸ hkey)
        rw [if_neg hne]
        exact ih hrest h

theorem get?_eq_some_iff (hdistinct : Distinct t) : get? t key = some x ↔ (key, x) ∈ t :=
  ⟨mem_of_get?, get?_of_mem hdistinct⟩

theorem get?_eq_of_perm (hdistinct : Distinct t) (h : t.Perm t') (key : String) :
    get? t' key = get? t key := by
  have hdistinct' : Distinct t' := (h.map Prod.fst).nodup hdistinct
  apply Option.ext
  intro x
  rw [get?_eq_some_iff hdistinct, get?_eq_some_iff hdistinct', h.mem_iff]

theorem length_eq_of_get?_eq (h : Distinct t) (h' : Distinct t')
    (hget : ∀ key, get? t key = get? t' key) : t.length = t'.length := by
  have hkeys : (keys t).Perm (keys t') := by
    apply (List.perm_ext_iff_of_nodup h h').2
    intro key
    rw [← not_iff_not, ← get?_eq_none_iff, ← get?_eq_none_iff, hget]
  have hlength := hkeys.length_eq
  rwa [keys, keys, List.length_map, List.length_map] at hlength

/-- Tables of one length correspond key by key as soon as every entry of the one has a counterpart
in the other. -/
theorem rel_get?_iff {β : Type u} {R : α → β → Prop} {t : Table α} {t' : Table β} (h : Distinct t)
    (h' : Distinct t') :
    (t.length = t'.length ∧ ∀ entry ∈ t, ∃ y, get? t' entry.1 = some y ∧ R entry.2 y)
      ↔ ∀ key, Option.Rel R (get? t key) (get? t' key) := by
  constructor
  · intro hfound key
    obtain ⟨hlength, hfound⟩ := hfound
    have hsub : keys t ⊆ keys t' := by
      intro k hk
      obtain ⟨entry, hentry, rfl⟩ := List.mem_map.1 hk
      obtain ⟨y, hy, -⟩ := hfound entry hentry
      exact mem_keys_iff.2 ⟨y, hy⟩
    -- no key of the other table is left over, as it has no more of them
    have hperm : (keys t).Perm (keys t') := by
      refine (List.subperm_of_subset h hsub).perm_of_length_le ?_
      rw [keys, keys, List.length_map, List.length_map, hlength]
    cases hget : get? t key with
    | some x =>
        obtain ⟨y, hy, hxy⟩ := hfound _ (mem_of_get? hget)
        rw [hy]
        exact .some hxy
    | none =>
        rw [get?_eq_none_iff, hperm.mem_iff, ← get?_eq_none_iff] at hget
        rw [hget]
        exact .none
  · intro hrel
    have hkeys : ∀ key, key ∈ keys t ↔ key ∈ keys t' := by
      intro key
      rw [mem_keys_iff, mem_keys_iff]
      have hpair := hrel key
      generalize get? t key = left, get? t' key = right at hpair
      cases hpair with
      | some => exact iff_of_true ⟨_, rfl⟩ ⟨_, rfl⟩
      | none => exact iff_of_false (by simp) (by simp)
    constructor
    · have hlength := ((List.perm_ext_iff_of_nodup h h').2 hkeys).length_eq
      rwa [keys, keys, List.length_map, List.length_map] at hlength
    · intro entry hentry
      have hpair := hrel entry.1
      rw [get?_of_mem h hentry] at hpair
      generalize get? t' entry.1 = found at hpair ⊢
      cases hpair with
      | some hxy => exact ⟨_, rfl, hxy⟩

end HyperSchema.Table
