import HyperSchema.Proofs.Json.Equal
import HyperSchema.Proofs.Schema.Assertions

/-!
# Items that occur twice

The search for an item that occurs twice goes through the pairs of positions in lexicographic order
and stops at the first pair with equal items. Equality by value is an equivalence, so whether there
is such a pair does not depend on the order of the items.
-/

namespace HyperSchema.Json

variable {v w : Json} {items : List Json} {i j : ℕ}

def EqualAt (items : List Json) (i j : ℕ) : Prop :=
  ∃ v w, items[i]? = some v ∧ items[j]? = some w ∧ Same v w

/-! ### The first pair -/

theorem firstEqual?_add (v : Json) (items : List Json) (i k : ℕ) :
    firstEqual? v items (i + k) = (firstEqual? v items i).map (· + k) := by
  induction items generalizing i with
  | nil => rfl
  | cons w rest ih =>
      rw [firstEqual?, firstEqual?]
      split
      · rfl
      · rw [Nat.add_right_comm, ih]

theorem firstDuplicates?_add (items : List Json) (i k : ℕ) :
    firstDuplicates? items (i + k)
      = (firstDuplicates? items i).map (fun pair => (pair.1 + k, pair.2 + k)) := by
  induction items generalizing i with
  | nil => rfl
  | cons w rest ih =>
      rw [firstDuplicates?, firstDuplicates?, Nat.add_right_comm, firstEqual?_add, ih]
      cases firstEqual? w rest (i + 1) <;> rfl

theorem firstEqual?_eq_some_iff : firstEqual? v items 0 = some j
    ↔ (∃ w, items[j]? = some w ∧ Same v w) ∧ ∀ k < j, ∀ w, items[k]? = some w → ¬Same v w := by
  induction items generalizing j with
  | nil => simp [firstEqual?]
  | cons w rest ih =>
      rw [firstEqual?]
      by_cases hequal : equal v w = true
      · rw [if_pos hequal]
        constructor
        · intro h
          obtain rfl := Option.some.inj h
          exact ⟨⟨w, rfl, hequal⟩, fun k hk => absurd hk (Nat.not_lt_zero k)⟩
        · intro h
          obtain ⟨-, hearlier⟩ := h
          cases j with
          | zero => rfl
          | succ j => exact absurd hequal (hearlier 0 (Nat.succ_pos j) w rfl)
      · rw [if_neg hequal, firstEqual?_add]
        cases j with
        | zero =>
            refine iff_of_false (by simp) fun h => ?_
            obtain ⟨⟨w', hw', hsame⟩, -⟩ := h
            obtain rfl := Option.some.inj hw'
            exact hequal hsame
        | succ j =>
            have hshift : (firstEqual? v rest 0).map (· + 1) = some (j + 1)
                ↔ firstEqual? v rest 0 = some j := by simp
            rw [hshift, ih]
            refine and_congr_right fun _ => ⟨fun h k hk w' hw' => ?_, fun h k hk w' hw' => ?_⟩
            · cases k with
              | zero => exact Option.some.inj hw' ▸ hequal
              | succ k => exact h k (Nat.lt_of_succ_lt_succ hk) w' hw'
            · exact h (k + 1) (Nat.succ_lt_succ hk) w' hw'

/-- The positions come first in lexicographic order among those with equal items. -/
structure FirstEqualAt (items : List Json) (i j : ℕ) : Prop where
  lt : i < j
  equal : EqualAt items i j
  first : ∀ i' j', i' < j' → EqualAt items i' j' → i < i' ∨ i = i' ∧ j ≤ j'

theorem FirstEqualAt.of_firstEqual? {rest : List Json} (h : firstEqual? v rest 0 = some j) :
    FirstEqualAt (v :: rest) 0 (j + 1) := by
  obtain ⟨⟨w, hw, hsame⟩, hearlier⟩ := firstEqual?_eq_some_iff.1 h
  refine ⟨Nat.succ_pos j, ⟨v, w, rfl, hw, hsame⟩, fun i' j' hlt hequal => ?_⟩
  cases i' with
  | succ i' => exact .inl (Nat.succ_pos i')
  | zero =>
      obtain ⟨k, rfl⟩ := Nat.exists_eq_succ_of_ne_zero hlt.ne'
      obtain ⟨v', w', hv', hw', hsame'⟩ := hequal
      obtain rfl := Option.some.inj hv'
      refine .inr ⟨rfl, Nat.succ_le_succ (Nat.le_of_not_lt fun hk => ?_)⟩
      exact hearlier k hk w' hw' hsame'

theorem FirstEqualAt.cons {rest : List Json} (h : FirstEqualAt rest i j)
    (hnone : ∀ w ∈ rest, Json.equal v w = false) : FirstEqualAt (v :: rest) (i + 1) (j + 1) := by
  refine ⟨Nat.succ_lt_succ h.lt, h.equal, fun i' j' hlt hequal => ?_⟩
  obtain ⟨k, rfl⟩ := Nat.exists_eq_succ_of_ne_zero (Nat.ne_zero_of_lt hlt)
  cases i' with
  | zero =>
      obtain ⟨v', w', hv', hw', hsame⟩ := hequal
      obtain rfl := Option.some.inj hv'
      rw [Same, hnone w' (List.mem_of_getElem? hw')] at hsame
      cases hsame
  | succ i' =>
      have hrest := h.first i' k (Nat.lt_of_succ_lt_succ hlt) hequal
      omega

theorem firstEqualAt_of_firstDuplicates? (h : firstDuplicates? items 0 = some (i, j)) :
    FirstEqualAt items i j := by
  induction items generalizing i j with
  | nil => cases h
  | cons v rest ih =>
      rw [firstDuplicates?, firstEqual?_add, firstDuplicates?_add] at h
      cases hfirst : firstEqual? v rest 0 with
      | some k =>
          rw [hfirst] at h
          obtain ⟨rfl, rfl⟩ := Prod.mk.inj (Option.some.inj h)
          exact .of_firstEqual? hfirst
      | none =>
          rw [hfirst] at h
          obtain ⟨pair, hpair, heq⟩ := Option.map_eq_some_iff.1 h
          obtain ⟨rfl, rfl⟩ := Prod.mk.inj heq
          exact (ih hpair).cons (firstEqual?_eq_none_iff.1 hfirst)

theorem FirstEqualAt.unique {i' j' : ℕ} (h : FirstEqualAt items i j)
    (h' : FirstEqualAt items i' j') : i = i' ∧ j = j' := by
  have hforth := h.first i' j' h'.lt h'.equal
  have hback := h'.first i j h.lt h.equal
  omega

theorem EqualAt.firstDuplicates?_ne_none (hlt : i < j) (h : EqualAt items i j) :
    firstDuplicates? items 0 ≠ none := by
  obtain ⟨v, w, hv, hw, hsame⟩ := h
  obtain ⟨hi, rfl⟩ := List.getElem?_eq_some_iff.1 hv
  obtain ⟨hj, rfl⟩ := List.getElem?_eq_some_iff.1 hw
  rw [ne_eq, firstDuplicates?_eq_none_iff, List.pairwise_iff_getElem]
  intro hpairwise
  rw [Same, hpairwise i j hi hj hlt] at hsame
  cases hsame

theorem firstDuplicates?_eq_some_iff :
    firstDuplicates? items 0 = some (i, j) ↔ FirstEqualAt items i j := by
  refine ⟨firstEqualAt_of_firstDuplicates?, fun h => ?_⟩
  obtain ⟨pair, hpair⟩ := Option.ne_none_iff_exists'.1 (h.equal.firstDuplicates?_ne_none h.lt)
  obtain ⟨rfl, rfl⟩ := (firstEqualAt_of_firstDuplicates? hpair).unique h
  exact hpair

/-! ### The order of the items -/

theorem EqualAt.symm (hkeys : ∀ item ∈ items, item.UniqueKeys) (h : EqualAt items i j) :
    EqualAt items j i := by
  obtain ⟨v, w, hv, hw, hsame⟩ := h
  exact ⟨w, v, hw, hv, hsame.symm (hkeys v (List.mem_of_getElem? hv))
    (hkeys w (List.mem_of_getElem? hw))⟩

theorem firstDuplicates?_eq_none_iff_of_perm {items' : List Json}
    (hkeys : ∀ item ∈ items, item.UniqueKeys) (hperm : items.Perm items') :
    firstDuplicates? items' 0 = none ↔ firstDuplicates? items 0 = none := by
  -- among values without repeated keys, being different is symmetric
  have hdiffers : ∀ l : List Json, (∀ item ∈ l, item.UniqueKeys) →
      (l.Pairwise (fun v w => equal v w = false)
        ↔ l.Pairwise (fun v w => v.UniqueKeys → w.UniqueKeys → ¬Same v w)) := by
    intro l hl
    refine List.Pairwise.iff_of_mem fun {v w} hv hw => ?_
    rw [Same, Bool.not_eq_true]
    exact ⟨fun h _ _ => h, fun h => h (hl v hv) (hl w hw)⟩
  rw [firstDuplicates?_eq_none_iff, firstDuplicates?_eq_none_iff, hdiffers items hkeys,
    hdiffers items' fun item hitem => hkeys item (hperm.mem_iff.2 hitem)]
  refine (hperm.pairwise_iff fun {v w} h hw hv => ?_).symm
  exact fun hsame => h hv hw (hsame.symm hw hv)

/-- Equality by value is an equivalence that the order of members does not matter to, and that goes
item by item and key by key. A list has items that occur twice exactly when two of them are equal,
in whatever order they stand, and the pair that is reported comes first. -/
theorem same_is_equivalence :
    (Equivalence fun v w : { v : Json // v.UniqueKeys } => Same v.1 w.1)
      ∧ (∀ v v' w w' : Json, v.UniqueKeys → w.UniqueKeys → Reordered v v' → Reordered w w' →
        (Same v' w' ↔ Same v w))
      ∧ (∀ items items', Same (.array items) (.array items') ↔ List.Forall₂ Same items items')
      ∧ (∀ members members', (Json.object members).UniqueKeys → (Json.object members').UniqueKeys →
        (Same (.object members) (.object members')
          ↔ ∀ key, Option.Rel Same (Table.get? members key) (Table.get? members' key)))
      ∧ ∀ (unicode : Bool) (items : List Json), (∀ item ∈ items, item.UniqueKeys) →
        (Assertion.violation? unicode .uniqueItems (.array items) ≠ none
          ↔ ∃ i j, i ≠ j ∧ EqualAt items i j)
        ∧ (∀ items', items.Perm items' →
          (Assertion.violation? unicode .uniqueItems (.array items') = none
            ↔ Assertion.violation? unicode .uniqueItems (.array items) = none))
        ∧ ∀ i j, Assertion.violation? unicode .uniqueItems (.array items)
            = some (.duplicateItems i j) ↔ FirstEqualAt items i j := by
  have hviolation : ∀ unicode items, Assertion.violation? unicode .uniqueItems (.array items)
      = (firstDuplicates? items 0).map fun pair => .duplicateItems pair.1 pair.2 :=
    fun _ _ => rfl
  refine ⟨same_equivalence, fun v v' w w' hv hw h h' => h.same_iff hv hw h',
    fun items items' => same_array_iff, fun members members' h h' => ?_,
    fun unicode items hkeys => ⟨?_, fun items' hperm => ?_, fun i j => ?_⟩⟩
  · rw [UniqueKeys] at h h'
    exact same_object_iff h.1 h'.1
  · rw [hviolation, ne_eq, Option.map_eq_none_iff]
    constructor
    · intro hfound
      obtain ⟨⟨i, j⟩, hpair⟩ := Option.ne_none_iff_exists'.1 hfound
      have hfirst := firstEqualAt_of_firstDuplicates? hpair
      exact ⟨i, j, hfirst.lt.ne, hfirst.equal⟩
    · intro htwice
      obtain ⟨i, j, hne, hequal⟩ := htwice
      rcases Nat.lt_or_gt_of_ne hne with hlt | hgt
      · exact hequal.firstDuplicates?_ne_none hlt
      · exact (hequal.symm hkeys).firstDuplicates?_ne_none hgt
  · rw [hviolation, hviolation, Option.map_eq_none_iff, Option.map_eq_none_iff]
    exact firstDuplicates?_eq_none_iff_of_perm hkeys hperm
  · rw [hviolation, ← firstDuplicates?_eq_some_iff, Option.map_eq_some_iff]
    constructor
    · intro h
      obtain ⟨⟨i', j'⟩, hpair, heq⟩ := h
      obtain ⟨rfl, rfl⟩ := Violation.duplicateItems.inj heq
      exact hpair
    · exact fun h => ⟨_, h, rfl⟩

def forth : Table Json := [("a", .number (.int 1)), ("b", .array [.object []])]

def back : Table Json := [("b", .array [.object []]), ("a", .number (.int 1))]

theorem same_is_equivalence_swapped :
    (Json.object forth).UniqueKeys ∧ Reordered (.object forth) (.object back)
      ∧ (Same (.object forth) (.object back) ↔ Same (.object forth) (.object forth))
      ∧ (Assertion.violation? true .uniqueItems (.array [.object forth, .null, .object back])
          = some (.duplicateItems 0 2)
        ↔ FirstEqualAt [.object forth, .null, .object back] 0 2) := by
  have hforth : (Json.object forth).UniqueKeys := by
    simp [forth, UniqueKeys, UniqueKeysMembers, UniqueKeysItems, Table.Distinct, Table.keys]
  have hreordered : Reordered (.object forth) (.object back) := .members (.swap _ _ _)
  have hback := hreordered.uniqueKeys hforth
  obtain ⟨-, horder, -, -, htwice⟩ := same_is_equivalence
  have hitems : ∀ item ∈ [Json.object forth, .null, .object back], item.UniqueKeys := by
    rw [List.forall_mem_cons, List.forall_mem_cons, List.forall_mem_singleton]
    exact ⟨hforth, by simp [UniqueKeys], hback⟩
  exact ⟨hforth, hreordered, horder _ _ _ _ hforth hforth (.refl _) hreordered,
    (htwice true _ hitems).2.2 0 2⟩

end HyperSchema.Json
