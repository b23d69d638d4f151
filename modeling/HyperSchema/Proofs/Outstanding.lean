/-!
# What is outstanding

Several loops here take the members of a fixed list one after the other and remember which ones they
have taken. Such a loop comes to an end because what is outstanding gets less.
-/

namespace HyperSchema

variable {α : Type} [DecidableEq α] {all taken taken' : List α} {a : α}

/-- How many members of a list have not been taken. -/
def outstanding (all taken : List α) : Nat := all.countP (fun a => !taken.contains a)

theorem outstanding_le (all taken : List α) : outstanding all taken ≤ all.length :=
  List.countP_le_length

theorem outstanding_mono (hsub : ∀ b ∈ taken, b ∈ taken') :
    outstanding all taken' ≤ outstanding all taken := by
  refine List.countP_mono_left (fun b _ h => ?_)
  rw [Bool.not_eq_true', List.contains_eq_mem, decide_eq_false_iff_not] at h ⊢
  exact fun hb => h (hsub b hb)

theorem outstanding_lt (hsub : ∀ b ∈ taken, b ∈ taken') (hall : a ∈ all) (hfresh : a ∉ taken)
    (htaken : a ∈ taken') : outstanding all taken' < outstanding all taken := by
  induction all with
  | nil => cases hall
  | cons b rest ih =>
      have hrest : outstanding rest taken' ≤ outstanding rest taken := outstanding_mono hsub
      simp only [outstanding, List.countP_cons] at hrest ih ⊢
      by_cases hb : b ∈ taken
      · have hmem : a ∈ rest := by
          rcases List.mem_cons.1 hall with rfl | hmem
          · exact absurd hb hfresh
          · exact hmem
        have hlt := ih hmem
        simp only [List.contains_eq_mem, hb, hsub b hb, decide_true, Bool.not_true,
          Bool.false_eq_true, if_false] at hlt ⊢
        exact hlt
      · by_cases hb' : b ∈ taken'
        · simp only [List.contains_eq_mem, hb, hb', decide_true, decide_false, Bool.not_true,
            Bool.not_false, Bool.false_eq_true, if_false, if_true] at hrest ⊢
          omega
        · have hmem : a ∈ rest := by
            rcases List.mem_cons.1 hall with rfl | hmem
            · exact absurd htaken hb'
            · exact hmem
          have hlt := ih hmem
          simp only [List.contains_eq_mem, hb, hb', decide_false, Bool.not_false, if_true] at hlt ⊢
          omega

theorem outstanding_cons_lt (hall : a ∈ all) (hfresh : a ∉ taken) :
    outstanding all (a :: taken) < outstanding all taken :=
  outstanding_lt (fun _ hb => List.mem_cons_of_mem a hb) hall hfresh List.mem_cons_self

end HyperSchema
