import HyperSchema.Validation.Evaluation
import HyperSchema.Validation.Reading

/-!
# One branch for each type

The checks of a schema are sorted into branches by the type of value they concern: types without
checks share a branch, and branches for fewer types go first. Whatever the order, evaluation comes
to the checks of the type of the value.
-/

namespace HyperSchema.Node

variable {checks : List (Kind × List Check)} {found : List (List Kind × List Check)}

/-- Branches hold the given checks, each type with its own, and each serves some type. -/
def Sorted (checks : List (Kind × List Check)) (found : List (List Kind × List Check)) : Prop :=
  (∀ entry ∈ checks, ∃ branch ∈ found, entry.1 ∈ branch.1)
    ∧ (∀ branch ∈ found, ∀ kind ∈ branch.1, (kind, branch.2) ∈ checks)
    ∧ ∀ branch ∈ found, branch.1 ≠ []

theorem mem_addBranch {kind : Kind} {own : List Check} {branch : List Kind × List Check}
    (hmem : branch ∈ addBranch kind own found) {k : Kind} (hk : k ∈ branch.1) :
    (∃ other ∈ found, k ∈ other.1 ∧ other.2 = branch.2) ∨ k = kind ∧ branch.2 = own := by
  induction found with
  | nil =>
      rw [addBranch, List.mem_singleton] at hmem
      subst hmem
      exact .inr ⟨List.mem_singleton.1 hk, rfl⟩
  | cons other rest ih =>
      obtain ⟨kinds, present⟩ := other
      rw [addBranch] at hmem
      split at hmem
      · next hempty =>
        rw [Bool.and_eq_true, List.isEmpty_iff, List.isEmpty_iff] at hempty
        rcases List.mem_cons.1 hmem with rfl | hmem
        · rcases List.mem_append.1 hk with hk | hk
          · exact .inl ⟨(kinds, present), List.mem_cons_self, hk, rfl⟩
          · exact .inr ⟨List.mem_singleton.1 hk, hempty.1.trans hempty.2.symm⟩
        · exact .inl ⟨branch, List.mem_cons_of_mem _ hmem, hk, rfl⟩
      · rcases List.mem_cons.1 hmem with rfl | hmem
        · exact .inl ⟨(kinds, present), List.mem_cons_self, hk, rfl⟩
        · rcases ih hmem with ⟨other, hother, h⟩ | h
          · exact .inl ⟨other, List.mem_cons_of_mem _ hother, h⟩
          · exact .inr h

theorem exists_mem_addBranch (kind : Kind) (own : List Check) :
    ∃ branch ∈ addBranch kind own found, kind ∈ branch.1 := by
  induction found with
  | nil => exact ⟨([kind], own), List.mem_singleton_self _, List.mem_singleton_self _⟩
  | cons other rest ih =>
      obtain ⟨kinds, present⟩ := other
      rw [addBranch]
      split
      · exact ⟨_, List.mem_cons_self, List.mem_append_right _ (List.mem_singleton_self _)⟩
      · obtain ⟨branch, hbranch, hkind⟩ := ih
        exact ⟨branch, List.mem_cons_of_mem _ hbranch, hkind⟩

theorem exists_mem_addBranch_of_mem (kind : Kind) (own : List Check)
    {branch : List Kind × List Check} (hmem : branch ∈ found) {k : Kind} (hk : k ∈ branch.1) :
    ∃ other ∈ addBranch kind own found, k ∈ other.1 := by
  induction found with
  | nil => cases hmem
  | cons other rest ih =>
      obtain ⟨kinds, present⟩ := other
      rw [addBranch]
      split
      · rcases List.mem_cons.1 hmem with rfl | hmem
        · exact ⟨_, List.mem_cons_self, List.mem_append_left _ hk⟩
        · exact ⟨branch, List.mem_cons_of_mem _ hmem, hk⟩
      · rcases List.mem_cons.1 hmem with rfl | hmem
        · exact ⟨_, List.mem_cons_self, hk⟩
        · obtain ⟨other, hother, hkother⟩ := ih hmem
          exact ⟨other, List.mem_cons_of_mem _ hother, hkother⟩

theorem ne_nil_of_mem_addBranch {kind : Kind} {own : List Check}
    (h : ∀ branch ∈ found, branch.1 ≠ []) {branch : List Kind × List Check}
    (hmem : branch ∈ addBranch kind own found) : branch.1 ≠ [] := by
  induction found with
  | nil =>
      rw [addBranch, List.mem_singleton] at hmem
      subst hmem
      exact List.cons_ne_nil _ _
  | cons other rest ih =>
      rw [List.forall_mem_cons] at h
      obtain ⟨kinds, present⟩ := other
      rw [addBranch] at hmem
      split at hmem
      · rcases List.mem_cons.1 hmem with rfl | hmem
        · exact List.append_ne_nil_of_right_ne_nil _ (List.cons_ne_nil _ _)
        · exact h.2 branch hmem
      · rcases List.mem_cons.1 hmem with rfl | hmem
        · exact h.1
        · exact ih h.2 hmem

theorem sorted_addBranch (h : Sorted checks found) (kind : Kind) (own : List Check) :
    Sorted (checks ++ [(kind, own)]) (addBranch kind own found) := by
  refine ⟨?_, ?_, fun branch hbranch => ne_nil_of_mem_addBranch h.2.2 hbranch⟩
  · intro entry hentry
    rcases List.mem_append.1 hentry with hentry | hentry
    · obtain ⟨branch, hbranch, hkind⟩ := h.1 entry hentry
      exact exists_mem_addBranch_of_mem kind own hbranch hkind
    · obtain rfl := List.mem_singleton.1 hentry
      exact exists_mem_addBranch kind own
  · intro branch hbranch k hk
    rcases mem_addBranch hbranch hk with ⟨other, hother, hkother, hchecks⟩ | ⟨rfl, hchecks⟩
    · rw [← hchecks]
      exact List.mem_append_left _ (h.2.1 other hother k hkother)
    · rw [hchecks]
      exact List.mem_append_right _ (List.mem_singleton_self _)

theorem sorted_foldl_addBranch (h : Sorted checks found) (more : List (Kind × List Check)) :
    Sorted (checks ++ more) (more.foldl (fun found e => addBranch e.1 e.2 found) found) := by
  induction more generalizing checks found with
  | nil => rwa [List.append_nil]
  | cons entry rest ih =>
      have hnext := ih (sorted_addBranch h entry.1 entry.2)
      rwa [List.append_assoc, List.singleton_append] at hnext

theorem mem_insertBranch {branch other : List Kind × List Check} :
    other ∈ insertBranch branch found ↔ other = branch ∨ other ∈ found := by
  induction found with
  | nil => simp [insertBranch]
  | cons first rest ih =>
      rw [insertBranch]
      split
      · exact List.mem_cons
      · rw [List.mem_cons, ih, List.mem_cons]
        exact or_left_comm

theorem mem_foldr_insertBranch {branch : List Kind × List Check} :
    branch ∈ found.foldr insertBranch [] ↔ branch ∈ found := by
  induction found with
  | nil => exact Iff.rfl
  | cons first rest ih => rw [List.foldr_cons, mem_insertBranch, ih, List.mem_cons]

theorem sorted_nil : Sorted [] [] := by
  refine ⟨?_, ?_, ?_⟩
  · intro entry hentry
    cases hentry
  · intro branch hbranch
    cases hbranch
  · intro branch hbranch
    cases hbranch

theorem sorted_branches (checks : List (Kind × List Check)) : Sorted checks (branches checks) := by
  have hsorted := sorted_foldl_addBranch sorted_nil checks
  rw [List.nil_append] at hsorted
  refine ⟨?_, ?_, ?_⟩
  · intro entry hentry
    obtain ⟨branch, hbranch, hkind⟩ := hsorted.1 entry hentry
    exact ⟨branch, mem_foldr_insertBranch.2 hbranch, hkind⟩
  · intro branch hbranch
    exact hsorted.2.1 branch (mem_foldr_insertBranch.1 hbranch)
  · intro branch hbranch
    exact hsorted.2.2 branch (mem_foldr_insertBranch.1 hbranch)

theorem exists_checks_of_mem_branches {branch : List Kind × List Check}
    (hmem : branch ∈ branches checks) : ∃ kind, (kind, branch.2) ∈ checks := by
  obtain ⟨-, hown, hserves⟩ := sorted_branches checks
  obtain ⟨kind, hkind⟩ := List.exists_mem_of_ne_nil _ (hserves branch hmem)
  exact ⟨kind, hown branch hmem kind hkind⟩

/-! ### No check is lost or doubled -/

theorem flatMap_addBranch_perm (kind : Kind) (own : List Check) :
    ((addBranch kind own found).flatMap Prod.snd).Perm (found.flatMap Prod.snd ++ own) := by
  induction found with
  | nil => simp [addBranch]
  | cons other rest ih =>
      obtain ⟨kinds, present⟩ := other
      rw [addBranch]
      split
      · next hempty =>
        rw [Bool.and_eq_true, List.isEmpty_iff, List.isEmpty_iff] at hempty
        rw [hempty.2, List.append_nil, List.flatMap_cons, List.flatMap_cons]
      · rw [List.flatMap_cons, List.flatMap_cons, List.append_assoc]
        exact ih.append_left present

theorem insertBranch_perm (branch : List Kind × List Check) :
    (insertBranch branch found).Perm (branch :: found) := by
  induction found with
  | nil => exact .refl _
  | cons other rest ih =>
      rw [insertBranch]
      split
      · exact .refl _
      · exact (ih.cons other).trans (.swap branch other rest)

theorem foldr_insertBranch_perm (found : List (List Kind × List Check)) :
    (found.foldr insertBranch []).Perm found := by
  induction found with
  | nil => exact .refl _
  | cons branch rest ih => exact (insertBranch_perm branch).trans (ih.cons branch)

/-- The checks in the branches are those for the types. -/
theorem flatMap_branches_perm (checks : List (Kind × List Check)) :
    ((branches checks).flatMap Prod.snd).Perm (checks.flatMap Prod.snd) := by
  have hadded : ∀ (checks : List (Kind × List Check)) (found : List (List Kind × List Check)),
      ((checks.foldl (fun found e => addBranch e.1 e.2 found) found).flatMap Prod.snd).Perm
        (found.flatMap Prod.snd ++ checks.flatMap Prod.snd) := by
    intro checks
    induction checks with
    | nil =>
        intro found
        rw [List.flatMap_nil, List.append_nil]
        exact .refl _
    | cons entry rest ih =>
        intro found
        rw [List.foldl_cons, List.flatMap_cons, ← List.append_assoc]
        exact (ih _).trans ((flatMap_addBranch_perm entry.1 entry.2).append_right _)
  exact ((foldr_insertBranch_perm _).flatMap_right _).trans (hadded checks [])

/-! ### The branch for a type -/

def chosen (kind : Kind) : List (List Kind × List Check) → List Check
  | [] => []
  | [(_, own)] => own
  | (kinds, own) :: rest => if kinds.contains kind then own else chosen kind rest

theorem evaluateBranches_eq_chosen (env : Environment) (uri : String)
    (found : List (List Kind × List Check)) (v : Json) (path : String) :
    evaluateBranches env uri found v path
      = evaluateChecks env uri (chosen v.kind found) v path := by
  fun_induction chosen v.kind found with
  | case1 => rw [evaluateBranches, evaluateChecks]
  | case2 kinds own => rw [evaluateBranches]
  | case3 kinds own rest hrest hkind =>
      rw [evaluateBranches, if_pos hkind]
      exact hrest
  | case4 kinds own rest hrest hkind ih =>
      rw [evaluateBranches, if_neg hkind, ih]
      exact hrest

/-- When some branch serves a type, the last branch is chosen only if it does. -/
theorem exists_mem_of_chosen {kind : Kind} (hserved : ∃ branch ∈ found, kind ∈ branch.1) :
    ∃ branch ∈ found, kind ∈ branch.1 ∧ branch.2 = chosen kind found := by
  fun_induction chosen kind found with
  | case1 => simp at hserved
  | case2 kinds own => simpa using hserved
  | case3 kinds own rest hrest hkind =>
      exact ⟨_, List.mem_cons_self, List.contains_iff_mem.1 hkind, rfl⟩
  | case4 kinds own rest hrest hkind ih =>
      obtain ⟨branch, hbranch, hmem⟩ := hserved
      rcases List.mem_cons.1 hbranch with rfl | hbranch
      · exact absurd (List.contains_iff_mem.2 hmem) hkind
      · obtain ⟨other, hother, h⟩ := ih ⟨branch, hbranch, hmem⟩
        exact ⟨other, List.mem_cons_of_mem _ hother, h⟩

theorem evaluateBranches_of_mem (env : Environment) (uri path : String) {v : Json}
    (hserved : ∃ branch ∈ found, v.kind ∈ branch.1) :
    ∃ branch ∈ found, v.kind ∈ branch.1
      ∧ evaluateBranches env uri found v path = evaluateChecks env uri branch.2 v path := by
  obtain ⟨branch, hbranch, hkind, hchosen⟩ := exists_mem_of_chosen hserved
  exact ⟨branch, hbranch, hkind, by rw [evaluateBranches_eq_chosen, hchosen]⟩

theorem evaluateBranches_branches (env : Environment) (uri path : String) {v : Json}
    (hserved : ∃ own, (v.kind, own) ∈ checks) :
    ∃ own, (v.kind, own) ∈ checks
      ∧ evaluateBranches env uri (branches checks) v path = evaluateChecks env uri own v path := by
  have hsorted := sorted_branches checks
  obtain ⟨own, hown⟩ := hserved
  obtain ⟨branch, hbranch, hkind, heval⟩ :=
    evaluateBranches_of_mem env uri path (hsorted.1 _ hown)
  exact ⟨branch.2, hsorted.2.1 branch hbranch _ hkind, heval⟩

end HyperSchema.Node
