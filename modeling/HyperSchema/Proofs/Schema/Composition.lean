import HyperSchema.Proofs.Schema.Assertions
import HyperSchema.Proofs.Schema.Branches
import HyperSchema.Proofs.Validation.Asking
import HyperSchema.Proofs.Validation.Verdict
import Mathlib.Data.List.Forall2

/-!
# Schemas composed of schemas

A node agrees with a document when it finds no error exactly in the values that satisfy it. Here are
the keywords that put schemas together on one value: what each is read into gives the verdict that
the keyword asks for, if the schemas put together are read into nodes that agree with them.
-/

namespace HyperSchema

open Schema (Satisfies)

namespace Node

/-- A node finds no error exactly in the values that satisfy a document. -/
def Decides (env : Environment) (node : Node) (schema : Json) : Prop :=
  ∀ v path, Verdict (node.evaluate env v path) (Satisfies env.unicodeLength schema v)

/-- Whatever a document is read into, without formats, agrees with it. -/
def Agrees (env : Environment) (schema : Json) : Prop :=
  ∀ uri node, ofSchema [] uri schema = .ok node → node.Decides env schema

variable {env : Environment} {uri path : String} {keywords : Table Json} {v : Json}

/-! ### Checks in a row -/

theorem evaluateChecks_append {checks more : List Check} {P Q : Prop}
    (hchecks : Verdict (evaluateChecks env uri checks v path) P)
    (hmore : Verdict (evaluateChecks env uri more v path) Q) :
    Verdict (evaluateChecks env uri (checks ++ more) v path) (P ∧ Q) := by
  have happend : evaluateChecks env uri (checks ++ more) v path
      = (do
        let found ← evaluateChecks env uri checks v path
        let rest ← evaluateChecks env uri more v path
        return found ++ rest) := by
    clear hchecks
    induction checks with
    | nil => simp [evaluateChecks]
    | cons check rest ih =>
        rw [List.cons_append, evaluateChecks, evaluateChecks, ih]
        simp [Option.bind_assoc]
  rw [happend]
  exact hchecks.append hmore

theorem evaluateChecks_singleton {check : Check} {P : Prop}
    (h : Verdict (evaluateCheck env uri check v path) P) :
    Verdict (evaluateChecks env uri [check] v path) P := by
  have hsingle : evaluateChecks env uri [check] v path = evaluateCheck env uri check v path := by
    rw [evaluateChecks, evaluateChecks]
    simp
  rwa [hsingle]

theorem evaluateChecks_assertions (assertions : List Assertion) :
    Verdict (evaluateChecks env uri (assertions.map .assertion) v path)
      (∀ a ∈ assertions, a.violation? env.unicodeLength v = none) := by
  induction assertions with
  | nil => exact .accept (by simp)
  | cons a rest ih =>
      rw [List.forall_mem_cons, List.map_cons]
      have hfirst : Verdict (evaluateChecks env uri [.assertion a] v path)
          (a.violation? env.unicodeLength v = none) := by
        refine evaluateChecks_singleton (.of_passes ?_)
        cases a.violation? env.unicodeLength v <;> simp
      exact evaluateChecks_append hfirst ih

/-! ### Lists of schemas -/

theorem forall₂_of_nodesOf {keyword : String} {i : Nat} {subs : List Json} {nodes : List Node}
    (hagrees : ∀ sub ∈ subs, Agrees env sub) (h : nodesOf [] uri keyword i subs = .ok nodes) :
    List.Forall₂ (Decides env) nodes subs := by
  have hnodes : List.Forall₂ (fun node (entry : Json × Nat) => Decides env node entry.1) nodes
      (subs.zipIdx i) :=
    forall₂_imp_of_mem (nodesOf_forall₂ h) (fun node entry hentry =>
      hagrees entry.1 (List.fst_mem_of_mem_zipIdx hentry) _ node)
  rwa [← List.forall₂_map_right_iff, List.zipIdx_map_fst] at hnodes

theorem forall₂_of_listed {keyword : String} {nodes : List Node}
    (hkeyword : keyword ∈ ["allOf", "anyOf", "oneOf", "items"])
    (hagrees : ∀ sub, Schema.Sub keywords sub → Agrees env sub)
    (h : listed [] uri keyword keywords = .ok nodes) :
    List.Forall₂ (Decides env) nodes (Schema.listOf keywords keyword) := by
  rw [listed_eq] at h
  exact forall₂_of_nodesOf (fun sub hsub => hagrees sub (Schema.sub_of_mem_listOf hkeyword hsub)) h

theorem evaluateEach_forall₂ {nodes : List Node} {subs : List Json}
    (h : List.Forall₂ (Decides env) nodes subs) :
    ∃ results, evaluateEach env nodes v path = some results
      ∧ List.Forall₂ (fun (found : Findings) sub =>
        found.passes = true ↔ Satisfies env.unicodeLength sub v) results subs := by
  induction h with
  | nil => exact ⟨[], rfl, .nil⟩
  | cons hdecides _ ih =>
      obtain ⟨found, hfound, hpasses⟩ := hdecides v path
      obtain ⟨more, hmore, hrest⟩ := ih
      refine ⟨found :: more, ?_, .cons hpasses hrest⟩
      rw [evaluateEach, hfound, hmore]
      rfl

theorem all_passes_iff {results : List Findings} {subs : List Json} {P : Json → Prop}
    (h : List.Forall₂ (fun (found : Findings) sub => found.passes = true ↔ P sub) results subs) :
    results.all Findings.passes = true ↔ ∀ sub ∈ subs, P sub := by
  induction h with
  | nil => simp
  | cons hpasses _ ih => rw [List.all_cons, Bool.and_eq_true, hpasses, ih, List.forall_mem_cons]

theorem any_passes_iff {results : List Findings} {subs : List Json} {P : Json → Prop}
    (h : List.Forall₂ (fun (found : Findings) sub => found.passes = true ↔ P sub) results subs) :
    results.any Findings.passes = true ↔ ∃ sub ∈ subs, P sub := by
  induction h with
  | nil => simp
  | cons hpasses _ ih =>
      rw [List.any_cons, Bool.or_eq_true, hpasses, ih]
      simp

/-- Exactly one of the results is free of errors. -/
theorem oneOf_passes_iff {head : Head} {results : List Findings} :
    Findings.passes (head.oneOf path results) = true
      ↔ (results ≠ [] → ∃ (i : Nat) (found : Findings), results[i]? = some found
        ∧ found.passes = true
        ∧ ∀ (j : Nat) (other : Findings), results[j]? = some other → other.passes = true →
          j = i) := by
  have hnodup := Head.nodup_passing results
  have hmem := fun found i => @Head.mem_passing_iff results found i
  rw [Head.oneOf]
  by_cases hempty : results = []
  · subst hempty
    exact iff_of_true rfl (fun h => absurd rfl h)
  · rw [if_neg (fun h => hempty (List.isEmpty_iff.1 h))]
    cases hpassing : Head.passing results with
    | nil =>
        rw [hpassing] at hmem
        refine iff_of_false (by simp) (fun h => ?_)
        obtain ⟨i, found, hi, hfound, -⟩ := h hempty
        exact absurd ((hmem found i).2 ⟨hi, hfound⟩) List.not_mem_nil
    | cons first rest =>
        obtain ⟨found, i⟩ := first
        have hfirst := (hmem found i).1 (hpassing ▸ List.mem_cons_self)
        cases rest with
        | nil =>
            rw [hpassing] at hmem
            refine iff_of_true hfirst.2 (fun _ => ⟨i, found, hfirst.1, hfirst.2, ?_⟩)
            intro j other hj hother
            have hsame := List.mem_singleton.1 ((hmem other j).2 ⟨hj, hother⟩)
            exact (Prod.mk.inj hsame).2
        | cons second rest =>
            obtain ⟨found', i'⟩ := second
            have hsecond := (hmem found' i').1
              (hpassing ▸ List.mem_cons_of_mem _ List.mem_cons_self)
            refine iff_of_false (by simp) (fun h => ?_)
            obtain ⟨k, only, -, -, honly⟩ := h hempty
            have hi := honly i found hfirst.1 hfirst.2
            have hi' := honly i' found' hsecond.1 hsecond.2
            rw [hpassing, List.map_cons, List.map_cons, List.nodup_cons] at hnodup
            exact hnodup.1 (by simp [hi, hi'])

/-! ### Composition -/

theorem anyOf_passes_iff {head : Head} {results : List Findings} :
    Findings.passes (head.anyOf path results) = true
      ↔ (results ≠ [] → results.any Findings.passes = true) := by
  rw [Head.anyOf]
  by_cases hempty : results = []
  · subst hempty
    exact iff_of_true rfl (fun h => absurd rfl h)
  · rw [if_neg (fun h => hempty (List.isEmpty_iff.1 h))]
    by_cases hany : results.any Findings.passes = true
    · rw [if_pos hany, Findings.passes_flatten]
      refine iff_of_true (List.all_eq_true.2 (fun found hfound => ?_)) (fun _ => hany)
      exact (List.mem_filter.1 hfound).2
    · rw [if_neg hany]
      exact iff_of_false (by simp) (fun h => hany (h hempty))

theorem negated_passes_iff {head : Head} {result : Option Findings} :
    Findings.passes (head.negated path result) = true
      ↔ ∀ found, result = some found → found.passes = false := by
  cases result with
  | none => simp [Head.negated]
  | some found => cases hpasses : found.passes <;> simp [Head.negated, hpasses]

theorem allOf_verdict {nodes : List Node}
    (hagrees : ∀ sub, Schema.Sub keywords sub → Agrees env sub)
    (h : listed [] uri "allOf" keywords = .ok nodes) :
    ∃ results, evaluateEach env nodes v path = some results
      ∧ (Findings.passes results.flatten = true
        ↔ Schema.AllOfKeyword env.unicodeLength keywords v) := by
  obtain ⟨results, hresults, hpasses⟩ :=
    evaluateEach_forall₂ (v := v) (forall₂_of_listed (by decide) hagrees h)
  refine ⟨results, hresults, ?_⟩
  rw [Findings.passes_flatten, all_passes_iff hpasses, Schema.AllOfKeyword,
    Schema.forall_list_iff (by simp)]

theorem ne_nil_iff_of_forall₂ {α β : Type} {R : α → β → Prop} {l : List α} {m : List β}
    (h : List.Forall₂ R l m) : l ≠ [] ↔ m ≠ [] := by
  cases h <;> simp

theorem anyOf_verdict (head : Head) {nodes : List Node}
    (hagrees : ∀ sub, Schema.Sub keywords sub → Agrees env sub)
    (h : listed [] uri "anyOf" keywords = .ok nodes) :
    ∃ results, evaluateEach env nodes v path = some results
      ∧ (Findings.passes (head.anyOf path results) = true
        ↔ Schema.AnyOfKeyword env.unicodeLength keywords v) := by
  obtain ⟨results, hresults, hpasses⟩ :=
    evaluateEach_forall₂ (v := v) (forall₂_of_listed (by decide) hagrees h)
  refine ⟨results, hresults, ?_⟩
  rw [anyOf_passes_iff, any_passes_iff hpasses, ne_nil_iff_of_forall₂ hpasses, Schema.AnyOfKeyword,
    Schema.forall_list_iff (fun hnil => absurd rfl hnil)]

theorem oneOf_verdict (head : Head) {nodes : List Node}
    (hagrees : ∀ sub, Schema.Sub keywords sub → Agrees env sub)
    (h : listed [] uri "oneOf" keywords = .ok nodes) :
    ∃ results, evaluateEach env nodes v path = some results
      ∧ (Findings.passes (head.oneOf path results) = true
        ↔ Schema.OneOfKeyword env.unicodeLength keywords v) := by
  obtain ⟨results, hresults, hpasses⟩ :=
    evaluateEach_forall₂ (v := v) (forall₂_of_listed (by decide) hagrees h)
  refine ⟨results, hresults, ?_⟩
  rw [oneOf_passes_iff, ne_nil_iff_of_forall₂ hpasses, Schema.OneOfKeyword,
    Schema.forall_list_iff (fun hnil => absurd rfl hnil)]
  have hback := hpasses.flip
  refine forall_congr' (fun _ => ⟨?_, ?_⟩)
  · intro h
    obtain ⟨i, found, hi, hfound, honly⟩ := h
    obtain ⟨sub, hsub, hiff⟩ := exists_getElem?_of_forall₂ hpasses hi
    refine ⟨i, sub, hsub, hiff.1 hfound, fun j other hj hother => ?_⟩
    obtain ⟨found', hfound', hiff'⟩ := exists_getElem?_of_forall₂ hback hj
    exact honly j found' hfound' (hiff'.2 hother)
  · intro h
    obtain ⟨i, sub, hi, hsub, honly⟩ := h
    obtain ⟨found, hfound, hiff⟩ := exists_getElem?_of_forall₂ hback hi
    refine ⟨i, found, hfound, hiff.2 hsub, fun j other hj hother => ?_⟩
    obtain ⟨sub', hsub', hiff'⟩ := exists_getElem?_of_forall₂ hpasses hj
    exact honly j sub' hsub' (hiff'.1 hother)

theorem negated_verdict (head : Head) {negated : Option Node}
    (hagrees : ∀ sub, Schema.Sub keywords sub → Agrees env sub)
    (h : negation [] uri keywords = .ok negated) :
    ∃ result, evaluateNegated env negated v path = some result
      ∧ (Findings.passes (head.negated path result) = true
        ↔ Schema.NotKeyword env.unicodeLength keywords v) := by
  rw [Schema.NotKeyword]
  cases negationReads_of_negation h with
  | @schema sub node hget hnode =>
      obtain ⟨found, hfound, hpasses⟩ :=
        hagrees sub (.single "not" (by decide) hget) _ node hnode v path
      refine ⟨some found, ?_, ?_⟩
      · rw [evaluateNegated, hfound]
        rfl
      · rw [negated_passes_iff]
        simp only [Option.some.injEq, forall_eq', hget]
        rw [← hpasses, Bool.not_eq_true]
  | absent hnone =>
      refine ⟨none, rfl, iff_of_true rfl (fun sub hsub => ?_)⟩
      rw [hnone] at hsub
      cases hsub

end Node

end HyperSchema
