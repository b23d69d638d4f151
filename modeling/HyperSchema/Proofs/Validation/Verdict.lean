import HyperSchema.Proofs.Validation.Plan
import Mathlib.Data.List.Nodup

/-!
# Verdicts

Whether anything is wrong is all that counts for validity. An evaluation is a verdict on a statement
when it has a result, and the result is free of errors exactly when the statement holds. Verdicts
are put together as findings are.
-/

namespace HyperSchema

namespace Findings

@[simp] theorem passes_nil : Findings.passes [] = true := rfl

@[simp] theorem passes_append (found more : Findings) :
    Findings.passes (found ++ more) = (found.passes && more.passes) := by
  rw [Bool.eq_iff_iff, passes, passes, passes, Bool.and_eq_true, errors, List.filterMap_append,
    List.isEmpty_iff, List.append_eq_nil_iff, List.isEmpty_iff, List.isEmpty_iff]
  rfl

@[simp] theorem passes_cons (x : Finding) (rest : Findings) :
    Findings.passes (x :: rest) = ((errorOf? x).isNone && rest.passes) := by
  rw [passes, passes, errors, errors, List.filterMap_cons]
  cases errorOf? x <;> rfl

theorem passes_flatten (results : List Findings) :
    Findings.passes results.flatten = results.all Findings.passes := by
  induction results with
  | nil => rfl
  | cons found rest ih => rw [List.flatten_cons, passes_append, ih, List.all_cons]

@[simp] theorem errorOf?_violation (path uri : String) (v : Violation) :
    errorOf? (Finding.violation path uri v) = some ⟨v, path, uri⟩ := rfl

/-- Whatever stands for errors passes only if there is nothing. -/
theorem passes_map_violation {ι : Type} (path uri : String) (l : List ι) (f : ι → Violation) :
    Findings.passes (l.map (fun i => .violation path uri (f i))) = l.isEmpty := by
  cases l with
  | nil => rfl
  | cons i rest => rw [List.map_cons, passes_cons, errorOf?_violation]; rfl

end Findings

namespace Head

theorem mem_passing_iff {results : List Findings} {found : Findings} {i : Nat} :
    (found, i) ∈ passing results ↔ results[i]? = some found ∧ found.passes = true := by
  rw [passing, List.mem_filter, List.mk_mem_zipIdx_iff_getElem?]

theorem nodup_passing (results : List Findings) :
    ((passing results).map Prod.snd).Nodup := by
  have hsub := (List.filter_sublist (p := fun r : Findings × Nat => r.1.passes)
    (l := results.zipIdx)).map Prod.snd
  rw [List.zipIdx_map_snd] at hsub
  exact List.Nodup.sublist hsub List.nodup_range'

end Head

/-- A result that is free of errors exactly when a statement holds. -/
def Verdict (f : Option Findings) (P : Prop) : Prop :=
  ∃ found, f = some found ∧ (found.passes = true ↔ P)

namespace Verdict

variable {f g : Option Findings} {P Q : Prop}

theorem of_iff (hf : Verdict f P) (h : P ↔ Q) : Verdict f Q := by
  obtain ⟨found, hfound, hpasses⟩ := hf
  exact ⟨found, hfound, hpasses.trans h⟩

theorem congr (hf : Verdict f P) (h : g = f) : Verdict g P := by rwa [h]

theorem accept (h : P) : Verdict (some []) P := ⟨[], rfl, iff_of_true rfl h⟩

theorem of_passes {found : Findings} (h : found.passes = true ↔ P) : Verdict (some found) P :=
  ⟨found, rfl, h⟩

theorem append (hf : Verdict f P) (hg : Verdict g Q) :
    Verdict (do
      let found ← f
      let more ← g
      return found ++ more) (P ∧ Q) := by
  obtain ⟨found, rfl, hfound⟩ := hf
  obtain ⟨more, rfl, hmore⟩ := hg
  refine ⟨found ++ more, rfl, ?_⟩
  rw [Findings.passes_append, Bool.and_eq_true, hfound, hmore]

theorem gather {ι : Type} {l : List ι} {f : ι → Option Findings} {P : ι → Prop}
    (h : ∀ i ∈ l, Verdict (f i) (P i)) :
    Verdict (Findings.gather (l.map f)) (∀ i ∈ l, P i) := by
  induction l with
  | nil => exact accept (by simp)
  | cons i rest ih =>
      have hrest := ih (fun j hj => h j (List.mem_cons_of_mem _ hj))
      have hboth := (h i List.mem_cons_self).append hrest
      rw [List.forall_mem_cons]
      obtain ⟨found, hfound, -⟩ := h i List.mem_cons_self
      obtain ⟨more, hmore, -⟩ := hrest
      rw [hfound, hmore] at hboth
      rw [List.map_cons, hfound, Findings.gather, hmore]
      exact hboth

/-- Where it is asked for only under a condition. -/
theorem ite {c : Prop} [Decidable c] (hf : c → Verdict f P) :
    Verdict (if c then f else some []) (c → P) := by
  by_cases hc : c
  · rw [if_pos hc]
    exact (hf hc).of_iff ⟨fun h _ => h, fun h => h hc⟩
  · rw [if_neg hc]
    exact accept (fun h => absurd h hc)

end Verdict

end HyperSchema
