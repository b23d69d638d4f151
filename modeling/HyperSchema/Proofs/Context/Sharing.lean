import HyperSchema.Proofs.Context.Tasks

/-!
# How many requests are open for a document

A request that is kept for its document is joined by further calls, so as long as every open request
is kept, no other is begun beside it. A caller who goes on drops whatever request is kept for the
document, and cleaning drops them all; when one of these is still open, the next call begins a
second request for the same document.
-/

namespace HyperSchema

namespace Requests

variable {r : Requests}

/-- Every open request is kept for further calls. -/
def Kept (r : Requests) : Prop :=
  ∀ o ∈ r.unanswered, Table.get? r.shared o.base = some o.request

theorem Kept.begin (h : r.Kept) {base : String} (hnone : Table.get? r.shared base = none) :
    (r.begin base).Kept := by
  intro o ho
  rw [Requests.begin, Table.get?_insert]
  rcases List.mem_append.1 ho with hold | hnew
  · have hne : o.base ≠ base := by
      rintro rfl
      rw [h o hold] at hnone
      cases hnone
    rw [if_neg hne]
    exact h o hold
  · rw [List.mem_singleton.1 hnew, if_pos rfl]

theorem Kept.callAll (h : r.Kept) (bases : List String) : (r.callAll bases).2.Kept :=
  callAll_keeps (P := Kept) (fun _ _ hnone h => h.begin hnone) h bases

theorem Kept.answer (h : r.Kept) (request : Nat) (a : Answer) : (r.answer request a).Kept :=
  fun o ho => h o (List.mem_filter.1 ho).1

theorem Kept.release (h : r.Kept) {c : Call} (hnone : ∀ o ∈ r.unanswered, o.base ≠ c.base) :
    (r.release c).Kept := by
  intro o ho
  rw [Requests.release, Table.get?_erase_of_ne _ (Ne.symm (hnone o ho))]
  exact h o ho

/-- Requests that are kept and open for the same document are the same. -/
theorem Kept.request_eq (h : r.Kept) {o o' : Call} (ho : o ∈ r.unanswered)
    (ho' : o' ∈ r.unanswered) (hbase : o'.base = o.base) : o'.request = o.request := by
  have hkept := h o' ho'
  rw [hbase, h o ho] at hkept
  exact (Option.some.inj hkept).symm

end Requests

namespace Tasks

variable {t : Tasks} {e : Event}

def begun (t : Tasks) (e : Event) : List Call :=
  (t.step e).requests.unanswered.filter (fun o => t.requests.next ≤ o.request)

/-- Nothing that may happen next begins a request for a document while an earlier one is open. -/
def Alone (t : Tasks) : Prop :=
  ∀ e, ∀ o ∈ t.begun e, ∀ o' ∈ (t.step e).requests.unanswered, o'.request < o.request →
    o'.base ≠ o.base

/-- An event that drops no request while it is open. -/
def Prompt (t : Tasks) : Event → Prop
  | .resume k => t.MayResume k → ∀ o ∈ t.requests.unanswered, o.base ≠ k.call.base
  | .clean => t.requests.unanswered = []
  | _ => True

theorem kept_step (h : t.requests.Kept) (hprompt : t.Prompt e) : (t.step e).requests.Kept := by
  rw [requests_step]
  cases e with
  | clean =>
      intro o ho
      have hnone : t.requests.unanswered = [] := hprompt
      rw [after, Requests.forget, hnone] at ho
      cases ho
  | call base => exact h.callAll [base]
  | answer request a =>
      rw [after]
      split
      · exact h.answer request a
      · exact h
  | resume k =>
      rw [after]
      split
      · next hmay => exact h.release (hprompt hmay)
      · exact h
  | look => exact h.callAll _
  | _ => exact h

/-- The only other events are those that begin nothing. -/
theorem kept_or_begun_eq_nil (h : t.requests.Kept) (hnumbered : t.requests.Numbered) (e : Event) :
    (t.step e).requests.Kept ∨ t.begun e = [] := by
  have hsame : (∀ o ∈ (t.step e).requests.unanswered, o ∈ t.requests.unanswered) →
      t.begun e = [] := by
    intro hsub
    refine List.filter_eq_nil_iff.2 (fun o ho => ?_)
    have hlt := hnumbered.unanswered o (hsub o ho)
    rw [decide_eq_true_iff]
    omega
  cases e with
  | clean => exact .inr (hsame fun o ho => ho)
  | resume k =>
      refine .inr (hsame fun o ho => ?_)
      rw [requests_step, after] at ho
      split at ho <;> exact ho
  | _ => exact .inl (kept_step h trivial)

theorem alone_of_kept (h : t.requests.Kept) (hnumbered : t.requests.Numbered) : t.Alone := by
  intro e o ho o' ho' hlt hbase
  rcases kept_or_begun_eq_nil h hnumbered e with hkept | hnone
  · have heq := hkept.request_eq (List.mem_filter.1 ho).1 ho' hbase
    omega
  · rw [hnone] at ho
    cases ho

/-- When an open request is kept no more, the next call for its document begins another. -/
theorem not_alone_of_dropped {o : Call} (hnumbered : t.requests.Numbered)
    (ho : o ∈ t.requests.unanswered) (hdropped : Table.get? t.requests.shared o.base = none) :
    ¬t.Alone := by
  intro halone
  have hstep : (t.step (.call o.base)).requests.unanswered
      = t.requests.unanswered ++ [⟨o.base, t.requests.next⟩] := by
    rw [step]
    show (t.requests.call o.base).2.unanswered = _
    rw [Requests.call_of_none hdropped]
    rfl
  have hnew : (⟨o.base, t.requests.next⟩ : Call) ∈ t.begun (.call o.base) := by
    rw [begun, hstep]
    exact List.mem_filter.2 ⟨List.mem_append_right _ (List.mem_singleton_self _),
      decide_eq_true (le_refl _)⟩
  have hold : o ∈ (t.step (.call o.base)).requests.unanswered :=
    hstep ▸ List.mem_append_left _ ho
  exact halone (.call o.base) _ hnew o hold (hnumbered.unanswered o ho) rfl

theorem prompt_of_alone_step (hnumbered : t.requests.Numbered) (h : (t.step e).Alone) :
    t.Prompt e := by
  have hnumbered' := numbered_step hnumbered e
  cases e with
  | clean =>
      by_contra hsome
      obtain ⟨o, ho⟩ := List.exists_mem_of_ne_nil _ hsome
      exact not_alone_of_dropped (t := t.step .clean) hnumbered' ho rfl h
  | resume k =>
      intro hmay o ho hbase
      have hafter : (t.step (.resume k)).requests = t.requests.release k.call := by
        rw [requests_step, after, if_pos hmay]
      refine not_alone_of_dropped (o := o) hnumbered' ?_ ?_ h
      · rw [hafter]
        exact ho
      · rw [hafter, Requests.release, hbase, Table.get?_erase_self]
  | _ => trivial

/-! ### Runs -/

theorem alone_of_prompt {past es : List Event} (h : t.requests.Kept)
    (hnumbered : t.requests.Numbered) (hprompt : Throughout Prompt t es) (hpast : past <+: es) :
    (t.run past).Alone := by
  induction past generalizing t es with
  | nil => exact alone_of_kept h hnumbered
  | cons e past ih =>
      obtain ⟨es, rfl⟩ := hpast
      exact ih (kept_step h hprompt.1) (numbered_step hnumbered e) hprompt.2
        (List.prefix_append past es)

theorem prompt_of_alone {es : List Event} (hnumbered : t.requests.Numbered)
    (h : ∀ past, past <+: es → (t.run past).Alone) : Throughout Prompt t es := by
  induction es generalizing t with
  | nil => trivial
  | cons e es ih =>
      refine ⟨prompt_of_alone_step hnumbered (h [e] (List.prefix_append [e] es)), ?_⟩
      exact ih (numbered_step hnumbered e)
        (fun past hpast => h (e :: past) ((List.prefix_cons_inj e).2 hpast))

/-- However the tasks take their turns, no request is begun for a document while an earlier one is
open, if and only if none is ever dropped while it is open: whoever goes on finds no open request
for the document, and cleaning finds none at all. -/
theorem alone_iff_prompt (parent : Option Store) (options : Options) (es : List Event) :
    (∀ past, past <+: es → ((new parent options).run past).Alone)
      ↔ Throughout Prompt (new parent options) es :=
  ⟨prompt_of_alone (numbered_new parent options), fun h _ hpast =>
    alone_of_prompt (fun _ ho => absurd ho List.not_mem_nil) (numbered_new parent options) h hpast⟩

/-- The callers of a request that has been answered go on one by one. The first drops it, and a new
one is begun; the second drops that, although it is open, and a further call begins yet another. -/
theorem not_alone_of_late_caller :
    ¬∀ (parent : Option Store) (options : Options) (es : List Event),
      ((new parent options).run es).Alone := by
  intro h
  have hlate := h none Options.standard [.call "s", .call "s", .answer 0 (.ok .null),
    .resume ⟨⟨"s", 0⟩, false⟩, .call "s", .resume ⟨⟨"s", 0⟩, false⟩]
  refine not_alone_of_dropped (o := ⟨"s", 1⟩) (numbered_run (numbered_new _ _) _) ?_ ?_ hlate
  · exact List.mem_singleton_self _
  · rfl

end Tasks

end HyperSchema
