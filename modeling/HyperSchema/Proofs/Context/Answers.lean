import HyperSchema.Proofs.Context.Tasks
import HyperSchema.Proofs.Registry.Supply

/-!
# Answers that depend on the document alone

When every request is answered as its document decides, so is every call: the request that it joins
or begins is open, or it has been answered that way.
-/

namespace HyperSchema

namespace Requests

variable {f : String → Answer} {r : Requests} {c o : Call} {base : String} {a : Answer}

/-- A call whose answer is there, or will be, as its document decides. -/
def Due (f : String → Answer) (r : Requests) (c : Call) : Prop :=
  c ∈ r.unanswered ∨ r.answerTo? c = some (f c.base)

/-- Requests that are answered as their documents decide. -/
structure Faithful (f : String → Answer) (r : Requests) : Prop where
  numbered : r.Numbered
  distinct : (r.unanswered.map Call.request).Nodup
  pending : ∀ o ∈ r.unanswered, r.answerTo? o = none
  shared : ∀ base request, Table.get? r.shared base = some request → r.Due f ⟨base, request⟩

theorem answerTo?_begin (r : Requests) (base : String) (c : Call) :
    (r.begin base).answerTo? c = r.answerTo? c := rfl

theorem Numbered.answerTo?_eq_none (h : r.Numbered) (hc : r.next ≤ c.request) :
    r.answerTo? c = none := by
  rw [answerTo?, Option.map_eq_none_iff, List.find?_eq_none]
  intro a ha heq
  have hlt := h.answers a ha
  rw [beq_iff_eq.1 heq] at hlt
  omega

theorem Due.begin (h : r.Due f c) (base : String) : (r.begin base).Due f c :=
  h.imp (List.mem_append_left _) id

theorem Faithful.begin (h : r.Faithful f) (base : String) : (r.begin base).Faithful f where
  numbered := h.numbered.begin base
  distinct := by
    rw [Requests.begin, List.map_append, List.map_singleton, List.nodup_append]
    refine ⟨h.distinct, List.nodup_singleton _, fun a ha b hb => ?_⟩
    obtain ⟨o, ho, rfl⟩ := List.mem_map.1 ha
    rw [List.mem_singleton.1 hb]
    exact Nat.ne_of_lt (h.numbered.unanswered o ho)
  pending := fun o ho => by
    rw [answerTo?_begin]
    rcases List.mem_append.1 ho with ho | ho
    · exact h.pending o ho
    · rw [List.mem_singleton.1 ho]
      exact h.numbered.answerTo?_eq_none (le_refl _)
  shared := fun other request hshared => by
    rw [Requests.begin, Table.get?_insert] at hshared
    split at hshared
    · next heq =>
      rw [heq, ← Option.some.inj hshared]
      exact .inl (List.mem_append_right _ (List.mem_singleton_self _))
    · exact (h.shared other request hshared).begin base

theorem Faithful.callAll (h : r.Faithful f) (bases : List String) :
    (r.callAll bases).2.Faithful f :=
  callAll_keeps (P := Faithful f) (fun _ base _ h => h.begin base) h bases

theorem Faithful.due_of_mem_callAll (h : r.Faithful f) {bases : List String}
    (hc : c ∈ (r.callAll bases).1) : (r.callAll bases).2.Due f c := by
  induction bases generalizing r with
  | nil => cases hc
  | cons base bases ih =>
      have hkept := fun (r : Requests) (hdue : r.Due f c) => callAll_keeps (P := fun r => r.Due f c)
        (fun _ base _ h => h.begin base) hdue bases
      rw [callAll_cons] at hc ⊢
      rcases r.call_cases base with ⟨request, hshared, heq⟩ | ⟨-, heq⟩
      · rw [heq] at hc ⊢
        rcases List.mem_cons.1 hc with rfl | hc
        · exact hkept r (h.shared base request hshared)
        · exact ih h hc
      · rw [heq] at hc ⊢
        rcases List.mem_cons.1 hc with rfl | hc
        · exact hkept (r.begin base) (.inl (List.mem_append_right _ (List.mem_singleton_self _)))
        · exact ih (h.begin base) hc

theorem answerTo?_answer (r : Requests) (request : Nat) (a : Answer) (c : Call) :
    (r.answer request a).answerTo? c
      = (r.answerTo? c).or (if request = c.request then some a else none) := by
  rw [answerTo?, answerTo?, answer, List.find?_append, Option.map_or]
  by_cases heq : request = c.request
  · rw [if_pos heq, List.find?_cons_of_pos, Option.map_some]
    exact beq_iff_eq.2 heq
  · rw [if_neg heq, List.find?_cons_of_neg, List.find?_nil, Option.map_none]
    exact fun h => heq (beq_iff_eq.1 h)

section

variable (h : r.Faithful f) (ho : o ∈ r.unanswered)

include h ho

theorem Faithful.due_answer (hdue : r.Due f c) : (r.answer o.request (f o.base)).Due f c := by
  rcases hdue with hopen | hanswered
  · by_cases heq : c.request = o.request
    · obtain rfl := List.inj_on_of_nodup_map h.distinct hopen ho heq
      refine .inr ?_
      rw [answerTo?_answer, h.pending c hopen, if_pos rfl]
      rfl
    · exact .inl (List.mem_filter.2 ⟨hopen, decide_eq_true heq⟩)
  · refine .inr ?_
    rw [answerTo?_answer, hanswered]
    rfl

theorem Faithful.answer : (r.answer o.request (f o.base)).Faithful f where
  numbered := h.numbered.answer (List.any_eq_true.2 ⟨o, ho, beq_iff_eq.2 rfl⟩) _
  distinct := h.distinct.sublist (List.filter_sublist.map Call.request)
  pending := fun o' ho' => by
    obtain ⟨hopen, hne⟩ := List.mem_filter.1 ho'
    rw [answerTo?_answer, h.pending o' hopen, if_neg (Ne.symm (of_decide_eq_true hne))]
    rfl
  shared := fun base request hshared => h.due_answer ho (h.shared base request hshared)

end

theorem Faithful.release (h : r.Faithful f) (c : Call) : (r.release c).Faithful f where
  numbered := h.numbered.release c
  distinct := h.distinct
  pending := h.pending
  shared := fun base request hshared => by
    rw [Requests.release] at hshared
    by_cases hbase : c.base = base
    · rw [hbase, Table.get?_erase_self] at hshared
      cases hshared
    · rw [Table.get?_erase_of_ne _ hbase] at hshared
      exact h.shared base request hshared

theorem Faithful.releaseAll (h : r.Faithful f) (calls : List Call) :
    (r.releaseAll calls).Faithful f := by
  induction calls generalizing r with
  | nil => exact h
  | cons c calls ih => exact ih (h.release c)

theorem Faithful.forget (h : r.Faithful f) : r.forget.Faithful f where
  numbered := h.numbered.forget
  distinct := h.distinct
  pending := h.pending
  shared := fun _ _ hshared => nomatch (hshared : (none : Option Nat) = some _)

end Requests

namespace Tasks

variable {f : String → Answer} {t : Tasks} {e : Event}

/-- An event that answers no request otherwise than its document decides. -/
def AnswersBy (f : String → Answer) (t : Tasks) : Event → Prop
  | .answer request a => ∀ o ∈ t.requests.unanswered, o.request = request → a = f o.base
  | _ => True

theorem faithful_step (h : t.requests.Faithful f) (hby : t.AnswersBy f e) :
    (t.step e).requests.Faithful f := by
  rw [requests_step]
  cases e with
  | clean => exact h.forget
  | call base => exact h.callAll [base]
  | answer request a =>
      rw [after]
      split
      · next hopen =>
        obtain ⟨o, ho, heq⟩ := List.any_eq_true.1 hopen
        obtain rfl := beq_iff_eq.1 heq
        rw [hby o ho rfl]
        exact h.answer ho
      · exact h
  | resume k =>
      rw [after]
      split
      · exact h.release k.call
      · exact h
  | look => exact h.callAll _
  | _ => exact h

theorem faithful_run {es : List Event} (h : t.requests.Faithful f)
    (hby : Throughout (AnswersBy f) t es) : (t.run es).requests.Faithful f := by
  induction es generalizing t with
  | nil => exact h
  | cons e es ih => exact ih (faithful_step h hby.1) hby.2

theorem faithful_new (parent : Option Store) (options : Options) :
    (new parent options).requests.Faithful f where
  numbered := numbered_new parent options
  distinct := List.nodup_nil
  pending := fun _ h => absurd h List.not_mem_nil
  shared := fun _ _ h => nomatch (h : (none : Option Nat) = some _)

end Tasks

/-! ### Documents -/

namespace Context

open Registry (Grounded)

variable {c : Context}

/-- The document that an answer stands for, unless it is worth another try. -/
def documentOf? : Answer → Option Json
  | .ok document => some document
  | .error e => if e.isTransient then none else some .null

theorem registry_takeAnswer (c : Context) (base : String) (a : Answer) :
    (c.takeAnswer base a).registry = match documentOf? a with
      | some document => c.registry.obey (.schema base (some document) none)
      | none => c.registry := by
  unfold takeAnswer documentOf? Registry.obey
  cases a with
  | ok document =>
      dsimp only
      cases c.registry.addSchema base (some document) none <;> rfl
  | error e =>
      dsimp only
      split
      · rfl
      · dsimp only
        cases c.registry.addSchema base (some .null) none <;> rfl

theorem parent_takeAnswer (c : Context) (base : String) (a : Answer) :
    (c.takeAnswer base a).parent = c.parent := by
  unfold takeAnswer
  dsimp only
  split
  · split <;> rfl
  · split
    · rfl
    · split <;> rfl

/-- A context whose parent came about, and its registry with it. -/
structure Built (c : Context) : Prop where
  parent : ∀ s, c.parent = some s → s.Reached
  registry : Grounded c.registry

theorem Built.addSchema (h : c.Built) (uri : String) (document : Option Json)
    (name : Option String) : (c.addSchema uri document name).1.Built := by
  have hobey := h.registry.obey (.schema uri document name)
  rw [Registry.obey] at hobey
  rw [Context.addSchema]
  cases hadd : c.registry.addSchema uri document name with
  | error e => exact h
  | ok registry =>
      rw [hadd] at hobey
      exact ⟨h.parent, hobey.compile⟩

theorem Built.takeAnswer (h : c.Built) (base : String) (a : Answer) :
    (c.takeAnswer base a).Built := by
  refine ⟨?_, ?_⟩
  · rw [parent_takeAnswer]
    exact h.parent
  · rw [registry_takeAnswer]
    split
    · exact h.registry.obey _
    · exact h.registry

theorem Built.collect (h : c.Built) (tried : List String) (calls : List Call) :
    (c.collect tried calls).Built := by
  have hanswers : ∀ (answers : List (String × Answer)) (c : Context), c.Built →
      (answers.foldl (fun c a => c.takeAnswer a.1 a.2) c).Built := by
    intro answers
    induction answers with
    | nil => exact fun _ h => h
    | cons a rest ih => exact fun c h => ih _ (h.takeAnswer a.1 a.2)
  have htaken := hanswers (c.requests.answersTo calls) c h
  exact ⟨htaken.parent, htaken.registry.compile⟩

theorem grounded_freshRegistry {parent : Option Store} (hparent : ∀ s, parent = some s → s.Reached)
    (options : Options) (formats : Table Format) :
    Grounded (freshRegistry parent options formats) := by
  refine ⟨?_, fun u hu => absurd hu List.not_mem_nil⟩
  cases parent with
  | none => exact .empty
  | some s => exact .layered (hparent s rfl)

end Context

namespace Tasks

theorem built_step {t : Tasks} (h : t.context.Built) (e : Event) : (t.step e).context.Built := by
  cases e with
  | addSchema uri document name => exact h.addSchema uri document name
  | registerFormat name refusal? => exact ⟨h.parent, h.registry.obey (.format name refusal?)⟩
  | clean => exact ⟨h.parent, Context.grounded_freshRegistry h.parent _ _⟩
  | answer request a =>
      rw [step]
      split
      · exact ⟨h.parent, h.registry⟩
      · exact h
  | resume k =>
      rw [step]
      split
      · exact ⟨h.parent, h.registry⟩
      · exact h
  | start =>
      rw [step, Context.start]
      split
      · exact ⟨h.parent, h.registry⟩
      · exact h
  | look =>
      rw [step]
      split
      · next tried hfetching =>
        rw [Context.look_eq hfetching]
        dsimp only
        split
        · exact ⟨h.parent, h.registry⟩
        · exact ⟨h.parent, h.registry⟩
      · exact h
  | finish =>
      rcases t.step_finish with hsame | ⟨tried, -, hstep⟩
      · rwa [hsame]
      · rw [hstep]
        exact h.collect tried _
  | _ => exact ⟨h.parent, h.registry⟩

theorem built_run {t : Tasks} (h : t.context.Built) (es : List Event) :
    (t.run es).context.Built := by
  induction es generalizing t with
  | nil => exact h
  | cons e es ih => exact ih (built_step h e)

theorem built_new {parent : Option Store} (hparent : ∀ s, parent = some s → s.Reached)
    (options : Options) : (new parent options).context.Built :=
  ⟨hparent, Context.grounded_freshRegistry hparent options []⟩

end Tasks

end HyperSchema
