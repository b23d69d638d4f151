import HyperSchema.Proofs.Context.Tasks

/-!
# What cleaning leaves behind

Cleaning makes the registry anew, but tasks that are suspended go on afterwards, and so does a fetch
that is under way. The requests from before it and their callers are leftovers: besides the
documents of a context that has been cleaned, all that goes on is what goes on in a fresh context,
as long as the fetch has tried nothing before and no caller from before drops a request that began
after.
-/

namespace HyperSchema

/-! ### Contexts -/

/-- Where a fetch stands that has nothing behind it. -/
def Fetching.anew : Fetching → Fetching
  | .idle => .idle
  | .looking [] => .looking []
  | _ => .starting

namespace Context

variable {c : Context} {r : Requests}

/-- Contexts with the same documents, schemas and failures. -/
structure SameContent (c c' : Context) : Prop where
  registry : c.registry = c'.registry
  snapshot : c.snapshot = c'.snapshot
  fetchErrors : c.fetchErrors = c'.fetchErrors

theorem calls_of_anew (h : c.fetching.anew = c.fetching) : c.calls = [] := by
  rw [calls]
  split
  · next tried calls hfetching =>
    rw [hfetching] at h
    cases h
  · rfl

theorem addSchema_withRequests (c : Context) (r : Requests) (uri : String)
    (document : Option Json) (name : Option String) :
    ((c.withRequests r).addSchema uri document name).1
      = (c.addSchema uri document name).1.withRequests r := by
  rw [addSchema, addSchema, withRequests]
  cases c.registry.addSchema uri document name <;> rfl

theorem takeAnswer_withRequests (c : Context) (r : Requests) (base : String) (a : Answer) :
    (c.withRequests r).takeAnswer base a = (c.takeAnswer base a).withRequests r := by
  unfold takeAnswer withRequests
  dsimp only
  split
  · split <;> rfl
  · split
    · rfl
    · split <;> rfl

/-- A round is ended by its answers alone. -/
theorem collect_withRequests {calls : List Call}
    (h : r.answersTo calls = c.requests.answersTo calls) (tried : List String) :
    (c.withRequests r).collect tried calls = (c.collect tried calls).withRequests r := by
  have hanswers : ∀ (answers : List (String × Answer)) (c : Context),
      answers.foldl (fun c a => c.takeAnswer a.1 a.2) (c.withRequests r)
        = (answers.foldl (fun c a => c.takeAnswer a.1 a.2) c).withRequests r := by
    intro answers
    induction answers with
    | nil => exact fun _ => rfl
    | cons a rest ih =>
        intro c
        rw [List.foldl_cons, takeAnswer_withRequests, ih, List.foldl_cons]
  have hrequests : (c.withRequests r).requests.answersTo calls
      = c.requests.answersTo calls := h
  rw [collect, collect, hrequests, hanswers]
  rfl

end Context

/-! ### Requests -/

namespace Requests

variable {n : Nat} {r u : Requests} {bases : List String}

/-- Requests of which some, numbered below a bound, are leftovers: those are kept no more. -/
structure Leftover (n : Nat) (r u : Requests) : Prop where
  shared : r.shared = u.shared
  unanswered : u.unanswered = r.unanswered.filter (fun o => n ≤ o.request)
  answers : u.answers = r.answers.filter (fun a => n ≤ a.1)
  next : r.next = u.next
  le_next : n ≤ r.next
  le_shared : ∀ base request, Table.get? r.shared base = some request → n ≤ request

theorem Leftover.begin (h : Leftover n r u) (base : String) :
    Leftover n (r.begin base) (u.begin base) where
  shared := by rw [Requests.begin, Requests.begin, h.shared, h.next]
  unanswered := by
    rw [Requests.begin, Requests.begin, List.filter_append, h.unanswered, h.next,
      List.filter_cons_of_pos, List.filter_nil]
    exact decide_eq_true (h.next ▸ h.le_next)
  answers := h.answers
  next := congrArg (· + 1) h.next
  le_next := Nat.le_succ_of_le h.le_next
  le_shared := fun other request hshared => by
    rw [Requests.begin, Table.get?_insert] at hshared
    split at hshared
    · obtain rfl := Option.some.inj hshared
      exact h.le_next
    · exact h.le_shared other request hshared

theorem Leftover.callAll (h : Leftover n r u) (bases : List String) :
    (r.callAll bases).1 = (u.callAll bases).1
      ∧ Leftover n (r.callAll bases).2 (u.callAll bases).2
      ∧ ∀ c ∈ (r.callAll bases).1, n ≤ c.request := by
  induction bases generalizing r u with
  | nil => exact ⟨rfl, h, fun _ hc => nomatch hc⟩
  | cons base bases ih =>
      rw [callAll_cons, callAll_cons]
      rcases r.call_cases base with ⟨request, hshared, heq⟩ | ⟨hnone, heq⟩
      · have heq' := call_of_shared (h.shared ▸ hshared)
        obtain ⟨hcalls, hleft, hle⟩ := ih h
        rw [heq, heq']
        refine ⟨congrArg (List.cons _) hcalls, hleft, List.forall_mem_cons.2 ⟨?_, hle⟩⟩
        exact h.le_shared base request hshared
      · have heq' := call_of_none (h.shared ▸ hnone)
        obtain ⟨hcalls, hleft, hle⟩ := ih (h.begin base)
        rw [heq, heq', h.next, ← hcalls]
        refine ⟨rfl, hleft, List.forall_mem_cons.2 ⟨?_, hle⟩⟩
        exact h.next ▸ h.le_next

theorem Leftover.forget (h : Leftover n r u) : Leftover n r.forget u.forget where
  shared := rfl
  unanswered := h.unanswered
  answers := h.answers
  next := h.next
  le_next := h.le_next
  le_shared := fun _ _ hshared => nomatch (hshared : (none : Option Nat) = some _)

theorem Leftover.isOpen (h : Leftover n r u) {request : Nat} (hn : n ≤ request) :
    u.isOpen request = r.isOpen request := by
  rw [Requests.isOpen, Requests.isOpen, h.unanswered, List.any_filter]
  refine congrArg (List.any r.unanswered) (funext fun o => ?_)
  by_cases ho : o.request = request
  · rw [ho, decide_eq_true hn, Bool.true_and]
  · rw [beq_eq_false_iff_ne.2 ho, Bool.and_false]

theorem Leftover.not_isOpen (h : Leftover n r u) {request : Nat} (hn : request < n) :
    u.isOpen request = false := by
  rw [Requests.isOpen, h.unanswered, List.any_eq_false]
  intro o ho heq
  have hle := of_decide_eq_true (List.mem_filter.1 ho).2
  have hrequest := beq_iff_eq.1 heq
  omega

theorem Leftover.answer (h : Leftover n r u) {request : Nat} (hn : n ≤ request) (a : Answer) :
    Leftover n (r.answer request a) (u.answer request a) where
  shared := h.shared
  unanswered := by
    rw [Requests.answer, Requests.answer, h.unanswered, List.filter_comm]
  answers := by
    rw [Requests.answer, Requests.answer, h.answers, List.filter_append, List.filter_cons_of_pos,
      List.filter_nil]
    exact decide_eq_true hn
  next := h.next
  le_next := h.le_next
  le_shared := h.le_shared

/-- An answer to a leftover is one more leftover. -/
theorem Leftover.answer_left (h : Leftover n r u) {request : Nat} (hn : request < n)
    (a : Answer) : Leftover n (r.answer request a) u where
  shared := h.shared
  unanswered := by
    rw [Requests.answer, h.unanswered, List.filter_filter]
    refine List.filter_congr (fun o _ => ?_)
    by_cases ho : o.request = request
    · rw [ho, decide_eq_false (Nat.not_le.2 hn), Bool.false_and]
    · rw [decide_eq_true ho, Bool.and_true]
  answers := by
    rw [Requests.answer, h.answers, List.filter_append, List.filter_cons_of_neg, List.filter_nil,
      List.append_nil]
    exact fun hle => Nat.not_le.2 hn (of_decide_eq_true hle)
  next := h.next
  le_next := h.le_next
  le_shared := h.le_shared

theorem Leftover.answerTo? (h : Leftover n r u) {c : Call} (hn : n ≤ c.request) :
    u.answerTo? c = r.answerTo? c := by
  rw [Requests.answerTo?, Requests.answerTo?, h.answers, List.find?_filter]
  refine congrArg (Option.map Prod.snd) (congrArg (List.find? · r.answers) (funext fun a => ?_))
  by_cases ha : a.1 = c.request
  · simp only [ha, hn, decide_true, beq_self_eq_true, and_self]
  · simp only [beq_eq_false_iff_ne.2 ha, Bool.false_eq_true, and_false, decide_false]

theorem Leftover.answersTo (h : Leftover n r u) {calls : List Call}
    (hn : ∀ c ∈ calls, n ≤ c.request) : r.answersTo calls = u.answersTo calls := by
  refine List.filterMap_congr (fun c hc => ?_)
  rw [h.answerTo? (hn c hc)]

theorem Leftover.release (h : Leftover n r u) (c : Call) :
    Leftover n (r.release c) (u.release c) where
  shared := by rw [Requests.release, Requests.release, h.shared]
  unanswered := h.unanswered
  answers := h.answers
  next := h.next
  le_next := h.le_next
  le_shared := fun base request hshared => by
    rw [Requests.release] at hshared
    by_cases hbase : c.base = base
    · subst hbase
      rw [Table.get?_erase_self] at hshared
      cases hshared
    · rw [Table.get?_erase_of_ne _ hbase] at hshared
      exact h.le_shared base request hshared

theorem release_of_none {c : Call} (h : Table.get? r.shared c.base = none) : r.release c = r := by
  rw [Requests.release, Table.erase_of_fresh h]

end Requests

/-! ### Tasks -/

namespace Tasks

variable {n : Nat} {t u : Tasks}

/-- Tasks of which some are leftovers: their requests are numbered below a bound. -/
structure Leftover (n : Nat) (t u : Tasks) : Prop where
  context : t.context = u.context.withRequests t.requests
  requests : Requests.Leftover n t.requests u.requests
  suspended : u.suspended = t.suspended.filter (fun k => n ≤ k.call.request)
  calls : ∀ c ∈ t.context.calls, n ≤ c.request
  own : ∀ k ∈ t.suspended, k.own = true → n ≤ k.call.request

/-- An event with which no leftover drops a request that began later. -/
def Harmless (n : Nat) (t : Tasks) : Event → Prop
  | .resume k => k.call.request < n → Table.get? t.requests.shared k.call.base = none
  | _ => True

/-- What has nothing to do with the requests is done alike. -/
theorem Leftover.onContext (h : Leftover n t u) {f : Context → Context}
    (hcomm : ∀ c r, f (Context.withRequests c r) = (f c).withRequests r)
    (hrequests : ∀ c, (f c).requests = c.requests)
    (hcalls : (f t.context).calls = t.context.calls) :
    Leftover n { t with context := f t.context } { u with context := f u.context } where
  context := by
    show f t.context = (f u.context).withRequests (f t.context).requests
    rw [hrequests, ← hcomm]
    exact congrArg f h.context
  requests := by
    show Requests.Leftover n (f t.context).requests (f u.context).requests
    rw [hrequests, hrequests]
    exact h.requests
  suspended := h.suspended
  calls := fun c hc => h.calls c (hcalls ▸ hc)
  own := h.own

/-- What has to do with the requests alone is done alike when it keeps what is left. -/
theorem Leftover.onRequests (h : Leftover n t u) {r v : Requests}
    (hleft : Requests.Leftover n r v) {suspended suspended' : List Caller}
    (hsuspended : suspended' = suspended.filter (fun k => n ≤ k.call.request))
    (hown : ∀ k ∈ suspended, k.own = true → n ≤ k.call.request) :
    Leftover n ⟨t.context.withRequests r, suspended⟩ ⟨u.context.withRequests v, suspended'⟩ where
  context := by
    rw [h.context]
    rfl
  requests := hleft
  suspended := hsuspended
  calls := h.calls
  own := hown

theorem Leftover.mayResume (h : Leftover n t u) {k : Caller} (hn : n ≤ k.call.request) :
    u.MayResume k ↔ t.MayResume k := by
  rw [MayResume, MayResume, h.suspended, h.requests.answerTo? hn, List.mem_filter,
    decide_eq_true_iff]
  exact and_congr_left (fun _ => and_iff_left hn)

theorem Leftover.fetching (h : Leftover n t u) : u.context.fetching = t.context.fetching := by
  rw [h.context]
  rfl

theorem Leftover.step_look (h : Leftover n t u) : Leftover n (t.step .look) (u.step .look) := by
  by_cases hlooking : ∃ tried, t.context.fetching = .looking tried
  · obtain ⟨tried, hfetching⟩ := hlooking
    have hfetching' : u.context.fetching = .looking tried := h.fetching.trans hfetching
    have hwanted : t.context.wanted = u.context.wanted := by
      rw [h.context]
      rfl
    obtain ⟨hcalls, hleft, hle⟩ := h.requests.callAll u.context.wanted
    have hnew : ∀ c ∈ (t.step .look).context.calls, n ≤ c.request := by
      rw [Tasks.step_look hfetching, Context.calls_look hfetching, hwanted]
      exact hle
    have hrequests : (t.step .look).requests = (t.requests.callAll u.context.wanted).2 := by
      rw [requests_step, after, hwanted]
    refine ⟨?_, ?_, ?_, hnew, fun k hk hown => ?_⟩
    · rw [hrequests, Tasks.step_look hfetching, Tasks.step_look hfetching']
      show t.context.look tried = (u.context.look tried).withRequests _
      rw [Context.look_eq hfetching, Context.look_eq hfetching', hwanted, h.context]
      split
      · next hnone =>
        rw [hnone]
        rfl
      · show ({ u.context with requests := _, fetching := .awaiting tried _ } : Context) = _
        rw [show (u.context.withRequests t.requests).requests = t.requests from rfl, hcalls]
        rfl
    · rw [requests_step, requests_step, after, after, hwanted]
      exact hleft
    · rw [Tasks.step_look hfetching, Tasks.step_look hfetching', hwanted]
      have hall : ((u.requests.callAll u.context.wanted).1.map (⟨·, true⟩)).filter
          (fun k : Caller => n ≤ k.call.request)
            = (u.requests.callAll u.context.wanted).1.map (⟨·, true⟩) := by
        refine List.filter_eq_self.2 (fun k hk => ?_)
        obtain ⟨c, hc, rfl⟩ := List.mem_map.1 hk
        exact decide_eq_true (hle c (hcalls ▸ hc))
      show u.suspended ++ _ = (t.suspended ++ _).filter _
      rw [List.filter_append, h.suspended, hcalls, hall]
    · rw [Tasks.step_look hfetching] at hk
      rcases List.mem_append.1 hk with hk | hk
      · exact h.own k hk hown
      · obtain ⟨c, hc, rfl⟩ := List.mem_map.1 hk
        exact hle c (hwanted ▸ hc)
  · have hne : ∀ tried, t.context.fetching ≠ .looking tried :=
      fun tried hfetching => hlooking ⟨tried, hfetching⟩
    rw [step_look_of_ne hne, step_look_of_ne (fun tried => h.fetching ▸ hne tried)]
    exact h

theorem Leftover.step_finish (h : Leftover n t u) :
    Leftover n (t.step .finish) (u.step .finish) := by
  have hany : u.suspended.any Caller.own = t.suspended.any Caller.own := by
    rw [h.suspended, List.any_filter, Bool.eq_iff_iff, List.any_eq_true, List.any_eq_true]
    refine exists_congr (fun k => and_congr_right (fun hk => ?_))
    rw [Bool.and_eq_true, decide_eq_true_iff]
    exact and_iff_right_of_imp (h.own k hk)
  rw [step, step, h.fetching, hany]
  split
  · next tried calls hfetching =>
    split
    · exact h
    · have hcalls : ∀ c ∈ calls, n ≤ c.request := fun c hc => by
        refine h.calls c ?_
        rw [Context.calls, hfetching]
        exact hc
      have hcollect : t.context.collect tried calls
          = (u.context.collect tried calls).withRequests t.requests := by
        rw [h.context]
        exact Context.collect_withRequests (h.requests.answersTo hcalls) tried
      have hrequests : (t.context.collect tried calls).requests = t.requests :=
        t.context.requests_collect tried calls
      refine ⟨?_, ?_, h.suspended, fun c hc => absurd hc List.not_mem_nil, h.own⟩
      · show t.context.collect tried calls
          = (u.context.collect tried calls).withRequests (t.context.collect tried calls).requests
        rw [hrequests, hcollect]
      · show Requests.Leftover n (t.context.collect tried calls).requests
          (u.context.collect tried calls).requests
        rw [hrequests, u.context.requests_collect tried calls]
        exact h.requests
  · exact h

/-- What is left changes nothing but itself. -/
theorem Leftover.step (h : Leftover n t u) {e : Event} (hharmless : t.Harmless n e) :
    Leftover n (t.step e) (u.step e) := by
  cases e with
  | addSchema uri document name =>
      exact h.onContext (f := fun c => (c.addSchema uri document name).1)
        (fun c r => c.addSchema_withRequests r uri document name)
        (fun c => c.requests_addSchema uri document name)
        (t.context.calls_addSchema uri document name)
  | registerFormat name refusal? =>
      exact h.onContext (f := fun c => c.registerFormat name refusal?) (fun _ _ => rfl)
        (fun _ => rfl) rfl
  | wait w background =>
      exact h.onContext (f := fun c => c.wait w background) (fun _ _ => rfl) (fun _ => rfl)
        (t.context.calls_wait w background)
  | clean =>
      exact ⟨by rw [Tasks.step, Tasks.step, h.context]; rfl, h.requests.forget, h.suspended,
        h.calls, h.own⟩
  | call base =>
      obtain ⟨hcalls, hleft, hle⟩ := h.requests.callAll [base]
      have hcall : (t.requests.call base).1 = (u.requests.call base).1 := (List.cons.inj hcalls).1
      have hnew : n ≤ (t.requests.call base).1.request := hle _ (List.mem_singleton_self _)
      rw [Tasks.step, Tasks.step]
      refine h.onRequests hleft ?_ (fun k hk hown => ?_)
      · rw [List.filter_append, h.suspended, ← hcall, List.filter_cons_of_pos, List.filter_nil]
        exact decide_eq_true hnew
      · rcases List.mem_append.1 hk with hk | hk
        · exact h.own k hk hown
        · rw [List.mem_singleton.1 hk] at hown
          cases hown
  | answer request a =>
      rw [Tasks.step, Tasks.step]
      by_cases hn : n ≤ request
      · rw [h.requests.isOpen hn]
        split
        · exact h.onRequests (h.requests.answer hn a) h.suspended h.own
        · exact h
      · rw [h.requests.not_isOpen (Nat.not_le.1 hn), if_neg Bool.false_ne_true]
        split
        · exact h.onRequests (h.requests.answer_left (Nat.not_le.1 hn) a) h.suspended h.own
        · exact h
  | resume k =>
      rw [Tasks.step, Tasks.step]
      by_cases hn : n ≤ k.call.request
      · by_cases hmay : t.MayResume k
        · rw [if_pos hmay, if_pos ((h.mayResume hn).2 hmay)]
          refine h.onRequests (h.requests.release k.call) ?_
            (fun k' hk' => h.own k' (List.mem_of_mem_erase hk'))
          rw [h.suspended, List.erase_filter]
        · rw [if_neg hmay, if_neg (mt (h.mayResume hn).1 hmay)]
          exact h
      · have hgone : k ∉ t.suspended.filter (fun k => n ≤ k.call.request) :=
          fun hk => hn (of_decide_eq_true (List.mem_filter.1 hk).2)
        have hnot : ¬u.MayResume k := fun hmay => hgone (h.suspended ▸ hmay.1)
        rw [if_neg hnot]
        split
        · next hmay =>
          rw [Requests.release_of_none (hharmless (Nat.not_le.1 hn))]
          refine h.onRequests h.requests ?_ (fun k' hk' => h.own k' (List.mem_of_mem_erase hk'))
          rw [← List.erase_filter, List.erase_of_not_mem hgone]
          exact h.suspended
        · exact h
  | start =>
      refine h.onContext (f := Context.start) (fun c r => ?_) Context.requests_start
        t.context.calls_start
      unfold Context.start Context.withRequests
      dsimp only
      split <;> rfl
  | look => exact h.step_look
  | finish => exact h.step_finish

theorem Leftover.run (h : Leftover n t u) {es : List Event}
    (hharmless : Throughout (Harmless n) t es) : Leftover n (t.run es) (u.run es) := by
  induction es generalizing t u with
  | nil => exact h
  | cons e es ih => exact ih (h.step hharmless.1) hharmless.2

/-- A fresh context with the formats that have been registered and those who wait, whose requests
are numbered on; nobody is suspended. -/
def fresh (t : Tasks) : Tasks where
  context :=
    { Context.new t.context.parent t.context.options with
      formats := t.context.formats
      registry := Context.freshRegistry t.context.parent t.context.options t.context.formats
      snapshot :=
        (Context.freshRegistry t.context.parent t.context.options t.context.formats).snapshot
      requests := { Requests.empty with next := t.requests.next }
      fetching := t.context.fetching.anew
      waiters := t.context.waiters
      batches := t.context.batches }
  suspended := []

theorem leftover_clean (h : t.Sound) (hanew : t.context.fetching.anew = t.context.fetching) :
    Leftover t.requests.next (t.step .clean) t.fresh := by
  have hcalls := Context.calls_of_anew hanew
  have hold : ∀ {α : Type} (number : α → Nat) (l : List α), (∀ x ∈ l, number x < t.requests.next) →
      l.filter (fun x => t.requests.next ≤ number x) = [] := by
    intro α number l hlt
    refine List.filter_eq_nil_iff.2 (fun x hx hle => ?_)
    exact Nat.not_le.2 (hlt x hx) (of_decide_eq_true hle)
  refine ⟨?_, ⟨rfl, ?_, ?_, rfl, le_refl _, ?_⟩, ?_, ?_, fun k hk hown => ?_⟩
  · rw [fresh, hanew]
    rfl
  · exact (hold Call.request _ h.numbered.unanswered).symm
  · exact (hold Prod.fst _ h.numbered.answers).symm
  · exact fun _ _ hshared => nomatch (hshared : (none : Option Nat) = some _)
  · exact (hold (fun k : Caller => k.call.request) _ h.suspended).symm
  · intro c hc
    have hnone : c ∈ t.context.calls := hc
    rw [hcalls] at hnone
    cases hnone
  · have hcall := h.own k hk hown
    rw [hcalls] at hcall
    cases hcall

/-- When the fetch has nothing behind it, a context that is cleaned goes on like a fresh one, unless
a caller who was suspended before drops a request that began after. -/
theorem clean_sameContent (parent : Option Store) (options : Options) (past later : List Event)
    (hanew : ((new parent options).run past).context.fetching.anew
      = ((new parent options).run past).context.fetching)
    (hharmless : Throughout (Harmless ((new parent options).run past).requests.next)
      (((new parent options).run past).step .clean) later) :
    Context.SameContent ((((new parent options).run past).step .clean).run later).context
      (((new parent options).run past).fresh.run later).context := by
  have hleft := (leftover_clean (sound_run (sound_new parent options) past) hanew).run hharmless
  rw [hleft.context]
  exact ⟨rfl, rfl, rfl⟩

/-- A caller goes on with an answer that came after the cleaning, and another schema is registered.
-/
theorem clean_sameContent_of_suspended_caller :
    Context.SameContent
      ((((new none Options.standard).run [.addSchema "s" none none, .call "s"]).step .clean).run
        [.answer 0 (.ok .null), .resume ⟨⟨"s", 0⟩, false⟩, .addSchema "t" none none]).context
      (((new none Options.standard).run [.addSchema "s" none none, .call "s"]).fresh.run
        [.answer 0 (.ok .null), .resume ⟨⟨"s", 0⟩, false⟩, .addSchema "t" none none]).context :=
  clean_sameContent none Options.standard [.addSchema "s" none none, .call "s"]
    [.answer 0 (.ok .null), .resume ⟨⟨"s", 0⟩, false⟩, .addSchema "t" none none] rfl
    ⟨trivial, fun _ => rfl, trivial, trivial⟩

/-- The document that was on its way when the context was cleaned. -/
theorem clean_takes_old_answer :
    ¬∀ (parent : Option Store) (options : Options) (past later : List Event),
      Context.SameContent ((((new parent options).run past).step .clean).run later).context
        (((new parent options).run past).fresh.run later).context := by
  intro h
  have hsame := h none Options.standard
    [.addSchema "s" none none, .wait (.callback .wake) true, .start, .look]
    [.answer 0 (.ok (.object [])), .resume ⟨⟨"s", 0⟩, true⟩, .finish]
  have hthere : ((((new none Options.standard).run
      [.addSchema "s" none none, .wait (.callback .wake) true, .start, .look]).step .clean).run
      [.answer 0 (.ok (.object [])), .resume ⟨⟨"s", 0⟩, true⟩,
        .finish]).context.registry.handlesBase "s" = true := by cbv
  have hnot : (((new none Options.standard).run
      [.addSchema "s" none none, .wait (.callback .wake) true, .start, .look]).fresh.run
      [.answer 0 (.ok (.object [])), .resume ⟨⟨"s", 0⟩, true⟩,
        .finish]).context.registry.handlesBase "s" = false := by cbv
  rw [hsame.registry, hnot] at hthere
  cases hthere

end Tasks

end HyperSchema
