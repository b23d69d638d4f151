import HyperSchema.Context.Basic
import HyperSchema.Proofs.Table
import Mathlib.Data.List.Basic

/-!
# Tasks that share a context

Several tasks share a context. Some register schemas, some fetch documents, and one carries the
fetch of what is missing from round to round. Who calls for a document is suspended until the
transport has answered, and goes on when the turn comes, which may be long after. What happens next
is an event; an event that cannot happen changes nothing. A round of the fetch ends when all its
callers have gone on.
-/

namespace HyperSchema

/-! ### Requests -/

namespace Requests

variable {r : Requests} {base : String} {bases : List String} {c : Call}

def begin (r : Requests) (base : String) : Requests :=
  { r with
    shared := Table.insert r.shared base r.next
    unanswered := r.unanswered ++ [⟨base, r.next⟩]
    next := r.next + 1 }

theorem call_of_shared {request : Nat} (h : Table.get? r.shared base = some request) :
    r.call base = (⟨base, request⟩, r) := by
  rw [call, h]

theorem call_of_none (h : Table.get? r.shared base = none) :
    r.call base = (⟨base, r.next⟩, r.begin base) := by
  rw [call, h]
  rfl

theorem call_cases (r : Requests) (base : String) :
    (∃ request, Table.get? r.shared base = some request ∧ r.call base = (⟨base, request⟩, r))
      ∨ (Table.get? r.shared base = none ∧ r.call base = (⟨base, r.next⟩, r.begin base)) := by
  cases h : Table.get? r.shared base with
  | some request => exact .inl ⟨request, rfl, call_of_shared h⟩
  | none => exact .inr ⟨rfl, call_of_none h⟩

theorem callAll_cons (r : Requests) (base : String) (bases : List String) :
    r.callAll (base :: bases)
      = ((r.call base).1 :: ((r.call base).2.callAll bases).1, ((r.call base).2.callAll bases).2) :=
  rfl

/-- What holds of the requests and is kept when one is begun holds after calls for documents. -/
theorem callAll_keeps {P : Requests → Prop}
    (hbegin : ∀ r base, Table.get? r.shared base = none → P r → P (r.begin base)) (h : P r)
    (bases : List String) : P (r.callAll bases).2 := by
  induction bases generalizing r with
  | nil => exact h
  | cons base bases ih =>
      rw [callAll_cons]
      rcases r.call_cases base with ⟨request, -, heq⟩ | ⟨hnone, heq⟩
      · rw [heq]
        exact ih h
      · rw [heq]
        exact ih (hbegin r base hnone h)

theorem map_base_callAll (r : Requests) (bases : List String) :
    (r.callAll bases).1.map Call.base = bases := by
  induction bases generalizing r with
  | nil => rfl
  | cons base bases ih =>
      rw [callAll_cons, List.map_cons, ih]
      rcases r.call_cases base with ⟨request, -, heq⟩ | ⟨-, heq⟩ <;> rw [heq]

/-- Requests are numbered as they begin. -/
structure Numbered (r : Requests) : Prop where
  unanswered : ∀ o ∈ r.unanswered, o.request < r.next
  shared : ∀ base request, Table.get? r.shared base = some request → request < r.next
  answers : ∀ a ∈ r.answers, a.1 < r.next

theorem Numbered.begin (h : r.Numbered) (base : String) : (r.begin base).Numbered where
  unanswered := fun o ho => by
    rcases List.mem_append.1 ho with ho | ho
    · exact Nat.lt_succ_of_lt (h.unanswered o ho)
    · rw [List.mem_singleton.1 ho]
      exact Nat.lt_succ_self _
  shared := fun other request hshared => by
    rw [Requests.begin, Table.get?_insert] at hshared
    split at hshared
    · obtain rfl := Option.some.inj hshared
      exact Nat.lt_succ_self _
    · exact Nat.lt_succ_of_lt (h.shared other request hshared)
  answers := fun a ha => Nat.lt_succ_of_lt (h.answers a ha)

theorem Numbered.callAll (h : r.Numbered) (bases : List String) : (r.callAll bases).2.Numbered :=
  callAll_keeps (P := Numbered) (fun _ base _ h => h.begin base) h bases

theorem next_le_callAll (r : Requests) (bases : List String) :
    r.next ≤ (r.callAll bases).2.next :=
  callAll_keeps (P := fun r' => r.next ≤ r'.next) (fun _ _ _ h => Nat.le_succ_of_le h)
    (le_refl r.next) bases

theorem request_lt_of_mem_callAll (h : r.Numbered) {bases : List String} {c : Call}
    (hc : c ∈ (r.callAll bases).1) : c.request < (r.callAll bases).2.next := by
  induction bases generalizing r with
  | nil => cases hc
  | cons base bases ih =>
      rw [callAll_cons] at hc ⊢
      rcases r.call_cases base with ⟨request, hshared, heq⟩ | ⟨-, heq⟩
      · rw [heq] at hc ⊢
        rcases List.mem_cons.1 hc with rfl | hc
        · exact Nat.lt_of_lt_of_le (h.shared base request hshared) (next_le_callAll r bases)
        · exact ih h hc
      · rw [heq] at hc ⊢
        rcases List.mem_cons.1 hc with rfl | hc
        · exact next_le_callAll (r.begin base) bases
        · exact ih (h.begin base) hc

theorem Numbered.answer {request : Nat} (h : r.Numbered) (hopen : r.isOpen request = true)
    (a : Answer) : (r.answer request a).Numbered where
  unanswered := fun o ho => h.unanswered o (List.mem_filter.1 ho).1
  shared := h.shared
  answers := fun b hb => by
    rcases List.mem_append.1 hb with hb | hb
    · exact h.answers b hb
    · obtain ⟨o, ho, heq⟩ := List.any_eq_true.1 hopen
      rw [List.mem_singleton.1 hb, ← beq_iff_eq.1 heq]
      exact h.unanswered o ho

theorem Numbered.release (h : r.Numbered) (c : Call) : (r.release c).Numbered where
  unanswered := h.unanswered
  shared := fun base request hshared => by
    rw [Requests.release] at hshared
    by_cases hbase : c.base = base
    · subst hbase
      rw [Table.get?_erase_self] at hshared
      cases hshared
    · rw [Table.get?_erase_of_ne _ hbase] at hshared
      exact h.shared base request hshared
  answers := h.answers

def forget (r : Requests) : Requests := { r with shared := [] }

theorem Numbered.forget (h : r.Numbered) : r.forget.Numbered where
  unanswered := h.unanswered
  shared := fun _ _ hshared => nomatch hshared
  answers := h.answers

def releaseAll (r : Requests) (calls : List Call) : Requests := calls.foldl release r

theorem answers_releaseAll (r : Requests) (calls : List Call) :
    (r.releaseAll calls).answers = r.answers := by
  induction calls generalizing r with
  | nil => rfl
  | cons c calls ih => exact ih (r.release c)

def answersTo (r : Requests) (calls : List Call) : List (String × Answer) :=
  calls.filterMap (fun c => (r.answerTo? c).map (fun a => (c.base, a)))

theorem takeAll_eq (r : Requests) (calls : List Call) :
    r.takeAll calls = (r.answersTo calls, r.releaseAll calls) := by
  induction calls generalizing r with
  | nil => rfl
  | cons c calls ih =>
      have hrest : (r.release c).answersTo calls = r.answersTo calls := rfl
      have hfirst : r.answersTo (c :: calls)
          = ((r.answerTo? c).map (fun a => (c.base, a))).toList ++ r.answersTo calls := by
        rw [answersTo, List.filterMap_cons]
        cases r.answerTo? c <;> rfl
      rw [takeAll, ih, hrest, hfirst]
      cases r.answerTo? c <;> rfl

end Requests

/-! ### Contexts -/

namespace Context

def withRequests (c : Context) (requests : Requests) : Context := { c with requests := requests }

/-- The fetch has given way before its first round. -/
def start (c : Context) : Context :=
  match c.fetching with
  | .starting => { c with fetching := .looking [] }
  | _ => c

theorem requests_start (c : Context) : c.start.requests = c.requests := by
  rw [start]
  split <;> rfl

def collect (c : Context) (tried : List String) (calls : List Call) : Context :=
  let c := (c.requests.answersTo calls).foldl (fun c a => c.takeAnswer a.1 a.2) c
  { c.recompile.1 with fetching := .looking (tried ++ calls.map Call.base) }

theorem requests_addSchema (c : Context) (uri : String) (document : Option Json)
    (name : Option String) : (c.addSchema uri document name).1.requests = c.requests := by
  rw [addSchema]
  cases c.registry.addSchema uri document name <;> rfl

theorem requests_takeAnswer (c : Context) (base : String) (a : Answer) :
    (c.takeAnswer base a).requests = c.requests := by
  unfold takeAnswer
  dsimp only
  split
  · split <;> rfl
  · split
    · rfl
    · split <;> rfl

theorem requests_collect (c : Context) (tried : List String) (calls : List Call) :
    (c.collect tried calls).requests = c.requests := by
  have hanswers : ∀ (answers : List (String × Answer)) (c : Context),
      (answers.foldl (fun c a => c.takeAnswer a.1 a.2) c).requests = c.requests := by
    intro answers
    induction answers with
    | nil => exact fun _ => rfl
    | cons a rest ih => exact fun c => (ih _).trans (c.requests_takeAnswer a.1 a.2)
  exact hanswers _ c

theorem calls_addSchema (c : Context) (uri : String) (document : Option Json)
    (name : Option String) : (c.addSchema uri document name).1.calls = c.calls := by
  rw [addSchema]
  cases c.registry.addSchema uri document name <;> rfl

theorem calls_wait (c : Context) (w : Waiter) (background : Bool) :
    (c.wait w background).calls = c.calls := by
  rw [wait, calls, calls]
  cases c.fetching with
  | idle => cases background <;> rfl
  | _ => rfl

theorem calls_start (c : Context) : c.start.calls = c.calls := by
  rw [start]
  split
  · next h => rw [calls, calls, h]
  · rfl

def wanted (c : Context) : List String :=
  match c.fetching with
  | .looking tried => c.missing.filter (fun base => !tried.contains base)
  | _ => []

theorem look_eq {c : Context} {tried : List String} (h : c.fetching = .looking tried) :
    c.look tried = if c.wanted = [] then c.endFetch else
        { c with
          requests := (c.requests.callAll c.wanted).2
          fetching := .awaiting tried (c.requests.callAll c.wanted).1 } := by
  rw [look, wanted, h]
  dsimp only
  split
  · next hnone => rw [if_pos hnone]
  · next hsome => rw [if_neg hsome]

/-- After it has looked, the fetch waits for the calls that it has made. -/
theorem calls_look {c : Context} {tried : List String} (h : c.fetching = .looking tried) :
    (c.look tried).calls = (c.requests.callAll c.wanted).1 := by
  rw [look_eq h]
  split
  · next hnone =>
    rw [hnone]
    rfl
  · rfl

theorem finishRound_eq (c : Context) (tried : List String) (calls : List Call) :
    c.finishRound tried calls
      = (c.withRequests (c.requests.releaseAll calls)).collect tried calls := by
  have hanswers : (c.requests.releaseAll calls).answersTo calls = c.requests.answersTo calls := by
    rw [Requests.answersTo, Requests.answersTo]
    unfold Requests.answerTo?
    rw [Requests.answers_releaseAll]
  rw [finishRound, Requests.takeAll_eq, collect, withRequests, hanswers]

end Context

/-! ### Tasks -/

/-- A caller who is suspended; whether it is the fetch of what is missing that calls. -/
structure Caller where
  call : Call
  own : Bool
  deriving DecidableEq

/-- A context, and who is suspended until a request of it is answered. -/
structure Tasks where
  context : Context
  suspended : List Caller

inductive Event where
  | addSchema (uri : String) (document : Option Json) (name : Option String)
  | registerFormat (name : String) (refusal? : Json → Option String)
  | wait (w : Waiter) (background : Bool)
  | clean
  | call (base : String)
  | answer (request : Nat) (a : Answer)
  | resume (k : Caller)
  | start
  | look
  | finish

namespace Tasks

def new (parent : Option Store) (options : Options) : Tasks := ⟨Context.new parent options, []⟩

def requests (t : Tasks) : Requests := t.context.requests

def MayResume (t : Tasks) (k : Caller) : Prop :=
  k ∈ t.suspended ∧ (t.requests.answerTo? k.call).isSome = true

instance (t : Tasks) (k : Caller) : Decidable (t.MayResume k) :=
  inferInstanceAs (Decidable (_ ∧ _))

def step (t : Tasks) : Event → Tasks
  | .addSchema uri document name =>
    { t with context := (t.context.addSchema uri document name).1 }
  | .registerFormat name refusal? =>
    { t with context := t.context.registerFormat name refusal? }
  | .wait w background => { t with context := t.context.wait w background }
  | .clean => { t with context := t.context.clean }
  | .call base =>
    { context := t.context.withRequests (t.requests.call base).2
      suspended := t.suspended ++ [⟨(t.requests.call base).1, false⟩] }
  | .answer request a =>
    if t.requests.isOpen request then
      { t with context := t.context.withRequests (t.requests.answer request a) }
    else t
  | .resume k =>
    if t.MayResume k then
      { context := t.context.withRequests (t.requests.release k.call)
        suspended := t.suspended.erase k }
    else t
  | .start => { t with context := t.context.start }
  | .look =>
    match t.context.fetching with
    | .looking tried =>
      let context := t.context.look tried
      { context := context, suspended := t.suspended ++ context.calls.map (⟨·, true⟩) }
    | _ => t
  | .finish =>
    match t.context.fetching with
    | .awaiting tried calls =>
      if t.suspended.any Caller.own then t
      else { t with context := t.context.collect tried calls }
    | _ => t

def run (t : Tasks) (es : List Event) : Tasks := es.foldl step t

/-- Every event of a run finds the tasks in a state that suits it. -/
def Throughout (P : Tasks → Event → Prop) : Tasks → List Event → Prop
  | _, [] => True
  | t, e :: es => P t e ∧ Throughout P (t.step e) es

def after (t : Tasks) : Event → Requests
  | .clean => t.requests.forget
  | .call base => (t.requests.callAll [base]).2
  | .answer request a =>
    if t.requests.isOpen request then t.requests.answer request a else t.requests
  | .resume k => if t.MayResume k then t.requests.release k.call else t.requests
  | .look => (t.requests.callAll t.context.wanted).2
  | _ => t.requests

theorem step_look {t : Tasks} {tried : List String} (h : t.context.fetching = .looking tried) :
    t.step .look = { context := t.context.look tried
                     suspended := t.suspended
                      ++ (t.requests.callAll t.context.wanted).1.map (⟨·, true⟩) } := by
  rw [step, h]
  dsimp only
  rw [Context.calls_look h]
  rfl

theorem step_look_of_ne {t : Tasks} (h : ∀ tried, t.context.fetching ≠ .looking tried) :
    t.step .look = t := by
  rw [step]
  split
  · next tried hlooking => exact absurd hlooking (h tried)
  · rfl

/-- A round ends once all of its callers have gone on. -/
theorem step_finish (t : Tasks) : t.step .finish = t
    ∨ ∃ tried, (∀ k ∈ t.suspended, ¬k.own = true)
      ∧ t.step .finish = { t with context := t.context.collect tried t.context.calls } := by
  rw [step]
  split
  · next tried calls hfetching =>
    split
    · exact .inl rfl
    · next hnone =>
      refine .inr ⟨tried, fun k hk hown => hnone (List.any_eq_true.2 ⟨k, hk, hown⟩), ?_⟩
      rw [Context.calls, hfetching]
  · exact .inl rfl

theorem requests_step (t : Tasks) (e : Event) : (t.step e).requests = t.after e := by
  cases e with
  | addSchema uri document name => exact t.context.requests_addSchema uri document name
  | registerFormat name refusal? => rfl
  | wait w background => rfl
  | clean => rfl
  | call base => rfl
  | answer request a =>
      rw [step, after]
      split <;> rfl
  | resume k =>
      rw [step, after]
      split <;> rfl
  | start => exact t.context.requests_start
  | look =>
      rw [step, after]
      split
      · next tried hfetching =>
        rw [requests, Context.look_eq hfetching]
        dsimp only
        split
        · next hnone =>
          rw [hnone]
          rfl
        · rfl
      · next hfetching =>
        rw [Context.wanted]
        split
        · next tried hlooking => exact absurd hlooking (hfetching tried)
        · rfl
  | finish =>
      rcases t.step_finish with hsame | ⟨tried, -, hstep⟩
      · exact congrArg requests hsame
      · exact (congrArg requests hstep).trans (t.context.requests_collect tried _)

theorem numbered_step {t : Tasks} (h : t.requests.Numbered) (e : Event) :
    (t.step e).requests.Numbered := by
  rw [requests_step]
  cases e with
  | clean => exact h.forget
  | call base => exact h.callAll [base]
  | answer request a =>
      rw [after]
      split
      · next hopen => exact h.answer hopen a
      · exact h
  | resume k =>
      rw [after]
      split
      · exact h.release k.call
      · exact h
  | look => exact h.callAll _
  | _ => exact h

theorem numbered_run {t : Tasks} (h : t.requests.Numbered) (es : List Event) :
    (t.run es).requests.Numbered := by
  induction es generalizing t with
  | nil => exact h
  | cons e es ih => exact ih (numbered_step h e)

theorem numbered_new (parent : Option Store) (options : Options) :
    (new parent options).requests.Numbered where
  unanswered := fun _ h => absurd h List.not_mem_nil
  shared := fun _ _ h => nomatch (h : (none : Option Nat) = some _)
  answers := fun _ h => absurd h List.not_mem_nil

/-- Who is suspended waits for a request that has begun, and for the fetch only while it waits. -/
structure Sound (t : Tasks) : Prop where
  numbered : t.requests.Numbered
  suspended : ∀ k ∈ t.suspended, k.call.request < t.requests.next
  own : ∀ k ∈ t.suspended, k.own = true → k.call ∈ t.context.calls

/-- Nobody new is suspended, and the fetch waits for what it waited for. -/
theorem Sound.fewer {t t' : Tasks} (h : t.Sound) (hnumbered : t'.requests.Numbered)
    (hnext : t'.requests.next = t.requests.next) (hsub : t'.suspended ⊆ t.suspended)
    (hcalls : t'.context.calls = t.context.calls) : t'.Sound where
  numbered := hnumbered
  suspended := fun k hk => hnext ▸ h.suspended k (hsub hk)
  own := fun k hk hown => hcalls ▸ h.own k (hsub hk) hown

theorem Sound.step {t : Tasks} (h : t.Sound) (e : Event) : (t.step e).Sound := by
  have hnumbered := numbered_step h.numbered e
  have hrequests := t.requests_step e
  cases e with
  | addSchema uri document name =>
      exact h.fewer hnumbered (congrArg Requests.next hrequests) (List.Subset.refl _)
        (t.context.calls_addSchema uri document name)
  | registerFormat name refusal? => exact h.fewer hnumbered rfl (List.Subset.refl _) rfl
  | wait w background =>
      exact h.fewer hnumbered rfl (List.Subset.refl _) (t.context.calls_wait w background)
  | clean => exact h.fewer hnumbered rfl (List.Subset.refl _) rfl
  | call base =>
      have hnext : t.requests.next ≤ (t.requests.callAll [base]).2.next :=
        Requests.next_le_callAll _ _
      have hlt : ∀ c ∈ (t.requests.callAll [base]).1, c.request < _ :=
        fun c hc => Requests.request_lt_of_mem_callAll h.numbered hc
      refine ⟨hnumbered, fun k hk => ?_, fun k hk hown => ?_⟩
      · rcases List.mem_append.1 hk with hk | hk
        · exact Nat.lt_of_lt_of_le (h.suspended k hk) hnext
        · rw [List.mem_singleton.1 hk]
          exact hlt _ (List.mem_singleton_self _)
      · rcases List.mem_append.1 hk with hk | hk
        · exact h.own k hk hown
        · rw [List.mem_singleton.1 hk] at hown
          cases hown
  | answer request a =>
      by_cases hopen : t.requests.isOpen request = true
      · have hstep : t.step (.answer request a) = _ := if_pos hopen
        rw [hstep] at hnumbered ⊢
        exact h.fewer hnumbered rfl (List.Subset.refl _) rfl
      · have hstep : t.step (.answer request a) = t := if_neg hopen
        rwa [hstep]
  | resume k =>
      by_cases hmay : t.MayResume k
      · have hstep : t.step (.resume k) = _ := if_pos hmay
        rw [hstep] at hnumbered ⊢
        exact h.fewer hnumbered rfl List.erase_subset rfl
      · have hstep : t.step (.resume k) = t := if_neg hmay
        rwa [hstep]
  | start =>
      exact h.fewer hnumbered (congrArg Requests.next hrequests) (List.Subset.refl _)
        t.context.calls_start
  | look =>
      by_cases hlooking : ∃ tried, t.context.fetching = .looking tried
      · obtain ⟨tried, hfetching⟩ := hlooking
        have hcalls : (t.step .look).context.calls = (t.requests.callAll t.context.wanted).1 := by
          rw [step_look hfetching]
          exact Context.calls_look hfetching
        have hnext : (t.step .look).requests.next
            = (t.requests.callAll t.context.wanted).2.next := congrArg Requests.next hrequests
        have hnone : ∀ k ∈ t.suspended, k.own = false := fun k hk => by
          rw [Bool.eq_false_iff]
          intro hown
          have hcall := h.own k hk hown
          rw [Context.calls, hfetching] at hcall
          cases hcall
        have hcases : ∀ k ∈ (t.step .look).suspended, k ∈ t.suspended
            ∨ k.call ∈ (t.requests.callAll t.context.wanted).1 := fun k hk => by
          rw [step_look hfetching] at hk
          rcases List.mem_append.1 hk with hk | hk
          · exact .inl hk
          · obtain ⟨c, hc, rfl⟩ := List.mem_map.1 hk
            exact .inr hc
        refine ⟨hnumbered, fun k hk => ?_, fun k hk hown => ?_⟩
        · rw [hnext]
          rcases hcases k hk with hold | hnew
          · exact Nat.lt_of_lt_of_le (h.suspended k hold) (Requests.next_le_callAll _ _)
          · exact Requests.request_lt_of_mem_callAll h.numbered hnew
        · rw [hcalls]
          rcases hcases k hk with hold | hnew
          · rw [hnone k hold] at hown
            cases hown
          · exact hnew
      · rw [step_look_of_ne fun tried hfetching => hlooking ⟨tried, hfetching⟩]
        exact h
  | finish =>
      rcases t.step_finish with hsame | ⟨tried, hnone, hstep⟩
      · rwa [hsame]
      · refine ⟨hnumbered, fun k hk => ?_, fun k hk hown => ?_⟩
        · rw [hrequests]
          rw [hstep] at hk
          exact h.suspended k hk
        · rw [hstep] at hk
          exact absurd hown (hnone k hk)

theorem sound_run {t : Tasks} (h : t.Sound) (es : List Event) : (t.run es).Sound := by
  induction es generalizing t with
  | nil => exact h
  | cons e es ih => exact ih (h.step e)

theorem sound_new (parent : Option Store) (options : Options) : (new parent options).Sound where
  numbered := numbered_new parent options
  suspended := fun _ h => absurd h List.not_mem_nil
  own := fun _ h => absurd h List.not_mem_nil

end Tasks

end HyperSchema
