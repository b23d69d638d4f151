import HyperSchema.Proofs.Session.Waiting

/-!
# Operations on a session

A session is used in any way, while the background carries the fetch on step by step, and those who
have been released are let go one after the other. Each fetch that has ended lets go of its own
batch, whatever the others do, and so their steps come in any order. What an operation can do about
those who wait is said once, case by case: somebody comes to wait, all who wait are released, the
next errand of a batch is run, or nothing of that. The background makes no other steps than these.
What a listener or a callback goes on to do comes as further operations.
-/

namespace HyperSchema

namespace Session

/-- What can be done with a session, the steps of the background included. -/
inductive Operation where
  | create (value : Json) (url : Option String) (failure : Option TransportError)
  | addSchema (model : Nat) (uri : String) (document : Option Json)
  | write (model : Nat) (path : String) (x : Json)
  | whenReady (model : Nat) (c : Callback)
  | handle (model : Nat) (path : String)
  | subscribe (model : Nat) (path label : String) (answer : Option (String × Json))
  | unsubscribe (model : Nat) (path : String) (number : Nat)
  | register (uri : String) (document : Option Json) (name : Option String)
  | registerFormat (name : String) (refusal? : Json → Option String)
  | whenFetched (c : Callback)
  | clean
  | serve (transport : MemoryTransport)
  | fetchSchemas (urls : List String)
  | fetchStep
  | runNext (batch : Nat)

/-- What remains to be done for the fetch that was the n-th to end. -/
def batch (s : Session) (n : Nat) : List Errand := s.context.batches[n]?.getD []

def withBatches (s : Session) (batches : List (List Errand)) : Session :=
  { s with context := { s.context with batches := batches } }

/-- Runs the next errand of a batch; what is to be done because of it comes first in the batch. -/
def runNext (s : Session) (n : Nat) : Session :=
  match s.batch n with
  | [] => s
  | e :: rest =>
    (s.runErrand e).2.withBatches (s.context.batches.set n ((s.runErrand e).1 ++ rest))

/-- Fetches the documents of schemas, the steps of the background being operations of their own. -/
def fetchUndisturbed (s : Session) (urls : List String) : List Answer × Session :=
  if s.overlapping then fetchTogether id s urls else s.fetchInTurn urls

def wait (s : Session) (w : Waiter) : Session :=
  { s with context := s.context.wait w s.background }

def perform (s : Session) : Operation → Session
  | .create value url failure =>
    (s.addModel { Model.new value url with documentError := failure }).2
  | .addSchema i uri document => (s.addSchema i uri document).1
  | .write i path x => (s.write i path x).2
  | .whenReady i c => s.whenReady i c
  | .handle i path =>
    match s.model? i with
    | some m => s.setModel i (m.withHandle path)
    | none => s
  | .subscribe i path label answer =>
    match s.model? i with
    | some m => (s.subscribe i m path label answer).2
    | none => s
  | .unsubscribe i path number => s.unsubscribe i path number
  | .register uri document name => { s with context := (s.context.addSchema uri document name).1 }
  | .registerFormat name refusal? => { s with context := s.context.registerFormat name refusal? }
  | .whenFetched c => s.whenFetched c
  | .clean => { s with context := s.context.clean }
  | .serve transport => { s with transport := transport }
  | .fetchSchemas urls => (s.fetchUndisturbed urls).2
  | .fetchStep => s.fetchStep
  | .runNext n => s.runNext n

def performAll (s : Session) (ops : List Operation) : Session := ops.foldl perform s

/-! ### What is told of an operation -/

end Session

namespace Errand

def waiter? : Errand → Option Waiter
  | .release w => some w
  | .run _ _ => none

/-- The callback of a model that has become ready, with the model. -/
def ready? : Errand → Option (Nat × Callback)
  | .release _ => none
  | .run i c => some (i, c)

def readyOf? (i : Nat) (e : Errand) : Option Callback :=
  e.ready?.bind (fun r => if r.1 = i then some r.2 else none)

/-- The callback that is run, if the errand is nothing but that. -/
def callback? : Errand → Option Callback
  | .release (.callback c) => some c
  | .release (.settle _) => none
  | .run _ c => some c

end Errand

/-- Whether an operation runs an errand of a batch. -/
def Session.Operation.isOf (n : Nat) : Operation → Bool
  | .runNext k => k == n
  | _ => false

namespace Session

def errand? (s : Session) : Operation → Option Errand
  | .runNext n => (s.batch n).head?
  | _ => none

/-- The errand of a batch that an operation runs. -/
def errandOf? (n : Nat) (s : Session) (op : Operation) : Option Errand :=
  if op.isOf n then s.errand? op else none

def arising (s : Session) (op : Operation) : List Errand :=
  match s.errand? op with
  | some e => (s.runErrand e).1
  | none => []

/-- The errands that come of running one of a batch. -/
def arisingOf (n : Nat) (s : Session) (op : Operation) : List Errand :=
  if op.isOf n then s.arising op else []

def comers (s : Session) : Operation → List Waiter
  | .addSchema i uri document =>
    match s.context.addSchema (SchemaUri.normalize uri) document none, s.model? i with
    | (context, none), some _ => if context.missing.isEmpty then [] else [.settle i]
    | _, _ => []
  | .whenFetched c => [.callback c]
  | _ => []

def released (s : Session) (op : Operation) : List Waiter :=
  ((s.perform op).context.batches.drop s.context.batches.length).flatten.filterMap Errand.waiter?

/-- Who is released by the fetch that is the n-th to end. -/
def releasedAs (n : Nat) (s : Session) (op : Operation) : List Waiter :=
  if s.context.batches.length = n then s.released op else []

def leavers (s : Session) (op : Operation) : List Waiter :=
  ((s.errand? op).bind Errand.waiter?).toList

/-- Who is let go of a batch. -/
def leaversOf (n : Nat) (s : Session) (op : Operation) : List Waiter :=
  ((errandOf? n s op).bind Errand.waiter?).toList

/-- The callbacks that are left with a model for when it is ready. -/
def asked (i : Nat) (s : Session) : Operation → List Callback
  | .whenReady j c => if j = i ∧ (s.model? j).isSome then [c] else []
  | _ => []

/-- The callbacks that are run at once, as their model is ready. -/
def prompt (s : Session) : Operation → List Callback
  | .whenReady i c =>
    match s.model? i with
    | some m => (m.whenReady c).2
    | none => []
  | _ => []

/-- The callbacks of a model that are run at once. -/
def promptOf (i : Nat) (s : Session) : Operation → List Callback
  | .whenReady j c => if j = i then s.prompt (.whenReady j c) else []
  | _ => []

/-- The callbacks that a model gives away to be run. -/
def given (i : Nat) (s : Session) (op : Operation) : List Callback :=
  promptOf i s op ++ (s.arising op).filterMap (Errand.readyOf? i)

/-- The callbacks of a model that are run. -/
def answered (i : Nat) (s : Session) (op : Operation) : List Callback :=
  promptOf i s op ++ ((s.errand? op).bind (Errand.readyOf? i)).toList

/-- The callbacks of ready models that come into a batch. -/
def dueOf (n : Nat) (s : Session) (op : Operation) : List (Nat × Callback) :=
  (arisingOf n s op).filterMap Errand.ready?

/-- The callbacks of ready models that are run from a batch. -/
def ranOf (n : Nat) (s : Session) (op : Operation) : List (Nat × Callback) :=
  ((errandOf? n s op).bind Errand.ready?).toList

def called (s : Session) (op : Operation) : List Callback :=
  s.prompt op ++ ((s.errand? op).bind Errand.callback?).toList

/-- What is told of all operations of a run, one after the other. -/
def along {α : Type} (f : Session → Operation → List α) : Session → List Operation → List α
  | _, [] => []
  | s, op :: rest => f s op ++ along f (s.perform op) rest

/-- A condition on each operation of a run, in the state that the run has come to. -/
def Throughout (P : Session → Operation → Prop) : Session → List Operation → Prop
  | _, [] => True
  | s, op :: ops => P s op ∧ Throughout P (s.perform op) ops

variable {s : Session} {op : Operation} {n : Nat}

/-! ### Errands -/

/-- All that an errand can do. -/
inductive Runs (s : Session) : Errand → List Errand → Session → Prop where
  | callback (c : Callback) : Runs s (.release (.callback c)) [] (s.runCallback c)
  | ready (i : Nat) (c : Callback) : Runs s (.run i c) [] (s.runCallback c)
  | nobody {i : Nat} (hm : s.model? i = none) : Runs s (.release (.settle i)) [] s
  | settle {i : Nat} {m : Model} (hm : s.model? i = some m) :
      Runs s (.release (.settle i)) ((m.settle s.context.snapshot).2.2.map (.run i))
        ((s.setModel i (m.settle s.context.snapshot).1).deliverAll i
          (m.settle s.context.snapshot).2.1)

theorem runs_runErrand (s : Session) (e : Errand) :
    Runs s e (s.runErrand e).1 (s.runErrand e).2 := by
  match e with
  | .run i c => exact .ready i c
  | .release (.callback c) => exact .callback c
  | .release (.settle i) =>
      rw [runErrand]
      cases hm : s.model? i with
      | none => exact .nobody hm
      | some m => exact .settle hm

/-- What is to be done because of an errand is to run callbacks, and nothing comes of that. -/
theorem Runs.exists_ready {e : Errand} {more : List Errand} {s' : Session} (h : Runs s e more s') :
    ∃ ready : List (Nat × Callback),
      more = ready.map (fun r => .run r.1 r.2) ∧ (e.ready?.isSome → ready = []) := by
  cases h with
  | callback c => exact ⟨[], rfl, fun _ => rfl⟩
  | ready i c => exact ⟨[], rfl, fun _ => rfl⟩
  | nobody hm => exact ⟨[], rfl, fun _ => rfl⟩
  | @settle i m hm =>
      refine ⟨(m.settle s.context.snapshot).2.2.map (fun c => (i, c)), ?_,
        fun hready => Bool.noConfusion hready⟩
      rw [List.map_map]
      rfl

/-- An errand leaves those alone who have not been released. -/
theorem Runs.sameLine {e : Errand} {more : List Errand} {s' : Session} (h : Runs s e more s') :
    Context.SameLine s.context s'.context := by
  cases h with
  | callback c =>
      rw [(s.runCallback_spec c).1]
      exact .refl _
  | ready i c =>
      rw [(s.runCallback_spec c).1]
      exact .refl _
  | nobody hm => exact .refl _
  | @settle i m hm =>
      exact (quiet_deliverAll (s.setModel i (m.settle s.context.snapshot).1) i _).context

theorem exists_batches_eq {e : Errand} {rest : List Errand} (h : s.batch n = e :: rest) :
    ∃ front back, front.length = n ∧ s.context.batches = front ++ (e :: rest) :: back := by
  rw [batch] at h
  cases hbatch : s.context.batches[n]? with
  | none =>
      rw [hbatch] at h
      cases h
  | some errands =>
      rw [hbatch] at h
      obtain ⟨hn, hget⟩ := List.getElem?_eq_some_iff.1 hbatch
      refine ⟨s.context.batches.take n, s.context.batches.drop (n + 1),
        List.length_take_of_le (Nat.le_of_lt hn), ?_⟩
      rw [← show errands = e :: rest from h, ← hget, List.getElem_cons_drop,
        List.take_append_drop]

theorem batch_of_batches_eq {front back : List (List Errand)} {errands : List Errand}
    (h : s.context.batches = front ++ errands :: back) : s.batch front.length = errands := by
  rw [batch, h, List.getElem?_append_right (Nat.le_refl _), Nat.sub_self]
  rfl

theorem runNext_of_batches_eq {front back : List (List Errand)} {e : Errand} {rest : List Errand}
    (h : s.context.batches = front ++ (e :: rest) :: back) :
    s.runNext front.length
      = (s.runErrand e).2.withBatches (front ++ ((s.runErrand e).1 ++ rest) :: back) := by
  rw [runNext, batch_of_batches_eq h, h]
  dsimp only
  rw [List.set_append_right _ _ (Nat.le_refl _), Nat.sub_self, List.set_cons_zero]

/-! ### What an operation can do -/

/-- An operation that those who wait have no part in. -/
structure Silent (s : Session) (op : Operation) : Prop where
  comers : s.comers op = []
  errand : s.errand? op = none
  asked : ∀ i, asked i s op = []
  prompt : s.prompt op = []

/-- All that an operation can do about those who wait. -/
inductive Effect (s : Session) : Operation → Session → Prop where
  | quiet {op : Operation} {s' : Session} (h : Quiet s s') (hsilent : Silent s op) : Effect s op s'
  | create (value : Json) (url : Option String) (failure : Option TransportError) :
      Effect s (.create value url failure)
        (s.addModel { Model.new value url with documentError := failure }).2
  | waits {i : Nat} {uri : String} {document : Option Json} {m m' : Model} {s' : Session}
      (hm : s.model? i = some m) (hbalances : ∀ n, m.Balances n → m'.Balances (n + 1))
      (hcallbacks : m'.callbacks = m.callbacks) (hquiet : Quiet (s.setModel i m') s')
      (hcomers : s.comers (.addSchema i uri document) = [.settle i]) :
      Effect s (.addSchema i uri document) (s'.wait (.settle i))
  | fetched (c : Callback) : Effect s (.whenFetched c) (s.wait (.callback c))
  | ends : Effect s .fetchStep { s with context := s.context.endFetch }
  | ready {i : Nat} (c : Callback) {m : Model} (hm : s.model? i = some m) :
      Effect s (.whenReady i c)
        ((s.setModel i (m.whenReady c).1).runCallbacks (m.whenReady c).2)
  | next {front back : List (List Errand)} {e : Errand} {rest more : List Errand} {s' : Session}
      (h : s.context.batches = front ++ (e :: rest) :: back) (hruns : Runs s e more s')
      (harising : s.arising (.runNext front.length) = more) :
      Effect s (.runNext front.length) (s'.withBatches (front ++ (more ++ rest) :: back))

theorem relates_fetchUndisturbed {R : Session → Session → Prop} (hrefl : ∀ s, R s s)
    (htrans : ∀ {s s' s''}, R s s' → R s' s'' → R s s'') (hanswer : ∀ s c, R s (s.answerCall c))
    (hrequests : ∀ s requests, R s { s with context := { s.context with requests := requests } })
    (s : Session) (urls : List String) : R s (s.fetchUndisturbed urls).2 := by
  rw [fetchUndisturbed]
  split
  · exact relates_fetchTogether hrefl htrans hanswer hrequests hrefl s urls
  · exact relates_fetchInTurn hrefl htrans hanswer hrequests s urls

theorem quiet_fetchUndisturbed (s : Session) (urls : List String) :
    Quiet s (s.fetchUndisturbed urls).2 :=
  relates_fetchUndisturbed Quiet.refl Quiet.trans quiet_answerCall
    (fun _ _ => quiet_context ⟨rfl, rfl, id⟩) s urls

theorem effect_addSchema (s : Session) (i : Nat) (uri : String) (document : Option Json) :
    Effect s (.addSchema i uri document) (s.addSchema i uri document).1 := by
  have hcontext := s.context.sameLine_addSchema (SchemaUri.normalize uri) document none
  have hsilent : s.comers (.addSchema i uri document) = [] →
      Silent s (.addSchema i uri document) :=
    fun h => ⟨h, rfl, fun _ => rfl, rfl⟩
  rw [addSchema]
  dsimp only
  cases hadd : s.context.addSchema (SchemaUri.normalize uri) document none with
  | mk context failure =>
      rw [hadd] at hcontext
      cases failure with
      | some e => exact .quiet (quiet_context hcontext) (hsilent (by rw [comers, hadd]))
      | none =>
          dsimp only
          cases hm : s.model? i with
          | none =>
              rw [show ({ s with context := context } : Session).model? i = none from hm]
              exact .quiet (quiet_context hcontext) (hsilent (by rw [comers, hadd, hm]))
          | some m =>
              rw [show ({ s with context := context } : Session).model? i = some m from hm]
              dsimp only
              have hset : ∀ m', Quiet (s.setModel i m')
                  (({ s with context := context } : Session).setModel i m') :=
                fun m' => quiet_context hcontext
              cases hmissing : context.missing.isEmpty with
              | true =>
                  refine .quiet ?_ (hsilent ?_)
                  · exact (quiet_setModel hm (m.kept_addSchema _)).trans
                      ((hset _).trans (quiet_deliverAll _ i _))
                  · rw [comers, hadd, hm]
                    exact if_pos hmissing
              | false =>
                  refine .waits hm (fun n hbalances => hbalances.addSchema _) rfl
                    ((hset _).trans (quiet_deliverAll _ i _)) ?_
                  rw [comers, hadd, hm]
                  exact if_neg (Bool.eq_false_iff.1 hmissing)

theorem effect_runNext (s : Session) (n : Nat) : Effect s (.runNext n) (s.runNext n) := by
  cases h : s.batch n with
  | nil =>
      have herrand : s.errand? (.runNext n) = none := by rw [errand?, h, List.head?_nil]
      rw [runNext, h]
      exact .quiet (.refl s) ⟨rfl, herrand, fun _ => rfl, rfl⟩
  | cons e rest =>
      obtain ⟨front, back, rfl, hbatches⟩ := exists_batches_eq h
      rw [runNext_of_batches_eq hbatches]
      refine .next hbatches (s.runs_runErrand e) ?_
      rw [arising, errand?, h, List.head?_cons]

theorem effect_whenReady (s : Session) (i : Nat) (c : Callback) :
    Effect s (.whenReady i c) (s.whenReady i c) := by
  rw [whenReady]
  cases hm : s.model? i with
  | none =>
      refine .quiet (.refl s) ⟨rfl, rfl, fun j => ?_, ?_⟩
      · rw [asked, hm]
        exact if_neg (fun h => Bool.noConfusion h.2)
      · rw [prompt, hm]
  | some m => exact .ready c hm

/-- An operation that is no one's coming or going. -/
def Operation.isPlain : Operation → Bool
  | .addSchema _ _ _ | .whenReady _ _ | .whenFetched _ | .runNext _ => false
  | _ => true

theorem silent_of_isPlain (h : op.isPlain = true) : Silent s op := by
  cases op <;> first | exact ⟨rfl, rfl, fun _ => rfl, rfl⟩ | cases h

theorem effect_perform (s : Session) (op : Operation) : Effect s op (s.perform op) := by
  cases op with
  | create value url failure => exact .create value url failure
  | addSchema i uri document => exact s.effect_addSchema i uri document
  | whenReady i c => exact s.effect_whenReady i c
  | whenFetched c => exact .fetched c
  | runNext n => exact s.effect_runNext n
  | fetchStep =>
      rcases s.fetchStep_cases with h | h
      · exact .quiet h (silent_of_isPlain rfl)
      · rw [perform, h]
        exact .ends
  | write i path x => exact .quiet (s.quiet_write i path x) (silent_of_isPlain rfl)
  | handle i path =>
      refine .quiet ?_ (silent_of_isPlain rfl)
      rw [perform]
      split
      · next m hm => exact quiet_setModel hm ⟨rfl, id, rfl⟩
      · exact .refl s
  | subscribe i path label answer =>
      refine .quiet ?_ (silent_of_isPlain rfl)
      rw [perform]
      split
      · next m hm => exact quiet_subscribe hm path label answer
      · exact .refl s
  | unsubscribe i path number =>
      exact .quiet (s.quiet_unsubscribe i path number) (silent_of_isPlain rfl)
  | register uri document name =>
      exact .quiet (quiet_context (s.context.sameLine_addSchema uri document name))
        (silent_of_isPlain rfl)
  | registerFormat name refusal? =>
      exact .quiet (quiet_context ⟨rfl, rfl, id⟩) (silent_of_isPlain rfl)
  | clean => exact .quiet (quiet_context ⟨rfl, rfl, id⟩) (silent_of_isPlain rfl)
  | serve transport =>
      exact .quiet (quiet_of_models (.refl _) rfl rfl rfl) (silent_of_isPlain rfl)
  | fetchSchemas urls => exact .quiet (s.quiet_fetchUndisturbed urls) (silent_of_isPlain rfl)

/-! ### The background -/

theorem performAll_append (s : Session) (ops ops' : List Operation) :
    s.performAll (ops ++ ops') = (s.performAll ops).performAll ops' := List.foldl_append

section

variable (batches : List (List Errand))

theorem foldl_withBatches {α : Type} {f : Session → α → Session}
    (hf : ∀ s a, f (s.withBatches batches) a = (f s a).withBatches batches) (l : List α)
    (s : Session) :
    l.foldl f (s.withBatches batches) = (l.foldl f s).withBatches batches :=
  List.foldl_hom (fun s : Session => s.withBatches batches) hf

theorem deliver_withBatches (depth : Nat) (s : Session) (i : Nat) (notices : List Notice) :
    deliver depth (s.withBatches batches) i notices
      = (deliver depth s i notices).withBatches batches := by
  induction depth generalizing s notices with
  | zero => exact foldl_withBatches batches (f := tellNotice) (fun _ _ => rfl) notices s
  | succ depth ih =>
      refine foldl_withBatches batches (fun s n => ?_) notices s
      have hreaction : ((s.withBatches batches).tellNotice n).reaction? i n.listener.number
          = (s.tellNotice n).reaction? i n.listener.number := rfl
      have hmodel : ((s.withBatches batches).tellNotice n).model? i
          = (s.tellNotice n).model? i := rfl
      have hsnapshot : (((s.withBatches batches).tellNotice n).dropReaction i
          n.listener.number).context.snapshot
            = ((s.tellNotice n).dropReaction i n.listener.number).context.snapshot := rfl
      dsimp only
      rw [hreaction, hmodel]
      cases (s.tellNotice n).reaction? i n.listener.number with
      | none => rfl
      | some r =>
          cases (s.tellNotice n).model? i with
          | none => rfl
          | some m =>
              dsimp only
              rw [hsnapshot]
              cases m.write? ((s.tellNotice n).dropReaction i n.listener.number).context.snapshot
                r.path r.value with
              | none => rfl
              | some written =>
                  exact ih (((s.tellNotice n).dropReaction i n.listener.number).setModel i
                    written.1) written.2

theorem runCallback_withBatches (s : Session) (c : Callback) :
    (s.withBatches batches).runCallback c = (s.runCallback c).withBatches batches := by
  cases c <;> rfl

/-- An errand has nothing to do with what else is to be done. -/
theorem runErrand_withBatches (s : Session) (e : Errand) :
    (s.withBatches batches).runErrand e
      = ((s.runErrand e).1, (s.runErrand e).2.withBatches batches) := by
  match e with
  | .run i c => exact congrArg (Prod.mk []) (runCallback_withBatches batches s c)
  | .release (.callback c) => exact congrArg (Prod.mk []) (runCallback_withBatches batches s c)
  | .release (.settle i) =>
      have hmodel : (s.withBatches batches).model? i = s.model? i := rfl
      rw [runErrand, runErrand, hmodel]
      cases s.model? i with
      | none => rfl
      | some m =>
          exact congrArg (Prod.mk _)
            (deliver_withBatches batches _ (s.setModel i (m.settle s.context.snapshot).1) i _)

end

section

variable (front back : List (List Errand)) (rest : List Errand)

theorem runNext_withBatches (s : Session) (e : Errand) :
    (s.withBatches (front ++ (e :: rest) :: back)).runNext front.length
      = (s.runErrand e).2.withBatches (front ++ ((s.runErrand e).1 ++ rest) :: back) := by
  have hbatches : (s.withBatches (front ++ (e :: rest) :: back)).context.batches
      = front ++ (e :: rest) :: back := rfl
  rw [runNext_of_batches_eq hbatches, runErrand_withBatches]
  rfl

/-- Nothing more is to be done because of a callback. -/
theorem performAll_ready (s : Session) (ready : List (Nat × Callback)) :
    (s.withBatches
        (front ++ (ready.map (fun r => .run r.1 r.2) ++ rest) :: back)).performAll
        (List.replicate ready.length (.runNext front.length))
      = ((ready.map (fun r => .run r.1 r.2)).foldl (fun s e => (s.runErrand e).2) s).withBatches
        (front ++ rest :: back) := by
  induction ready generalizing s with
  | nil => rfl
  | cons r ready ih =>
      rw [List.length_cons, List.replicate_succ, performAll, List.foldl_cons, perform,
        List.map_cons, List.cons_append, runNext_withBatches]
      exact ih (s.runCallback r.2)

end

/-- An errand with what comes of it is run by operations on its batch. -/
theorem exists_finishErrand_eq (front back : List (List Errand)) (rest : List Errand)
    (s : Session) (e : Errand) :
    ∃ ops, (s.withBatches (front ++ (e :: rest) :: back)).performAll ops
      = (s.finishErrand e).withBatches (front ++ rest :: back) := by
  obtain ⟨ready, hready, -⟩ := (s.runs_runErrand e).exists_ready
  refine ⟨.runNext front.length :: List.replicate ready.length (.runNext front.length), ?_⟩
  rw [performAll, List.foldl_cons, perform, runNext_withBatches, finishErrand, hready]
  exact performAll_ready front back rest _ ready

theorem exists_finishErrands_eq (front back : List (List Errand)) (s : Session)
    (errands : List Errand) :
    ∃ ops, (s.withBatches (front ++ errands :: back)).performAll ops
      = (errands.foldl finishErrand s).withBatches (front ++ [] :: back) := by
  induction errands generalizing s with
  | nil => exact ⟨[], rfl⟩
  | cons e rest ih =>
      obtain ⟨ops, hops⟩ := exists_finishErrand_eq front back rest s e
      obtain ⟨ops', hops'⟩ := ih (s.finishErrand e)
      exact ⟨ops ++ ops', by rw [performAll_append, hops, hops', List.foldl_cons]⟩

/-- The background runs its errands one batch after the other. -/
theorem exists_runBatches_eq (s : Session) : ∃ ops, s.runBatches = s.performAll ops := by
  have hall : ∀ (back front : List (List Errand)) (s : Session),
      ∃ ops, (s.withBatches (front ++ back)).performAll ops
        = (back.flatten.foldl finishErrand s).withBatches
          (front ++ back.map (fun _ => [])) := by
    intro back
    induction back with
    | nil => exact fun front s => ⟨[], rfl⟩
    | cons errands back ih =>
        intro front s
        obtain ⟨ops, hops⟩ := exists_finishErrands_eq front back s errands
        obtain ⟨ops', hops'⟩ := ih (front ++ [[]]) (errands.foldl finishErrand s)
        refine ⟨ops ++ ops', ?_⟩
        rw [List.append_assoc, List.append_assoc] at hops'
        rw [performAll_append, hops, List.flatten_cons, List.foldl_append]
        exact hops'
  obtain ⟨ops, hops⟩ := hall s.context.batches [] s
  exact ⟨ops, hops.symm⟩

theorem exists_fetchOn_eq (steps : Nat) (s : Session) :
    ∃ ops, fetchOn steps s = s.performAll ops := by
  induction steps generalizing s with
  | zero => exact ⟨[], rfl⟩
  | succ steps ih =>
      rw [fetchOn]
      split
      · obtain ⟨ops, hops⟩ := ih s.fetchStep
        exact ⟨.fetchStep :: ops, hops⟩
      · exact ⟨[], rfl⟩

theorem exists_lookOn_eq (s : Session) : ∃ ops, s.lookOn = s.performAll ops := by
  rw [lookOn]
  split
  · obtain ⟨ops, hops⟩ := exists_fetchOn_eq (2 * s.fetchStep.roundBound + 3) s.fetchStep
    exact ⟨.fetchStep :: ops, hops⟩
  · exact ⟨[.fetchStep], rfl⟩

/-- Steps of the background may be followed by the errands that are to be run. -/
theorem exists_runBatches_of_eq {s' : Session} (h : ∃ ops, s' = s.performAll ops) :
    ∃ ops, s'.runBatches = s.performAll ops := by
  obtain ⟨ops, rfl⟩ := h
  obtain ⟨ops', hops'⟩ := (s.performAll ops).exists_runBatches_eq
  exact ⟨ops ++ ops', hops'.trans (s.performAll_append ops ops').symm⟩

/-- A turn of the fetch is a run of its steps and errands. -/
theorem exists_turn_eq (s : Session) : ∃ ops, s.turn = s.performAll ops := by
  rw [turn]
  split
  · exact ⟨[], rfl⟩
  · exact ⟨[.fetchStep], rfl⟩
  · exact exists_runBatches_of_eq s.exists_lookOn_eq
  · split
    · exact exists_runBatches_of_eq (exists_fetchOn_eq _ s)
    · obtain ⟨ops, hops⟩ := s.fetchStep.exists_lookOn_eq
      exact exists_runBatches_of_eq ⟨.fetchStep :: ops, hops⟩

/-- Running the background is a run of its steps; besides, only the cache looks at the clock. -/
theorem exists_runBackground_eq (s : Session) : ∃ ops,
    s.runBackground = { s.performAll ops with cache := (s.performAll ops).cache.tick } := by
  obtain ⟨ops, hops⟩ := exists_runBatches_of_eq (exists_fetchOn_eq (2 * s.roundBound + 3) s)
  exact ⟨ops, congrArg (fun s : Session => { s with cache := s.cache.tick }) hops⟩

end Session

end HyperSchema
