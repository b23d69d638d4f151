import HyperSchema.Session.Background
import Mathlib.Data.List.Basic

/-!
# Who waits, and for what

A model counts what it waits for. While it waits there is a reason to run its schemas again, and
when it does not, no callback is left with it. Most of what is done with a session leaves those who
wait alone: a write and what the listeners make of it, the handles, the schemas and the documents.
-/

namespace HyperSchema

/-! ### Models -/

namespace Model

variable {m m' : Model} {s : Snapshot} {n : Nat}

/-- A model that waits for a number of things. -/
structure Balances (m : Model) (n : Nat) : Prop where
  counted : m.pending = n
  dirty : 0 < m.pending → m.dirty = true
  idle : m.pending = 0 → m.callbacks = []

/-- A change that has nothing to do with what a model waits for. -/
structure Kept (m m' : Model) : Prop where
  pending : m'.pending = m.pending
  dirty : m.dirty = true → m'.dirty = true
  callbacks : m'.callbacks = m.callbacks

theorem Kept.refl (m : Model) : Kept m m := ⟨rfl, id, rfl⟩

theorem Kept.trans {m'' : Model} (h : Kept m m') (h' : Kept m' m'') : Kept m m'' where
  pending := h'.pending.trans h.pending
  dirty := fun hdirty => h'.dirty (h.dirty hdirty)
  callbacks := h'.callbacks.trans h.callbacks

theorem Balances.kept (h : m.Balances n) (hkept : Kept m m') : m'.Balances n where
  counted := hkept.pending.trans h.counted
  dirty := fun hpending => hkept.dirty (h.dirty (hkept.pending ▸ hpending))
  idle := fun hpending => hkept.callbacks.trans (h.idle (hkept.pending ▸ hpending))

theorem balances_new (value : Json) (url : Option String) (failure : Option TransportError) :
    { new value url with documentError := failure }.Balances 0 where
  counted := rfl
  dirty := fun hpending => absurd hpending (Nat.lt_irrefl 0)
  idle := fun _ => rfl

theorem kept_write? {path : String} {x : Json} {notices : List Notice}
    (h : m.write? s path x = some (m', notices)) : Kept m m' := by
  obtain ⟨value, -, heq⟩ := Option.map_eq_some_iff.1 h
  obtain ⟨rfl, -⟩ := Prod.mk.inj heq
  refine ⟨rfl, fun hdirty => ?_, rfl⟩
  rw [recompute]
  dsimp only
  rw [hdirty, Bool.true_or]

theorem kept_addSchema (m : Model) (uri : String) : Kept m (m.addSchema s uri false).1 := by
  refine ⟨rfl, fun hdirty => ?_, rfl⟩
  show (m.dirty || false) = true
  rw [hdirty, Bool.true_or]

theorem Balances.addSchema (h : m.Balances n) (uri : String) :
    (m.addSchema s uri true).1.Balances (n + 1) :=
  ⟨congrArg (· + 1) h.counted, fun _ => Bool.or_true _,
    fun hpending => absurd hpending (Nat.succ_ne_zero _)⟩

theorem Balances.whenReady (h : m.Balances n) (c : Callback) : (m.whenReady c).1.Balances n := by
  rw [Model.whenReady]
  split
  · next hpending => exact ⟨h.counted, h.dirty, fun hnone => absurd hnone (Nat.ne_of_gt hpending)⟩
  · exact h

/-- A callback is left with a model that waits, and run at once otherwise. -/
theorem Balances.callbacks_whenReady (h : m.Balances n) (c : Callback) :
    m.callbacks ++ [c] = (m.whenReady c).2 ++ (m.whenReady c).1.callbacks := by
  rw [Model.whenReady]
  split
  · rfl
  · next hpending => rw [h.idle (Nat.eq_zero_of_not_pos hpending), List.nil_append, List.append_nil]

theorem settle_of_waiting (h : m.Balances (n + 2)) :
    m.settle s = ({ m with pending := n + 1 }, [], []) := by
  have hpending : m.pending - 1 = n + 1 := by
    rw [h.counted]
    rfl
  rw [settle]
  dsimp only
  rw [hpending, if_pos (Nat.succ_pos n)]

/-- With the last of what a model waits for, its schemas are run again before the callbacks go. -/
theorem settle_last (h : m.Balances 1) :
    ∃ notices, m.settle s
      = ({ recompute s { m with pending := 0, dirty := false } with callbacks := [] }, notices,
        m.callbacks) := by
  have hpending : m.pending - 1 = 0 := by
    rw [h.counted]
  have hdirty : m.dirty = true := h.dirty (h.counted ▸ Nat.one_pos)
  rw [settle]
  dsimp only
  rw [hpending, if_neg (Nat.lt_irrefl 0), if_pos hdirty]
  exact ⟨_, rfl⟩

theorem Balances.settle (h : m.Balances (n + 1)) : (m.settle s).1.Balances n := by
  cases n with
  | zero =>
      obtain ⟨notices, hsettle⟩ := settle_last (s := s) h
      rw [hsettle]
      exact ⟨rfl, fun hpending => absurd hpending (Nat.lt_irrefl 0), fun _ => rfl⟩
  | succ n =>
      rw [settle_of_waiting h]
      refine ⟨rfl, fun _ => h.dirty ?_, fun hpending => absurd hpending (Nat.succ_ne_zero n)⟩
      rw [h.counted]
      exact Nat.succ_pos _

/-- The callbacks that do not go stay. -/
theorem Balances.callbacks_settle (h : m.Balances (n + 1)) :
    m.callbacks = (m.settle s).2.2 ++ (m.settle s).1.callbacks := by
  cases n with
  | zero =>
      obtain ⟨notices, hsettle⟩ := settle_last (s := s) h
      rw [hsettle, List.append_nil]
  | succ n =>
      rw [settle_of_waiting h]
      rfl

end Model

/-! ### Contexts -/

def Delivery.fired? : Delivery → Option String
  | .fired label => some label
  | .notice _ _ _ => none

def Callback.label? : Callback → Option String
  | .fire label => some label
  | .wake => none

namespace Context

variable {c c' : Context}

/-- A change that has nothing to do with who waits. -/
structure SameLine (c c' : Context) : Prop where
  waiters : c'.waiters = c.waiters
  batches : c'.batches = c.batches
  fetching : c.isFetching = true → c'.isFetching = true

theorem SameLine.refl (c : Context) : SameLine c c := ⟨rfl, rfl, id⟩

theorem SameLine.trans {c'' : Context} (h : SameLine c c') (h' : SameLine c' c'') :
    SameLine c c'' where
  waiters := h'.waiters.trans h.waiters
  batches := h'.batches.trans h.batches
  fetching := fun hfetching => h'.fetching (h.fetching hfetching)

theorem sameLine_addSchema (c : Context) (uri : String) (document : Option Json)
    (name : Option String) : SameLine c (c.addSchema uri document name).1 := by
  rw [addSchema]
  cases c.registry.addSchema uri document name with
  | error e => exact .refl c
  | ok registry => exact ⟨rfl, rfl, id⟩

theorem sameLine_takeAnswer (c : Context) (base : String) (a : Answer) :
    SameLine c (c.takeAnswer base a) := by
  unfold takeAnswer
  dsimp only
  split
  · split <;> exact ⟨rfl, rfl, id⟩
  · split
    · exact ⟨rfl, rfl, id⟩
    · split <;> exact ⟨rfl, rfl, id⟩

theorem sameLine_finishRound (c : Context) (tried : List String) (calls : List Call) :
    SameLine c (c.finishRound tried calls) := by
  have hanswers : ∀ (answers : List (String × Answer)) (c : Context),
      SameLine c (answers.foldl (fun c a => c.takeAnswer a.1 a.2) c) := by
    intro answers
    induction answers with
    | nil => exact .refl
    | cons a rest ih => exact fun c => (c.sameLine_takeAnswer a.1 a.2).trans (ih _)
  have htaken := hanswers (c.requests.takeAll calls).1
    { c with requests := (c.requests.takeAll calls).2 }
  exact ⟨htaken.waiters, htaken.batches, fun _ => rfl⟩

/-- Looking for what is missing ends the fetch, or goes on with it. -/
theorem look_cases (c : Context) (tried : List String) :
    c.look tried = c.endFetch ∨ SameLine c (c.look tried) := by
  rw [look]
  split
  · exact .inl rfl
  · exact .inr ⟨rfl, rfl, fun _ => rfl⟩

theorem isFetching_wait (c : Context) (w : Waiter) : (c.wait w true).isFetching = true := by
  rw [wait, isFetching]
  cases c.fetching <;> rfl

end Context

/-! ### Sessions -/

namespace Session

variable {s s' : Session} {i : Nat} {m m' : Model}

/-! #### Steps that a relation allows -/

section

variable {R : Session → Session → Prop} (hrefl : ∀ s, R s s)
  (htrans : ∀ {s s' s''}, R s s' → R s' s'' → R s s'')

include hrefl htrans

theorem relates_foldl {α : Type} {f : Session → α → Session} (hf : ∀ s a, R s (f s a))
    (l : List α) (s : Session) : R s (l.foldl f s) :=
  List.foldlRecOn l f (hrefl s) (fun s' h a _ => htrans h (hf s' a))

/-- Listeners are told, their reactions used up, and the writes by which they answer carried out;
what allows these steps allows whatever comes of a notice. -/
theorem relates_deliver (htell : ∀ s n, R s (s.tellNotice n))
    (hdrop : ∀ s number, R s (s.dropReaction i number))
    (hwrite : ∀ {s m path x m' more}, s.model? i = some m →
      m.write? s.context.snapshot path x = some (m', more) → R s (s.setModel i m'))
    (depth : Nat) (s : Session) (notices : List Notice) : R s (deliver depth s i notices) := by
  induction depth generalizing s notices with
  | zero => exact relates_foldl hrefl htrans htell notices s
  | succ depth ih =>
      refine relates_foldl hrefl htrans (fun s n => ?_) notices s
      have hdropped := htrans (htell s n) (hdrop (s.tellNotice n) n.listener.number)
      dsimp only
      split
      · next r m hreaction hm =>
        split
        · next m' more hwritten =>
          have hm' : ((s.tellNotice n).dropReaction i n.listener.number).model? i = some m := hm
          exact htrans hdropped (htrans (hwrite hm' hwritten) (ih _ more))
        · exact hdropped
      · exact htell s n

section

variable (hanswer : ∀ s c, R s (s.answerCall c))
  (hrequests : ∀ s requests, R s { s with context := { s.context with requests := requests } })

include hanswer

theorem relates_answerFor (s : Session) (calls : List Call) : R s (s.answerFor calls) :=
  relates_foldl hrefl htrans hanswer _ s

include hrequests

/-- Calling for documents and taking the answers does no more than what happens meanwhile, as far as
requests and their answers do not matter. -/
theorem relates_fetchTogether {meanwhile : Session → Session} (h : ∀ s, R s (meanwhile s))
    (s : Session) (urls : List String) : R s (fetchTogether meanwhile s urls).2 := by
  have hcalled := hrequests s (s.context.requests.callAll (urls.map SchemaUri.base)).2
  have hanswered := relates_answerFor hrefl htrans hanswer
  refine htrans hcalled (htrans ?_ (htrans (hanswered _ _) (hrequests _ _)))
  split
  · exact h _
  · exact hrefl _

theorem relates_fetchInTurn (s : Session) (urls : List String) : R s (s.fetchInTurn urls).2 := by
  induction urls generalizing s with
  | nil => exact hrefl s
  | cons url rest ih =>
      have hfirst := relates_fetchTogether hrefl htrans hanswer hrequests hrefl s [url]
      exact htrans hfirst (ih _)

end

end

/-! #### Who waits -/

def fired (s : Session) : List String := s.deliveries.filterMap Delivery.fired?

/-- A change that has nothing to do with who waits. -/
structure Quiet (s s' : Session) : Prop where
  context : Context.SameLine s.context s'.context
  background : s'.background = s.background
  length : s'.models.length = s.models.length
  kept : ∀ i m', s'.model? i = some m' → ∃ m, s.model? i = some m ∧ m.Kept m'
  fired : s'.fired = s.fired

theorem Quiet.refl (s : Session) : Quiet s s :=
  ⟨.refl _, rfl, rfl, fun _ m hm => ⟨m, hm, .refl m⟩, rfl⟩

theorem Quiet.trans {s'' : Session} (h : Quiet s s') (h' : Quiet s' s'') : Quiet s s'' where
  context := h.context.trans h'.context
  background := h'.background.trans h.background
  length := h'.length.trans h.length
  kept := fun i m'' hm'' => by
    obtain ⟨m', hm', hkept'⟩ := h'.kept i m'' hm''
    obtain ⟨m, hm, hkept⟩ := h.kept i m' hm'
    exact ⟨m, hm, hkept.trans hkept'⟩
  fired := h'.fired.trans h.fired

theorem quiet_of_models (hcontext : Context.SameLine s.context s'.context)
    (hbackground : s'.background = s.background) (hmodels : s'.models = s.models)
    (hfired : s'.fired = s.fired) : Quiet s s' where
  context := hcontext
  background := hbackground
  length := congrArg List.length hmodels
  kept := fun i m hm => ⟨m, by rwa [model?, ← hmodels], .refl m⟩
  fired := hfired

theorem quiet_context {c : Context} (h : Context.SameLine s.context c) :
    Quiet s { s with context := c } := quiet_of_models h rfl rfl rfl

theorem model?_setModel (s : Session) (i : Nat) (m : Model) (j : Nat) :
    (s.setModel i m).model? j
      = if i = j then (if i < s.models.length then some m else none) else s.model? j :=
  List.getElem?_set

theorem lt_length_of_model? (h : s.model? i = some m) : i < s.models.length :=
  (List.getElem?_eq_some_iff.1 h).1

theorem quiet_setModel (hm : s.model? i = some m) (hkept : m.Kept m') :
    Quiet s (s.setModel i m') := by
  refine ⟨.refl _, rfl, List.length_set, fun j m'' hm'' => ?_, rfl⟩
  rw [model?_setModel] at hm''
  split at hm''
  · next hij =>
    subst hij
    rw [if_pos (lt_length_of_model? hm)] at hm''
    rw [← Option.some.inj hm'']
    exact ⟨m, hm, hkept⟩
  · exact ⟨m'', hm'', .refl m''⟩

theorem fired_tell (s : Session) (d : Delivery) :
    (s.tell d).fired = s.fired ++ d.fired?.toList := by
  rw [fired, tell, fired]
  dsimp only
  rw [List.filterMap_append, List.filterMap_cons, List.filterMap_nil]
  cases d.fired? <;> rfl

theorem quiet_tellNotice (s : Session) (n : Notice) : Quiet s (s.tellNotice n) := by
  refine quiet_of_models (.refl _) rfl rfl ?_
  rw [tellNotice, fired_tell]
  exact List.append_nil _

/-- Telling listeners, and the writes by which they answer, are quiet. -/
theorem quiet_deliver (depth : Nat) (s : Session) (i : Nat) (notices : List Notice) :
    Quiet s (deliver depth s i notices) :=
  relates_deliver Quiet.refl Quiet.trans quiet_tellNotice
    (fun _ _ => quiet_of_models (.refl _) rfl rfl rfl)
    (fun hm hwrite => quiet_setModel hm (Model.kept_write? hwrite)) depth s notices

theorem quiet_deliverAll (s : Session) (i : Nat) (notices : List Notice) :
    Quiet s (s.deliverAll i notices) := s.quiet_deliver _ i notices

theorem quiet_write (s : Session) (i : Nat) (path : String) (x : Json) :
    Quiet s (s.write i path x).2 := by
  rw [write]
  split
  · exact .refl s
  · next m hm =>
    split
    · next m' notices hwrite =>
      exact (quiet_setModel hm (Model.kept_write? hwrite)).trans (quiet_deliverAll _ i notices)
    · exact .refl s

theorem quiet_subscribe (hm : s.model? i = some m) (path label : String)
    (answer : Option (String × Json)) : Quiet s (s.subscribe i m path label answer).2 := by
  have hset : Quiet s (s.setModel i (m.subscribe path label).1) :=
    quiet_setModel hm ⟨rfl, id, rfl⟩
  exact hset.trans (quiet_of_models (.refl _) rfl rfl rfl)

theorem quiet_unsubscribe (s : Session) (i : Nat) (path : String) (number : Nat) :
    Quiet s (s.unsubscribe i path number) := by
  rw [unsubscribe]
  split
  · next m hm => exact quiet_setModel hm ⟨rfl, id, rfl⟩
  · exact .refl s

/-! ### Fetching -/

theorem quiet_answerCall (s : Session) (c : Call) : Quiet s (s.answerCall c) :=
  quiet_of_models ⟨rfl, rfl, id⟩ rfl rfl rfl

theorem quiet_answerFor (s : Session) (calls : List Call) : Quiet s (s.answerFor calls) :=
  relates_answerFor Quiet.refl Quiet.trans quiet_answerCall s calls

/-- A step of the fetch ends it and releases all who wait, or has nothing to do with them. -/
theorem fetchStep_cases (s : Session) :
    Quiet s s.fetchStep ∨ s.fetchStep = { s with context := s.context.endFetch } := by
  rw [fetchStep]
  split
  · exact .inl (.refl s)
  · exact .inl (quiet_context ⟨rfl, rfl, fun _ => rfl⟩)
  · next tried _ =>
    rcases s.context.look_cases tried with hends | hsame
    · rw [hends]
      exact .inr rfl
    · exact .inl (quiet_context hsame)
  · next tried calls _ =>
    have hround := (s.answerFor calls).context.sameLine_finishRound tried calls
    exact .inl ((s.quiet_answerFor calls).trans (quiet_context hround))

/-! ### Callbacks -/

/-- Running callbacks tells their labels, and does nothing else. -/
theorem runCallback_spec (s : Session) (c : Callback) :
    (s.runCallback c).context = s.context ∧ (s.runCallback c).background = s.background
      ∧ (s.runCallback c).models = s.models
      ∧ (s.runCallback c).fired = s.fired ++ c.label?.toList := by
  cases c with
  | wake => exact ⟨rfl, rfl, rfl, (List.append_nil _).symm⟩
  | fire label => exact ⟨rfl, rfl, rfl, s.fired_tell (.fired label)⟩

theorem runCallbacks_spec (s : Session) (cs : List Callback) :
    (s.runCallbacks cs).context = s.context ∧ (s.runCallbacks cs).background = s.background
      ∧ (s.runCallbacks cs).models = s.models
      ∧ (s.runCallbacks cs).fired = s.fired ++ cs.filterMap Callback.label? := by
  induction cs generalizing s with
  | nil => exact ⟨rfl, rfl, rfl, (List.append_nil _).symm⟩
  | cons c rest ih =>
      obtain ⟨hcontext, hbackground, hmodels, hfired⟩ := s.runCallback_spec c
      obtain ⟨hcontext', hbackground', hmodels', hfired'⟩ := ih (s.runCallback c)
      refine ⟨hcontext'.trans hcontext, hbackground'.trans hbackground, hmodels'.trans hmodels,
        hfired'.trans ?_⟩
      rw [hfired, List.append_assoc, List.filterMap_cons]
      cases c.label? <;> rfl

end Session

end HyperSchema
