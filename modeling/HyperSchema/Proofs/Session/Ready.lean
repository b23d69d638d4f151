import HyperSchema.Proofs.Registry.Snapshots
import HyperSchema.Proofs.Session.Wakeups
import HyperSchema.Proofs.Validation.Calls

/-!
# Ready models

A model runs its schemas again when it is written, when a root schema is added, and when the last of
what it waits for has come. In between, other models bring more schemas into the context. A model
that waits for nothing is still up to date, unless a schema comes that it has called in vain: such a
model was released without the schema, as its document could not be had for the time being, and
nobody wakes it when the document comes after all.
-/

namespace HyperSchema

namespace Context

variable {c c' : Context}

/-- A context whose snapshot shows all that its registry has compiled. -/
structure Abreast (c : Context) : Prop where
  orderly : c.registry.Orderly
  snapshot : c.snapshot = c.registry.snapshot

/-- The context has gone on, and keeps what it had compiled. -/
structure Advances (c c' : Context) : Prop where
  abreast : c'.Abreast
  kept : c.snapshot.Extends c'.snapshot

theorem abreast_new (parent : Option Store) (options : Options) : (new parent options).Abreast :=
  ⟨Registry.orderly_ofStore _ _, rfl⟩

theorem Abreast.recompile (h : c.Abreast) : c.Advances c.recompile.1 := by
  refine ⟨⟨h.orderly.compile, rfl⟩, ?_⟩
  rw [h.snapshot]
  exact h.orderly.extends_compile

theorem Abreast.addSchema (h : c.Abreast) (uri : String) (document : Option Json)
    (name : Option String) : c.Advances (c.addSchema uri document name).1 := by
  rw [Context.addSchema]
  cases hadd : c.registry.addSchema uri document name with
  | error e => exact ⟨h, .refl _⟩
  | ok registry =>
      have hnext : ({ c with registry := registry } : Context).Abreast :=
        ⟨h.orderly.addSchema hadd, by rw [h.snapshot, Registry.snapshot_of_addSchema hadd]⟩
      exact ⟨hnext.recompile.abreast, hnext.recompile.kept⟩

/-- Taking in an answer compiles nothing yet. -/
theorem Abreast.takeAnswer (h : c.Abreast) (base : String) (a : Answer) :
    (c.takeAnswer base a).Abreast ∧ (c.takeAnswer base a).snapshot = c.snapshot := by
  have hsupply : ∀ (errors : Table TransportError) (document : Json) (registry : Registry),
      c.registry.addSchema base (some document) none = .ok registry →
        ({ c with fetchErrors := errors, registry := registry } : Context).Abreast :=
    fun errors document registry hadd =>
      ⟨h.orderly.addSchema hadd, by rw [h.snapshot, Registry.snapshot_of_addSchema hadd]⟩
  have herrors : ∀ errors, ({ c with fetchErrors := errors } : Context).Abreast :=
    fun _ => ⟨h.orderly, h.snapshot⟩
  rw [Context.takeAnswer.eq_def]
  dsimp only
  split
  · split
    · next hadd => exact ⟨hsupply _ _ _ hadd, rfl⟩
    · exact ⟨herrors _, rfl⟩
  · split
    · exact ⟨herrors _, rfl⟩
    · split
      · next hadd => exact ⟨hsupply _ _ _ hadd, rfl⟩
      · exact ⟨herrors _, rfl⟩

theorem Abreast.takeAnswers (h : c.Abreast) (answers : List (String × Answer)) :
    (answers.foldl (fun c a => c.takeAnswer a.1 a.2) c).Abreast
      ∧ (answers.foldl (fun c a => c.takeAnswer a.1 a.2) c).snapshot = c.snapshot := by
  induction answers generalizing c with
  | nil => exact ⟨h, rfl⟩
  | cons a rest ih =>
      obtain ⟨hfirst, hsnapshot⟩ := h.takeAnswer a.1 a.2
      obtain ⟨hrest, hsnapshot'⟩ := ih hfirst
      exact ⟨hrest, hsnapshot'.trans hsnapshot⟩

theorem Abreast.finishRound (h : c.Abreast) (tried : List String) (calls : List Call) :
    c.Advances (c.finishRound tried calls) := by
  have hcalled : ({ c with requests := (c.requests.takeAll calls).2 } : Context).Abreast :=
    ⟨h.orderly, h.snapshot⟩
  obtain ⟨htaken, hsnapshot⟩ := hcalled.takeAnswers (c.requests.takeAll calls).1
  have hround := htaken.recompile
  refine ⟨⟨hround.abreast.orderly, hround.abreast.snapshot⟩, ?_⟩
  have hkept := hround.kept
  rw [hsnapshot] at hkept
  exact hkept

end Context

/-! ### Models -/

namespace Model

variable {m next : Model} {s s' : Snapshot}

/-- A model that waits for nothing has what running its schemas again would find; one that waits has
a reason to run them. -/
structure UpToDate (s : Snapshot) (m : Model) : Prop where
  current : m.pending = 0 → m.recompute s = m
  dirty : 0 < m.pending → m.dirty = true

theorem upToDate_new (s : Snapshot) (value : Json) (url : Option String)
    (failure : Option TransportError) :
    UpToDate s { new value url with documentError := failure } :=
  ⟨fun _ => rfl, fun hpending => absurd hpending (Nat.lt_irrefl 0)⟩

theorem upToDate_recompute (hdirty : 0 < m.pending → m.dirty = true) :
    UpToDate s (m.recompute s) := ⟨fun _ => rfl, hdirty⟩

namespace UpToDate

variable (h : UpToDate s m)

include h

theorem write? {path : String} {x : Json} {notices : List Notice}
    (hwrite : m.write? s path x = some (next, notices)) : UpToDate s next := by
  obtain ⟨value, -, heq⟩ := Option.map_eq_some_iff.1 hwrite
  obtain ⟨rfl, -⟩ := Prod.mk.inj heq
  refine upToDate_recompute fun hpending => ?_
  rw [h.dirty hpending, Bool.true_or]

theorem addSchema (uri : String) (waiting : Bool) (s' : Snapshot) :
    UpToDate s' (m.addSchema s' uri waiting).1 := by
  refine upToDate_recompute fun hpending => ?_
  dsimp only at hpending ⊢
  cases waiting with
  | true => exact Bool.or_true _
  | false => rw [h.dirty hpending, Bool.true_or]

theorem settle : UpToDate s (m.settle s).1 := by
  rw [Model.settle]
  dsimp only
  split
  · next hpending => exact ⟨fun hnone => absurd hnone (Nat.ne_of_gt hpending),
      fun _ => h.dirty (Nat.lt_of_lt_of_le hpending (Nat.sub_le _ _))⟩
  · next hpending =>
    have hlast : m.pending - 1 = 0 := Nat.eq_zero_of_not_pos hpending
    cases hdirty : m.dirty with
    | true =>
        rw [if_pos rfl, if_pos rfl]
        exact ⟨fun _ => rfl, fun hpositive => absurd hpositive hpending⟩
    | false =>
        rw [if_neg Bool.false_ne_true, if_neg Bool.false_ne_true]
        -- nothing was waited for, or the model would have been dirty
        have hnone : m.pending = 0 := by
          by_contra hsome
          have htrue := h.dirty (Nat.pos_of_ne_zero hsome)
          rw [hdirty] at htrue
          cases htrue
        refine ⟨fun _ => ?_, fun hpositive => absurd hpositive hpending⟩
        exact congrArg
          (fun m : Model => { m with pending := m.pending - 1, dirty := false, callbacks := [] })
          (h.current hnone)

theorem whenReady (c : Callback) : UpToDate s (m.whenReady c).1 := by
  rw [Model.whenReady]
  split
  · next hpending =>
    exact ⟨fun hnone => absurd hnone (Nat.ne_of_gt hpending), fun _ => h.dirty hpending⟩
  · exact h

theorem withHandles (handles : Handles) (nextListener : Nat) :
    UpToDate s { m with handles := handles, nextListener := nextListener } where
  current := fun hnone => congrArg
    (fun m : Model => { m with handles := handles, nextListener := nextListener }) (h.current hnone)
  dirty := h.dirty

/-- More schemas change nothing, if none of them has been called in vain. -/
theorem outlasts (hextends : s.Extends s')
    (hvain : m.pending = 0 → ∀ target, s.CallsInVain m.schemas m.value target →
      s'.target? target = none) : UpToDate s' m := by
  refine ⟨fun hnone => ?_, h.dirty⟩
  have hrun := Snapshot.runAll_of_extends hextends (hvain hnone)
  have hcurrent := h.current hnone
  rw [recompute] at hcurrent ⊢
  rw [hrun]
  exact hcurrent

end UpToDate

end Model

/-! ### Sessions -/

namespace Session

variable {s s' : Session} {op : Operation}

/-- An operation compiles nothing that a ready model has called in vain, or changes this model. -/
def Heeds (s : Session) (op : Operation) : Prop :=
  ∀ i m, s.model? i = some m → (s.perform op).model? i = some m → m.pending = 0 →
    ∀ target, s.context.snapshot.CallsInVain m.schemas m.value target →
      (s.perform op).context.snapshot.target? target = none

structure Faithful (s : Session) : Prop where
  abreast : s.context.Abreast
  models : ∀ i m, s.model? i = some m → m.UpToDate s.context.snapshot

/-- A change that neither the models nor what is compiled has a part in. -/
structure Aside (s s' : Session) : Prop where
  registry : s'.context.registry = s.context.registry
  snapshot : s'.context.snapshot = s.context.snapshot
  models : s'.models = s.models

theorem Aside.refl (s : Session) : Aside s s := ⟨rfl, rfl, rfl⟩

theorem Aside.trans {s'' : Session} (h : Aside s s') (h' : Aside s' s'') : Aside s s'' :=
  ⟨h'.registry.trans h.registry, h'.snapshot.trans h.snapshot, h'.models.trans h.models⟩

theorem aside_runCallbacks (s : Session) (cs : List Callback) : Aside s (s.runCallbacks cs) := by
  obtain ⟨hcontext, -, hmodels, -⟩ := s.runCallbacks_spec cs
  exact ⟨congrArg Context.registry hcontext, congrArg Context.snapshot hcontext, hmodels⟩

theorem aside_answerCall (s : Session) (c : Call) : Aside s (s.answerCall c) := ⟨rfl, rfl, rfl⟩

theorem aside_answerFor (s : Session) (calls : List Call) : Aside s (s.answerFor calls) :=
  relates_answerFor Aside.refl Aside.trans aside_answerCall s calls

theorem aside_fetchUndisturbed (s : Session) (urls : List String) :
    Aside s (s.fetchUndisturbed urls).2 :=
  relates_fetchUndisturbed Aside.refl Aside.trans aside_answerCall
    (fun _ _ => ⟨rfl, rfl, rfl⟩) s urls

theorem aside_look (s : Session) (tried : List String) :
    Aside s { s with context := s.context.look tried } := by
  rw [Context.look]
  split <;> exact ⟨rfl, rfl, rfl⟩

/-- A change that leaves the context alone and all models but one. -/
def Only (i : Nat) (s s' : Session) : Prop :=
  s'.context = s.context ∧ ∀ j, j ≠ i → s'.model? j = s.model? j

/-- Telling the listeners of a model changes no other model, and not the context. -/
theorem only_deliver (depth : Nat) (s : Session) (i : Nat) (notices : List Notice) :
    Only i s (deliver depth s i notices) :=
  relates_deliver (fun _ => ⟨rfl, fun _ _ => rfl⟩)
    (fun h h' => ⟨h'.1.trans h.1, fun j hj => (h'.2 j hj).trans (h.2 j hj)⟩)
    (fun _ _ => ⟨rfl, fun _ _ => rfl⟩) (fun _ _ => ⟨rfl, fun _ _ => rfl⟩)
    (fun _ _ => ⟨rfl, fun j hj => (model?_setModel _ i _ j).trans (if_neg (Ne.symm hj))⟩)
    depth s notices

namespace Faithful

theorem aside (h : Faithful s) (haside : Aside s s') : Faithful s' where
  abreast := ⟨haside.registry ▸ h.abreast.orderly,
    haside.snapshot.trans (haside.registry ▸ h.abreast.snapshot)⟩
  models := fun i m hm => haside.snapshot ▸ h.models i m (by rwa [model?, ← haside.models])

theorem setModel {i : Nat} {m : Model} (h : Faithful s) (hm : m.UpToDate s.context.snapshot) :
    Faithful (s.setModel i m) := by
  refine ⟨h.abreast, fun j m' hm' => ?_⟩
  rw [model?_setModel] at hm'
  split at hm'
  · split at hm'
    · exact Option.some.inj hm' ▸ hm
    · cases hm'
  · exact h.models j m' hm'

theorem deliver (h : Faithful s) (depth i : Nat) (notices : List Notice) :
    Faithful (deliver depth s i notices) :=
  relates_deliver (R := fun s s' => Faithful s → Faithful s') (fun _ => id)
    (fun h h' => h' ∘ h) (fun _ _ h => h.aside ⟨rfl, rfl, rfl⟩)
    (fun _ _ h => h.aside ⟨rfl, rfl, rfl⟩)
    (fun hm hwrite h => h.setModel ((h.models i _ hm).write? hwrite)) depth s notices h

/-- The context has gone on and the models are as they were. -/
theorem advance {c : Context} (h : Faithful s) (hadvances : s.context.Advances c)
    (hheeds : ∀ i m, s.model? i = some m → m.pending = 0 →
      ∀ target, s.context.snapshot.CallsInVain m.schemas m.value target →
        c.snapshot.target? target = none) : Faithful { s with context := c } :=
  ⟨hadvances.abreast, fun i m hm => (h.models i m hm).outlasts hadvances.kept (hheeds i m hm)⟩

/-- A model whose schemas have just been run, in a context that has gone on. -/
theorem rerun {c : Context} {i : Nat} {m : Model} (h : Faithful s)
    (hadvances : s.context.Advances c) (hm : m.UpToDate c.snapshot)
    (hheeds : ∀ j m', j ≠ i → s.model? j = some m' → m'.pending = 0 →
      ∀ target, s.context.snapshot.CallsInVain m'.schemas m'.value target →
        c.snapshot.target? target = none) :
    Faithful (({ s with context := c } : Session).setModel i m) := by
  refine ⟨hadvances.abreast, fun j m' hm' => ?_⟩
  rw [model?_setModel] at hm'
  split at hm'
  · split at hm'
    · exact Option.some.inj hm' ▸ hm
    · cases hm'
  · next hne => exact (h.models j m' hm').outlasts hadvances.kept (hheeds j m' (Ne.symm hne) hm')

theorem addSchema (h : Faithful s) (i : Nat) (uri : String) (document : Option Json)
    (hheeds : Heeds s (.addSchema i uri document)) : Faithful (s.addSchema i uri document).1 := by
  rw [Heeds, perform] at hheeds
  have hadvances := h.abreast.addSchema (SchemaUri.normalize uri) document none
  rw [Session.addSchema] at hheeds ⊢
  dsimp only at hheeds ⊢
  generalize s.context.addSchema (SchemaUri.normalize uri) document none = added at *
  obtain ⟨context, failure⟩ := added
  cases failure with
  | some e => exact h.advance hadvances (fun i m hm => hheeds i m hm hm)
  | none =>
      dsimp only at hheeds hadvances ⊢
      cases hm : ({ s with context := context } : Session).model? i with
      | none =>
          rw [hm] at hheeds
          exact h.advance hadvances (fun i m hm => hheeds i m hm hm)
      | some m =>
          rw [hm] at hheeds
          dsimp only at hheeds ⊢
          have hrun := (h.models i m hm).addSchema (SchemaUri.normalize uri)
            (!context.missing.isEmpty) context.snapshot
          generalize m.addSchema context.snapshot (SchemaUri.normalize uri)
            (!context.missing.isEmpty) = run at hheeds hrun ⊢
          obtain ⟨m', notices⟩ := run
          let set := ({ s with context := context } : Session).setModel i m'
          obtain ⟨hcontext, hothers⟩ := only_deliver set.reactions.length set i notices
          have haside : Aside (set.deliverAll i notices)
              (if (!context.missing.isEmpty) = true then
                ({ set.deliverAll i notices with
                    context := (set.deliverAll i notices).context.wait (.settle i)
                      (set.deliverAll i notices).background }, (none : Option CompileError))
              else (set.deliverAll i notices, none)).1 := by
            split <;> exact ⟨rfl, rfl, rfl⟩
          refine ((h.rerun hadvances hrun fun j m'' hne hm'' => ?_).deliver _ i notices).aside
            haside
          have hsame : (set.deliverAll i notices).model? j = some m'' := by
            rw [deliverAll, hothers j hne, model?_setModel, if_neg (Ne.symm hne)]
            exact hm''
          have hkept := hheeds j m'' hm'' (by rw [model?, haside.models]; exact hsame)
          rw [haside.snapshot, deliverAll, hcontext] at hkept
          exact hkept

theorem fetchStep (h : Faithful s) (hheeds : Heeds s .fetchStep) : Faithful s.fetchStep := by
  rw [Heeds, perform] at hheeds
  rw [Session.fetchStep] at hheeds ⊢
  split at hheeds
  · exact h
  · exact h.aside ⟨rfl, rfl, rfl⟩
  · next tried _ => exact h.aside (s.aside_look tried)
  · next tried calls _ =>
    have hanswered := h.aside (s.aside_answerFor calls)
    obtain ⟨-, hsnapshot, hmodels⟩ := s.aside_answerFor calls
    refine hanswered.advance (hanswered.abreast.finishRound tried calls) (fun i m hm => ?_)
    rw [hsnapshot]
    have hm' : s.model? i = some m := by rwa [model?, ← hmodels]
    exact hheeds i m hm' hm

theorem runErrand (h : Faithful s) (e : Errand) : Faithful (s.runErrand e).2 := by
  have hruns := s.runs_runErrand e
  generalize (s.runErrand e).1 = more at hruns
  generalize (s.runErrand e).2 = s' at hruns ⊢
  cases hruns with
  | callback c => exact h.aside (s.aside_runCallbacks [c])
  | ready i c => exact h.aside (s.aside_runCallbacks [c])
  | nobody hm => exact h
  | @settle i m hm => exact (h.setModel (h.models i m hm).settle).deliver _ i _

/-- Every operation but cleaning keeps ready models up to date, unless it compiles what one of them
has called in vain. -/
theorem perform (h : Faithful s) (hclean : op ≠ .clean) (hheeds : Heeds s op) :
    Faithful (s.perform op) := by
  cases op with
  | create value url failure =>
      refine ⟨h.abreast, fun i m hm => ?_⟩
      rcases List.mem_append.1 (List.mem_of_getElem? hm) with hold | hnew
      · obtain ⟨j, hj⟩ := List.getElem?_of_mem hold
        exact h.models j m hj
      · rw [List.mem_singleton.1 hnew]
        exact Model.upToDate_new _ value url failure
  | addSchema i uri document => exact h.addSchema i uri document hheeds
  | write i path x =>
      rw [Session.perform, write]
      split
      · exact h
      · next m hm =>
        split
        · next hwrite => exact (h.setModel ((h.models i m hm).write? hwrite)).deliver _ i _
        · exact h
  | whenReady i c =>
      rw [Session.perform, whenReady]
      split
      · exact h
      · next m hm =>
        exact (h.setModel ((h.models i m hm).whenReady c)).aside (aside_runCallbacks _ _)
  | handle i path =>
      rw [Session.perform]
      split
      · next m hm => exact h.setModel ((h.models i m hm).withHandles _ _)
      · exact h
  | subscribe i path label answer =>
      rw [Session.perform]
      split
      · next m hm =>
        have hset : Faithful (s.setModel i (m.subscribe path label).1) :=
          h.setModel ((h.models i m hm).withHandles _ _)
        exact hset.aside ⟨rfl, rfl, rfl⟩
      · exact h
  | unsubscribe i path number =>
      rw [Session.perform, unsubscribe]
      split
      · next m hm => exact h.setModel ((h.models i m hm).withHandles _ _)
      · exact h
  | register uri document name =>
      exact h.advance (h.abreast.addSchema uri document name) (fun i m hm => hheeds i m hm hm)
  | registerFormat name refusal? =>
      have horderly : (s.context.registry.registerFormat name refusal?).Orderly :=
        h.abreast.orderly.congr rfl rfl rfl
      exact ⟨⟨horderly, h.abreast.snapshot⟩, h.models⟩
  | whenFetched c => exact h.aside ⟨rfl, rfl, rfl⟩
  | clean => exact absurd rfl hclean
  | serve transport => exact h.aside ⟨rfl, rfl, rfl⟩
  | fetchSchemas urls => exact h.aside (s.aside_fetchUndisturbed urls)
  | fetchStep => exact h.fetchStep hheeds
  | runNext n =>
      rw [Session.perform, runNext]
      split
      · exact h
      · next e rest _ => exact (h.runErrand e).aside ⟨rfl, rfl, rfl⟩

theorem performAll {ops : List Operation} (h : Faithful s) (hclean : .clean ∉ ops)
    (hheeds : Throughout Heeds s ops) : Faithful (s.performAll ops) := by
  induction ops generalizing s with
  | nil => exact h
  | cons op rest ih =>
      rw [List.mem_cons, not_or] at hclean
      exact ih (h.perform (Ne.symm hclean.1) hheeds.1) hclean.2 hheeds.2

end Faithful

theorem faithful_fresh (parent : Option Store) (options : Options) (transport : MemoryTransport)
    (ttl : Nat) (overlapping : Bool) :
    Faithful (fresh parent options transport ttl overlapping) :=
  ⟨Context.abreast_new parent options, fun _ _ hm => nomatch hm⟩

/-- In a run without cleaning, a model that waits for nothing has at any time what running its
schemas again would find, unless a schema has come that it had called in vain. -/
theorem recompute_of_ready (parent : Option Store) (options : Options)
    (transport : MemoryTransport) (ttl : Nat) (overlapping : Bool) (ops : List Operation)
    (hclean : .clean ∉ ops)
    (hheeds : Throughout Heeds (fresh parent options transport ttl overlapping) ops) (i : Nat)
    (m : Model) (hm : ((fresh parent options transport ttl overlapping).performAll ops).model? i
      = some m) (hready : m.pending = 0) :
    m.recompute ((fresh parent options transport ttl overlapping).performAll ops).context.snapshot
      = m :=
  (((faithful_fresh parent options transport ttl overlapping).performAll hclean hheeds).models i m
    hm).current hready

/-! ### A schema that comes in time, and one that comes late -/

/-- Whether the schema under a URI is there and refuses everything. -/
def refuses (s : Session) (uri : String) : Bool :=
  match s.context.snapshot.target? (SchemaUri.normalize uri) with
  | some (.compiled ⟨_, _, .reject _⟩) => true
  | _ => false

/-- Whether all models that wait for nothing are refused by all their schemas. -/
def isSettled (s : Session) : Bool :=
  s.models.all (fun m => 0 < m.pending || m.schemas.all s.refuses)

theorem heeds_of_isSettled (h : s.isSettled = true) (op : Operation) : Heeds s op := by
  intro i m hm _ hready target hvain
  refine absurd hvain (Snapshot.not_callsInVain fun uri huri => ?_)
  have hmodel := List.all_eq_true.1 h m (List.mem_of_getElem? hm)
  rw [hready, decide_eq_false (Nat.lt_irrefl 0), Bool.false_or] at hmodel
  have hrefuses := List.all_eq_true.1 hmodel uri huri
  rw [refuses] at hrefuses
  split at hrefuses
  · next htarget => exact ⟨_, htarget, fun w path q => Node.not_asks_reject⟩
  · cases hrefuses

/-- Whether something holds before every operation of a run. -/
def holdsThroughout (P : Session → Bool) : Session → List Operation → Bool
  | _, [] => true
  | s, op :: ops => P s && holdsThroughout P (s.perform op) ops

theorem throughout_of_holds {P : Session → Bool} {Q : Session → Operation → Prop}
    (hQ : ∀ s op, P s = true → Q s op) {ops : List Operation}
    (h : holdsThroughout P s ops = true) : Throughout Q s ops := by
  induction ops generalizing s with
  | nil => trivial
  | cons op rest ih =>
      obtain ⟨hfirst, hrest⟩ := Bool.and_eq_true_iff.1 h
      exact ⟨hQ s op hfirst, ih hrest⟩

/-- A model that its schema refuses is ready when another schema is registered. -/
def outlasting : List Operation :=
  [.create .null none none, .addSchema 0 "s" none, .fetchStep, .fetchStep, .fetchStep, .fetchStep,
    .runNext 0, .register "t" (some (.bool true)) none]

def refusal : MemoryTransport := MemoryTransport.empty.insert "s" (.ofJson (.bool false))

def outlasted : Session := (fresh none .standard refusal 0 false).performAll outlasting

theorem settled_outlasting :
    holdsThroughout isSettled (fresh none .standard refusal 0 false) outlasting = true := by cbv

theorem models_outlasted :
    outlasted.models.map (fun m => (m.pending, m.errors.length)) = [(0, 1)] := by cbv

theorem recompute_of_ready_outlasting :
    .clean ∉ outlasting ∧ Throughout Heeds (fresh none .standard refusal 0 false) outlasting
      ∧ ∃ m, outlasted.model? 0 = some m ∧ m.pending = 0 ∧ m.errors.length = 1
        ∧ m.recompute outlasted.context.snapshot = m := by
  have hclean : .clean ∉ outlasting := by simp [outlasting]
  have hheeds : Throughout Heeds (fresh none .standard refusal 0 false) outlasting :=
    throughout_of_holds (fun _ op h => heeds_of_isSettled h op) settled_outlasting
  have hmodels := models_outlasted
  obtain ⟨m, hm⟩ : ∃ m, outlasted.models = [m] :=
    List.length_eq_one_iff.1 (by simpa using congrArg List.length hmodels)
  rw [hm, List.map_singleton, List.singleton_inj, Prod.mk.injEq] at hmodels
  have hmodel : outlasted.model? 0 = some m := by rw [model?, hm]; rfl
  exact ⟨hclean, hheeds, m, hmodel, hmodels.1, hmodels.2,
    recompute_of_ready none .standard refusal 0 false outlasting hclean hheeds 0 m hmodel hmodels.1⟩

/-- The document of a schema cannot be had for the time being, and the model that uses the schema is
let go. Then another model brings the document. -/
def neglecting : List Operation :=
  [.create .null none none, .addSchema 0 "s" none, .fetchStep, .fetchStep, .fetchStep, .fetchStep,
    .runNext 0, .create .null none none, .addSchema 1 "s" (some (.bool false))]

def busy : MemoryTransport := MemoryTransport.empty.insert "s" ⟨some 503, [], .text ""⟩

def neglected : Session := (fresh none .standard busy 0 false).performAll neglecting

theorem idle_neglected : neglected.context.isFetching = false ∧ neglected.context.waiters.length = 0
    ∧ neglected.context.batches.flatten.length = 0
    ∧ neglected.models.all (fun m => m.pending == 0) = true := by cbv

theorem errors_neglected : neglected.models.map (fun m => m.errors.length) = [0, 1]
    ∧ neglected.models.map (fun m => (m.recompute neglected.context.snapshot).errors.length)
      = [1, 1] := by cbv

/-- Nobody waits for anything any more, and a model has not found what its schema finds now. -/
theorem not_recompute_of_idle :
    ¬ ∀ (transport : MemoryTransport) (ops : List Operation), .clean ∉ ops →
      let s := (fresh none .standard transport 0 false).performAll ops
      s.context.isFetching = false → s.context.waiters = [] → s.context.batches.flatten = [] →
      (∀ m ∈ s.models, m.pending = 0) → ∀ m ∈ s.models, m.recompute s.context.snapshot = m := by
  intro hall
  obtain ⟨hidle, hwaiters, hbatches, hpending⟩ := idle_neglected
  have hready : ∀ m ∈ neglected.models, m.pending = 0 :=
    fun m hm => beq_iff_eq.1 (List.all_eq_true.1 hpending m hm)
  have hsame := hall busy neglecting (by simp [neglecting]) hidle
    (List.eq_nil_of_length_eq_zero hwaiters) (List.eq_nil_of_length_eq_zero hbatches) hready
  have heq : neglected.models.map (fun m => (m.recompute neglected.context.snapshot).errors.length)
      = neglected.models.map (fun m => m.errors.length) :=
    List.map_congr_left (fun m hm => congrArg (fun m : Model => m.errors.length) (hsame m hm))
  rw [errors_neglected.1, errors_neglected.2] at heq
  cases heq

end Session

end HyperSchema
