import HyperSchema.Proofs.Session.Leases

/-!
# What lasts

Whatever is done with a session comes down to a few things that are done with its models: they are
made without schemas, written, given schemas, released, left callbacks and handles. A property that
holds of new models and that none of these takes away holds of all models of a session at any time.
Who answers to what, and when, has no part in this.
-/

namespace HyperSchema

/-- A property that new models have and that nothing done with a model takes away. -/
structure Model.Lasting (P : Model → Prop) : Prop where
  created : ∀ value url failure, P { Model.new value url with documentError := failure }
  write? : ∀ {m next : Model} {s path x notices}, P m →
    m.write? s path x = some (next, notices) → P next
  addSchema : ∀ {m : Model} s uri waiting, P m → P (m.addSchema s uri waiting).1
  settle : ∀ {m : Model} s, P m → P (m.settle s).1
  whenReady : ∀ {m : Model} c, P m → P (m.whenReady c).1
  withHandles : ∀ {m : Model} handles nextListener, P m →
    P { m with handles := handles, nextListener := nextListener }

namespace Session

variable {P : Model → Prop} {s s' : Session} {i : Nat} {m : Model}

def All (P : Model → Prop) (s : Session) : Prop := ∀ m ∈ s.models, P m

/-- A change after which all models have a property if all had it before. -/
def Carries (P : Model → Prop) (s s' : Session) : Prop := s.All P → s'.All P

theorem Carries.refl (s : Session) : Carries P s s := id

theorem Carries.trans {s'' : Session} (h : Carries P s s') (h' : Carries P s' s'') :
    Carries P s s'' := h' ∘ h

namespace All

theorem of_models (h : s.All P) (hmodels : s'.models = s.models) : s'.All P := by
  rw [All, hmodels]
  exact h

theorem model? (h : s.All P) (hm : s.model? i = some m) : P m := h m (List.mem_of_getElem? hm)

theorem addModel (h : s.All P) (hm : P m) : (s.addModel m).2.All P :=
  List.forall_mem_append.2 ⟨h, List.forall_mem_singleton.2 hm⟩

theorem setModel (h : s.All P) (i : Nat) (hm : P m) : (s.setModel i m).All P := by
  intro m' hm'
  rcases List.mem_or_eq_of_mem_set hm' with hold | rfl
  · exact h m' hold
  · exact hm

variable (hlasting : Model.Lasting P) (h : s.All P)

include hlasting h

theorem deliver (depth i : Nat) (notices : List Notice) : (deliver depth s i notices).All P :=
  relates_deliver Carries.refl Carries.trans (fun _ _ h => h.of_models rfl)
    (fun _ _ h => h.of_models rfl)
    (fun hm hwrite h => h.setModel i (hlasting.write? (h.model? hm) hwrite)) depth s notices h

theorem write (i : Nat) (path : String) (x : Json) : (s.write i path x).2.All P := by
  rw [Session.write]
  split
  · exact h
  · next m hm =>
    split
    · next hwrite =>
      exact (h.setModel i (hlasting.write? (h.model? hm) hwrite)).deliver hlasting _ i _
    · exact h

theorem addSchema (i : Nat) (uri : String) (document : Option Json) :
    (s.addSchema i uri document).1.All P := by
  rw [Session.addSchema]
  dsimp only
  split
  · exact h.of_models rfl
  · next context _ =>
    have hcontext : ({ s with context := context } : Session).All P := h.of_models rfl
    split
    · exact hcontext
    · next m hm =>
      have htold := fun notices =>
        (hcontext.setModel i (hlasting.addSchema context.snapshot (SchemaUri.normalize uri)
          (!context.missing.isEmpty) (hcontext.model? hm))).deliver hlasting
            s.reactions.length i notices
      split
      · exact (htold _).of_models rfl
      · exact htold _

omit hlasting in
theorem runCallbacks (cs : List Callback) : (s.runCallbacks cs).All P :=
  h.of_models (s.runCallbacks_spec cs).2.2.1

theorem runErrand (e : Errand) : (s.runErrand e).2.All P := by
  have hruns := s.runs_runErrand e
  generalize (s.runErrand e).1 = more at hruns
  generalize (s.runErrand e).2 = s' at hruns ⊢
  cases hruns with
  | callback c => exact h.runCallbacks [c]
  | ready i c => exact h.runCallbacks [c]
  | nobody hm => exact h
  | @settle i m hm =>
      exact (h.setModel i (hlasting.settle s.context.snapshot (h.model? hm))).deliver hlasting _ i _

theorem whenReady (i : Nat) (c : Callback) : (s.whenReady i c).All P := by
  rw [Session.whenReady]
  split
  · exact h
  · next m hm => exact (h.setModel i (hlasting.whenReady c (h.model? hm))).runCallbacks _

omit hlasting in
theorem fetchStep : s.fetchStep.All P := by
  rw [Session.fetchStep]
  split
  · exact h
  · exact h.of_models rfl
  · exact h.of_models rfl
  · next tried calls _ =>
    have hanswered : (s.answerFor calls).All P :=
      relates_answerFor Carries.refl Carries.trans (fun _ _ h => h.of_models rfl) s calls h
    exact hanswered.of_models rfl

theorem perform (op : Operation) : (s.perform op).All P := by
  cases op with
  | create value url failure => exact h.addModel (hlasting.created value url failure)
  | addSchema i uri document => exact h.addSchema hlasting i uri document
  | write i path x => exact h.write hlasting i path x
  | whenReady i c => exact h.whenReady hlasting i c
  | handle i path =>
      rw [Session.perform]
      split
      · next m hm => exact h.setModel i (hlasting.withHandles _ m.nextListener (h.model? hm))
      · exact h
  | subscribe i path label answer =>
      rw [Session.perform]
      split
      · next m hm =>
        have hset : (s.setModel i (m.subscribe path label).1).All P :=
          h.setModel i (hlasting.withHandles _ _ (h.model? hm))
        exact hset.of_models rfl
      · exact h
  | unsubscribe i path number =>
      rw [Session.perform, unsubscribe]
      split
      · next m hm => exact h.setModel i (hlasting.withHandles _ m.nextListener (h.model? hm))
      · exact h
  | fetchSchemas urls =>
      exact relates_fetchUndisturbed Carries.refl Carries.trans (fun _ _ h => h.of_models rfl)
        (fun _ _ h => h.of_models rfl) s urls h
  | fetchStep => exact h.fetchStep
  | runNext n =>
      rw [Session.perform, runNext]
      split
      · exact h
      · next e rest _ => exact (h.runErrand hlasting e).of_models rfl
  | register uri document name => exact h.of_models rfl
  | registerFormat name refusal? => exact h.of_models rfl
  | whenFetched c => exact h.of_models rfl
  | clean => exact h.of_models rfl
  | serve transport => exact h.of_models rfl

theorem performAll (ops : List Operation) : (s.performAll ops).All P :=
  relates_foldl Carries.refl Carries.trans (fun _ op h => h.perform hlasting op) ops s h

theorem turn : s.turn.All P := by
  obtain ⟨ops, hops⟩ := s.exists_turn_eq
  rw [hops]
  exact h.performAll hlasting ops

theorem addSchemas (i : Nat) (schemas : List String) : (s.addSchemas i schemas).1.All P := by
  induction schemas generalizing s with
  | nil => exact h
  | cons uri rest ih =>
      have hfirst := h.addSchema hlasting i uri none
      rw [Session.addSchemas]
      split
      · next s₁ e heq =>
        rw [heq] at hfirst
        exact hfirst
      · next s₁ heq =>
        rw [heq] at hfirst
        exact ih hfirst

theorem openModel (url : String) : (s.openModel url).2.All P := by
  rw [Session.openModel]
  split
  · exact h.of_models rfl
  · have hturn : (if s.overlapping then s.turn else s).All P := by
      split
      · exact h.turn hlasting
      · exact h
    generalize (if s.overlapping then s.turn else s) = started at hturn
    have hfetched : (started.fetchDocument url).2.All P := hturn.of_models rfl
    dsimp only
    split
    · next e _ =>
      exact (hfetched.addModel (hlasting.created .null (some url) (some e))).of_models rfl
    · next response v _ =>
      have hadded := (hfetched.addModel (hlasting.created v (some url) none)).addSchemas hlasting
        ((started.fetchDocument url).2.addModel (Model.new v (some url))).1
        (response.headers.describedBy url)
      split
      · next heq => exact hadded.of_models (congrArg (fun r => r.1.models) heq).symm
      · next heq => exact hadded.of_models (congrArg (fun r => r.1.models) heq).symm

theorem createModel (url : Option String) (v : Json) (schemas : List String) :
    (s.createModel url v schemas).2.All P := by
  have hadded := (h.addModel (hlasting.created v url none)).addSchemas hlasting
    (s.addModel (Model.new v url)).1
  rw [Session.createModel]
  dsimp only
  split
  · next heq => exact (hadded _).of_models (congrArg (fun r => r.1.models) heq).symm
  · next s₁ heq =>
    have hmade : s₁.All P := (hadded _).of_models (congrArg (fun r => r.1.models) heq).symm
    split
    · exact hmade.of_models rfl
    · exact hmade

theorem advance (milliseconds : Nat) : (s.advance milliseconds).All P := by
  obtain ⟨ops, hrun⟩ := s.exists_runBackground_eq
  rw [Session.advance, hrun]
  exact (h.performAll hlasting ops).of_models rfl

theorem use (u : Use) : (s.use u).All P := by
  cases u with
  | openModel url => exact h.openModel hlasting url
  | create url value schemas => exact h.createModel hlasting url value schemas
  | look url => exact h
  | poke url => exact h.of_models rfl
  | evict url => exact h.of_models rfl
  | advance milliseconds => exact h.advance hlasting milliseconds
  | other op => exact h.perform hlasting op

theorem useAll (uses : List Use) : (s.useAll uses).All P :=
  relates_foldl Carries.refl Carries.trans (fun _ u h => h.use hlasting u) uses s h

end All

/-- What lasts holds of every model, whatever a session is used for. -/
theorem all_useAll_new (hlasting : Model.Lasting P) (context : Context)
    (transport : MemoryTransport) (ttl : Nat) (background overlapping : Bool) (uses : List Use) :
    ((new context transport ttl background overlapping).useAll uses).All P :=
  All.useAll hlasting (fun _ hm => absurd hm List.not_mem_nil) uses

end Session

end HyperSchema
