import HyperSchema.Proofs.Session.Batches

/-!
# No wake-up is lost

While somebody waits who is not released yet, a fetch is under way. What a model waits for is as
often in the line as the model counts, and its callbacks stay with it until the last of that has
gone; then they come into the batch that this was in. Each operation keeps this, and so does a run
of them. Nobody is dropped and nobody is let go twice, whatever batches overlap. The order of coming
is kept in each batch, and over all of them as long as they are emptied in turn; it is lost where
one batch overtakes another, or a callback that comes late the others of its model.
-/

namespace HyperSchema

namespace Session

open scoped List

variable {s s' : Session} {i : Nat} {m m' : Model} {op : Operation} {line line' : List Waiter}

/-! ### Accounts -/

/-- Whoever waits for a model is counted by it, and everybody waits for a model that is there. -/
structure Accounted (s : Session) (line : List Waiter) : Prop where
  background : s.background = true
  balances : ∀ i m, s.model? i = some m → m.Balances (line.count (.settle i))
  known : ∀ i, .settle i ∈ line → i < s.models.length

namespace Accounted

theorem quiet (h : Accounted s line) (hquiet : Quiet s s') : Accounted s' line where
  background := hquiet.background.trans h.background
  balances := fun i m' hm' => by
    obtain ⟨m, hm, hkept⟩ := hquiet.kept i m' hm'
    exact (h.balances i m hm).kept hkept
  known := fun i hmem => hquiet.length ▸ h.known i hmem

theorem of_models (h : Accounted s line) (hbackground : s'.background = s.background)
    (hmodels : s'.models = s.models) : Accounted s' line where
  background := hbackground.trans h.background
  balances := fun i m hm => h.balances i m (by rwa [model?, ← hmodels])
  known := fun i hmem => hmodels ▸ h.known i hmem

/-- A model counts anew when something that it waits for joins or leaves the line. -/
theorem recount (h : Accounted s line) (hm : s.model? i = some m)
    (hm' : m'.Balances (line'.count (.settle i)))
    (hothers : ∀ j, j ≠ i → line'.count (.settle j) = line.count (.settle j)) :
    Accounted (s.setModel i m') line' where
  background := h.background
  balances := fun j n hn => by
    rw [model?_setModel] at hn
    split at hn
    · next hij =>
      subst hij
      rw [if_pos (lt_length_of_model? hm)] at hn
      rwa [← Option.some.inj hn]
    · next hij =>
      rw [hothers j (Ne.symm hij)]
      exact h.balances j n hn
  known := fun j hmem => by
    rw [setModel, List.length_set]
    by_cases hij : j = i
    · exact hij ▸ lt_length_of_model? hm
    · refine h.known j (List.count_pos_iff.1 ?_)
      rw [← hothers j hij]
      exact List.count_pos_iff.2 hmem

/-- Callbacks in the line are no model's business. -/
theorem callbacks (h : Accounted s line)
    (hcount : ∀ i, line'.count (.settle i) = line.count (.settle i)) : Accounted s line' where
  background := h.background
  balances := fun i m hm => hcount i ▸ h.balances i m hm
  known := fun i hmem => h.known i (List.count_pos_iff.1
    (hcount i ▸ List.count_pos_iff.2 hmem))

theorem create (h : Accounted s line) (hm : m.Balances 0) : Accounted (s.addModel m).2 line where
  background := h.background
  balances := fun i m' hm' => by
    have hmodels : (s.models ++ [m])[i]? = some m' := hm'
    rw [List.getElem?_append] at hmodels
    split at hmodels
    · exact h.balances i m' hmodels
    · next hlength =>
      have hnone : line.count (.settle i) = 0 :=
        List.count_eq_zero.2 (fun hmem => hlength (h.known i hmem))
      rw [hnone, List.mem_singleton.1 (List.mem_of_getElem? hmodels)]
      exact hm
  known := fun i hmem => by
    have hlength := h.known i hmem
    rw [addModel, List.length_append]
    omega

end Accounted

/-- Whoever comes or goes counts. -/
theorem count_perform (s : Session) (op : Operation) (w : Waiter) :
    s.line.count w + (s.comers op).count w
      = (s.leavers op).count w + (s.perform op).line.count w := by
  have hcount := (s.line_perform op).count_eq w
  rwa [List.count_append, List.count_append] at hcount

theorem mem_line_of_batches_eq {front back : List (List Errand)} {w : Waiter} {rest : List Errand}
    (h : s.context.batches = front ++ (.release w :: rest) :: back) : w ∈ s.line := by
  refine List.mem_append_left _ (List.mem_filterMap.2 ⟨.release w, ?_, rfl⟩)
  rw [errands, h, flatten_append_cons]
  exact List.mem_append_right _ List.mem_cons_self

theorem count_settle (i j : Nat) :
    [Waiter.settle i].count (Waiter.settle j) = if i = j then 1 else 0 := by
  rw [List.count_singleton]
  simp

theorem accounted_perform (h : Accounted s s.line) (op : Operation) :
    Accounted (s.perform op) (s.perform op).line := by
  have hcount := s.count_perform op
  have heffect := s.effect_perform op
  have hquietly : s.comers op = [] → s.leavers op = [] → Accounted s (s.perform op).line := by
    intro hcomers hleavers
    refine h.callbacks fun i => ?_
    have hsame := hcount (.settle i)
    rw [hcomers, hleavers] at hsame
    exact (Nat.zero_add _).symm.trans hsame.symm
  generalize (s.perform op).line = line' at hcount hquietly ⊢
  generalize s.perform op = s' at heffect ⊢
  cases heffect with
  | quiet hquiet hsilent =>
      exact (hquietly hsilent.comers (by rw [leavers, hsilent.errand]; rfl)).quiet hquiet
  | create value url failure =>
      exact (hquietly rfl rfl).create (Model.balances_new value url failure)
  | @waits i _ _ m m' s₂ hm hbalances _ hquiet hcomers =>
      have hline : ∀ j, line'.count (.settle j)
          = s.line.count (.settle j) + if i = j then 1 else 0 := by
        intro j
        rw [← count_settle, ← hcomers, hcount]
        exact (Nat.zero_add _).symm
      have hjoined : Accounted (s.setModel i m') line' := by
        refine h.recount hm ?_ (fun j hij => ?_)
        · rw [hline, if_pos rfl]
          exact hbalances _ (h.balances i m hm)
        · rw [hline, if_neg (Ne.symm hij), Nat.add_zero]
      exact (hjoined.quiet hquiet).of_models rfl rfl
  | fetched c =>
      refine (h.callbacks fun i => ?_).of_models rfl rfl
      have hjoined := hcount (.settle i)
      exact (Nat.zero_add _).symm.trans hjoined.symm
  | ends => exact (hquietly rfl rfl).of_models rfl rfl
  | @ready i c m hm =>
      have hmodel := ((hquietly rfl rfl).balances i m hm).whenReady c
      exact ((hquietly rfl rfl).recount hm hmodel (fun _ _ => rfl)).of_models
        (runCallbacks_spec _ _).2.1 (runCallbacks_spec _ _).2.2.1
  | next hbatches hruns _ =>
      rw [leavers, errand?_of_batches_eq hbatches] at hcount hquietly
      cases hruns with
      | callback c =>
          refine (h.callbacks fun i => ?_).of_models (runCallback_spec _ _).2.1
            (runCallback_spec _ _).2.2.1
          have hleft := hcount (.settle i)
          exact (Nat.zero_add _).symm.trans hleft.symm
      | ready i c =>
          exact (hquietly rfl rfl).of_models (runCallback_spec _ _).2.1
            (runCallback_spec _ _).2.2.1
      | @nobody i hm =>
          have hlength := h.known i (mem_line_of_batches_eq hbatches)
          rw [model?, List.getElem?_eq_none_iff] at hm
          omega
      | @settle i m hm =>
          have hline : ∀ j, s.line.count (.settle j)
              = line'.count (.settle j) + if i = j then 1 else 0 := by
            intro j
            rw [← count_settle, Nat.add_comm]
            exact hcount (.settle j)
          have hmodel := h.balances i m hm
          rw [hline i, if_pos rfl] at hmodel
          have hleft : Accounted (s.setModel i (m.settle s.context.snapshot).1) line' := by
            refine h.recount hm hmodel.settle (fun j hij => ?_)
            rw [hline j, if_neg (Ne.symm hij), Nat.add_zero]
          exact (hleft.quiet (quiet_deliverAll _ i _)).of_models rfl rfl

/-- Somebody in the line who has not been released yet has a fetch under way. -/
def Driven (s : Session) : Prop := s.context.waiters ≠ [] → s.context.isFetching = true

theorem driven_wait (hbackground : s.background = true) (w : Waiter) : (s.wait w).Driven := by
  intro _
  rw [wait, hbackground]
  exact s.context.isFetching_wait w

theorem driven_perform (h : s.Driven) (hbackground : s.background = true) (op : Operation) :
    (s.perform op).Driven := by
  have hsame : ∀ {s' : Session}, Context.SameLine s.context s'.context → s'.Driven :=
    fun hsame hsome => hsame.fetching (h (hsame.waiters ▸ hsome))
  have heffect := s.effect_perform op
  generalize s.perform op = s' at heffect ⊢
  cases heffect with
  | quiet hquiet _ => exact hsame hquiet.context
  | create => exact h
  | waits _ _ _ hquiet _ => exact driven_wait (hquiet.background.trans hbackground) _
  | fetched c => exact driven_wait hbackground _
  | ends => exact fun hsome => absurd rfl hsome
  | @ready i c m hm =>
      refine hsame ?_
      rw [(runCallbacks_spec _ _).1]
      exact .refl _
  | next _ hruns _ =>
      have hline := hruns.sameLine
      exact fun hsome => hline.fetching (h (hline.waiters ▸ hsome))

/-! ### Callbacks -/

/-- The callbacks that are left with a model. -/
def callbacksOf (i : Nat) (s : Session) : List Callback :=
  match s.model? i with
  | some m => m.callbacks
  | none => []

theorem callbacksOf_of_models (hmodels : s'.models = s.models) (i : Nat) :
    callbacksOf i s' = callbacksOf i s := by
  rw [callbacksOf, callbacksOf, model?, model?, hmodels]

theorem callbacksOf_setModel (hm : s.model? i = some m) (m' : Model) (j : Nat) :
    callbacksOf j (s.setModel i m') = if i = j then m'.callbacks else callbacksOf j s := by
  rw [callbacksOf, model?_setModel, if_pos (lt_length_of_model? hm)]
  by_cases hij : i = j
  · rw [if_pos hij, if_pos hij]
  · rw [if_neg hij, if_neg hij, callbacksOf]

theorem callbacksOf_addModel (s : Session) (hm : m.callbacks = []) (i : Nat) :
    callbacksOf i (s.addModel m).2 = callbacksOf i s := by
  have hmodel : (s.addModel m).2.model? i
      = if i < s.models.length then s.models[i]? else [m][i - s.models.length]? :=
    List.getElem?_append
  rw [callbacksOf, callbacksOf, hmodel]
  by_cases hlength : i < s.models.length
  · rw [if_pos hlength, model?]
  · rw [if_neg hlength, model?, List.getElem?_eq_none (Nat.le_of_not_lt hlength)]
    split
    · next m' hm' =>
      rw [List.mem_singleton.1 (List.mem_of_getElem? hm')]
      exact hm
    · rfl

theorem Quiet.callbacksOf (h : Quiet s s') (i : Nat) : callbacksOf i s' = callbacksOf i s := by
  rw [Session.callbacksOf, Session.callbacksOf]
  cases hm' : s'.model? i with
  | some m' =>
      obtain ⟨m, hm, hkept⟩ := h.kept i m' hm'
      rw [hm]
      exact hkept.callbacks
  | none =>
      have hm : s.model? i = none := by
        rw [model?, List.getElem?_eq_none_iff] at hm' ⊢
        rw [← h.length]
        exact hm'
      rw [hm]

theorem promptOf_of_prompt (h : s.prompt op = []) (i : Nat) : promptOf i s op = [] := by
  cases op with
  | whenReady j c =>
      rw [promptOf]
      split
      · exact h
      · rfl
  | _ => rfl

theorem filterMap_readyOf?_run (i j : Nat) (cs : List Callback) :
    (cs.map (Errand.run j)).filterMap (Errand.readyOf? i) = if j = i then cs else [] := by
  rw [List.filterMap_map]
  split
  · next hij =>
    subst hij
    have hsame : Errand.readyOf? j ∘ Errand.run j = some := funext fun _ => if_pos rfl
    rw [hsame, List.filterMap_some]
  · next hij => exact List.filterMap_eq_nil_iff.2 (fun _ _ => if_neg hij)

/-- A callback stays with its model until that gives it away. -/
theorem callbacks_perform (h : Accounted s s.line) (i : Nat) (op : Operation) :
    callbacksOf i s ++ asked i s op = given i s op ++ callbacksOf i (s.perform op) := by
  have heffect := s.effect_perform op
  have hnothing : s.errand? op = none → promptOf i s op = [] → given i s op = [] :=
    fun herrand hprompt => by rw [given, hprompt, arising_of_errand? herrand]; rfl
  generalize s.perform op = s' at heffect ⊢
  cases heffect with
  | quiet hquiet hsilent =>
      rw [hnothing hsilent.errand (promptOf_of_prompt hsilent.prompt i), hsilent.asked,
        hquiet.callbacksOf]
      exact List.append_nil _
  | create value url failure =>
      rw [callbacksOf_addModel s rfl, hnothing rfl rfl]
      exact List.append_nil _
  | @waits j _ _ m m' s₂ hm _ hcallbacks hquiet _ =>
      have hwait : callbacksOf i (s₂.wait (.settle j)) = callbacksOf i s₂ :=
        callbacksOf_of_models rfl i
      rw [hwait, hquiet.callbacksOf, callbacksOf_setModel hm, hcallbacks, hnothing rfl rfl]
      split
      · next hij =>
        subst hij
        rw [callbacksOf, hm]
        exact List.append_nil _
      · exact List.append_nil _
  | fetched c =>
      rw [hnothing rfl rfl]
      exact List.append_nil _
  | ends =>
      rw [hnothing rfl rfl]
      exact List.append_nil _
  | @ready j c m hm =>
      rw [callbacksOf_of_models (runCallbacks_spec _ _).2.2.1, callbacksOf_setModel hm, asked,
        given, arising_of_errand? rfl, promptOf, prompt, hm]
      dsimp only
      by_cases hij : j = i
      · subst hij
        rw [if_pos rfl, if_pos rfl, if_pos ⟨rfl, rfl⟩, callbacksOf, hm, List.filterMap_nil,
          List.append_nil]
        exact (h.balances j m hm).callbacks_whenReady c
      · rw [if_neg hij, if_neg hij, if_neg (fun hboth => hij hboth.1)]
        exact List.append_nil _
  | @next front back e rest more s₂ hbatches hruns harising =>
      rw [given, harising]
      have hlater : callbacksOf i (s₂.withBatches (front ++ (more ++ rest) :: back))
        = callbacksOf i s₂ := callbacksOf_of_models rfl i
      rw [hlater]
      cases hruns with
      | callback c =>
          rw [callbacksOf_of_models (runCallback_spec _ _).2.2.1]
          exact List.append_nil _
      | ready j c =>
          rw [callbacksOf_of_models (runCallback_spec _ _).2.2.1]
          exact List.append_nil _
      | nobody hm => exact List.append_nil _
      | @settle j m hm =>
          rw [(quiet_deliverAll _ _ _).callbacksOf, callbacksOf_setModel hm, filterMap_readyOf?_run]
          by_cases hij : j = i
          · subst hij
            have hmodel := h.balances j m hm
            obtain ⟨n, hn⟩ :=
              Nat.exists_eq_add_one.2 (List.count_pos_iff.2 (mem_line_of_batches_eq hbatches))
            rw [hn] at hmodel
            rw [if_pos rfl, if_pos rfl, callbacksOf, hm]
            exact (List.append_nil _).trans hmodel.callbacks_settle
          · rw [if_neg hij, if_neg hij]
            exact List.append_nil _

/-- The callbacks that an operation runs are told. -/
theorem fired_perform (s : Session) (op : Operation) :
    (s.perform op).fired = s.fired ++ (s.called op).filterMap Callback.label? := by
  have heffect := s.effect_perform op
  have hnothing : s.errand? op = none → s.prompt op = [] → s.called op = [] :=
    fun herrand hprompt => by rw [called, herrand, hprompt]; rfl
  generalize s.perform op = s' at heffect ⊢
  cases heffect with
  | quiet hquiet hsilent =>
      rw [hnothing hsilent.errand hsilent.prompt, hquiet.fired]
      exact (List.append_nil _).symm
  | create => exact (List.append_nil _).symm
  | waits _ _ _ hquiet _ => exact hquiet.fired.trans (List.append_nil _).symm
  | fetched c => exact (List.append_nil _).symm
  | ends => exact (List.append_nil _).symm
  | @ready i c m hm =>
      rw [(runCallbacks_spec _ _).2.2.2, called, prompt, hm]
      exact congrArg (fun cs => s.fired ++ cs.filterMap Callback.label?) (List.append_nil _).symm
  | next hbatches hruns _ =>
      rw [called, errand?_of_batches_eq hbatches]
      cases hruns with
      | callback c => exact (runCallback_spec s c).2.2.2.trans (by cases c <;> rfl)
      | ready i c => exact (runCallback_spec s c).2.2.2.trans (by cases c <;> rfl)
      | nobody hm => exact (List.append_nil _).symm
      | settle hm => exact (quiet_deliverAll _ _ _).fired.trans (List.append_nil _).symm

/-- No callback of a model is lost, and none is run twice. -/
theorem answered_perform (h : Accounted s s.line) (i : Nat) (op : Operation) :
    (due i s ++ callbacksOf i s ++ asked i s op).Perm
      (answered i s op ++ (due i (s.perform op) ++ callbacksOf i (s.perform op))) := by
  have hready := due_perform i s op
  rw [List.append_assoc, callbacks_perform h i op, given, answered, List.append_assoc,
    List.append_assoc]
  generalize callbacksOf i (s.perform op) = left
  generalize promptOf i s op = prompt
  calc due i s ++ (prompt ++ ((s.arising op).filterMap (Errand.readyOf? i) ++ left))
    _ ~ prompt ++ (due i s ++ ((s.arising op).filterMap (Errand.readyOf? i) ++ left)) :=
        List.perm_append_comm_assoc _ _ _
    _ = prompt ++ (due i s ++ (s.arising op).filterMap (Errand.readyOf? i) ++ left) := by
        rw [List.append_assoc]
    _ ~ prompt ++ (((s.errand? op).bind (Errand.readyOf? i)).toList ++ due i (s.perform op)
          ++ left) := (hready.append_right left).append_left prompt
    _ = prompt ++ (((s.errand? op).bind (Errand.readyOf? i)).toList ++ (due i (s.perform op)
          ++ left)) := by rw [List.append_assoc]

/-- In turn, a callback that is run at once is the only one of its model. -/
theorem due_append_promptOf (h : InTurn s op) (i : Nat) :
    due i s ++ promptOf i s op = promptOf i s op ++ due i s := by
  cases op with
  | whenReady j c =>
      rw [promptOf]
      split
      · next hij =>
        subst hij
        rw [show due j s = [] from h, List.append_nil, List.nil_append]
      · exact List.append_nil _
  | _ => exact List.append_nil _

/-- In turn, the callbacks of a model are run in the order of asking. -/
theorem answered_perform_of_inTurn (h : Accounted s s.line) (htidy : Tidy s.errands)
    (hturn : InTurn s op) (i : Nat) :
    due i s ++ callbacksOf i s ++ asked i s op
      = answered i s op ++ (due i (s.perform op) ++ callbacksOf i (s.perform op)) := by
  have hready : due i s ++ (s.arising op).filterMap (Errand.readyOf? i)
      = ((s.errand? op).bind (Errand.readyOf? i)).toList ++ due i (s.perform op) :=
    (takes_errands hturn).ready (readyOf?_release i) htidy
  rw [List.append_assoc, callbacks_perform h i op, given, answered, ← List.append_assoc,
    ← List.append_assoc, due_append_promptOf hturn, List.append_assoc (promptOf i s op), hready,
    List.append_assoc, List.append_assoc, List.append_assoc]

/-! ### Runs -/

/-- What is known of those who wait between operations. -/
structure Sound (s : Session) : Prop where
  accounted : Accounted s s.line
  driven : s.Driven
  tidy : ∀ n, Tidy (s.batch n)

theorem Sound.perform (h : Sound s) (op : Operation) : Sound (s.perform op) where
  accounted := accounted_perform h.accounted op
  driven := driven_perform h.driven h.accounted.background op
  tidy := fun n => (s.takes_batch op n).tidy (h.tidy n)

theorem Sound.performAll (h : Sound s) (ops : List Operation) : Sound (s.performAll ops) :=
  List.foldlRecOn ops Session.perform h (fun _ h op _ => h.perform op)

section

variable {α : Type} {R : List α → List α → Prop} (hrefl : ∀ l, R l l)
  (htrans : ∀ {l l' l''}, R l l' → R l' l'' → R l l'')
  (happend : ∀ {l l'} front back, R l l' → R (front ++ (l ++ back)) (front ++ (l' ++ back)))
  {P : Session → Prop} {Q : Session → Operation → Prop}
  (hP : ∀ {s op}, P s → Q s op → P (s.perform op))
  {f g : Session → Operation → List α} {store : Session → List α}
  (hstep : ∀ {s op}, P s → Q s op → R (store s ++ f s op) (g s op ++ store (s.perform op)))

include hrefl htrans happend hP hstep

/-- What every operation keeps of what goes into a store and out of it, a run keeps. -/
theorem along_conserved {s : Session} (h : P s) {ops : List Operation} (hops : Throughout Q s ops) :
    R (store s ++ along f s ops) (along g s ops ++ store (s.performAll ops)) := by
  induction ops generalizing s with
  | nil =>
      rw [along, along, List.append_nil]
      exact hrefl _
  | cons op rest ih =>
      have hfirst := happend [] (along f (s.perform op) rest) (hstep h hops.1)
      have hrest := happend (g s op) [] (ih (hP h hops.1) hops.2)
      rw [List.append_nil, List.append_nil] at hrest
      rw [along, along, ← List.append_assoc, List.append_assoc (g s op)]
      rw [List.append_assoc (g s op)] at hfirst
      exact htrans hfirst hrest

end

theorem throughout_true (s : Session) (ops : List Operation) :
    Throughout (fun _ _ => True) s ops := by
  induction ops generalizing s with
  | nil => trivial
  | cons op rest ih => exact ⟨trivial, ih _⟩

theorem fired_performAll (s : Session) (ops : List Operation) :
    (s.performAll ops).fired = s.fired ++ (along called s ops).filterMap Callback.label? := by
  induction ops generalizing s with
  | nil => exact (List.append_nil _).symm
  | cons op rest ih =>
      rw [along, List.filterMap_append, ← List.append_assoc, ← fired_perform]
      exact ih (s.perform op)

def fresh (parent : Option Store) (options : Options) (transport : MemoryTransport) (ttl : Nat)
    (overlapping : Bool) : Session :=
  new (Context.new parent options) transport ttl true overlapping

theorem sound_fresh (parent : Option Store) (options : Options) (transport : MemoryTransport)
    (ttl : Nat) (overlapping : Bool) : Sound (fresh parent options transport ttl overlapping) where
  accounted := ⟨rfl, fun _ _ hm => (nomatch hm), fun _ hmem => absurd hmem List.not_mem_nil⟩
  driven := fun hsome => absurd rfl hsome
  tidy := fun _ => ⟨[], [], rfl⟩

theorem runNext_settle_last {n : Nat} {rest : List Errand}
    (hbatch : s.batch n = .release (.settle i) :: rest) (hm : s.model? i = some m)
    (hbalances : m.Balances 1) :
    ∃ notices, s.runNext n
      = ((s.setModel i
          { Model.recompute s.context.snapshot { m with pending := 0, dirty := false } with
            callbacks := [] }).deliverAll i notices).withBatches
        (s.context.batches.set n (m.callbacks.map (.run i) ++ rest)) := by
  obtain ⟨notices, hsettle⟩ := Model.settle_last (s := s.context.snapshot) hbalances
  refine ⟨notices, ?_⟩
  rw [runNext, hbatch]
  dsimp only
  rw [runErrand, hm]
  dsimp only
  rw [hsettle]

/-- What a run comes to, whatever it consists of. Whoever came to wait has been let go, or is still
in the line, each as often as he came, and who is not released yet has a fetch under way. Those who
wait have been released in the order of coming, and who was released by one fetch is let go in that
order. A model counts what it waits for in the line. Its callbacks have been run, are to be run or
are still with it, each as often as it was asked for; the model gives them away in the order of
asking, and a batch runs what it was given in that order. The last thing that a model waits for runs
its schemas again before its callbacks. -/
structure LosesNobody (start : Session) (ops : List Operation) (s : Session) : Prop where
  driven : s.context.waiters ≠ [] → s.context.isFetching = true
  counted : ∀ i m, s.model? i = some m → m.pending = s.line.count (.settle i)
  dirty : ∀ i m, s.model? i = some m → 0 < m.pending → m.dirty = true
  idle : ∀ i m, s.model? i = some m → m.pending = 0 → m.callbacks = []
  waiters : (along comers start ops).Perm (along leavers start ops ++ s.line)
  released : along comers start ops = along released start ops ++ s.context.waiters
  letGo : ∀ n, along (releasedAs n) start ops
    = along (leaversOf n) start ops ++ (s.batch n).filterMap Errand.waiter?
  callbacks : ∀ i, (along (asked i) start ops).Perm
    (along (answered i) start ops ++ (due i s ++ callbacksOf i s))
  given : ∀ i, along (asked i) start ops = along (given i) start ops ++ callbacksOf i s
  ran : ∀ n, along (dueOf n) start ops
    = along (ranOf n) start ops ++ (s.batch n).filterMap Errand.ready?
  told : s.fired = (along called start ops).filterMap Callback.label?
  recomputed : ∀ n i rest m, s.batch n = .release (.settle i) :: rest → s.model? i = some m →
    m.pending = 1 → ∃ notices, s.perform (.runNext n)
      = ((s.setModel i
          { Model.recompute s.context.snapshot { m with pending := 0, dirty := false } with
            callbacks := [] }).deliverAll i notices).withBatches
        (s.context.batches.set n (m.callbacks.map (.run i) ++ rest))

/-- Whoever came to wait has been let go in the order of coming, and the callbacks of every model
have been run in the order of asking. -/
structure InOrder (start : Session) (ops : List Operation) (s : Session) : Prop where
  waiters : along comers start ops = along leavers start ops ++ s.line
  callbacks : ∀ i, along (asked i) start ops
    = along (answered i) start ops ++ (due i s ++ callbacksOf i s)

section

variable {start : Session} (h : Sound start)

include h

theorem perm_performAll {α : Type} {f g : Session → Operation → List α}
    (store : Session → List α)
    (hstep : ∀ {s op}, Sound s → (store s ++ f s op).Perm (g s op ++ store (s.perform op)))
    (ops : List Operation) :
    (store start ++ along f start ops).Perm (along g start ops ++ store (start.performAll ops)) :=
  along_conserved (P := Sound) (Q := fun _ _ => True) .refl .trans
    (fun front back h => (h.append_right back).append_left front) (fun h _ => h.perform _)
    (fun h _ => hstep h) h (throughout_true start ops)

theorem eq_performAll {α : Type} {f g : Session → Operation → List α} (store : Session → List α)
    (hstep : ∀ {s op}, Sound s → store s ++ f s op = g s op ++ store (s.perform op))
    (ops : List Operation) :
    store start ++ along f start ops = along g start ops ++ store (start.performAll ops) :=
  along_conserved (P := Sound) (Q := fun _ _ => True) (fun _ => rfl) Eq.trans
    (fun front back h => congrArg (fun l => front ++ (l ++ back)) h) (fun h _ => h.perform _)
    (fun h _ => hstep h) h (throughout_true start ops)

/-- As long as the batches are emptied in turn, they are together no more than one. -/
theorem eq_performAll_of_inTurn {α : Type} {f g : Session → Operation → List α}
    (store : Session → List α)
    (hstep : ∀ {s op}, Sound s → Tidy s.errands → InTurn s op →
      store s ++ f s op = g s op ++ store (s.perform op))
    (htidy : Tidy start.errands) {ops : List Operation} (hops : Throughout InTurn start ops) :
    store start ++ along f start ops = along g start ops ++ store (start.performAll ops) :=
  along_conserved (P := fun s => Sound s ∧ Tidy s.errands) (Q := InTurn) (fun _ => rfl) Eq.trans
    (fun front back h => congrArg (fun l => front ++ (l ++ back)) h)
    (fun h hturn => ⟨h.1.perform _, (takes_errands hturn).tidy h.2⟩)
    (fun h => hstep h.1 h.2) ⟨h, htidy⟩ hops

end

/-- Whatever is done with a session that has a background, no wake-up is lost, and as long as the
batches are emptied in turn, the order of coming is kept. -/
theorem losesNobody_performAll (parent : Option Store) (options : Options)
    (transport : MemoryTransport) (ttl : Nat) (overlapping : Bool) (ops : List Operation) :
    LosesNobody (fresh parent options transport ttl overlapping) ops
        ((fresh parent options transport ttl overlapping).performAll ops)
      ∧ (Throughout InTurn (fresh parent options transport ttl overlapping) ops →
        InOrder (fresh parent options transport ttl overlapping) ops
          ((fresh parent options transport ttl overlapping).performAll ops)) := by
  have hstart := sound_fresh parent options transport ttl overlapping
  have hsound := hstart.performAll ops
  have hbalances := hsound.accounted.balances
  refine ⟨?_, fun hturn => ?_⟩
  · exact {
      driven := hsound.driven
      counted := fun i m hm => (hbalances i m hm).counted
      dirty := fun i m hm => (hbalances i m hm).dirty
      idle := fun i m hm => (hbalances i m hm).idle
      waiters := perm_performAll hstart line (fun _ => line_perform _ _) ops
      released := eq_performAll hstart (fun s => s.context.waiters)
        (fun _ => waiters_perform _ _) ops
      letGo := fun n => eq_performAll hstart
        (fun s => (s.batch n).filterMap Errand.waiter?)
        (fun _ => (takes_batch _ _ n).waiters) ops
      callbacks := fun i => perm_performAll hstart (fun s => due i s ++ callbacksOf i s)
        (fun h => answered_perform h.accounted i _) ops
      given := fun i => eq_performAll hstart (callbacksOf i)
        (fun h => callbacks_perform h.accounted i _) ops
      ran := fun n => eq_performAll hstart (fun s => (s.batch n).filterMap Errand.ready?)
        (fun h => (takes_batch _ _ n).ready (fun _ => rfl) (h.tidy n)) ops
      told := fired_performAll _ ops
      recomputed := fun n i rest m hbatch hm hpending => by
        have hone := hbalances i m hm
        rw [← hone.counted, hpending] at hone
        exact runNext_settle_last hbatch hm hone }
  · have htidy : Tidy (fresh parent options transport ttl overlapping).errands := ⟨[], [], rfl⟩
    exact {
      waiters := eq_performAll_of_inTurn hstart line
        (fun _ _ => line_perform_of_inTurn) htidy hturn
      callbacks := fun i => eq_performAll_of_inTurn hstart
        (fun s => due i s ++ callbacksOf i s)
        (fun h htidy hturn => answered_perform_of_inTurn h.accounted htidy hturn i) htidy hturn }

/-- Two fetches that end one after the other, each of which lets go of its own in turn. -/
def succeeding : List Operation :=
  [.whenFetched (.fire "a"), .whenFetched (.fire "b"), .fetchStep, .fetchStep, .runNext 0,
    .runNext 0, .whenFetched (.fire "c"), .fetchStep, .fetchStep, .runNext 1]

def blank : Session := fresh none .standard .empty 0 false

theorem inOrder_succeeding :
    Throughout InTurn blank succeeding ∧ InOrder blank succeeding (blank.performAll succeeding)
      ∧ (blank.performAll succeeding).fired = ["a", "b", "c"] := by
  have hturn : Throughout InTurn blank succeeding := by
    refine ⟨trivial, trivial, trivial, trivial, fun k hk => absurd hk (Nat.not_lt_zero k),
      fun k hk => absurd hk (Nat.not_lt_zero k), trivial, trivial, trivial, fun k hk => ?_, trivial⟩
    obtain rfl : k = 0 := Nat.lt_one_iff.1 hk
    decide +kernel
  exact ⟨hturn, (losesNobody_performAll none .standard .empty 0 false succeeding).2 hturn,
    by decide +kernel⟩

/-- While the first batch is under way, somebody comes to wait, another fetch ends, and he is let go
before the last of the first batch. -/
def overtaking : List Operation :=
  [.whenFetched (.fire "a"), .whenFetched (.fire "b"), .fetchStep, .fetchStep,
    .whenFetched (.fire "c"), .runNext 0, .fetchStep, .fetchStep, .runNext 1, .runNext 0]

/-- While the callbacks of a model that has become ready are run, another one is left with it, as
the first of them might do; it is run at once. -/
def rejoining : List Operation :=
  [.create .null none none, .addSchema 0 "s" none, .whenReady 0 (.fire "a"),
    .whenReady 0 (.fire "b"), .fetchStep, .fetchStep, .fetchStep, .fetchStep, .runNext 0,
    .runNext 0, .whenReady 0 (.fire "c"), .runNext 0]

/-- Two models wait, and the one that began to wait later was given its callback first. -/
def crossing : List Operation :=
  [.create .null none none, .create .null none none, .addSchema 1 "x" none, .addSchema 0 "y" none,
    .whenReady 0 (.fire "a"), .whenReady 1 (.fire "b"), .fetchStep, .fetchStep, .fetchStep,
    .fetchStep, .runNext 0, .runNext 0, .runNext 0, .runNext 0]

theorem leavers_overtaking : along comers blank overtaking
      = [.callback (.fire "a"), .callback (.fire "b"), .callback (.fire "c")]
    ∧ along leavers blank overtaking
      = [.callback (.fire "a"), .callback (.fire "c"), .callback (.fire "b")]
    ∧ (blank.performAll overtaking).line = [] := by decide +kernel

theorem answered_rejoining : along (asked 0) blank rejoining = [.fire "a", .fire "b", .fire "c"]
    ∧ along (answered 0) blank rejoining = [.fire "a", .fire "c", .fire "b"]
    ∧ due 0 (blank.performAll rejoining) = []
    ∧ callbacksOf 0 (blank.performAll rejoining) = [] := by cbv

/-- The order of coming is lost where a batch overtakes another, and where a callback comes late;
and there never was one among the callbacks of several models. -/
theorem not_inOrder_performAll :
    ¬ InOrder blank overtaking (blank.performAll overtaking)
      ∧ (blank.performAll overtaking).fired = ["a", "c", "b"]
      ∧ ¬ InOrder blank rejoining (blank.performAll rejoining)
      ∧ (blank.performAll rejoining).fired = ["a", "c", "b"]
      ∧ (blank.performAll crossing).fired = ["b", "a"] := by
  refine ⟨fun h => ?_, by decide +kernel, fun h => ?_, by cbv, by cbv⟩
  · obtain ⟨hcomers, hleavers, hline⟩ := leavers_overtaking
    have hsame := h.waiters
    rw [hcomers, hleavers, hline] at hsame
    revert hsame
    decide
  · obtain ⟨hasked, hanswered, hdue, hleft⟩ := answered_rejoining
    have hsame := h.callbacks 0
    rw [hasked, hanswered, hdue, hleft] at hsame
    revert hsame
    decide

end Session

end HyperSchema
