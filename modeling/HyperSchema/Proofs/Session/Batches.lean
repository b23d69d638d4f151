import HyperSchema.Proofs.Session.Operations
import Mathlib.Data.List.Permutation

/-!
# Batches of errands

A fetch that ends releases all who wait as one batch. The errands of a batch are run in order: one
is taken from the front, and what is to be done because of it goes there. But a batch may still be
under way when a later one is released, and nothing keeps that from going first. So the order of
coming is the order of going within each batch; over all of them it is only as long as the batches
are emptied in turn, for then they are together no more than one batch.
-/

namespace HyperSchema

namespace Session

variable {s : Session} {op : Operation} {n : Nat}

/-- All errands that are to be run, batch by batch. -/
def errands (s : Session) : List Errand := s.context.batches.flatten

/-- All who wait, the released before the others. -/
def line (s : Session) : List Waiter :=
  s.errands.filterMap Errand.waiter? ++ s.context.waiters

/-- The callbacks of a model that are to be run, as it has become ready. -/
def due (i : Nat) (s : Session) : List Callback := s.errands.filterMap (Errand.readyOf? i)

/-- An operation that runs no errand while an earlier batch is not empty, and leaves no callback
with a model while others of that model are to be run. -/
def InTurn (s : Session) : Operation → Prop
  | .runNext n => ∀ k, k < n → s.batch k = []
  | .whenReady i _ => due i s = []
  | _ => True

/-! ### One batch -/

/-- What can happen to a batch: somebody is released into it, or its next errand is run. -/
inductive Takes (batch : List Errand) :
    List Waiter → Option Errand → List Errand → List Errand → Prop where
  | put (ws : List Waiter) : Takes batch ws none [] (batch ++ ws.map .release)
  | next {e : Errand} {rest : List Errand} (ready : List (Nat × Callback))
      (h : batch = e :: rest) (hready : e.ready?.isSome → ready = []) :
      Takes batch [] (some e) (ready.map fun r => .run r.1 r.2)
        (ready.map (fun r => .run r.1 r.2) ++ rest)

/-- A batch in which the callbacks of ready models come before all who are to be let go. -/
def Tidy (batch : List Errand) : Prop :=
  ∃ (ready : List (Nat × Callback)) (ws : List Waiter),
    batch = ready.map (fun r => .run r.1 r.2) ++ ws.map .release

theorem filterMap_waiter?_release (ws : List Waiter) :
    (ws.map Errand.release).filterMap Errand.waiter? = ws := by
  rw [List.filterMap_map]
  exact List.filterMap_some

theorem filterMap_waiter?_run (ready : List (Nat × Callback)) :
    (ready.map fun r => Errand.run r.1 r.2).filterMap Errand.waiter? = [] := by
  rw [List.filterMap_map]
  exact List.filterMap_eq_nil_iff.2 (fun _ _ => rfl)

theorem filterMap_release {α : Type} {p : Errand → Option α} (hp : ∀ w, p (.release w) = none)
    (ws : List Waiter) : (ws.map Errand.release).filterMap p = [] := by
  rw [List.filterMap_map]
  exact List.filterMap_eq_nil_iff.2 (fun w _ => hp w)

theorem filterMap_cons_toList {α β : Type} (p : α → Option β) (a : α) (l : List α) :
    (a :: l).filterMap p = (p a).toList ++ l.filterMap p := by
  rw [List.filterMap_cons]
  cases p a <;> rfl

namespace Takes

variable {batch batch' more : List Errand} {ws : List Waiter} {ran : Option Errand}

theorem nothing (batch : List Errand) : Takes batch [] none [] batch := by
  have h : Takes batch [] none [] (batch ++ [].map Errand.release) := .put []
  rwa [List.map_nil, List.append_nil] at h

/-- Who is released into a batch is let go after those who are there. -/
theorem waiters (h : Takes batch ws ran more batch') :
    batch.filterMap Errand.waiter? ++ ws
      = (ran.bind Errand.waiter?).toList ++ batch'.filterMap Errand.waiter? := by
  cases h with
  | put ws =>
      rw [List.filterMap_append, filterMap_waiter?_release]
      rfl
  | next ready h hready =>
      rw [h, List.filterMap_append, filterMap_waiter?_run, filterMap_cons_toList, List.append_nil]
      rfl

theorem tidy (h : Takes batch ws ran more batch') (htidy : Tidy batch) : Tidy batch' := by
  obtain ⟨before, released, hbatch⟩ := htidy
  cases h with
  | put ws =>
      refine ⟨before, released ++ ws, ?_⟩
      rw [hbatch, List.map_append, List.append_assoc]
  | @next e rest ready h hready =>
      rw [h] at hbatch
      cases before with
      | nil =>
          -- somebody is let go, and only such as he are behind him
          cases released with
          | nil => cases hbatch
          | cons w released =>
              obtain ⟨-, rfl⟩ := List.cons.inj hbatch
              exact ⟨ready, released, rfl⟩
      | cons r before =>
          obtain ⟨rfl, rfl⟩ := List.cons.inj hbatch
          rw [hready rfl]
          exact ⟨before, released, rfl⟩

/-- The callbacks that an errand gives to its batch are run after those that are there. -/
theorem ready {α : Type} {p : Errand → Option α} (hp : ∀ w, p (.release w) = none)
    (h : Takes batch ws ran more batch') (htidy : Tidy batch) :
    batch.filterMap p ++ more.filterMap p = (ran.bind p).toList ++ batch'.filterMap p := by
  obtain ⟨before, released, hbatch⟩ := htidy
  cases h with
  | put ws =>
      rw [List.filterMap_append, filterMap_release hp]
      rfl
  | @next e rest ready h hready =>
      rw [h] at hbatch
      rw [h, filterMap_cons_toList, List.append_assoc, List.filterMap_append]
      refine congrArg _ ?_
      cases before with
      | nil =>
          cases released with
          | nil => cases hbatch
          | cons w released =>
              obtain ⟨-, rfl⟩ := List.cons.inj hbatch
              rw [filterMap_release hp, List.append_nil]
              rfl
      | cons r before =>
          obtain ⟨rfl, -⟩ := List.cons.inj hbatch
          rw [hready rfl]
          exact List.append_nil _

end Takes

/-! ### All batches -/

/-- All that an operation can do to those who wait, released or not. -/
inductive Moves (s : Session) : Operation → List Waiter → List (List Errand) → Prop where
  | comes {op : Operation} (h : s.errand? op = none) :
      Moves s op (s.context.waiters ++ s.comers op) s.context.batches
  | ends : Moves s .fetchStep [] (s.context.batches ++ [s.context.waiters.map .release])
  | next {front back : List (List Errand)} {e : Errand} {rest : List Errand}
      (ready : List (Nat × Callback)) (h : s.context.batches = front ++ (e :: rest) :: back)
      (harising : s.arising (.runNext front.length) = ready.map fun r => .run r.1 r.2)
      (hready : e.ready?.isSome → ready = []) :
      Moves s (.runNext front.length) s.context.waiters
        (front ++ (ready.map (fun r => .run r.1 r.2) ++ rest) :: back)

theorem moves_perform (s : Session) (op : Operation) :
    Moves s op (s.perform op).context.waiters (s.perform op).context.batches := by
  have hcomes : ∀ {op : Operation} {waiters : List Waiter} {batches : List (List Errand)},
      s.errand? op = none → waiters = s.context.waiters ++ s.comers op →
      batches = s.context.batches → Moves s op waiters batches := by
    rintro op _ _ h rfl rfl
    exact .comes h
  have heffect := s.effect_perform op
  generalize s.perform op = s' at heffect ⊢
  cases heffect with
  | quiet h hsilent =>
      refine hcomes hsilent.errand ?_ h.context.batches
      rw [hsilent.comers, List.append_nil, h.context.waiters]
  | create => exact hcomes rfl (List.append_nil _).symm rfl
  | @waits i uri document m m' s₂ hm _ _ hquiet hcomers =>
      refine hcomes rfl ?_ hquiet.context.batches
      rw [hcomers, wait, Context.wait, hquiet.context.waiters]
      rfl
  | fetched c => exact hcomes rfl rfl rfl
  | ends => exact .ends
  | ready c hm =>
      rw [(runCallbacks_spec _ _).1]
      exact hcomes rfl (List.append_nil _).symm rfl
  | @next front back e rest more s₂ h hruns harising =>
      obtain ⟨ready, rfl, hready⟩ := hruns.exists_ready
      have hwaiters : (s₂.withBatches (front ++ (ready.map (fun r => .run r.1 r.2) ++ rest)
          :: back)).context.waiters = s.context.waiters := hruns.sameLine.waiters
      rw [hwaiters]
      exact .next ready h harising hready

theorem errand?_of_batches_eq {front back : List (List Errand)} {e : Errand} {rest : List Errand}
    (h : s.context.batches = front ++ (e :: rest) :: back) :
    s.errand? (.runNext front.length) = some e := by
  rw [errand?, batch_of_batches_eq h, List.head?_cons]

theorem arising_of_errand? (h : s.errand? op = none) : s.arising op = [] := by rw [arising, h]

/-- What a fetch that ends has released is what the batches have gained. -/
theorem released_of_append {more : List (List Errand)}
    (h : (s.perform op).context.batches = s.context.batches ++ more) :
    s.released op = more.flatten.filterMap Errand.waiter? := by
  rw [released, h, List.drop_left]

theorem released_of_eq (h : (s.perform op).context.batches = s.context.batches) :
    s.released op = [] :=
  released_of_append (h.trans (List.append_nil _).symm)

theorem released_of_batches_eq {front back : List (List Errand)} {batch batch' : List Errand}
    (h : s.context.batches = front ++ batch :: back)
    (h' : (s.perform op).context.batches = front ++ batch' :: back) : s.released op = [] := by
  have hlength : (s.perform op).context.batches.length = s.context.batches.length := by
    rw [h, h', List.length_append, List.length_append]
    rfl
  rw [released, ← hlength, List.drop_length]
  rfl

/-- Who waits is released in the order of coming. -/
theorem waiters_perform (s : Session) (op : Operation) :
    s.context.waiters ++ s.comers op = s.released op ++ (s.perform op).context.waiters := by
  have hmoves := s.moves_perform op
  generalize hw : (s.perform op).context.waiters = waiters at hmoves ⊢
  generalize hb : (s.perform op).context.batches = batches at hmoves
  cases hmoves with
  | comes h =>
      rw [released_of_eq hb]
      rfl
  | ends =>
      rw [released_of_append hb, List.flatten_singleton, filterMap_waiter?_release]
      rfl
  | next ready h harising hready =>
      rw [released_of_batches_eq h hb]
      exact List.append_nil _

theorem flatten_append_cons (front back : List (List Errand)) (batch : List Errand) :
    (front ++ batch :: back).flatten = front.flatten ++ (batch ++ back.flatten) := by
  rw [List.flatten_append, List.flatten_cons]

/-- No errand is lost, and none is run twice. -/
theorem errands_perform (s : Session) (op : Operation) :
    (s.errands ++ ((s.released op).map Errand.release ++ s.arising op)).Perm
      ((s.errand? op).toList ++ (s.perform op).errands) := by
  have hmoves := s.moves_perform op
  rw [errands, errands]
  generalize (s.perform op).context.waiters = waiters at hmoves
  generalize hb : (s.perform op).context.batches = batches at hmoves ⊢
  cases hmoves with
  | comes h =>
      rw [released_of_eq hb, arising_of_errand? h, h]
      exact .of_eq (List.append_nil _)
  | ends =>
      rw [released_of_append hb, List.flatten_singleton, filterMap_waiter?_release,
        List.flatten_append, List.flatten_singleton, arising_of_errand? rfl, List.append_nil]
      exact .refl _
  | @next front back e rest ready h harising hready =>
      rw [released_of_batches_eq h hb, h,
        errand?_of_batches_eq h, harising, flatten_append_cons, flatten_append_cons]
      refine List.perm_iff_count.2 (fun e' => ?_)
      simp only [List.count_append, List.count_cons, List.map_nil, List.count_nil,
        Option.toList_some]
      omega

theorem getElem?_append_cons_of_ne {front back : List (List Errand)} (hn : front.length ≠ n)
    (batch batch' : List Errand) :
    (front ++ batch :: back)[n]? = (front ++ batch' :: back)[n]? := by
  have hset : (front ++ batch' :: back).set front.length batch = front ++ batch :: back := by
    rw [List.set_append_right _ _ (Nat.le_refl _), Nat.sub_self, List.set_cons_zero]
  rw [← hset, List.getElem?_set_ne hn]

/-- Who is released comes into a batch behind those that are there. -/
theorem getD_append_released (batches : List (List Errand)) (ws : List Waiter) (n : Nat) :
    (batches ++ [ws.map Errand.release])[n]?.getD []
      = batches[n]?.getD [] ++ (if batches.length = n then ws else []).map .release := by
  rcases Nat.lt_trichotomy n batches.length with hn | rfl | hn
  · rw [List.getElem?_append_left hn, if_neg (Nat.ne_of_gt hn)]
    exact (List.append_nil _).symm
  · rw [List.getElem?_append_right (Nat.le_refl _), Nat.sub_self, if_pos rfl,
      List.getElem?_eq_none (Nat.le_refl _)]
    rfl
  · rw [if_neg (Nat.ne_of_lt hn), List.getElem?_eq_none (Nat.le_of_lt hn),
      List.getElem?_eq_none (List.length_append ▸ hn)]
    rfl

/-- What an operation can do to one batch. -/
theorem takes_batch (s : Session) (op : Operation) (n : Nat) :
    Takes (s.batch n) (releasedAs n s op) (errandOf? n s op) (arisingOf n s op)
      ((s.perform op).batch n) := by
  have hmoves := s.moves_perform op
  rw [releasedAs, errandOf?, arisingOf]
  generalize (s.perform op).context.waiters = waiters at hmoves
  generalize hb : (s.perform op).context.batches = batches at hmoves
  have hbatch : (s.perform op).batch n = batches[n]?.getD [] := by rw [batch, hb]
  cases hmoves with
  | comes h =>
      rw [released_of_eq hb, arising_of_errand? h, h, ite_self, ite_self,
        ite_self, hbatch]
      exact .nothing _
  | ends =>
      rw [hbatch, getD_append_released, released_of_append hb, List.flatten_singleton,
        filterMap_waiter?_release]
      exact .put _
  | @next front back e rest ready h harising hready =>
      rw [released_of_batches_eq h hb, ite_self]
      by_cases hn : front.length = n
      · subst hn
        have hsame : (Operation.runNext front.length).isOf front.length = true := beq_self_eq_true _
        rw [if_pos hsame, if_pos hsame, errand?_of_batches_eq h, harising, batch_of_batches_eq h,
          batch_of_batches_eq hb]
        exact .next ready rfl hready
      · have hother : (Operation.runNext front.length).isOf n ≠ true := fun h => hn (beq_iff_eq.1 h)
        rw [if_neg hother, if_neg hother, hbatch, getElem?_append_cons_of_ne hn _ (e :: rest), ← h]
        exact .nothing _

/-- In turn, nothing is left of the batches before the one whose errand is run. -/
theorem flatten_of_inTurn {front back : List (List Errand)}
    (h : InTurn s (.runNext front.length)) (hbatches : s.context.batches = front ++ back) :
    front.flatten = [] := by
  refine List.flatten_eq_nil_iff.2 (fun batch hbatch => ?_)
  obtain ⟨k, hk, rfl⟩ := List.getElem_of_mem hbatch
  rw [← h k hk, Session.batch, hbatches, List.getElem?_append_left hk, List.getElem?_eq_getElem hk]
  rfl

/-- In turn, the batches are no more than one. -/
theorem takes_errands (h : InTurn s op) :
    Takes s.errands (s.released op) (s.errand? op) (s.arising op) (s.perform op).errands := by
  have hmoves := s.moves_perform op
  rw [errands, errands]
  generalize (s.perform op).context.waiters = waiters at hmoves
  generalize hb : (s.perform op).context.batches = batches at hmoves ⊢
  cases hmoves with
  | comes hnone =>
      rw [released_of_eq hb, arising_of_errand? hnone, hnone]
      exact .nothing _
  | ends =>
      rw [released_of_append hb, List.flatten_singleton, filterMap_waiter?_release,
        List.flatten_append, List.flatten_singleton]
      exact .put _
  | @next front back e rest ready hbatches harising hready =>
      rw [released_of_batches_eq hbatches hb,
        hbatches, errand?_of_batches_eq hbatches, harising, flatten_append_cons,
        flatten_append_cons, flatten_of_inTurn h hbatches, List.nil_append, List.nil_append,
        List.append_assoc]
      exact .next ready rfl hready

/-! ### The order of coming -/

theorem filterMap_waiter?_arising (s : Session) (op : Operation) :
    (s.arising op).filterMap Errand.waiter? = [] := by
  rw [arising]
  split
  · next e _ =>
    obtain ⟨ready, hready, -⟩ := (s.runs_runErrand e).exists_ready
    rw [hready, filterMap_waiter?_run]
  · rfl

theorem filterMap_toList {α β : Type} (p : α → Option β) (a : Option α) :
    a.toList.filterMap p = (a.bind p).toList := by
  cases a with
  | none => rfl
  | some a => exact (filterMap_cons_toList p a []).trans (List.append_nil _)

/-- Nobody who waits is lost, and nobody is let go twice. -/
theorem line_perform (s : Session) (op : Operation) :
    (s.line ++ s.comers op).Perm (s.leavers op ++ (s.perform op).line) := by
  have herrands := (s.errands_perform op).filterMap Errand.waiter?
  rw [List.filterMap_append, List.filterMap_append, List.filterMap_append, filterMap_toList,
    filterMap_waiter?_release, filterMap_waiter?_arising, List.append_nil] at herrands
  rw [line, List.append_assoc, waiters_perform, ← List.append_assoc, line, ← List.append_assoc]
  exact herrands.append_right _

/-- In turn, who comes joins the end of the line, and who goes leaves it at the front. -/
theorem line_perform_of_inTurn (h : InTurn s op) :
    s.line ++ s.comers op = s.leavers op ++ (s.perform op).line := by
  rw [line, List.append_assoc, waiters_perform, ← List.append_assoc, line, ← List.append_assoc,
    (takes_errands h).waiters]
  rfl

theorem readyOf?_release (i : Nat) (w : Waiter) : (Errand.release w).readyOf? i = none := rfl

/-- No callback of a ready model is lost, and none is run twice. -/
theorem due_perform (i : Nat) (s : Session) (op : Operation) :
    (due i s ++ (s.arising op).filterMap (Errand.readyOf? i)).Perm
      (((s.errand? op).bind (Errand.readyOf? i)).toList ++ due i (s.perform op)) := by
  have herrands := (s.errands_perform op).filterMap (Errand.readyOf? i)
  rwa [List.filterMap_append, List.filterMap_append, List.filterMap_append, filterMap_toList,
    filterMap_release (readyOf?_release i), List.nil_append] at herrands

end Session

end HyperSchema
