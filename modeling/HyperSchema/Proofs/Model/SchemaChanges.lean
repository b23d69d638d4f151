import HyperSchema.Model.Basic
import HyperSchema.Proofs.Model.HandleTree
import HyperSchema.Proofs.Validation.Places
import Mathlib.Data.Set.Basic

/-!
# Changes of schemas add up

A listener of a handle is told how the schemas at the path change. Three operations run the schemas
again: a write, another root schema, and the arrival of schemas. Each tells a handle the difference
between the sets before and after, since the walk over the handles reaches each of them once, and
the paths at which there are schemas all lie below the root. So whoever knows the set at one time
and applies the changes to it knows the set at all times.
-/

namespace HyperSchema

/-! ### Schemas stand at paths below the root -/

/-- Whether a map has entries at paths below the root only. -/
def PathMap.Rooted {α : Type} (m : PathMap α) : Prop :=
  ∀ path, m.entries path ≠ [] → Pointer.Rooted path

namespace PathMap

variable {α : Type} [DecidableEq α] {m : PathMap α} {path : String}

theorem entries_add_of_ne (m : PathMap α) (x : α) {other : String} (h : other ≠ path) :
    (m.add path x).entries other = m.entries other := by
  rw [add]
  split
  · rfl
  · rw [entries, entries, Table.get?_insert_of_ne _ _ (Ne.symm h)]
    rfl

theorem Rooted.add (hm : m.Rooted) (hpath : Pointer.Rooted path) (x : α) :
    (m.add path x).Rooted := by
  intro other hother
  by_cases h : other = path
  · rw [h]
    exact hpath
  · rw [entries_add_of_ne m x h] at hother
    exact hm other hother

end PathMap

namespace ValidationState

variable {state : ValidationState} {m : PathMap String}

theorem rooted_recordAll (fs : Findings) (hschemas : state.schemas = some m) (hm : m.Rooted)
    (hfs : ∀ x ∈ fs, Pointer.Rooted x.path) :
    ∃ m', (state.recordAll fs).schemas = some m' ∧ m'.Rooted := by
  induction fs generalizing state m with
  | nil => exact ⟨m, hschemas, hm⟩
  | cons x rest ih =>
      rw [List.forall_mem_cons] at hfs
      rw [recordAll, List.foldl_cons, ← recordAll]
      cases x with
      | schema path uri =>
          refine ih ?_ (hm.add hfs.1 uri) hfs.2
          rw [record, hschemas]
          rfl
      | error e => exact ih hschemas hm hfs.2
      | link path l => exact ih hschemas hm hfs.2
      | missing path uri => exact ih hschemas hm hfs.2

theorem rooted_runAll (s : Snapshot) (uris : List String) (v : Json)
    (hschemas : state.schemas = some m) (hm : m.Rooted) :
    ∃ m', (s.runAll uris v "" state).schemas = some m' ∧ m'.Rooted := by
  induction uris generalizing state m with
  | nil => exact ⟨m, hschemas, hm⟩
  | cons uri rest ih =>
      obtain ⟨m', hschemas', hm'⟩ := rooted_recordAll (s.findings uri v "") hschemas hm
        (fun _ hx => Snapshot.rooted_of_mem_findings hx)
      exact ih hschemas' hm'

end ValidationState

namespace Model

open Handles (Tree)

theorem rooted_recompute (s : Snapshot) (m : Model) : (recompute s m).schemaMap.Rooted := by
  have hnil : PathMap.Rooted ([] : PathMap String) := fun _ h => absurd rfl h
  have hschemas : (ValidationState.mk [] (some []) (some []) (some [])).schemas = some [] := rfl
  obtain ⟨map, hrun, hmap⟩ := ValidationState.rooted_runAll s m.schemas m.value hschemas hnil
  rw [recompute]
  dsimp only
  rw [hrun]
  exact hmap

end Model

/-! ### Changes applied one after the other -/

def ModelEvent.schemas? : ModelEvent → Option (List String × List String)
  | .schemaChange added removed => some (added, removed)
  | .change _ => none

/-- Changes that lead from one set to another. Each adds what is not there, removes what is there,
and does one or the other. -/
inductive Replays : Set String → List (List String × List String) → Set String → Prop where
  | done {schemas : Set String} : Replays schemas [] schemas
  | change {schemas last : Set String} {added removed : List String}
      {rest : List (List String × List String)} (hadded : ∀ uri ∈ added, uri ∉ schemas)
      (hremoved : ∀ uri ∈ removed, uri ∈ schemas) (hsome : added ≠ [] ∨ removed ≠ [])
      (hrest : Replays ((schemas \ {uri | uri ∈ removed}) ∪ {uri | uri ∈ added}) rest last) :
      Replays schemas ((added, removed) :: rest) last

theorem Replays.append {first between last : Set String}
    {changes more : List (List String × List String)} (h : Replays first changes between)
    (hmore : Replays between more last) : Replays first (changes ++ more) last := by
  induction h with
  | done => exact hmore
  | change hadded hremoved hsome _ ih => exact .change hadded hremoved hsome (ih hmore)

namespace Model

variable {m next : Model} {path : String} {number : Nat}

/-- The difference between two lists of schemas leads from one to the other. -/
theorem replays_schemaEvent (before after : List String) :
    Replays {uri | uri ∈ before} ((schemaEvent? before after).bind ModelEvent.schemas?).toList
      {uri | uri ∈ after} := by
  have hadded : ∀ uri, uri ∈ after.filter (fun uri => !before.contains uri)
      ↔ uri ∈ after ∧ uri ∉ before := by
    intro uri
    rw [List.mem_filter, Bool.not_eq_true', ← Bool.not_eq_true, List.contains_iff_mem]
  have hremoved : ∀ uri, uri ∈ before.filter (fun uri => !after.contains uri)
      ↔ uri ∈ before ∧ uri ∉ after := by
    intro uri
    rw [List.mem_filter, Bool.not_eq_true', ← Bool.not_eq_true, List.contains_iff_mem]
  rw [schemaEvent?]
  split
  · next hnone =>
    rw [Bool.and_eq_true, List.isEmpty_iff, List.isEmpty_iff] at hnone
    have hsame : ({uri | uri ∈ before} : Set String) = {uri | uri ∈ after} := by
      ext uri
      have hadded := hadded uri
      have hremoved := hremoved uri
      rw [hnone.1] at hadded
      rw [hnone.2] at hremoved
      simp only [List.not_mem_nil, false_iff, not_and_not_right] at hadded hremoved
      exact ⟨hremoved, hadded⟩
    rw [hsame]
    exact .done
  · next hsome =>
    rw [Bool.and_eq_true, List.isEmpty_iff, List.isEmpty_iff, not_and_or] at hsome
    have hlast :
        ({uri | uri ∈ before} \ {uri | uri ∈ before.filter (fun uri => !after.contains uri)})
          ∪ {uri | uri ∈ after.filter (fun uri => !before.contains uri)}
          = ({uri | uri ∈ after} : Set String) := by
      ext uri
      simp only [Set.mem_union, Set.mem_sdiff, Set.mem_ofPred_eq, hadded, hremoved]
      by_cases hbefore : uri ∈ before <;> by_cases hafter : uri ∈ after <;> simp [hbefore, hafter]
    refine .change (fun uri huri => ((hadded uri).1 huri).2)
      (fun uri huri => ((hremoved uri).1 huri).1) hsome ?_
    rw [hlast]
    exact .done

/-! ### What a listener is told -/

/-- The changes of schemas among some notices that go to the listener with a number. -/
def delivered (number : Nat) (notices : List Notice) : List (List String × List String) :=
  notices.filterMap (fun notice =>
    if notice.listener.number = number then notice.event.schemas? else none)

theorem delivered_append (number : Nat) (notices more : List Notice) :
    delivered number (notices ++ more) = delivered number notices ++ delivered number more :=
  List.filterMap_append

/-- A listener of a handle, by its number. It is attached once, and to no other handle. -/
structure Attached (m : Model) (path : String) (number : Nat) : Prop where
  registered : Table.has m.handles path = true
  once : ∃ l, (m.handles.listeners path).filter (fun l => l.number = number) = [l]
  only : ∀ other, other ≠ path →
    (m.handles.listeners other).filter (fun l => l.number = number) = []
  known : number < m.nextListener

/-- What holds of a model whatever is done with it. -/
structure WellFormed (m : Model) : Prop where
  tree : m.handles.Tree
  rooted : m.schemaMap.Rooted
  numbers : ∀ path, ∀ l ∈ m.handles.listeners path, l.number < m.nextListener

theorem delivered_notices (h : Attached m path number) (events : List (String × ModelEvent)) :
    delivered number (m.notices events)
      = events.filterMap (fun e => if e.1 = path then e.2.schemas? else none) := by
  have htold : ∀ (other : String) (event : ModelEvent),
      ((m.handles.listeners other).map (fun l => (⟨l, other, event⟩ : Notice))).filterMap
          (fun notice => if notice.listener.number = number then notice.event.schemas? else none)
        = (if other = path then event.schemas? else none).toList := by
    intro other event
    have hfilter :
        ((m.handles.listeners other).map (fun l => (⟨l, other, event⟩ : Notice))).filterMap
          (fun notice => if notice.listener.number = number then notice.event.schemas? else none)
        = ((m.handles.listeners other).filter (fun l => l.number = number)).filterMap
          (fun _ => event.schemas?) := by
      rw [List.filterMap_map, List.filterMap_filter]
      apply List.filterMap_congr
      intro l _
      by_cases hl : l.number = number <;> simp [hl]
    rw [hfilter]
    split
    · next hother =>
      obtain ⟨l, hl⟩ := h.once
      rw [hother, hl, List.filterMap_cons, List.filterMap_nil]
      cases event.schemas? <;> rfl
    · next hother =>
      rw [h.only other hother]
      rfl
  rw [delivered, notices]
  induction events with
  | nil => rfl
  | cons e rest ih =>
      rw [List.flatMap_cons, List.filterMap_append, ih, htold, List.filterMap_cons]
      cases (if e.1 = path then e.2.schemas? else none) <;> rfl

theorem filterMap_of_nodup {α : Type} {f : String → Option α} {paths : List String}
    (hnodup : paths.Nodup) (hf : ∀ other, other ≠ path → f other = none) :
    paths.filterMap f = if path ∈ paths then (f path).toList else [] := by
  induction paths with
  | nil => rfl
  | cons other rest ih =>
      obtain ⟨hfresh, hrest⟩ := List.nodup_cons.1 hnodup
      rw [List.filterMap_cons, ih hrest]
      by_cases heq : other = path
      · subst heq
        rw [if_neg hfresh, if_pos List.mem_cons_self]
        cases f other <;> rfl
      · have hmem : path ∈ other :: rest ↔ path ∈ rest :=
          List.mem_cons.trans (or_iff_right (Ne.symm heq))
        rw [hf other heq]
        simp only [hmem]

/-- Among the changes of the schemas at all handles is just the one at a handle, if there is any. -/
theorem schemaEvents_at {old : PathMap String} (htree : m.handles.Tree) (hold : old.Rooted)
    (hrooted : m.schemaMap.Rooted) (hthere : Table.has m.handles path = true) :
    (m.schemaEvents old).filterMap (fun e => if e.1 = path then e.2.schemas? else none)
      = ((schemaEvent? (old.entries path) (m.schemasAt path)).bind ModelEvent.schemas?).toList := by
  have hvisit : ∀ other, (((schemaEvent? (old.entries other) (m.schemasAt other)).map
      (fun e => (other, e))).bind (fun e => if e.1 = path then e.2.schemas? else none))
        = if other = path then
            (schemaEvent? (old.entries other) (m.schemasAt other)).bind ModelEvent.schemas?
          else none := by
    intro other
    cases schemaEvent? (old.entries other) (m.schemasAt other) with
    | none => exact (ite_self _).symm
    | some event => rfl
  rw [schemaEvents, List.filterMap_filterMap]
  simp only [hvisit]
  rw [filterMap_of_nodup (Handles.nodup_walk htree) (fun other hother => if_neg hother), if_pos rfl]
  split
  · rfl
  · next hnot =>
    -- a handle that the walk does not reach has no schemas, neither before nor after
    have hunrooted : ¬Pointer.Rooted path :=
      fun hpath => hnot (Handles.mem_walk htree hpath hthere)
    have hbefore : old.entries path = [] :=
      Classical.byContradiction fun hsome => hunrooted (hold path hsome)
    have hafter : m.schemasAt path = [] :=
      Classical.byContradiction fun hsome => hunrooted (hrooted path hsome)
    rw [hbefore, hafter]
    rfl

/-- Whatever a handle is told besides, the changes of its schemas lead from the old set to the new
one. -/
theorem replays_notices {old : PathMap String} {events : List (String × ModelEvent)}
    (htree : m.handles.Tree) (hold : old.Rooted) (hrooted : m.schemaMap.Rooted)
    (hattached : Attached m path number) (hevents : ∀ e ∈ events, e.2.schemas? = none) :
    Replays {uri | uri ∈ old.entries path}
      (delivered number (m.notices (events ++ m.schemaEvents old)))
      {uri | uri ∈ m.schemasAt path} := by
  have hnone : events.filterMap (fun e => if e.1 = path then e.2.schemas? else none) = [] := by
    rw [List.filterMap_eq_nil_iff]
    intro e he
    rw [hevents e he]
    exact ite_self _
  rw [delivered_notices hattached, List.filterMap_append, hnone, List.nil_append,
    schemaEvents_at htree hold hrooted hattached.registered]
  exact replays_schemaEvent _ _

/-! ### What can be done with a model -/

/-- What can be done with a model. Whenever schemas are run, the context has a snapshot of its own,
which other models may have had a hand in. -/
inductive Operation where
  | write (s : Snapshot) (path : String) (x : Json)
  | addSchema (s : Snapshot) (uri : String) (waiting : Bool)
  | settle (s : Snapshot)
  | handle (path : String)
  | subscribe (path label : String)
  | unsubscribe (path : String) (number : Nat)
  | whenReady (c : Callback)
  | documentError (e : TransportError)

def apply (m : Model) : Operation → Model × List Notice
  | .write s path x => (m.write? s path x).getD (m, [])
  | .addSchema s uri waiting => m.addSchema s uri waiting
  | .settle s => ((m.settle s).1, (m.settle s).2.1)
  | .handle path => (m.withHandle path, [])
  | .subscribe path label => ((m.subscribe path label).1, [])
  | .unsubscribe path number => (m.unsubscribe path number, [])
  | .whenReady c => ((m.whenReady c).1, [])
  | .documentError e => ({ m with documentError := some e }, [])

/-- The model after some operations, and all notices that they send. -/
def applyAll (m : Model) : List Operation → Model × List Notice
  | [] => (m, [])
  | op :: rest =>
    let (next, notices) := m.apply op
    let (last, more) := applyAll next rest
    (last, notices ++ more)

/-- All that an operation can do about schemas, handles and listeners. -/
inductive Effect (m : Model) : Operation → Model → List Notice → Prop where
  | rerun {op : Operation} {next : Model} {notices : List Notice}
      (events : List (String × ModelEvent)) (hhandles : next.handles = m.handles)
      (hnumbers : next.nextListener = m.nextListener) (hrooted : next.schemaMap.Rooted)
      (hevents : ∀ e ∈ events, e.2.schemas? = none)
      (hnotices : notices = next.notices (events ++ next.schemaEvents m.schemaMap)) :
      Effect m op next notices
  | quiet {op : Operation} {next : Model} (hhandles : next.handles = m.handles)
      (hnumbers : next.nextListener = m.nextListener) (hmap : next.schemaMap = m.schemaMap) :
      Effect m op next []
  | handle (path : String) : Effect m (.handle path) (m.withHandle path) []
  | subscribe (path label : String) :
      Effect m (.subscribe path label) (m.subscribe path label).1 []
  | unsubscribe (path : String) (number : Nat) :
      Effect m (.unsubscribe path number) (m.unsubscribe path number) []

theorem schemas?_of_mem_changeEvents {handles : Handles} {written : String}
    {e : String × ModelEvent} (he : e ∈ changeEvents handles written) : e.2.schemas? = none := by
  rcases List.mem_append.1 he with he | he
  · obtain ⟨path, -, rfl⟩ := List.mem_map.1 he
    rfl
  · obtain ⟨path, -, rfl⟩ := List.mem_map.1 he
    rfl

theorem effect_apply (m : Model) (op : Operation) : Effect m op (m.apply op).1 (m.apply op).2 := by
  cases op with
  | write s path x =>
      rw [apply, write?]
      cases Pointer.set? m.value path x with
      | none => exact .quiet rfl rfl rfl
      | some value =>
          exact .rerun _ rfl rfl (rooted_recompute s _)
            (fun _ he => schemas?_of_mem_changeEvents he) rfl
  | addSchema s uri waiting =>
      exact .rerun [] rfl rfl (rooted_recompute s _) (fun _ he => nomatch he) rfl
  | settle s =>
      rw [apply, settle]
      by_cases hpending : 0 < m.pending - 1
      · dsimp only
        rw [if_pos hpending]
        exact .quiet rfl rfl rfl
      · dsimp only
        rw [if_neg hpending]
        by_cases hdirty : m.dirty = true
        · simp only [if_pos hdirty]
          exact .rerun [] rfl rfl (rooted_recompute s _) (fun _ he => nomatch he) rfl
        · simp only [if_neg hdirty]
          exact .quiet rfl rfl rfl
  | handle path => exact .handle path
  | subscribe path label => exact .subscribe path label
  | unsubscribe path number => exact .unsubscribe path number
  | whenReady c =>
      rw [apply, whenReady]
      split
      · exact .quiet rfl rfl rfl
      · exact .quiet rfl rfl rfl
  | documentError e => exact .quiet rfl rfl rfl

theorem WellFormed.effect {op : Operation} {notices : List Notice} (h : WellFormed m)
    (heffect : Effect m op next notices) : WellFormed next := by
  cases heffect with
  | rerun events hhandles hnumbers hrooted =>
      refine ⟨hhandles ▸ h.tree, hrooted, ?_⟩
      rw [hhandles, hnumbers]
      exact h.numbers
  | quiet hhandles hnumbers hmap =>
      refine ⟨hhandles ▸ h.tree, hmap ▸ h.rooted, ?_⟩
      rw [hhandles, hnumbers]
      exact h.numbers
  | handle path =>
      have hregisters := Handles.registers_register h.tree path
      refine ⟨hregisters.tree, h.rooted, fun other l hl => ?_⟩
      rw [withHandle] at hl ⊢
      dsimp only at hl ⊢
      rw [hregisters.listeners] at hl
      exact h.numbers other l hl
  | subscribe path label =>
      obtain ⟨htree, -, hlisteners⟩ :=
        Handles.registers_subscribe h.tree path ⟨m.nextListener, label⟩
      refine ⟨htree, h.rooted, fun other l hl => ?_⟩
      rw [subscribe] at hl ⊢
      dsimp only at hl ⊢
      rw [hlisteners] at hl
      have hold : ∀ l ∈ m.handles.listeners other, l.number < m.nextListener + 1 :=
        fun l hl => Nat.lt_succ_of_lt (h.numbers other l hl)
      split at hl
      · rcases List.mem_append.1 hl with hl | hl
        · exact hold l hl
        · obtain rfl := List.mem_singleton.1 hl
          exact Nat.lt_succ_self _
      · exact hold l hl
  | unsubscribe path number =>
      obtain ⟨htree, -, hlisteners⟩ := Handles.tree_unsubscribe h.tree path number
      refine ⟨htree, h.rooted, fun other l hl => ?_⟩
      rw [unsubscribe] at hl ⊢
      dsimp only at hl ⊢
      rw [hlisteners] at hl
      split at hl
      · exact h.numbers other l (List.mem_filter.1 hl).1
      · exact h.numbers other l hl

theorem Attached.of_same (h : Attached m path number)
    (hthere : Table.has next.handles path = true)
    (hsame : ∀ x, (next.handles.listeners x).filter (fun l => l.number = number)
      = (m.handles.listeners x).filter (fun l => l.number = number))
    (hnumbers : m.nextListener ≤ next.nextListener) : Attached next path number where
  registered := hthere
  once := by
    rw [hsame]
    exact h.once
  only := fun other hother => by
    rw [hsame]
    exact h.only other hother
  known := Nat.lt_of_lt_of_le h.known hnumbers

theorem Attached.effect {op : Operation} {notices : List Notice} (htree : m.handles.Tree)
    (h : Attached m path number) (heffect : Effect m op next notices)
    (hkept : op ≠ .unsubscribe path number) : Attached next path number := by
  cases heffect with
  | rerun events hhandles hnumbers =>
      exact h.of_same (hhandles ▸ h.registered) (fun x => by rw [hhandles]) hnumbers.ge
  | quiet hhandles hnumbers =>
      exact h.of_same (hhandles ▸ h.registered) (fun x => by rw [hhandles]) hnumbers.ge
  | handle other =>
      have hregisters := Handles.registers_register htree other
      refine h.of_same (hregisters.kept _ h.registered) (fun x => ?_) (Nat.le_refl _)
      rw [withHandle, hregisters.listeners]
  | subscribe other label =>
      obtain ⟨-, hthere, hlisteners⟩ :=
        Handles.registers_subscribe htree other ⟨m.nextListener, label⟩
      refine h.of_same (hthere path (.inr h.registered)) (fun x => ?_) (Nat.le_succ _)
      have hother : m.nextListener ≠ number := Nat.ne_of_gt h.known
      rw [subscribe, hlisteners]
      split
      · rw [List.filter_append, List.filter_singleton, decide_eq_false hother]
        exact List.append_nil _
      · rfl
  | unsubscribe other k =>
      obtain ⟨-, hthere, hlisteners⟩ := Handles.tree_unsubscribe htree other k
      refine h.of_same ((hthere path).trans h.registered) (fun x => ?_) (Nat.le_refl _)
      rw [unsubscribe, hlisteners]
      split
      · next hx =>
        rw [List.filter_filter]
        by_cases hk : k = number
        · -- the number is taken off another handle, which does not have it
          have hpath : x ≠ path := by
            intro heq
            subst heq
            exact hkept (by rw [hk, hx])
          rw [h.only x hpath, List.filter_eq_nil_iff]
          intro l _
          simp [hk]
        · apply List.filter_congr
          intro l _
          by_cases hl : l.number = number
          · simp [hl, Ne.symm hk]
          · simp [hl]
      · rfl

theorem replays_effect {op : Operation} {notices : List Notice} (hm : WellFormed m)
    (h : Attached m path number) (heffect : Effect m op next notices)
    (hkept : op ≠ .unsubscribe path number) :
    Replays {uri | uri ∈ m.schemasAt path} (delivered number notices)
      {uri | uri ∈ next.schemasAt path} := by
  have hnext := hm.effect heffect
  have hattached := h.effect hm.tree heffect hkept
  cases heffect with
  | rerun events hhandles hnumbers hrooted hevents hnotices =>
      rw [hnotices]
      exact replays_notices hnext.tree hm.rooted hrooted hattached hevents
  | quiet hhandles hnumbers hmap =>
      rw [schemasAt, schemasAt, hmap]
      exact .done
  | handle other => exact .done
  | subscribe other label => exact .done
  | unsubscribe other k => exact .done

/-! ### Runs -/

theorem wellFormed_new (value : Json) (url : Option String) : WellFormed (new value url) :=
  ⟨Handles.tree_nil, fun _ h => absurd rfl h, fun _ _ hl => nomatch hl⟩

theorem WellFormed.applyAll {ops : List Operation} (h : WellFormed m) :
    WellFormed (m.applyAll ops).1 := by
  induction ops generalizing m with
  | nil => exact h
  | cons op rest ih => exact ih (h.effect (m.effect_apply op))

theorem attached_subscribe (h : WellFormed m) (path label : String) :
    Attached (m.subscribe path label).1 path m.nextListener := by
  obtain ⟨-, hthere, hlisteners⟩ :=
    Handles.registers_subscribe h.tree path ⟨m.nextListener, label⟩
  have hnone : ∀ x, (m.handles.listeners x).filter (fun l => l.number = m.nextListener) = [] := by
    intro x
    rw [List.filter_eq_nil_iff]
    intro l hl hnumber
    exact Nat.ne_of_lt (h.numbers x l hl) (of_decide_eq_true hnumber)
  refine ⟨hthere path (.inl rfl), ⟨⟨m.nextListener, label⟩, ?_⟩, fun other hother => ?_,
    Nat.lt_succ_self _⟩
  · rw [subscribe, hlisteners, if_pos rfl, List.filter_append, hnone]
    simp
  · rw [subscribe, hlisteners, if_neg hother]
    exact hnone other

theorem replays_applyAll {ops : List Operation} (hm : WellFormed m) (h : Attached m path number)
    (hkept : ∀ op ∈ ops, op ≠ .unsubscribe path number) :
    Replays {uri | uri ∈ m.schemasAt path} (delivered number (m.applyAll ops).2)
      {uri | uri ∈ (m.applyAll ops).1.schemasAt path} := by
  induction ops generalizing m with
  | nil => exact .done
  | cons op rest ih =>
      rw [List.forall_mem_cons] at hkept
      have heffect := m.effect_apply op
      rw [applyAll]
      dsimp only
      rw [delivered_append]
      exact (replays_effect hm h heffect hkept.1).append
        (ih (hm.effect heffect) (h.effect hm.tree heffect hkept.1) hkept.2)

/-- Whether a model can come about from a new one. -/
def Reachable (m : Model) : Prop :=
  ∃ value url ops, m = ((new value url).applyAll ops).1

/-- Who is attached to a handle at any time and not taken off can work out which schemas apply at
its path, from those that applied when he was attached and the changes that he is told since. None
of these changes is empty, adds what is there already or removes what is not there. -/
theorem replays_delivered (hm : Reachable m) (path label : String) {ops : List Operation}
    (hkept : ∀ op ∈ ops, op ≠ .unsubscribe path (m.subscribe path label).2) :
    Replays {uri | uri ∈ m.schemasAt path}
      (delivered (m.subscribe path label).2 ((m.subscribe path label).1.applyAll ops).2)
      {uri | uri ∈ ((m.subscribe path label).1.applyAll ops).1.schemasAt path} := by
  have hwell : WellFormed m := by
    obtain ⟨value, url, before, rfl⟩ := hm
    exact (wellFormed_new value url).applyAll
  have hsubscribed : WellFormed (m.subscribe path label).1 :=
    hwell.effect (.subscribe path label)
  exact replays_applyAll hsubscribed (attached_subscribe hwell path label) hkept

def everywhere : Snapshot where
  entries :=
    [("any",
      .compiled ⟨"any", none, .schema ⟨"any", Kind.all, [], none, none, []⟩ [] [] [] [] none⟩)]
  aliases := []
  options := Options.standard

/-- A schema that applies as soon as it is added, and no longer when the context has lost it. -/
theorem replays_delivered_everywhere :
    delivered 0 (((new .null none).subscribe "" "root").1.applyAll
        [.addSchema everywhere "any" false, .write .empty "" (.bool true)]).2
      = [(["any"], []), ([], ["any"])]
    ∧ Replays {uri | uri ∈ (new .null none).schemasAt ""}
      (delivered 0 (((new .null none).subscribe "" "root").1.applyAll
        [.addSchema everywhere "any" false, .write .empty "" (.bool true)]).2)
      {uri | uri ∈ (((new .null none).subscribe "" "root").1.applyAll
        [.addSchema everywhere "any" false, .write .empty "" (.bool true)]).1.schemasAt ""} := by
  have hkept : ∀ op ∈ [Operation.addSchema everywhere "any" false, .write .empty "" (.bool true)],
      op ≠ .unsubscribe "" 0 := by
    rw [List.forall_mem_cons, List.forall_mem_singleton]
    exact ⟨(nomatch ·), (nomatch ·)⟩
  exact ⟨by decide +kernel, replays_delivered ⟨.null, none, [], rfl⟩ "" "root" hkept⟩

end Model

end HyperSchema
