import HyperSchema.Proofs.Validation.Guard
import HyperSchema.Proofs.Validation.Recording

/-!
# Running is accumulation

A run on a state adds to it what the run finds on an empty state: its errors come behind those that
are there, and its maps are merged into those that are enabled. It makes no difference that only
some of what is evaluated writes into the state itself, while branches of choices write into states
of their own. Running several schemas is therefore putting together what each of them finds alone,
from left to right, and merging is associative as long as the same maps are enabled.
-/

namespace HyperSchema

namespace PathMap

/-- The same lists at the same paths; the order of the paths carries no meaning. -/
def Same {α : Type} (m m' : PathMap α) : Prop := ∀ path, Table.get? m path = Table.get? m' path

end PathMap

namespace ValidationState

def append (s other : ValidationState) : ValidationState :=
  { s.mergeAssignments other with errors := s.errors ++ other.errors }

/-- Every path stands once in each map. -/
structure Distinct (s : ValidationState) : Prop where
  schemas : ∀ m, s.schemas = some m → Table.Distinct m
  links : ∀ m, s.links = some m → Table.Distinct m
  missing : ∀ m, s.missing = some m → Table.Distinct m

/-- Every path in a map stands once and has entries, none of them twice. -/
structure Collected (s : ValidationState) : Prop where
  schemas : ∀ m, s.schemas = some m → m.Collected
  links : ∀ m, s.links = some m → m.Collected
  missing : ∀ m, s.missing = some m → m.Collected

structure Same (s t : ValidationState) : Prop where
  errors : s.errors = t.errors
  schemas : Option.Rel PathMap.Same s.schemas t.schemas
  links : Option.Rel PathMap.Same s.links t.links
  missing : Option.Rel PathMap.Same s.missing t.missing

variable {s a b c : ValidationState}

/-! ### Recording -/

theorem recordAll_eq_append (s : ValidationState) (fs : Findings) :
    s.recordAll fs = s.append (s.fresh.recordAll fs) := by
  rw [append, mergeAssignments_recordAll_fresh, errors_recordAll_fresh, recordAll_eq]

theorem Collected.fresh (s : ValidationState) : s.fresh.Collected where
  schemas m hm := by
    obtain ⟨-, -, rfl⟩ := Option.map_eq_some_iff.1 hm
    exact .nil
  links m hm := by
    obtain ⟨-, -, rfl⟩ := Option.map_eq_some_iff.1 hm
    exact .nil
  missing m hm := by
    obtain ⟨-, -, rfl⟩ := Option.map_eq_some_iff.1 hm
    exact .nil

theorem Collected.recordAll (h : s.Collected) (fs : Findings) : (s.recordAll fs).Collected := by
  rw [recordAll_eq]
  refine ⟨fun m hm => ?_, fun m hm => ?_, fun m hm => ?_⟩
  · obtain ⟨before, hbefore, rfl⟩ := Option.map_eq_some_iff.1 hm
    exact (h.schemas before hbefore).collect _
  · obtain ⟨before, hbefore, rfl⟩ := Option.map_eq_some_iff.1 hm
    exact (h.links before hbefore).collect _
  · obtain ⟨before, hbefore, rfl⟩ := Option.map_eq_some_iff.1 hm
    exact (h.missing before hbefore).collect _

theorem fresh_append (s other : ValidationState) : (s.append other).fresh = s.fresh := by
  rw [append, mergeAssignments, fresh, fresh, Option.map_map, Option.map_map, Option.map_map]
  rfl

/-! ### Merging in any grouping -/

/-- One of the maps, as `mergeAssignments` treats it. -/
theorem same_merge_assoc {α : Type} [DecidableEq α] {a b c : Option (PathMap α)}
    (hab : a.map (fun _ => ([] : PathMap α)) = b.map (fun _ => []))
    (hbc : b.map (fun _ => ([] : PathMap α)) = c.map (fun _ => []))
    (hb : ∀ m, b = some m → Table.Distinct m) (hc : ∀ m, c = some m → Table.Distinct m) :
    Option.Rel PathMap.Same
      ((a.map (fun m => m.merge (b.getD []))).map (fun m => m.merge (c.getD [])))
      (a.map (fun m => m.merge ((b.map (fun m => m.merge (c.getD []))).getD []))) := by
  cases a with
  | none => exact .none
  | some m =>
      cases b with
      | none => cases hab
      | some m' =>
          cases c with
          | none => cases hbc
          | some m'' => exact .some (PathMap.get?_merge_assoc (hb m' rfl) (hc m'' rfl))

theorem mergeAssignments_assoc (hab : a.fresh = b.fresh) (hbc : b.fresh = c.fresh)
    (hb : b.Distinct) (hc : c.Distinct) :
    ((a.mergeAssignments b).mergeAssignments c).Same
      (a.mergeAssignments (b.mergeAssignments c)) where
  errors := rfl
  schemas := same_merge_assoc (congrArg ValidationState.schemas hab)
    (congrArg ValidationState.schemas hbc) hb.schemas hc.schemas
  links := same_merge_assoc (congrArg ValidationState.links hab)
    (congrArg ValidationState.links hbc) hb.links hc.links
  missing := same_merge_assoc (congrArg ValidationState.missing hab)
    (congrArg ValidationState.missing hbc) hb.missing hc.missing

end ValidationState

namespace Snapshot

variable {s : Snapshot}

def recordCall (s : Snapshot) :
    Nat → List ActiveCall → String → Json → String → ValidationState → Option ValidationState
  | 0, _, _, _, _, _ => none
  | depth + 1, active, target, v, path, state =>
    match s.target? target with
    | none => some (state.record (.missing path target))
    | some (.circular chain) =>
      some (state.record (.violation path target (.circularReference chain)))
    | some (.compiled schema) =>
      if active.contains (schema.uri, path) then
        some (state.record (.violation path target (.circularReference [target])))
      else
        schema.node.record
          ⟨s.recordCall depth ((schema.uri, path) :: active), s.options.unicodeLength⟩ v path state

theorem recordCall_records (s : Snapshot) (depth : Nat) (active : List ActiveCall)
    (target : String) (v : Json) (path : String) :
    Records (s.recordCall depth active target v path) (s.call depth active target v path) := by
  induction depth generalizing active target v path with
  | zero => exact fun _ => rfl
  | succ depth ih =>
      intro state
      rw [recordCall, call]
      cases s.target? target with
      | none => rfl
      | some entry =>
          cases entry with
          | circular chain => rfl
          | compiled schema =>
              have hfollows : Recorder.Follows
                  ⟨s.recordCall depth ((schema.uri, path) :: active), s.options.unicodeLength⟩
                  (s.below depth ((schema.uri, path) :: active)) :=
                ⟨ih ((schema.uri, path) :: active), rfl⟩
              by_cases hactive : active.contains (schema.uri, path) = true
              · simp only [hactive, if_true]
                rfl
              · simp only [hactive]
                exact Node.record_records hfollows schema.node v path state

theorem run_eq_append (s : Snapshot) (uri : String) (v : Json) (path : String)
    (state : ValidationState) :
    s.run uri v path state = state.append (s.run uri v path state.fresh) :=
  state.recordAll_eq_append (s.findings uri v path)

/-- Each run adds to the state what it finds on an empty one, and leaves the same maps enabled. -/
theorem runAll_eq_foldl (s : Snapshot) (uris : List String) (v : Json) (path : String)
    (start state : ValidationState) (hstart : start.fresh = state.fresh) :
    s.runAll uris v path state
      = (uris.map (fun uri => s.run uri v path start.fresh)).foldl ValidationState.append
        state := by
  induction uris generalizing state with
  | nil => rfl
  | cons uri rest ih =>
      have hnext : s.run uri v path state = state.append (s.run uri v path start.fresh) := by
        rw [run_eq_append, hstart]
      have hfresh : start.fresh = (state.append (s.run uri v path start.fresh)).fresh := by
        rw [ValidationState.fresh_append, hstart]
      have hrest := ih (state.append (s.run uri v path start.fresh)) hfresh
      rw [runAll, List.foldl_cons, ← runAll, hnext, hrest, List.map_cons, List.foldl_cons]

theorem validateAll_eq_foldl (s : Snapshot) (uris : List String) (v : Json) :
    s.validateAll uris v
      = (uris.map (fun uri => s.validate uri v)).foldl ValidationState.append
        (ValidationState.ofOptions s.options) := by
  have hfresh : (ValidationState.ofOptions s.options).fresh
      = ValidationState.ofOptions s.options := by
    simp only [ValidationState.fresh, ValidationState.ofOptions]
    cases s.options.assignSchemas <;> cases s.options.assignLinks <;>
      cases s.options.trackMissing <;> rfl
  rw [validateAll, s.runAll_eq_foldl uris v "" _ _ rfl, hfresh]
  rfl

/-- Writing into a state, as calls, checks and nodes that all have to pass do, while the branches of
choices and negated nodes have states of their own, comes to an end; afterwards the state holds what
it held, then the errors of the run on an empty state, and the maps of that run merged in. In these
maps nothing stands twice. Several runs are put together from left to right, and merging states with
the same maps enabled is associative. -/
theorem run_accumulates (s : Snapshot) :
    (∀ (uri : String) (v : Json) (path : String) (state : ValidationState),
        (∀ depth, s.depthBound v ≤ depth →
            s.recordCall depth [] (SchemaUri.normalize uri) v path state
              = some (s.run uri v path state))
          ∧ s.run uri v path state = state.append (s.run uri v path state.fresh)
          ∧ (s.run uri v path state.fresh).Collected
          ∧ (state.Collected → (s.run uri v path state).Collected))
      ∧ (∀ (uris : List String) (v : Json),
        s.validateAll uris v
          = (uris.map (fun uri => s.validate uri v)).foldl ValidationState.append
            (ValidationState.ofOptions s.options))
      ∧ ∀ a b c : ValidationState, a.fresh = b.fresh → b.fresh = c.fresh →
        b.Distinct → c.Distinct →
          ((a.mergeAssignments b).mergeAssignments c).Same
            (a.mergeAssignments (b.mergeAssignments c)) := by
  refine ⟨fun uri v path state => ⟨fun depth hdepth => ?_, s.run_eq_append uri v path state, ?_,
    fun hstate => ?_⟩, s.validateAll_eq_foldl, fun a b c => ValidationState.mergeAssignments_assoc⟩
  · rw [s.recordCall_records depth [] (SchemaUri.normalize uri) v path state,
      call_depthBound uri v path hdepth]
    rfl
  · exact (ValidationState.Collected.fresh state).recordAll _
  · exact hstate.recordAll _

/-- A schema that includes an absent one, and offers a choice of which one branch passes. -/
def sharing : Snapshot where
  entries :=
    [("a", .compiled ⟨"a", none,
        .schema ⟨"a", Kind.all, [], none, none, []⟩ [] [.reference "gone"]
          [.reject "x", .reference "b"] [] none⟩),
      ("b", .compiled ⟨"b", none, .schema ⟨"b", Kind.all, [], none, none, []⟩ [] [] [] [] none⟩)]
  aliases := []
  options := Options.tracking

def knowing (uri : String) : ValidationState := ⟨[], some [("", [uri])], none, none⟩

theorem collected_knowing (uri : String) : (knowing uri).Collected where
  schemas m hm := by
    obtain rfl := Option.some.inj hm
    exact PathMap.Collected.nil.add "" uri
  links m hm := by cases hm
  missing m hm := by cases hm

theorem distinct_knowing (uri : String) : (knowing uri).Distinct where
  schemas m hm := ((collected_knowing uri).schemas m hm).distinct
  links m hm := by cases hm
  missing m hm := by cases hm

/-- The branch is known already when the choice comes to it. -/
theorem sharing_accumulates :
    sharing.run "a" .null "" (knowing "b") = ⟨[], some [("", ["b", "a"])], none, none⟩
      ∧ sharing.recordCall (sharing.depthBound .null) [] (SchemaUri.normalize "a") .null ""
          (knowing "b") = some (sharing.run "a" .null "" (knowing "b"))
      ∧ (sharing.run "a" .null "" (knowing "b")).Collected
      ∧ (((knowing "a").mergeAssignments (knowing "b")).mergeAssignments (knowing "c")).Same
          ((knowing "a").mergeAssignments ((knowing "b").mergeAssignments (knowing "c"))) := by
  obtain ⟨hwrites, -, -, hkeeps⟩ := (run_accumulates sharing).1 "a" .null "" (knowing "b")
  exact ⟨rfl, hwrites _ le_rfl, hkeeps (collected_knowing "b"),
    (run_accumulates sharing).2.2 _ _ _ rfl rfl (distinct_knowing "b") (distinct_knowing "c")⟩

end Snapshot

end HyperSchema
