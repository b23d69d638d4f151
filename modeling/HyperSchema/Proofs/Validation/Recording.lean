import HyperSchema.Proofs.Validation.Asking
import HyperSchema.Proofs.Validation.PathMap
import HyperSchema.Validation.Snapshot

/-!
# Writing into a state

Evaluation can be described in another way: a node is given a state and writes what it finds into
it. Its checks, the nodes that all have to pass and the calls of its references go on with the state
as it is left by what came before. The branches of a choice and a negated node each start with an
empty state of their own, and the states of branches that pass are merged; the others are dropped.
Both descriptions agree: the state afterwards is the state before with the findings recorded, one
after the other.
-/

namespace HyperSchema

/-! ### States -/

namespace Finding

def schema? : Finding → Option (String × String)
  | .schema path uri => some (path, uri)
  | _ => none

def link? : Finding → Option (String × Link)
  | .link path l => some (path, l)
  | _ => none

def missing? : Finding → Option (String × String)
  | .missing path uri => some (path, uri)
  | _ => none

end Finding

namespace ValidationState

variable {state : ValidationState} {fs : Findings}

/-- Each finding goes into one of four lists, so that what is recorded is known from the findings of
each sort. -/
theorem recordAll_eq (state : ValidationState) (fs : Findings) :
    state.recordAll fs
      = { errors := state.errors ++ fs.errors
          schemas := state.schemas.map (fun m => m.collect (fs.filterMap Finding.schema?))
          links := state.links.map (fun m => m.collect (fs.filterMap Finding.link?))
          missing := state.missing.map (fun m => m.collect (fs.filterMap Finding.missing?)) } := by
  induction fs generalizing state with
  | nil =>
      obtain ⟨errors, schemas, links, missing⟩ := state
      cases schemas <;> cases links <;> cases missing <;>
        simp [recordAll, Findings.errors, PathMap.collect_nil]
  | cons x fs ih =>
      rw [recordAll, List.foldl_cons, ← recordAll, ih]
      cases x with
      | error e =>
          simp [record, Findings.errors, Findings.errorOf?, Finding.schema?, Finding.link?,
            Finding.missing?, List.filterMap_cons]
      | schema path uri =>
          simp [record, Findings.errors, Findings.errorOf?, Finding.schema?, Finding.link?,
            Finding.missing?, List.filterMap_cons, PathMap.collect_cons, Function.comp_def]
      | link path l =>
          simp [record, Findings.errors, Findings.errorOf?, Finding.schema?, Finding.link?,
            Finding.missing?, List.filterMap_cons, PathMap.collect_cons, Function.comp_def]
      | missing path uri =>
          simp [record, Findings.errors, Findings.errorOf?, Finding.schema?, Finding.link?,
            Finding.missing?, List.filterMap_cons, PathMap.collect_cons, Function.comp_def]

theorem recordAll_append (state : ValidationState) (fs more : Findings) :
    state.recordAll (fs ++ more) = (state.recordAll fs).recordAll more := List.foldl_append

theorem fresh_recordAll (state : ValidationState) (fs : Findings) :
    (state.recordAll fs).fresh = state.fresh := by
  rw [recordAll_eq, fresh, fresh, Option.map_map, Option.map_map, Option.map_map]
  rfl

theorem errors_recordAll (state : ValidationState) (fs : Findings) :
    (state.recordAll fs).errors = state.errors ++ fs.errors := by
  rw [recordAll_eq]

theorem errors_recordAll_fresh (state : ValidationState) (fs : Findings) :
    (state.fresh.recordAll fs).errors = fs.errors := state.fresh.errors_recordAll fs

theorem isValid_recordAll_fresh (state : ValidationState) (fs : Findings) :
    (state.fresh.recordAll fs).isValid = fs.passes := by
  rw [isValid, errors_recordAll_fresh, Findings.passes]

theorem isValid_recordAll (options : Options) (fs : Findings) :
    ((ofOptions options).recordAll fs).isValid = fs.passes := by
  rw [isValid, errors_recordAll]
  rfl

/-- The maps of a state that started empty hold what was recorded, in the order of its arrival. -/
theorem mergeAssignments_recordAll_fresh (state : ValidationState) (fs : Findings) :
    state.mergeAssignments (state.fresh.recordAll fs)
      = { state.recordAll fs with errors := state.errors } := by
  obtain ⟨errors, schemas, links, missing⟩ := state
  rw [recordAll_eq, recordAll_eq]
  cases schemas <;> cases links <;> cases missing <;>
    simp [mergeAssignments, fresh, PathMap.merge_collect_nil]

/-- Merging what a passing branch found records it. -/
theorem mergeAssignments_of_passes (h : fs.passes = true) :
    state.mergeAssignments (state.fresh.recordAll fs) = state.recordAll fs := by
  have hnone : fs.errors = [] := List.isEmpty_iff.1 h
  rw [mergeAssignments_recordAll_fresh, recordAll_eq, hnone, List.append_nil]

end ValidationState

theorem Snapshot.isValid_validate (s : Snapshot) (uri : String) (v : Json) :
    (s.validate uri v).isValid = (s.findings uri v "").passes :=
  ValidationState.isValid_recordAll s.options _

/-! ### Choices of states -/

namespace Head

/-- Of several branches one has to pass; all that pass are merged. -/
def acceptAny (h : Head) (path : String) (branches : List ValidationState)
    (state : ValidationState) : ValidationState :=
  if branches.isEmpty then state
  else if branches.any ValidationState.isValid then
    (branches.filter ValidationState.isValid).foldl ValidationState.mergeAssignments state
  else state.record (.violation path h.uri (.anyOfMissing (branches.map ValidationState.errors)))

/-- Of several branches exactly one has to pass; it is merged. -/
def acceptOne (h : Head) (path : String) (branches : List ValidationState)
    (state : ValidationState) : ValidationState :=
  if branches.isEmpty then state
  else
    match branches.zipIdx.filter (fun branch => branch.1.isValid) with
    | [] =>
      state.record (.violation path h.uri (.oneOfMissing (branches.map ValidationState.errors)))
    | [(branch, _)] => state.mergeAssignments branch
    | (_, i) :: (_, j) :: _ => state.record (.violation path h.uri (.oneOfMultiple i j))

/-- The state of a negated node is dropped, and an error recorded if it passes. -/
def refuse (h : Head) (path : String) (branch state : ValidationState) : ValidationState :=
  if branch.isValid then state.record (.violation path h.uri .notPassed) else state

variable (h : Head) (path : String) (state : ValidationState)

abbrev apart (state : ValidationState) (results : List Findings) : List ValidationState :=
  results.map state.fresh.recordAll

theorem errors_apart (results : List Findings) :
    (apart state results).map ValidationState.errors = results.map Findings.errors := by
  rw [List.map_map]
  exact List.map_congr_left (fun fs _ => state.errors_recordAll_fresh fs)

theorem filter_apart (results : List Findings) :
    (apart state results).filter ValidationState.isValid
      = apart state (results.filter Findings.passes) := by
  rw [List.filter_map]
  congr 1
  exact List.filter_congr (fun fs _ => state.isValid_recordAll_fresh fs)

theorem any_apart (results : List Findings) :
    (apart state results).any ValidationState.isValid = results.any Findings.passes := by
  rw [List.any_map]
  congr 1
  exact funext state.isValid_recordAll_fresh

theorem foldl_merge_apart (results : List Findings)
    (hpasses : ∀ fs ∈ results, fs.passes = true) :
    (apart state results).foldl ValidationState.mergeAssignments state
      = state.recordAll results.flatten := by
  induction results generalizing state with
  | nil => rfl
  | cons fs rest ih =>
      have hrest := ih (state.recordAll fs)
        (fun other hother => hpasses other (List.mem_cons_of_mem fs hother))
      rw [apart, state.fresh_recordAll] at hrest
      rw [apart, List.map_cons, List.foldl_cons,
        ValidationState.mergeAssignments_of_passes (hpasses fs List.mem_cons_self), hrest,
        List.flatten_cons, ValidationState.recordAll_append]

theorem acceptAny_apart (results : List Findings) :
    h.acceptAny path (apart state results) state = state.recordAll (h.anyOf path results) := by
  rw [acceptAny, anyOf, List.isEmpty_map, any_apart, filter_apart, errors_apart]
  split
  · rfl
  · split
    · exact foldl_merge_apart state _ (fun fs hfs => (List.mem_filter.1 hfs).2)
    · rfl

theorem zipIdx_apart (results : List Findings) :
    (apart state results).zipIdx.filter (fun branch => branch.1.isValid)
      = (passing results).map (fun r => (state.fresh.recordAll r.1, r.2)) := by
  rw [List.zipIdx_map, List.filter_map, passing]
  congr 1
  exact List.filter_congr (fun r _ => state.isValid_recordAll_fresh r.1)

theorem acceptOne_apart (results : List Findings) :
    h.acceptOne path (apart state results) state = state.recordAll (h.oneOf path results) := by
  rw [acceptOne, oneOf, List.isEmpty_map, zipIdx_apart, errors_apart]
  split
  · rfl
  · cases hpassing : passing results with
    | nil => rfl
    | cons first rest =>
        cases rest with
        | nil =>
            have hmem : first ∈ passing results := hpassing ▸ List.mem_singleton_self first
            exact ValidationState.mergeAssignments_of_passes (List.mem_filter.1 hmem).2
        | cons second rest => rfl

theorem refuse_apart (fs : Findings) :
    h.refuse path (state.fresh.recordAll fs) state
      = state.recordAll (h.negated path (some fs)) := by
  rw [refuse, negated, state.isValid_recordAll_fresh]
  split
  · rfl
  · rfl

end Head

/-! ### Writing nodes -/

/-- What writing depends on besides the node, the value and the state. -/
structure Recorder where
  call : String → Json → String → ValidationState → Option ValidationState
  unicodeLength : Bool

namespace Node

mutual

def record (w : Recorder) : Node → Json → String → ValidationState → Option ValidationState
  | .accept, _, _, state => some state
  | .reject uri, _, path, state => some (state.record (.violation path uri .notPassed))
  | .reference target, v, path, state => w.call target v path state
  | .schema head branches allOf anyOf oneOf negated, v, path, state => do
    let state := state.recordAll (head.opening v path)
    let state ←
      if head.allowed.contains v.kind then recordBranches w head.uri branches v path state
      else some state
    let state ← recordEach w allOf v path state
    let anyStates ← recordApart w anyOf v path state.fresh
    let state := head.acceptAny path anyStates state
    let oneStates ← recordApart w oneOf v path state.fresh
    let state := head.acceptOne path oneStates state
    let state ← recordNegated w head negated v path state
    return state.recordAll (head.closing v path)

def recordEach (w : Recorder) :
    List Node → Json → String → ValidationState → Option ValidationState
  | [], _, _, state => some state
  | node :: rest, v, path, state => do
    let state ← record w node v path state
    recordEach w rest v path state

/-- Several nodes each start with the same state. -/
def recordApart (w : Recorder) :
    List Node → Json → String → ValidationState → Option (List ValidationState)
  | [], _, _, _ => some []
  | node :: rest, v, path, start => do
    let branch ← record w node v path start
    let more ← recordApart w rest v path start
    return branch :: more

def recordNegated (w : Recorder) (head : Head) :
    Option Node → Json → String → ValidationState → Option ValidationState
  | none, _, _, state => some state
  | some node, v, path, state => do
    let branch ← record w node v path state.fresh
    return head.refuse path branch state

def recordBranches (w : Recorder) (uri : String) :
    List (List Kind × List Check) → Json → String → ValidationState → Option ValidationState
  | [], _, _, state => some state
  | [(_, checks)], v, path, state => recordChecks w uri checks v path state
  | (kinds, checks) :: rest, v, path, state =>
    if kinds.contains v.kind then recordChecks w uri checks v path state
    else recordBranches w uri rest v path state

def recordChecks (w : Recorder) (uri : String) :
    List Check → Json → String → ValidationState → Option ValidationState
  | [], _, _, state => some state
  | check :: rest, v, path, state => do
    let state ← recordCheck w uri check v path state
    recordChecks w uri rest v path state

def recordCheck (w : Recorder) (uri : String) :
    Check → Json → String → ValidationState → Option ValidationState
  | .assertion a, v, path, state =>
    some (state.recordAll
      ((a.violation? w.unicodeLength v).map (Finding.violation path uri)).toList)
  | .items node, v, path, state =>
    (itemsOf v).zipIdx.foldlM (fun state i => record w node i.1 (itemPath path i.2) state) state
  | .tuple nodes rest, v, path, state => do
    let state ← recordTuple w nodes (itemsOf v) 0 path state
    let state ← ((itemsOf v).zipIdx.drop nodes.length).foldlM
      (fun state i => recordExtra w rest i.1 (itemPath path i.2) state) state
    return state.recordAll (surplus uri path nodes.length rest (itemsOf v).length)
  | .members properties required dependencies patterns rest, .object members, path, state => do
    let state ← (ruledKeys properties required dependencies).foldlM (fun state key =>
      match Table.get? members key with
      | none =>
        some (if key ∈ required then state.record (.violation path uri (.requiredMissing key))
          else state)
      | some member => do
        let state ← recordProperty w properties key member path state
        recordDependency w uri dependencies key members path state) state
    members.foldlM (fun state entry => do
      let place := Pointer.child path entry.1
      let state ← recordPatterns w patterns entry.1 entry.2 place state
      if (properties.map Prod.fst).contains entry.1
          || patterns.any (fun p => p.1.isMatch entry.1) then some state
      else recordRest w uri rest entry.1 entry.2 place state) state
  | .members _ _ _ _ _, _, _, state => some state

def recordTuple (w : Recorder) :
    List Node → List Json → Nat → String → ValidationState → Option ValidationState
  | [], _, _, _, state => some state
  | _ :: _, [], _, _, state => some state
  | node :: nodes, item :: items, i, path, state => do
    let state ← record w node item (itemPath path i) state
    recordTuple w nodes items (i + 1) path state

def recordExtra (w : Recorder) :
    Additional → Json → String → ValidationState → Option ValidationState
  | .allowed, _, _, state => some state
  | .forbidden, _, _, state => some state
  | .schema node, v, path, state => record w node v path state

def recordRest (w : Recorder) (uri : String) :
    Additional → String → Json → String → ValidationState → Option ValidationState
  | .allowed, _, _, _, state => some state
  | .forbidden, key, _, path, state =>
    some (state.record (.violation path uri (.additionalProperty key)))
  | .schema node, _, member, path, state => record w node member path state

def recordProperty (w : Recorder) :
    List (String × Node) → String → Json → String → ValidationState → Option ValidationState
  | [], _, _, _, state => some state
  | (name, node) :: rest, key, member, path, state =>
    if name = key then record w node member (Pointer.child path key) state
    else recordProperty w rest key member path state

def recordDependency (w : Recorder) (uri : String) :
    List (String × Dependency) → String → Table Json → String → ValidationState →
      Option ValidationState
  | [], _, _, _, state => some state
  | (name, dependency) :: rest, key, members, path, state =>
    if name = key then recordDependent w uri dependency key members path state
    else recordDependency w uri rest key members path state

def recordDependent (w : Recorder) (uri : String) :
    Dependency → String → Table Json → String → ValidationState → Option ValidationState
  | .keys names, key, members, path, state =>
    some (state.recordAll (missingKeys uri path key members names))
  | .schema node, _, members, path, state => record w node (.object members) path state

def recordPatterns (w : Recorder) :
    List (Pattern × Node) → String → Json → String → ValidationState → Option ValidationState
  | [], _, _, _, state => some state
  | (p, node) :: rest, key, member, path, state => do
    let state ← if p.isMatch key then record w node member path state else some state
    recordPatterns w rest key member path state

end

end Node

/-! ### Writing records what evaluation finds -/

/-- What a writer does to a state is to record certain findings. -/
def Records (write : ValidationState → Option ValidationState) (found : Option Findings) : Prop :=
  ∀ state, write state = found.map state.recordAll

namespace Records

variable {write write' : ValidationState → Option ValidationState} {found more : Option Findings}

theorem nothing : Records some (some []) := fun _ => rfl

theorem here (fs : Findings) : Records (fun state => some (state.recordAll fs)) (some fs) :=
  fun _ => rfl

theorem append (h : Records write found) (h' : Records write' more) :
    Records (fun state => (write state).bind write')
      (found.bind fun fs => more.bind fun gs => some (fs ++ gs)) := by
  intro state
  show (write state).bind write' = _
  rw [h state]
  cases found with
  | none => rfl
  | some fs =>
      rw [Option.map_some, Option.bind_some, Option.bind_some, h']
      cases more with
      | none => rfl
      | some gs => rw [Option.bind_some, Option.map_some, Option.map_some,
          ValidationState.recordAll_append]

theorem ite {c : Prop} [Decidable c] (h : Records write found) (h' : Records write' more) :
    Records (fun state => if c then write state else write' state)
      (if c then found else more) := by
  intro state
  by_cases hc : c
  · simpa only [if_pos hc] using h state
  · simpa only [if_neg hc] using h' state

theorem congr (h : Records write found) (hwrite : ∀ state, write' state = write state)
    (hfound : more = found) : Records write' more := fun state => by
  rw [hwrite state, h state, hfound]

theorem gather {ι : Type} (l : List ι) (g : ι → Option Findings)
    (f : ι → ValidationState → Option ValidationState) (h : ∀ i ∈ l, Records (f i) (g i)) :
    Records (fun state => l.foldlM (fun state i => f i state) state)
      (Findings.gather (l.map g)) := by
  induction l with
  | nil => exact nothing
  | cons i rest ih =>
      have hrest := ih (fun j hj => h j (List.mem_cons_of_mem i hj))
      refine ((h i List.mem_cons_self).append hrest).congr (fun state => ?_) ?_
      · rw [List.foldlM_cons]
        rfl
      · rw [List.map_cons]
        cases g i with
        | none => rfl
        | some fs =>
            rw [Findings.gather, Option.bind_some]
            cases Findings.gather (rest.map g) <;> rfl

end Records

/-- Calls write what the calls of an environment find. -/
structure Recorder.Follows (w : Recorder) (env : Environment) : Prop where
  call : ∀ target v path, Records (w.call target v path) (env.call target v path)
  unicodeLength : w.unicodeLength = env.unicodeLength

namespace Node

variable {w : Recorder} {env : Environment}

/-- The branches of a choice start with an empty state, and what they come to is put together with
the state that the choice is made in. -/
theorem records_apart {nodes : List Node} {v : Json} {path : String}
    (happart : ∀ state, recordApart w nodes v path state.fresh
      = (evaluateEach env nodes v path).map (Head.apart state))
    {accept : List ValidationState → ValidationState → ValidationState}
    {choose : List Findings → Findings}
    (haccept : ∀ state results, accept (Head.apart state results) state
      = state.recordAll (choose results)) :
    Records (fun state => (recordApart w nodes v path state.fresh).bind fun branches =>
        some (accept branches state))
      ((evaluateEach env nodes v path).map choose) := by
  intro state
  show (recordApart w nodes v path state.fresh).bind _ = _
  rw [happart state]
  cases evaluateEach env nodes v path with
  | none => rfl
  | some results =>
      rw [Option.map_some, Option.bind_some, Option.map_some, Option.map_some, haccept]

theorem record_schema (head : Head) (branches : List (List Kind × List Check))
    (allOf anyOf oneOf : List Node) (negated : Option Node) (v : Json) (path : String)
    (state : ValidationState) :
    record w (.schema head branches allOf anyOf oneOf negated) v path state
      = ((((((some (state.recordAll (head.opening v path))).bind fun state =>
          if head.allowed.contains v.kind then recordBranches w head.uri branches v path state
          else some state).bind (recordEach w allOf v path)).bind fun state =>
          (recordApart w anyOf v path state.fresh).bind fun branches =>
            some (head.acceptAny path branches state)).bind fun state =>
          (recordApart w oneOf v path state.fresh).bind fun branches =>
            some (head.acceptOne path branches state)).bind
          (recordNegated w head negated v path)).bind fun state =>
          some (state.recordAll (head.closing v path)) := by
  rw [record]
  simp only [Option.bind_eq_bind, Option.bind_assoc, Option.bind_some]
  split
  · rfl
  · rfl

mutual

theorem record_records (h : w.Follows env) (node : Node) (v : Json) (path : String) :
    Records (record w node v path) (evaluate env node v path) := by
  cases node with
  | accept => exact .nothing
  | reject uri => exact .here [.violation path uri .notPassed]
  | reference target => exact h.call target v path
  | schema head branches allOf anyOf oneOf negated =>
      have htyped : Records
          (fun state =>
            if head.allowed.contains v.kind then recordBranches w head.uri branches v path state
            else some state)
          (if head.allowed.contains v.kind then evaluateBranches env head.uri branches v path
            else some []) :=
        .ite (recordBranches_records h head.uri branches v path) .nothing
      have hany := records_apart (recordApart_eq h anyOf v path)
        (fun state results => head.acceptAny_apart path state results)
      have hone := records_apart (recordApart_eq h oneOf v path)
        (fun state results => head.acceptOne_apart path state results)
      refine ((((((Records.here (head.opening v path)).append htyped).append
        (recordEach_records h allOf v path)).append hany).append hone).append
        (recordNegated_records h head negated v path)).append (.here (head.closing v path))
        |>.congr (record_schema head branches allOf anyOf oneOf negated v path) ?_
      rw [evaluate_schema]
      cases (if head.allowed.contains v.kind then evaluateBranches env head.uri branches v path
        else some []) <;> cases evaluateEach env allOf v path <;>
        cases evaluateEach env anyOf v path <;> cases evaluateEach env oneOf v path <;>
        cases evaluateNegated env negated v path <;> rfl

theorem recordEach_records (h : w.Follows env) (nodes : List Node) (v : Json) (path : String) :
    Records (recordEach w nodes v path) ((evaluateEach env nodes v path).map List.flatten) := by
  cases nodes with
  | nil => exact .nothing
  | cons node rest =>
      refine ((record_records h node v path).append (recordEach_records h rest v path)).congr
        (fun state => by rw [recordEach]; rfl) ?_
      rw [evaluateEach]
      cases evaluate env node v path <;> cases evaluateEach env rest v path <;> rfl

theorem recordApart_eq (h : w.Follows env) (nodes : List Node) (v : Json) (path : String)
    (state : ValidationState) :
    recordApart w nodes v path state.fresh
      = (evaluateEach env nodes v path).map (Head.apart state) := by
  cases nodes with
  | nil => rfl
  | cons node rest =>
      rw [recordApart, evaluateEach, record_records h node v path, recordApart_eq h rest v path]
      cases evaluate env node v path <;> cases evaluateEach env rest v path <;> rfl

theorem recordNegated_records (h : w.Follows env) (head : Head) (negated : Option Node) (v : Json)
    (path : String) :
    Records (recordNegated w head negated v path)
      ((evaluateNegated env negated v path).map (head.negated path)) := by
  cases negated with
  | none => exact .nothing
  | some node =>
      intro state
      rw [recordNegated, evaluateNegated, record_records h node v path]
      cases evaluate env node v path with
      | none => rfl
      | some fs => exact congrArg some (head.refuse_apart path state fs)

theorem recordBranches_records (h : w.Follows env) (uri : String)
    (branches : List (List Kind × List Check)) (v : Json) (path : String) :
    Records (recordBranches w uri branches v path) (evaluateBranches env uri branches v path) := by
  match branches with
  | [] => exact .nothing
  | [(_, checks)] => exact recordChecks_records h uri checks v path
  | (kinds, checks) :: next :: rest =>
      refine (Records.ite (c := kinds.contains v.kind = true)
        (recordChecks_records h uri checks v path)
        (recordBranches_records h uri (next :: rest) v path)).congr (fun state => ?_) ?_
      · rw [recordBranches]
        simp
      · rw [evaluateBranches]
        simp

theorem recordChecks_records (h : w.Follows env) (uri : String) (checks : List Check) (v : Json)
    (path : String) :
    Records (recordChecks w uri checks v path) (evaluateChecks env uri checks v path) := by
  cases checks with
  | nil => exact .nothing
  | cons check rest =>
      exact (recordCheck_records h uri check v path).append (recordChecks_records h uri rest v path)

theorem recordCheck_records (h : w.Follows env) (uri : String) (check : Check) (v : Json)
    (path : String) :
    Records (recordCheck w uri check v path) (evaluateCheck env uri check v path) := by
  match check, v with
  | .assertion a, v =>
      rw [evaluateCheck, ← h.unicodeLength]
      exact .here _
  | .items node, v =>
      exact .gather _ (fun i : Json × Nat => evaluate env node i.1 (itemPath path i.2)) _
        (fun i _ => record_records h node i.1 (itemPath path i.2))
  | .tuple nodes rest, v =>
      have hextra := Records.gather ((itemsOf v).zipIdx.drop nodes.length)
        (fun i : Json × Nat => evaluateExtra env rest i.1 (itemPath path i.2)) _
        (fun i _ => recordExtra_records h rest i.1 (itemPath path i.2))
      refine ((recordTuple_records h nodes (itemsOf v) 0 path).append hextra).append
        (.here (surplus uri path nodes.length rest (itemsOf v).length)) |>.congr
        (fun state => ?_) ?_
      · rw [recordCheck]
        simp only [Option.bind_eq_bind, Option.bind_assoc]
        rfl
      · rw [evaluateCheck]
        simp [Option.bind_assoc]
  | .members properties required dependencies patterns rest, .object members =>
      refine (Records.gather (ruledKeys properties required dependencies) _ _
        (fun key _ => ?_)).append (Records.gather members _ _ (fun entry _ => ?_))
      · cases Table.get? members key with
        | none =>
            intro state
            show some _ = some _
            split
            · rfl
            · rfl
        | some member =>
            exact (recordProperty_records h properties key member path).append
              (recordDependency_records h uri dependencies key members path)
      · refine ((recordPatterns_records h patterns entry.1 entry.2
          (Pointer.child path entry.1)).append (.ite
            (c := ((properties.map Prod.fst).contains entry.1
              || patterns.any (fun p => p.1.isMatch entry.1)) = true) .nothing
            (recordRest_records h uri rest entry.1 entry.2
              (Pointer.child path entry.1)))).congr (fun state => rfl) ?_
        refine Option.bind_congr (fun found _ => ?_)
        split
        · rfl
        · rfl
  | .members _ _ _ _ _, .null => exact .nothing
  | .members _ _ _ _ _, .bool _ => exact .nothing
  | .members _ _ _ _ _, .number _ => exact .nothing
  | .members _ _ _ _ _, .string _ => exact .nothing
  | .members _ _ _ _ _, .array _ => exact .nothing

theorem recordTuple_records (h : w.Follows env) (nodes : List Node) (items : List Json) (i : Nat)
    (path : String) :
    Records (recordTuple w nodes items i path) (evaluateTuple env nodes items i path) := by
  match nodes, items with
  | [], _ => exact .nothing
  | _ :: _, [] => exact .nothing
  | node :: nodes, item :: items =>
      exact (record_records h node item (itemPath path i)).append
        (recordTuple_records h nodes items (i + 1) path)

theorem recordExtra_records (h : w.Follows env) (rest : Additional) (v : Json) (path : String) :
    Records (recordExtra w rest v path) (evaluateExtra env rest v path) := by
  cases rest with
  | allowed => exact .nothing
  | forbidden => exact .nothing
  | schema node => exact record_records h node v path

theorem recordRest_records (h : w.Follows env) (uri : String) (rest : Additional) (key : String)
    (member : Json) (path : String) :
    Records (recordRest w uri rest key member path)
      (evaluateRest env uri rest key member path) := by
  cases rest with
  | allowed => exact .nothing
  | forbidden => exact .here [.violation path uri (.additionalProperty key)]
  | schema node => exact record_records h node member path

theorem recordProperty_records (h : w.Follows env) (properties : List (String × Node))
    (key : String) (member : Json) (path : String) :
    Records (recordProperty w properties key member path)
      (evaluateProperty env properties key member path) := by
  match properties with
  | [] => exact .nothing
  | (name, node) :: rest =>
      by_cases hname : name = key
      · simpa only [recordProperty, evaluateProperty, hname, if_true] using
          record_records h node member (Pointer.child path key)
      · simpa only [recordProperty, evaluateProperty, hname, if_false] using
          recordProperty_records h rest key member path

theorem recordDependency_records (h : w.Follows env) (uri : String)
    (dependencies : List (String × Dependency)) (key : String) (members : Table Json)
    (path : String) :
    Records (recordDependency w uri dependencies key members path)
      (evaluateDependency env uri dependencies key members path) := by
  match dependencies with
  | [] => exact .nothing
  | (name, dependency) :: rest =>
      by_cases hname : name = key
      · simpa only [recordDependency, evaluateDependency, hname, if_true] using
          recordDependent_records h uri dependency key members path
      · simpa only [recordDependency, evaluateDependency, hname, if_false] using
          recordDependency_records h uri rest key members path

theorem recordDependent_records (h : w.Follows env) (uri : String) (dependency : Dependency)
    (key : String) (members : Table Json) (path : String) :
    Records (recordDependent w uri dependency key members path)
      (evaluateDependent env uri dependency key members path) := by
  cases dependency with
  | keys names => exact .here (missingKeys uri path key members names)
  | schema node => exact record_records h node (.object members) path

theorem recordPatterns_records (h : w.Follows env) (patterns : List (Pattern × Node))
    (key : String) (member : Json) (path : String) :
    Records (recordPatterns w patterns key member path)
      (evaluatePatterns env patterns key member path) := by
  match patterns with
  | [] => exact .nothing
  | (p, node) :: rest =>
      refine ((Records.ite (c := p.isMatch key = true) (record_records h node member path)
        .nothing).append (recordPatterns_records h rest key member path)).congr
        (fun state => ?_) ?_
      · rw [recordPatterns]
        split
        · rfl
        · rfl
      · rw [evaluatePatterns]
        split
        · rfl
        · rfl

end

end Node

end HyperSchema
