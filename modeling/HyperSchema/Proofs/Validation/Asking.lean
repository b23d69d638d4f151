import HyperSchema.Proofs.Validation.Nesting

/-!
# What an evaluation asks for

Evaluating a node makes calls. Which calls these are depends on the node and the value only: not on
what the calls find, and not on what has been found before. Evaluation follows a plan, therefore: it
has a result exactly when all its calls have one, and two environments that answer these calls alike
give the same result. Every call is on a part of the value.
-/

namespace HyperSchema

/-! ### What a schema finds by itself -/

namespace Head

variable {h : Head} {v : Json} {path : String} {x : Finding}

theorem own_of_mem_opening (hx : x ∈ h.opening v path) : x.Own h.uri v path := by
  simp only [opening, List.mem_cons, List.mem_append] at hx
  rcases hx with rfl | hx | hx
  · exact .schema
  · split at hx
    · simp at hx
    · obtain rfl := List.mem_singleton.1 hx
      exact .violation .whole rfl
  · split at hx
    · split at hx
      · simp at hx
      · obtain rfl := List.mem_singleton.1 hx
        exact .violation .whole rfl
    · simp at hx

theorem eq_of_mem_negated {result : Option Findings} (hx : x ∈ h.negated path result) :
    x = .violation path h.uri .notPassed := by
  cases result with
  | none => simp [negated] at hx
  | some found =>
      simp only [negated] at hx
      split at hx
      · exact List.mem_singleton.1 hx
      · simp at hx

theorem own_of_mem_closing (hx : x ∈ h.closing v path) : x.Own h.uri v path := by
  simp only [closing, List.mem_append] at hx
  rcases hx with hx | hx
  · split at hx
    · split at hx
      · obtain rfl := List.mem_singleton.1 hx
        exact .violation .whole rfl
      · simp at hx
    · simp at hx
  · obtain ⟨l, -, rfl⟩ := List.mem_map.1 hx
    exact .link _

end Head

namespace Node

theorem exists_of_mem_missingKeys {uri path key : String} {members : Table Json}
    {names : List String} {x : Finding} (hx : x ∈ missingKeys uri path key members names) :
    ∃ name, x = .violation path uri (.dependencyMissing key name) := by
  obtain ⟨name, -, rfl⟩ := List.mem_map.1 hx
  exact ⟨name, rfl⟩

theorem eq_of_mem_surplus {uri path : String} {most length : Nat} {rest : Additional}
    {x : Finding} (hx : x ∈ surplus uri path most rest length) :
    x = .violation path uri (.additionalItems length most) := by
  cases rest with
  | allowed => simp [surplus] at hx
  | forbidden =>
      simp only [surplus] at hx
      split at hx
      · exact List.mem_singleton.1 hx
      · simp at hx
  | schema node => simp [surplus] at hx

theorem partAt_of_mem_zipIdx {v item : Json} {path : String} {i : Nat}
    (h : (item, i) ∈ (itemsOf v).zipIdx) : v.PartAt path item (itemPath path i) := by
  cases v with
  | array items => exact .item .whole (List.mk_mem_zipIdx_iff_getElem?.1 h)
  | _ => simp [itemsOf] at h

theorem evaluate_schema (env : Environment) (head : Head) (branches : List (List Kind × List Check))
    (allOf anyOf oneOf : List Node) (negated : Option Node) (v : Json) (path : String) :
    evaluate env (.schema head branches allOf anyOf oneOf negated) v path
      = (if head.allowed.contains v.kind then evaluateBranches env head.uri branches v path
          else some []).bind fun typed =>
        (evaluateEach env allOf v path).bind fun allResults =>
        (evaluateEach env anyOf v path).bind fun anyResults =>
        (evaluateEach env oneOf v path).bind fun oneResults =>
        (evaluateNegated env negated v path).bind fun negatedResult =>
        some (head.opening v path ++ typed ++ allResults.flatten ++ head.anyOf path anyResults
          ++ head.oneOf path oneResults ++ head.negated path negatedResult
          ++ head.closing v path) := by
  rw [evaluate]
  by_cases hkind : head.allowed.contains v.kind = true
  · rw [if_pos hkind, if_pos hkind]
    rfl
  · rw [if_neg hkind, if_neg hkind]
    rfl

/-! ### Evaluation follows a plan

One statement for each function that evaluation consists of. -/

mutual

theorem evaluate_planned (node : Node) (v : Json) (path : String) :
    Planned v path (fun env => evaluate env node v path) := by
  cases node with
  | accept => exact .silent []
  | reject uri => exact .silent _
  | reference target => exact .call target
  | schema head branches allOf anyOf oneOf negated =>
      have htyped : Planned v path (fun env =>
          if head.allowed.contains v.kind then evaluateBranches env head.uri branches v path
          else some []) := by
        by_cases hkind : head.allowed.contains v.kind = true
        · simpa only [hkind, if_true] using evaluateBranches_planned head.uri branches v path
        · simpa only [hkind] using .silent []
      refine ((((htyped.seq (evaluateEach_planned allOf v path)).seq
        (evaluateEach_planned anyOf v path)).seq (evaluateEach_planned oneOf v path)).seq
        (evaluateNegated_planned negated v path)).map (fun r =>
          head.opening v path ++ r.1.1.1.1 ++ r.1.1.1.2.flatten ++ head.anyOf path r.1.1.2
            ++ head.oneOf path r.1.2 ++ head.negated path r.2 ++ head.closing v path) |>.congr ?_
      intro env
      rw [evaluate_schema]
      cases (if head.allowed.contains v.kind then evaluateBranches env head.uri branches v path
        else some []) <;> cases evaluateEach env allOf v path <;>
        cases evaluateEach env anyOf v path <;> cases evaluateEach env oneOf v path <;>
        cases evaluateNegated env negated v path <;> rfl

/-- What each of several nodes finds. -/
theorem evaluateEach_planned (nodes : List Node) (v : Json) (path : String) :
    Planned v path (fun env => evaluateEach env nodes v path) := by
  cases nodes with
  | nil => exact .silent []
  | cons node rest =>
      refine ((evaluate_planned node v path).seq (evaluateEach_planned rest v path)).map
        (fun r => r.1 :: r.2) |>.congr ?_
      intro env
      rw [evaluateEach]
      cases evaluate env node v path <;> cases evaluateEach env rest v path <;> rfl

theorem evaluateNegated_planned (negated : Option Node) (v : Json) (path : String) :
    Planned v path (fun env => evaluateNegated env negated v path) := by
  cases negated with
  | none => exact .silent none
  | some node => exact (evaluate_planned node v path).map some

theorem evaluateBranches_planned (uri : String) (branches : List (List Kind × List Check))
    (v : Json) (path : String) :
    Planned v path (fun env => evaluateBranches env uri branches v path) := by
  match branches with
  | [] => exact .silent []
  | [(_, checks)] => exact evaluateChecks_planned uri checks v path
  | (kinds, checks) :: next :: rest =>
      by_cases hkind : kinds.contains v.kind = true
      · refine (evaluateChecks_planned uri checks v path).congr (fun env => ?_)
        rw [evaluateBranches, if_pos hkind]
        simp
      · refine (evaluateBranches_planned uri (next :: rest) v path).congr (fun env => ?_)
        rw [evaluateBranches, if_neg hkind]
        simp

theorem evaluateChecks_planned (uri : String) (checks : List Check) (v : Json) (path : String) :
    Planned v path (fun env => evaluateChecks env uri checks v path) := by
  cases checks with
  | nil => exact .silent []
  | cons check rest =>
      exact (evaluateCheck_planned uri check v path).append (evaluateChecks_planned uri rest v path)

theorem evaluateCheck_planned (uri : String) (check : Check) (v : Json) (path : String) :
    Planned v path (fun env => evaluateCheck env uri check v path) := by
  match check, v with
  | .assertion a, v =>
      exact .own (fun unicode =>
        ((a.violation? unicode v).map (Finding.violation path uri)).toList)
  | .items node, v =>
      refine .gather _ (fun (i : Json × Nat) env => evaluate env node i.1 (itemPath path i.2))
        (fun i hi => ?_)
      exact (evaluate_planned node i.1 (itemPath path i.2)).below (partAt_of_mem_zipIdx hi)
  | .tuple nodes rest, v =>
      have hitems : ∀ i item, (itemsOf v)[i]? = some item →
          v.PartAt path item (itemPath path (0 + i)) := by
        intro i item hitem
        rw [Nat.zero_add]
        exact partAt_of_mem_zipIdx (List.mk_mem_zipIdx_iff_getElem?.2 hitem)
      have hextra := @Planned.gather v path _ ((itemsOf v).zipIdx.drop nodes.length)
        (fun i env => evaluateExtra env rest i.1 (itemPath path i.2))
        (fun i hi => (evaluateExtra_planned rest i.1 (itemPath path i.2)).below
          (partAt_of_mem_zipIdx (List.mem_of_mem_drop hi)))
      refine ((evaluateTuple_planned nodes (itemsOf v) 0 v path hitems).append hextra).append
        (.silent (surplus uri path nodes.length rest (itemsOf v).length)) |>.congr (fun env => ?_)
      rw [evaluateCheck]
      simp [Option.bind_assoc]
  | .members properties required dependencies patterns rest, .object members =>
      have hruled := @Planned.gather (.object members) path _
        (ruledKeys properties required dependencies)
        (fun key env => match Table.get? members key with
          | none => some (if key ∈ required then
              [Finding.violation path uri (.requiredMissing key)] else [])
          | some member => do
            let found ← evaluateProperty env properties key member path
            let more ← evaluateDependency env uri dependencies key members path
            return found ++ more)
        (fun key _ => by
          cases hmember : Table.get? members key with
          | none => exact .silent _
          | some member =>
              exact ((evaluateProperty_planned properties key member path).below
                (.member .whole (Table.mem_of_get? hmember))).append
                (evaluateDependency_planned uri dependencies key members path))
      have hothers := @Planned.gather (.object members) path _ members
        (fun entry env => do
          let found ← evaluatePatterns env patterns entry.1 entry.2 (Pointer.child path entry.1)
          let more ←
            if (properties.map Prod.fst).contains entry.1
                || patterns.any (fun p => p.1.isMatch entry.1) then some []
            else evaluateRest env uri rest entry.1 entry.2 (Pointer.child path entry.1)
          return found ++ more)
        (fun entry hentry => by
          have hpart : (Json.object members).PartAt path entry.2 (Pointer.child path entry.1) :=
            .member .whole hentry
          refine Planned.below ?_ hpart
          have hpatterns := evaluatePatterns_planned patterns entry.1 entry.2
            (Pointer.child path entry.1)
          by_cases hspoken : ((properties.map Prod.fst).contains entry.1
              || patterns.any (fun p => p.1.isMatch entry.1)) = true
          · simpa only [hspoken, if_true] using hpatterns.append (.silent [])
          · simpa only [hspoken, Bool.false_eq_true, if_false] using hpatterns.append
              (evaluateRest_planned uri rest entry.1 entry.2 (Pointer.child path entry.1)))
      exact hruled.append hothers
  | .members _ _ _ _ _, .null => exact .silent []
  | .members _ _ _ _ _, .bool _ => exact .silent []
  | .members _ _ _ _ _, .number _ => exact .silent []
  | .members _ _ _ _ _, .string _ => exact .silent []
  | .members _ _ _ _ _, .array _ => exact .silent []

/-- The items are those of a value from a position on. -/
theorem evaluateTuple_planned (nodes : List Node) (items : List Json) (i : Nat) (v : Json)
    (path : String)
    (hitems : ∀ j item, items[j]? = some item → v.PartAt path item (itemPath path (i + j))) :
    Planned v path (fun env => evaluateTuple env nodes items i path) := by
  match nodes, items with
  | [], _ => exact .silent []
  | _ :: _, [] => exact .silent []
  | node :: nodes, item :: items =>
      refine ((evaluate_planned node item (itemPath path i)).below (hitems 0 item rfl)).append
        (evaluateTuple_planned nodes items (i + 1) v path (fun j next hnext => ?_))
      have hpart := hitems (j + 1) next hnext
      rwa [show i + (j + 1) = i + 1 + j by omega] at hpart

theorem evaluateExtra_planned (rest : Additional) (v : Json) (path : String) :
    Planned v path (fun env => evaluateExtra env rest v path) := by
  cases rest with
  | allowed => exact .silent []
  | forbidden => exact .silent []
  | schema node => exact evaluate_planned node v path

theorem evaluateRest_planned (uri : String) (rest : Additional) (key : String) (member : Json)
    (path : String) :
    Planned member path (fun env => evaluateRest env uri rest key member path) := by
  cases rest with
  | allowed => exact .silent []
  | forbidden => exact .silent _
  | schema node => exact evaluate_planned node member path

theorem evaluateProperty_planned (properties : List (String × Node)) (key : String)
    (member : Json) (path : String) :
    Planned member (Pointer.child path key)
      (fun env => evaluateProperty env properties key member path) := by
  match properties with
  | [] => exact .silent []
  | (name, node) :: rest =>
      by_cases hname : name = key
      · simpa only [evaluateProperty, hname, if_true] using
          evaluate_planned node member (Pointer.child path key)
      · simpa only [evaluateProperty, hname, if_false] using
          evaluateProperty_planned rest key member path

theorem evaluateDependency_planned (uri : String) (dependencies : List (String × Dependency))
    (key : String) (members : Table Json) (path : String) :
    Planned (.object members) path
      (fun env => evaluateDependency env uri dependencies key members path) := by
  match dependencies with
  | [] => exact .silent []
  | (name, dependency) :: rest =>
      by_cases hname : name = key
      · simpa only [evaluateDependency, hname, if_true] using
          evaluateDependent_planned uri dependency key members path
      · simpa only [evaluateDependency, hname, if_false] using
          evaluateDependency_planned uri rest key members path

theorem evaluateDependent_planned (uri : String) (dependency : Dependency) (key : String)
    (members : Table Json) (path : String) :
    Planned (.object members) path
      (fun env => evaluateDependent env uri dependency key members path) := by
  cases dependency with
  | keys names => exact .silent _
  | schema node => exact evaluate_planned node (.object members) path

theorem evaluatePatterns_planned (patterns : List (Pattern × Node)) (key : String) (member : Json)
    (path : String) :
    Planned member path (fun env => evaluatePatterns env patterns key member path) := by
  match patterns with
  | [] => exact .silent []
  | (p, node) :: rest =>
      have hrest := evaluatePatterns_planned rest key member path
      by_cases hmatch : p.isMatch key = true
      · simpa only [evaluatePatterns, hmatch, if_true] using
          (evaluate_planned node member path).append hrest
      · simpa only [evaluatePatterns, hmatch, Bool.false_eq_true, if_false] using
          Planned.append (.silent []) hrest

end

/-! ### Calls asked for -/

theorem exists_plan (node : Node) (v : Json) (path : String) :
    ∃ plan : Plan Findings, plan.StaysOn v path
      ∧ ∀ env, node.evaluate env v path = plan.run env :=
  evaluate_planned node v path

/-- A node asks for a call when its evaluation has no result without an answer to it. -/
def Asks (node : Node) (v : Json) (path : String) (q : Query) : Prop :=
  ∀ env : Environment, env.answer? q = none → node.evaluate env v path = none

theorem asks_of_mem_queries {node : Node} {v : Json} {path : String} {plan : Plan Findings}
    (hrun : ∀ env, node.evaluate env v path = plan.run env) {q : Query} (hq : q ∈ plan.queries) :
    node.Asks v path q := by
  intro env hnone
  rw [hrun env, Plan.run, Environment.answers?_eq_none_iff.2 ⟨q, hq, hnone⟩]
  rfl

theorem evaluate_eq_none_iff {env : Environment} {node : Node} {v : Json} {path : String} :
    node.evaluate env v path = none ↔ ∃ q, node.Asks v path q ∧ env.answer? q = none := by
  obtain ⟨plan, -, hrun⟩ := node.exists_plan v path
  constructor
  · intro hnone
    rw [hrun env, Plan.run, Option.map_eq_none_iff, Environment.answers?_eq_none_iff] at hnone
    obtain ⟨q, hq, hanswer⟩ := hnone
    exact ⟨q, asks_of_mem_queries hrun hq, hanswer⟩
  · intro h
    obtain ⟨q, hasks, hanswer⟩ := h
    exact hasks env hanswer

theorem evaluate_congr {env env' : Environment} {node : Node} {v : Json} {path : String}
    (hunicode : env.unicodeLength = env'.unicodeLength)
    (h : ∀ q, node.Asks v path q → env.answer? q = env'.answer? q) :
    node.evaluate env v path = node.evaluate env' v path := by
  obtain ⟨plan, -, hrun⟩ := node.exists_plan v path
  rw [hrun env, hrun env', Plan.run, Plan.run, hunicode,
    Environment.answers?_congr (fun q hq => h q (asks_of_mem_queries hrun hq))]

/-- More answers do not change what has been found. -/
theorem evaluate_mono {env env' : Environment} {node : Node} {v : Json} {path : String}
    (hunicode : env.unicodeLength = env'.unicodeLength)
    (h : ∀ q answer, env.answer? q = some answer → env'.answer? q = some answer)
    {found : Findings} (hfound : node.evaluate env v path = some found) :
    node.evaluate env' v path = some found := by
  rw [← hfound]
  refine (evaluate_congr hunicode (fun q hasks => ?_)).symm
  cases hanswer : env.answer? q with
  | none =>
      rw [hasks env hanswer] at hfound
      cases hfound
  | some answer => exact (h q answer hanswer).symm

/-- Calls are made on parts of the value. -/
theorem Asks.partAt {node : Node} {v : Json} {path : String} {q : Query}
    (hasks : node.Asks v path q) : v.PartAt path q.value q.path := by
  classical
  obtain ⟨plan, hstays, hrun⟩ := node.exists_plan v path
  -- in this environment every call has an answer but the one asked for
  let env : Environment :=
    ⟨fun target w place => if Query.mk target w place = q then none else some [], false⟩
  have hnone : node.evaluate env v path = none := hasks env (if_pos rfl)
  rw [hrun env, Plan.run, Option.map_eq_none_iff, Environment.answers?_eq_none_iff] at hnone
  obtain ⟨q', hq', hanswer⟩ := hnone
  by_cases heq : q' = q
  · rw [← heq]
    exact hstays q' hq'
  · have hsome : env.answer? q' = some [] := if_neg heq
    rw [hsome] at hanswer
    cases hanswer

end Node

end HyperSchema
