import HyperSchema.Proofs.Validation.Asking
import HyperSchema.Proofs.Validation.Occurrences
import HyperSchema.Proofs.Validation.Verdict

/-!
# The jobs of a node

What a node does with a value is a list of jobs, which depends on the node and the value only. A
job has findings of its own, calls another schema, or has nodes directly below this one evaluated on
parts of the value. Evaluating the node is performing its jobs in turn.
-/

namespace HyperSchema

namespace Findings

def both (f g : Option Findings) : Option Findings := do
  let found ← f
  let more ← g
  return found ++ more

@[simp] theorem both_some (found more : Findings) :
    both (some found) (some more) = some (found ++ more) := rfl

@[simp] theorem both_none_left (g : Option Findings) : both none g = none := rfl

@[simp] theorem both_none_right (f : Option Findings) : both f none = none := by
  cases f with
  | none => rfl
  | some found => rfl

@[simp] theorem both_nil_left (g : Option Findings) : both (some []) g = g := by
  cases g with
  | none => rfl
  | some more => rfl

@[simp] theorem both_nil_right (f : Option Findings) : both f (some []) = f := by
  cases f with
  | none => rfl
  | some found => rw [both_some, List.append_nil]

theorem both_assoc (f g h : Option Findings) : both (both f g) h = both f (both g h) := by
  cases f <;> cases g <;> cases h <;> simp

theorem gather_cons (first : Option Findings) (rest : List (Option Findings)) :
    gather (first :: rest) = both first (gather rest) := by
  cases first with
  | none => rfl
  | some found =>
      rw [gather]
      cases gather rest with
      | none => rfl
      | some more => rfl

theorem gather_append (front back : List (Option Findings)) :
    gather (front ++ back) = both (gather front) (gather back) := by
  induction front with
  | nil => exact (both_nil_left _).symm
  | cons first rest ih => rw [List.cons_append, gather_cons, gather_cons, ih, both_assoc]

theorem gather_flatMap {ι : Type} (l : List ι) (f : ι → List (Option Findings)) :
    gather (l.flatMap f) = gather (l.map (fun i => gather (f i))) := by
  induction l with
  | nil => rfl
  | cons i rest ih => rw [List.flatMap_cons, gather_append, List.map_cons, gather_cons, ih]

theorem gather_some_iff {results : List (Option Findings)} {found : Findings} :
    gather results = some found
      ↔ ∃ each : List Findings, results = each.map some ∧ found = each.flatten := by
  induction results generalizing found with
  | nil =>
      rw [gather, Option.some_inj, eq_comm]
      constructor
      · exact fun h => ⟨[], rfl, h⟩
      · intro h
        obtain ⟨each, hnil, rfl⟩ := h
        rw [List.map_eq_nil_iff.1 hnil.symm, List.flatten_nil]
  | cons first rest ih =>
      rw [gather_cons]
      constructor
      · intro h
        obtain ⟨here, rfl, hrest⟩ := Option.bind_eq_some_iff.1 h
        obtain ⟨more, hmore, hfound⟩ := Option.bind_eq_some_iff.1 hrest
        obtain rfl := Option.some.inj hfound
        obtain ⟨each, rfl, rfl⟩ := ih.1 hmore
        exact ⟨here :: each, rfl, rfl⟩
      · intro h
        obtain ⟨each, hresults, rfl⟩ := h
        cases each with
        | nil => cases hresults
        | cons here each =>
            obtain ⟨rfl, rfl⟩ := List.cons.inj hresults
            rw [ih.2 ⟨each, rfl, rfl⟩]
            rfl

end Findings

inductive Job where
  | find (found : Findings)
  | judge (a : Assertion) (uri : String) (v : Json) (path : String)
  | call (target : String) (v : Json) (path : String)
  | apply (node : Node) (v : Json) (path : String)
  | anyOf (head : Head) (nodes : List Node) (v : Json) (path : String)
  | oneOf (head : Head) (nodes : List Node) (v : Json) (path : String)
  | negated (head : Head) (node : Option Node) (v : Json) (path : String)

namespace Job

def perform (env : Environment) : Job → Option Findings
  | .find found => some found
  | .judge a uri v path =>
    some ((a.violation? env.unicodeLength v).map (Finding.violation path uri)).toList
  | .call target v path => env.call target v path
  | .apply node v path => node.evaluate env v path
  | .anyOf head nodes v path => (Node.evaluateEach env nodes v path).map (head.anyOf path)
  | .oneOf head nodes v path => (Node.evaluateEach env nodes v path).map (head.oneOf path)
  | .negated head node v path => (Node.evaluateNegated env node v path).map (head.negated path)

def performAll (env : Environment) (jobs : List Job) : Option Findings :=
  Findings.gather (jobs.map (perform env))

/-- A node that a job has evaluated, with the value and the path it is evaluated at. -/
inductive Applies : Job → Node → Json → String → Prop where
  | apply {node : Node} {v : Json} {path : String} : Applies (.apply node v path) node v path
  | anyOf {head : Head} {nodes : List Node} {node : Node} {v : Json} {path : String}
      (h : node ∈ nodes) : Applies (.anyOf head nodes v path) node v path
  | oneOf {head : Head} {nodes : List Node} {node : Node} {v : Json} {path : String}
      (h : node ∈ nodes) : Applies (.oneOf head nodes v path) node v path
  | negated {head : Head} {node : Node} {v : Json} {path : String} :
      Applies (.negated head (some node) v path) node v path

def ofExtra : Additional → Json → String → List Job
  | .schema node, item, path => [.apply node item path]
  | _, _, _ => []

def ofRest (uri : String) : Additional → String → Json → String → List Job
  | .allowed, _, _, _ => []
  | .forbidden, key, _, path => [.find [.violation path uri (.additionalProperty key)]]
  | .schema node, _, member, path => [.apply node member path]

def ofProperty (properties : List (String × Node)) (key : String) (member : Json)
    (path : String) : List Job :=
  match Table.get? properties key with
  | none => []
  | some node => [.apply node member (Pointer.child path key)]

def ofDependency (uri : String) (dependencies : List (String × Dependency)) (key : String)
    (members : Table Json) (path : String) : List Job :=
  match Table.get? dependencies key with
  | none => []
  | some (.keys names) => [.find (Node.missingKeys uri path key members names)]
  | some (.schema node) => [.apply node (.object members) path]

def ofKey (uri : String) (properties : List (String × Node)) (required : List String)
    (dependencies : List (String × Dependency)) (members : Table Json) (path key : String) :
    List Job :=
  match Table.get? members key with
  | none => [.find (if key ∈ required then [.violation path uri (.requiredMissing key)] else [])]
  | some member =>
    ofProperty properties key member path ++ ofDependency uri dependencies key members path

def ofPatterns (patterns : List (Pattern × Node)) (key : String) (member : Json)
    (path : String) : List Job :=
  (patterns.filter (fun p => p.1.isMatch key)).map (fun p => .apply p.2 member path)

def ofMember (uri : String) (properties : List (String × Node)) (patterns : List (Pattern × Node))
    (rest : Additional) (path : String) (entry : String × Json) : List Job :=
  ofPatterns patterns entry.1 entry.2 (Pointer.child path entry.1)
    ++ if (properties.map Prod.fst).contains entry.1
        || patterns.any (fun p => p.1.isMatch entry.1) then []
      else ofRest uri rest entry.1 entry.2 (Pointer.child path entry.1)

end Job

namespace Check

def jobs (uri : String) : Check → Json → String → List Job
  | .assertion a, v, path => [.judge a uri v path]
  | .items node, v, path =>
    (Node.itemsOf v).zipIdx.map (fun i => .apply node i.1 (Node.itemPath path i.2))
  | .tuple nodes rest, v, path =>
    (nodes.zip (Node.itemsOf v).zipIdx).map (fun i => .apply i.1 i.2.1 (Node.itemPath path i.2.2))
      ++ ((Node.itemsOf v).zipIdx.drop nodes.length).flatMap
        (fun i => Job.ofExtra rest i.1 (Node.itemPath path i.2))
      ++ [.find (Node.surplus uri path nodes.length rest (Node.itemsOf v).length)]
  | .members properties required dependencies patterns rest, .object entries, path =>
    (Node.ruledKeys properties required dependencies).flatMap
        (Job.ofKey uri properties required dependencies entries path)
      ++ entries.flatMap (Job.ofMember uri properties patterns rest path)
  | .members _ _ _ _ _, _, _ => []

end Check

namespace Node

def checksFor (kind : Kind) : List (List Kind × List Check) → List Check
  | [] => []
  | [(_, checks)] => checks
  | (kinds, checks) :: rest => if kinds.contains kind then checks else checksFor kind rest

def ofChecks (head : Head) (branches : List (List Kind × List Check)) (v : Json) (path : String) :
    List Job :=
  if head.allowed.contains v.kind then
    (checksFor v.kind branches).flatMap (fun check => check.jobs head.uri v path)
  else []

def jobs : Node → Json → String → List Job
  | .accept, _, _ => []
  | .reject uri, _, path => [.find [.violation path uri .notPassed]]
  | .reference target, v, path => [.call target v path]
  | .schema head branches allOf anyOf oneOf negated, v, path =>
    .find (head.opening v path)
      :: (ofChecks head branches v path ++ allOf.map (fun node => .apply node v path)
        ++ [.anyOf head anyOf v path, .oneOf head oneOf v path, .negated head negated v path,
          .find (head.closing v path)])

end Node

/-! ### Evaluation performs the jobs -/

namespace Job

variable {env : Environment}

theorem performAll_append (env : Environment) (front back : List Job) :
    performAll env (front ++ back)
      = Findings.both (performAll env front) (performAll env back) := by
  rw [performAll, List.map_append, Findings.gather_append]
  rfl

theorem performAll_cons (env : Environment) (job : Job) (rest : List Job) :
    performAll env (job :: rest)
      = Findings.both (job.perform env) (performAll env rest) := by
  rw [performAll, List.map_cons, Findings.gather_cons]
  rfl

theorem performAll_singleton (env : Environment) (job : Job) :
    performAll env [job] = job.perform env := by
  rw [performAll_cons]
  exact Findings.both_nil_right _

theorem performAll_flatMap {ι : Type} (env : Environment) (l : List ι) (f : ι → List Job) :
    performAll env (l.flatMap f) = Findings.gather (l.map (fun i => performAll env (f i))) := by
  rw [performAll, List.map_flatMap, Findings.gather_flatMap]
  rfl

theorem exists_of_performAll {jobs : List Job} {found : Findings}
    (h : performAll env jobs = some found) {job : Job} (hjob : job ∈ jobs) :
    ∃ part, job.perform env = some part ∧ part ⊆ found ∧ (found.passes → part.passes) := by
  obtain ⟨each, heach, rfl⟩ := Findings.gather_some_iff.1 h
  have hmem := List.mem_map_of_mem (f := perform env) hjob
  rw [heach] at hmem
  obtain ⟨part, hpart, hsome⟩ := List.mem_map.1 hmem
  refine ⟨part, hsome.symm, fun x hx => List.mem_flatten_of_mem hpart hx, fun hpasses => ?_⟩
  rw [Findings.passes_flatten, List.all_eq_true] at hpasses
  exact hpasses part hpart

theorem exists_of_mem_performAll {jobs : List Job} {found : Findings}
    (h : performAll env jobs = some found) {x : Finding} (hx : x ∈ found) :
    ∃ job ∈ jobs, ∃ part, job.perform env = some part ∧ x ∈ part := by
  obtain ⟨each, heach, rfl⟩ := Findings.gather_some_iff.1 h
  obtain ⟨part, hpart, hmem⟩ := List.mem_flatten.1 hx
  have hsome := List.mem_map_of_mem (f := some) hpart
  rw [← heach] at hsome
  obtain ⟨job, hjob, hperform⟩ := List.mem_map.1 hsome
  exact ⟨job, hjob, part, hperform, hmem⟩

theorem performAll_map {ι : Type} (env : Environment) (l : List ι) (f : ι → Job) :
    performAll env (l.map f) = Findings.gather (l.map (fun i => (f i).perform env)) := by
  rw [performAll, List.map_map]
  rfl

end Job

namespace Node

open Job (performAll performAll_append performAll_cons performAll_singleton performAll_flatMap
  performAll_map)

variable (env : Environment)

theorem checksFor_cons_cons (kind : Kind) (first next : List Kind × List Check)
    (rest : List (List Kind × List Check)) :
    checksFor kind (first :: next :: rest)
      = if first.1.contains kind then first.2 else checksFor kind (next :: rest) := rfl

theorem evaluateTuple_eq (nodes : List Node) (items : List Json) (i : Nat) (path : String) :
    evaluateTuple env nodes items i path
      = performAll env ((nodes.zip (items.zipIdx i)).map
          (fun j => .apply j.1 j.2.1 (itemPath path j.2.2))) := by
  induction nodes generalizing items i with
  | nil => rfl
  | cons node nodes ih =>
      cases items with
      | nil => rfl
      | cons item items =>
          rw [evaluateTuple, ih, List.zipIdx_cons, List.zip_cons_cons, List.map_cons,
            performAll_cons]
          rfl

theorem evaluateExtra_eq (rest : Additional) (item : Json) (path : String) :
    evaluateExtra env rest item path = performAll env (Job.ofExtra rest item path) := by
  cases rest with
  | schema node => exact (performAll_singleton env (.apply node item path)).symm
  | _ => rfl

theorem evaluateRest_eq (uri : String) (rest : Additional) (key : String) (member : Json)
    (path : String) :
    evaluateRest env uri rest key member path
      = performAll env (Job.ofRest uri rest key member path) := by
  cases rest with
  | schema node => exact (performAll_singleton env (.apply node member path)).symm
  | forbidden => exact (performAll_singleton env (.find _)).symm
  | _ => rfl

theorem evaluateProperty_eq (properties : List (String × Node)) (key : String) (member : Json)
    (path : String) :
    evaluateProperty env properties key member path
      = performAll env (Job.ofProperty properties key member path) := by
  induction properties with
  | nil => rfl
  | cons first rest ih =>
      obtain ⟨name, node⟩ := first
      rw [evaluateProperty, Job.ofProperty, Table.get?_cons]
      split
      · exact (performAll_singleton env (.apply node member (Pointer.child path key))).symm
      · exact ih

theorem evaluateDependency_eq (uri : String) (dependencies : List (String × Dependency))
    (key : String) (members : Table Json) (path : String) :
    evaluateDependency env uri dependencies key members path
      = performAll env (Job.ofDependency uri dependencies key members path) := by
  induction dependencies with
  | nil => rfl
  | cons first rest ih =>
      obtain ⟨name, dependency⟩ := first
      rw [evaluateDependency, Job.ofDependency, Table.get?_cons]
      split
      · cases dependency with
        | keys names =>
            exact (performAll_singleton env (.find (missingKeys uri path key members names))).symm
        | schema node => exact (performAll_singleton env (.apply node (.object members) path)).symm
      · exact ih

theorem evaluatePatterns_eq (patterns : List (Pattern × Node)) (key : String) (member : Json)
    (path : String) :
    evaluatePatterns env patterns key member path
      = performAll env (Job.ofPatterns patterns key member path) := by
  induction patterns with
  | nil => rfl
  | cons first rest ih =>
      obtain ⟨p, node⟩ := first
      rw [evaluatePatterns, Job.ofPatterns, List.filter_cons, ih]
      split
      · rw [List.map_cons, performAll_cons]
        rfl
      · cases hrest : performAll env (Job.ofPatterns rest key member path) with
        | none => exact hrest.symm
        | some found => exact hrest.symm

theorem evaluateCheck_eq (uri : String) (check : Check) (v : Json) (path : String) :
    evaluateCheck env uri check v path
      = performAll env (check.jobs uri v path) := by
  cases check with
  | assertion a => exact (performAll_singleton env (.judge a uri v path)).symm
  | items node =>
      rw [evaluateCheck, Check.jobs, performAll_map]
      rfl
  | tuple nodes rest =>
      rw [evaluateCheck, Check.jobs, performAll_append, performAll_append, performAll_singleton,
        evaluateTuple_eq, performAll_flatMap]
      simp only [evaluateExtra_eq, Job.perform]
      cases performAll env ((nodes.zip (itemsOf v).zipIdx).map
        (fun i => .apply i.1 i.2.1 (itemPath path i.2.2))) with
      | none => rfl
      | some found =>
          cases Findings.gather (((itemsOf v).zipIdx.drop nodes.length).map
            (fun i => performAll env (Job.ofExtra rest i.1 (itemPath path i.2)))) with
          | none => rfl
          | some more => rfl
  | members properties required dependencies patterns rest =>
      cases v with
      | object entries =>
          rw [Check.jobs, performAll_append, performAll_flatMap, performAll_flatMap]
          refine congrArg₂ Findings.both (congrArg Findings.gather (List.map_congr_left ?_))
            (congrArg Findings.gather (List.map_congr_left ?_))
          · intro key _
            rw [Job.ofKey]
            cases Table.get? entries key with
            | none => exact (performAll_singleton env (.find _)).symm
            | some member =>
                dsimp only
                rw [performAll_append, evaluateProperty_eq, evaluateDependency_eq]
                rfl
          · rintro ⟨key, member⟩ _
            rw [Job.ofMember, performAll_append, ← evaluatePatterns_eq]
            dsimp only
            split
            · rfl
            · rw [← evaluateRest_eq]
              rfl
      | _ => rfl

theorem evaluateChecks_eq (uri : String) (checks : List Check) (v : Json) (path : String) :
    evaluateChecks env uri checks v path
      = performAll env
        (checks.flatMap (fun check => check.jobs uri v path)) := by
  induction checks with
  | nil => rfl
  | cons check rest ih =>
      rw [evaluateChecks, evaluateCheck_eq, ih, List.flatMap_cons, performAll_append]
      rfl

theorem evaluateBranches_eq (uri : String) (branches : List (List Kind × List Check)) (v : Json)
    (path : String) :
    evaluateBranches env uri branches v path
      = evaluateChecks env uri (checksFor v.kind branches) v path := by
  induction branches with
  | nil => rfl
  | cons first rest ih =>
      cases rest with
      | nil => rfl
      | cons next rest =>
          rw [checksFor_cons_cons]
          by_cases hkind : first.1.contains v.kind = true
          · rw [if_pos hkind]
            exact if_pos hkind
          · rw [if_neg hkind, ← ih]
            exact if_neg hkind

theorem performAll_apply (nodes : List Node) (v : Json) (path : String) :
    performAll env (nodes.map (fun node => .apply node v path))
      = (evaluateEach env nodes v path).map List.flatten := by
  induction nodes with
  | nil => rfl
  | cons node rest ih =>
      rw [List.map_cons, performAll_cons, ih, evaluateEach, Job.perform]
      cases evaluate env node v path with
      | none => rfl
      | some found =>
          cases evaluateEach env rest v path with
          | none => rfl
          | some more => rfl

theorem evaluate_eq (node : Node) (v : Json) (path : String) :
    node.evaluate env v path = performAll env (node.jobs v path) := by
  cases node with
  | accept => rfl
  | reject uri => rfl
  | reference target => exact (performAll_singleton env (.call target v path)).symm
  | schema head branches allOf anyOf oneOf negated =>
      have htyped : (if head.allowed.contains v.kind then
            evaluateBranches env head.uri branches v path else some [])
          = performAll env (ofChecks head branches v path) := by
        rw [ofChecks]
        split
        · rw [evaluateBranches_eq, evaluateChecks_eq]
        · rfl
      rw [evaluate_schema, htyped, jobs, performAll_cons, performAll_append, performAll_append,
        performAll_apply, performAll_cons, performAll_cons, performAll_cons, performAll_singleton]
      simp only [Job.perform]
      cases performAll env (ofChecks head branches v path) <;>
        cases evaluateEach env allOf v path <;> cases evaluateEach env anyOf v path <;>
        cases evaluateEach env oneOf v path <;> cases evaluateNegated env negated v path <;>
        simp [List.append_assoc]

/-! ### Several nodes -/

section Each

variable {env : Environment} {nodes : List Node} {v : Json} {path : String}
  {results : List Findings} {found : Findings}

theorem map_some_of_evaluateEach (h : evaluateEach env nodes v path = some results) :
    results.map some = nodes.map (fun node => node.evaluate env v path) := by
  induction nodes generalizing results with
  | nil =>
      obtain rfl := Option.some.inj h
      rfl
  | cons node rest ih =>
      obtain ⟨first, hfirst, h⟩ := Option.bind_eq_some_iff.1 h
      obtain ⟨more, hmore, h⟩ := Option.bind_eq_some_iff.1 h
      obtain rfl := Option.some.inj h
      rw [List.map_cons, List.map_cons, ih hmore, hfirst]

theorem getElem?_of_evaluateEach (h : evaluateEach env nodes v path = some results) {i : Nat} :
    results[i]? = some found
      ↔ ∃ node, nodes[i]? = some node ∧ node.evaluate env v path = some found := by
  have hmap := congrArg (fun all => all[i]?) (map_some_of_evaluateEach h)
  simp only [List.getElem?_map] at hmap
  rw [← Option.map_eq_some_iff, ← hmap, Option.map_eq_some_iff]
  simp

theorem mem_of_evaluateEach (h : evaluateEach env nodes v path = some results) :
    found ∈ results ↔ ∃ node ∈ nodes, node.evaluate env v path = some found := by
  rw [List.mem_iff_getElem?]
  constructor
  · rintro ⟨i, hi⟩
    obtain ⟨node, hnode, heval⟩ := (getElem?_of_evaluateEach h).1 hi
    exact ⟨node, List.mem_of_getElem? hnode, heval⟩
  · rintro ⟨node, hnode, heval⟩
    obtain ⟨i, hi⟩ := List.getElem?_of_mem hnode
    exact ⟨i, (getElem?_of_evaluateEach h).2 ⟨node, hi, heval⟩⟩

theorem exists_of_evaluateEach (h : evaluateEach env nodes v path = some results) {node : Node}
    (hnode : node ∈ nodes) : ∃ found, node.evaluate env v path = some found := by
  have hmem : node.evaluate env v path ∈ results.map some :=
    map_some_of_evaluateEach h ▸ List.mem_map.2 ⟨node, hnode, rfl⟩
  obtain ⟨found, -, hfound⟩ := List.mem_map.1 hmem
  exact ⟨found, hfound.symm⟩

end Each

end Node

/-! ### Jobs stay on the value -/

namespace Assertion

variable {a : Assertion} {violation : Violation}

theorem branches_of_ofNumber {x : Binary64} (h : a.ofNumber x = some violation) :
    violation.branches = [] := by
  cases a <;> grind [ofNumber, Violation.branches]

theorem branches_of_ofString {unicode : Bool} {text : String}
    (h : a.ofString unicode text = some violation) : violation.branches = [] := by
  cases a <;> grind [ofString, Violation.branches]

theorem branches_of_ofArray {items : List Json} (h : a.ofArray items = some violation) :
    violation.branches = [] := by
  cases a <;> grind [ofArray, Violation.branches, Option.map_eq_some_iff]

theorem branches_of_ofObject {members : Table Json} (h : a.ofObject members = some violation) :
    violation.branches = [] := by
  cases a <;> grind [ofObject, Violation.branches]

theorem branches_of_violation? {unicode : Bool} {v : Json}
    (h : a.violation? unicode v = some violation) : violation.branches = [] := by
  cases v with
  | number n => exact branches_of_ofNumber h
  | string text => exact branches_of_ofString h
  | array items => exact branches_of_ofArray h
  | object members => exact branches_of_ofObject h
  | null => cases h
  | bool b => cases h

end Assertion

namespace Job

/-- What a job has evaluated is directly below, and on a part of the value. Its own findings are
those of a schema with the URI. -/
def StaysOn (below : Node → Prop) (uri? : Option String) (v : Json) (path : String) : Job → Prop
  | .find found => ∀ x ∈ found, ∃ uri, uri? = some uri ∧ x.Own uri v path
  | .judge _ uri w place => uri? = some uri ∧ v.PartAt path w place
  | .call _ w place => v.PartAt path w place
  | .apply node w place => below node ∧ v.PartAt path w place
  | .anyOf head nodes w place =>
    uri? = some head.uri ∧ (∀ node ∈ nodes, below node) ∧ v.PartAt path w place
  | .oneOf head nodes w place =>
    uri? = some head.uri ∧ (∀ node ∈ nodes, below node) ∧ v.PartAt path w place
  | .negated head node w place =>
    uri? = some head.uri ∧ (∀ sub, node = some sub → below sub) ∧ v.PartAt path w place

variable {below below' : Node → Prop} {v w : Json} {path place uri key : String} {job : Job}

theorem StaysOn.mono (h : job.StaysOn below (some uri) v path)
    (hbelow : ∀ node, below node → below' node) : job.StaysOn below' (some uri) v path := by
  cases job with
  | find found => exact h
  | judge a uri w place => exact h
  | call target w place => exact h
  | apply node w place => exact ⟨hbelow node h.1, h.2⟩
  | anyOf head nodes w place => exact ⟨h.1, fun node hnode => hbelow node (h.2.1 node hnode), h.2.2⟩
  | oneOf head nodes w place => exact ⟨h.1, fun node hnode => hbelow node (h.2.1 node hnode), h.2.2⟩
  | negated head node w place => exact ⟨h.1, fun sub hsub => hbelow sub (h.2.1 sub hsub), h.2.2⟩

theorem StaysOn.of_applies {uri? : Option String} {sub : Node} (h : job.StaysOn below uri? v path)
    (happlies : job.Applies sub w place) : below sub ∧ v.PartAt path w place := by
  cases happlies with
  | apply => exact h
  | anyOf hsub => exact ⟨h.2.1 sub hsub, h.2.2⟩
  | oneOf hsub => exact ⟨h.2.1 sub hsub, h.2.2⟩
  | negated => exact ⟨h.2.1 sub rfl, h.2.2⟩

theorem staysOn_find {found : Findings} (hown : ∀ x ∈ found, x.Own uri v path) :
    (find found).StaysOn below (some uri) v path :=
  fun x hx => ⟨uri, rfl, hown x hx⟩

theorem staysOn_of_mem_ofExtra {rest : Additional} (hrest : ∀ node, rest = .schema node → below node)
    (hpart : v.PartAt path w place) (h : job ∈ ofExtra rest w place) :
    job.StaysOn below (some uri) v path := by
  cases rest with
  | allowed => cases h
  | forbidden => cases h
  | schema node =>
      obtain rfl := List.mem_singleton.1 h
      exact ⟨hrest node rfl, hpart⟩

theorem staysOn_of_mem_ofRest {rest : Additional} (hrest : ∀ node, rest = .schema node → below node)
    (hpart : v.PartAt path w place) (h : job ∈ ofRest uri rest key w place) :
    job.StaysOn below (some uri) v path := by
  cases rest with
  | allowed => cases h
  | forbidden =>
      obtain rfl := List.mem_singleton.1 h
      refine staysOn_find (fun x hx => ?_)
      obtain rfl := List.mem_singleton.1 hx
      exact .violation hpart rfl
  | schema node =>
      obtain rfl := List.mem_singleton.1 h
      exact ⟨hrest node rfl, hpart⟩

theorem staysOn_of_mem_ofKey {properties : List (String × Node)} {required : List String}
    {dependencies : List (String × Dependency)} {members : Table Json}
    (hproperties : ∀ node, (key, node) ∈ properties → below node)
    (hdependencies : ∀ node, (key, .schema node) ∈ dependencies → below node)
    (h : job ∈ ofKey uri properties required dependencies members path key) :
    job.StaysOn below (some uri) (.object members) path := by
  rw [ofKey] at h
  cases hmember : Table.get? members key with
  | none =>
      rw [hmember] at h
      obtain rfl := List.mem_singleton.1 h
      refine staysOn_find (fun x hx => ?_)
      split at hx
      · obtain rfl := List.mem_singleton.1 hx
        exact .violation .whole rfl
      · cases hx
  | some member =>
      rw [hmember] at h
      rcases List.mem_append.1 h with h | h
      · rw [ofProperty] at h
        split at h
        · cases h
        · next node hnode =>
          obtain rfl := List.mem_singleton.1 h
          exact ⟨hproperties node (Table.mem_of_get? hnode),
            .member .whole (Table.mem_of_get? hmember)⟩
      · rw [ofDependency] at h
        split at h
        · cases h
        · obtain rfl := List.mem_singleton.1 h
          refine staysOn_find (fun x hx => ?_)
          obtain ⟨name, rfl⟩ := Node.exists_of_mem_missingKeys hx
          exact .violation .whole rfl
        · next node hnode =>
          obtain rfl := List.mem_singleton.1 h
          exact ⟨hdependencies node (Table.mem_of_get? hnode), .whole⟩

theorem staysOn_of_mem_ofMember {properties : List (String × Node)}
    {patterns : List (Pattern × Node)} {rest : Additional} {members : Table Json}
    {entry : String × Json} (hpatterns : ∀ p ∈ patterns, below p.2)
    (hrest : ∀ node, rest = .schema node → below node) (hentry : entry ∈ members)
    (h : job ∈ ofMember uri properties patterns rest path entry) :
    job.StaysOn below (some uri) (.object members) path := by
  have hpart : (Json.object members).PartAt path entry.2 (Pointer.child path entry.1) :=
    .member .whole hentry
  rcases List.mem_append.1 h with h | h
  · obtain ⟨p, hp, rfl⟩ := List.mem_map.1 h
    exact ⟨hpatterns p (List.mem_filter.1 hp).1, hpart⟩
  · split at h
    · cases h
    · exact staysOn_of_mem_ofRest hrest hpart h

end Job

theorem Check.staysOn_of_mem_jobs {check : Check} {uri path : String} {v : Json} {job : Job}
    (h : job ∈ check.jobs uri v path) : job.StaysOn check.Applies (some uri) v path := by
  cases check with
  | assertion a =>
      obtain rfl := List.mem_singleton.1 h
      exact ⟨rfl, .whole⟩
  | items node =>
      obtain ⟨i, hi, rfl⟩ := List.mem_map.1 h
      exact ⟨.items, Node.partAt_of_mem_zipIdx hi⟩
  | tuple nodes rest =>
      rw [Check.jobs, List.append_assoc] at h
      rcases List.mem_append.1 h with h | h
      · obtain ⟨i, hi, rfl⟩ := List.mem_map.1 h
        have hboth := List.of_mem_zip hi
        exact ⟨.tuple hboth.1, Node.partAt_of_mem_zipIdx hboth.2⟩
      · rcases List.mem_append.1 h with h | h
        · obtain ⟨i, hi, h⟩ := List.mem_flatMap.1 h
          refine Job.staysOn_of_mem_ofExtra (fun node hrest => ?_)
            (Node.partAt_of_mem_zipIdx (List.mem_of_mem_drop hi)) h
          exact hrest ▸ .surplus
        · obtain rfl := List.mem_singleton.1 h
          refine Job.staysOn_find (fun x hx => ?_)
          obtain rfl := Node.eq_of_mem_surplus hx
          exact .violation .whole rfl
  | members properties required dependencies patterns rest =>
      cases v with
      | object entries =>
          rcases List.mem_append.1 h with h | h
          · obtain ⟨key, -, h⟩ := List.mem_flatMap.1 h
            exact Job.staysOn_of_mem_ofKey (fun node hnode => .property hnode)
              (fun node hnode => .dependency hnode) h
          · obtain ⟨entry, hentry, h⟩ := List.mem_flatMap.1 h
            refine Job.staysOn_of_mem_ofMember (fun p hp => .pattern hp) (fun node hrest => ?_)
              hentry h
            exact hrest ▸ .others
      | _ => cases h

namespace Node

theorem mem_of_mem_checksFor {kind : Kind} {branches : List (List Kind × List Check)} {check : Check}
    (h : check ∈ checksFor kind branches) : ∃ b ∈ branches, check ∈ b.2 := by
  induction branches with
  | nil => cases h
  | cons first rest ih =>
      cases rest with
      | nil => exact ⟨first, List.mem_singleton_self _, h⟩
      | cons next rest =>
          rw [checksFor_cons_cons] at h
          split at h
          · exact ⟨first, List.mem_cons_self, h⟩
          · obtain ⟨b, hb, hcheck⟩ := ih h
            exact ⟨b, List.mem_cons_of_mem _ hb, hcheck⟩

/-- All that a node does, it does with nodes directly below it and on parts of the value. -/
theorem staysOn_of_mem_jobs {node : Node} {v : Json} {path : String} {job : Job}
    (h : job ∈ node.jobs v path) : job.StaysOn (Below node) node.uri? v path := by
  cases node with
  | accept => cases h
  | reject uri =>
      obtain rfl := List.mem_singleton.1 h
      refine Job.staysOn_find (fun x hx => ?_)
      obtain rfl := List.mem_singleton.1 hx
      exact .violation .whole rfl
  | reference target =>
      obtain rfl := List.mem_singleton.1 h
      exact .whole
  | schema head branches allOf anyOf oneOf negated =>
      rw [jobs, List.append_assoc, List.mem_cons, List.mem_append, List.mem_append] at h
      rcases h with rfl | h | h | h
      · exact Job.staysOn_find (fun x hx => Head.own_of_mem_opening hx)
      · rw [ofChecks] at h
        split at h
        · obtain ⟨check, hcheck, h⟩ := List.mem_flatMap.1 h
          obtain ⟨b, hb, hcheck⟩ := mem_of_mem_checksFor hcheck
          exact (Check.staysOn_of_mem_jobs h).mono (fun sub happlies => .check hb hcheck happlies)
        · cases h
      · obtain ⟨sub, hsub, rfl⟩ := List.mem_map.1 h
        exact ⟨.allOf hsub, .whole⟩
      · simp only [List.mem_cons, List.not_mem_nil, or_false] at h
        rcases h with rfl | rfl | rfl | rfl
        · exact ⟨rfl, fun sub hsub => .anyOf hsub, .whole⟩
        · exact ⟨rfl, fun sub hsub => .oneOf hsub, .whole⟩
        · exact ⟨rfl, fun sub hsub => hsub ▸ .negated, .whole⟩
        · exact Job.staysOn_find (fun x hx => Head.own_of_mem_closing hx)

end Node

end HyperSchema
