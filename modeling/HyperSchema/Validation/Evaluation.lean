import HyperSchema.Pointer.Basic
import HyperSchema.Validation.Node
import HyperSchema.Validation.State

/-!
# Evaluation

A node is evaluated on a value at a path by recursion on the node. References leave the node: what
happens at one is given by the caller, and may fail to come to an end, in which case the evaluation
has no result. Branches of a choice are evaluated apart; what they found counts only for those that
pass.
-/

namespace HyperSchema

/-- What an evaluation depends on besides the node and the value. -/
structure Environment where
  call : String → Json → String → Option Findings
  unicodeLength : Bool

namespace Finding

def violation (path uri : String) (v : Violation) : Finding := .error ⟨v, path, uri⟩

end Finding

namespace Head

/-- The schema itself applies; then come its type and its list of values. -/
def opening (h : Head) (v : Json) (path : String) : Findings :=
  let typed :=
    if h.allowed.contains v.kind then []
    else [.violation path h.uri (.invalidType v.typeName (String.intercalate "/" h.declared))]
  let chosen := match h.choices with
    | some choices =>
      if choices.any (fun choice => Json.equal choice v) then []
      else [.violation path h.uri (.enumMismatch v.render)]
    | none => []
  .schema path h.uri :: (typed ++ chosen)

/-- Of several branches one has to pass; all that pass count. -/
def anyOf (h : Head) (path : String) (results : List Findings) : Findings :=
  if results.isEmpty then []
  else if results.any Findings.passes then (results.filter Findings.passes).flatten
  else [.violation path h.uri (.anyOfMissing (results.map Findings.errors))]

/-- The positions of the branches that pass, with what they found. -/
def passing (results : List Findings) : List (Findings × Nat) :=
  results.zipIdx.filter (fun r => r.1.passes)

/-- Of several branches exactly one has to pass. -/
def oneOf (h : Head) (path : String) (results : List Findings) : Findings :=
  if results.isEmpty then []
  else
    match passing results with
    | [] => [.violation path h.uri (.oneOfMissing (results.map Findings.errors))]
    | [(fs, _)] => fs
    | (_, i) :: (_, j) :: _ => [.violation path h.uri (.oneOfMultiple i j)]

/-- A negated schema leaves no trace but an error if it passes. -/
def negated (h : Head) (path : String) : Option Findings → Findings
  | none => []
  | some fs => if fs.passes then [.violation path h.uri .notPassed] else []

/-- The format comes last, and then the links. -/
def closing (h : Head) (v : Json) (path : String) : Findings :=
  let refused := match h.format with
    | some format =>
      match format.refusal? v with
      | some message => [.violation path h.uri (.formatRefused format.name message)]
      | none => []
    | none => []
  let subject := Template.Subject.ofJson v
  refused ++ h.links.map (fun l => .link path ⟨l.href.expand subject, l.rel, l.method⟩)

end Head

namespace Node

/-- The items of an array; other values have none. -/
def itemsOf : Json → List Json
  | .array items => items
  | _ => []

def itemPath (path : String) (i : Nat) : String := Pointer.child path (Text.natText i)

/-- The keys that have rules: properties first, then required keys and dependencies not yet among
them. -/
def ruledKeys (properties : List (String × Node)) (required : List String)
    (dependencies : List (String × Dependency)) : List String :=
  (properties.map Prod.fst ++ required ++ dependencies.map Prod.fst).foldl
    (fun keys key => if key ∈ keys then keys else keys ++ [key]) []

def missingKeys (uri path key : String) (members : Table Json) (names : List String) : Findings :=
  (names.filter (fun name => !Table.has members name)).map
    (fun name => .violation path uri (.dependencyMissing key name))

/-- An array that may not be longer than its tuple. -/
def surplus (uri path : String) (most : Nat) : Additional → Nat → Findings
  | .forbidden, length =>
    if most < length then [.violation path uri (.additionalItems length most)] else []
  | _, _ => []

mutual

def evaluate (env : Environment) : Node → Json → String → Option Findings
  | .accept, _, _ => some []
  | .reject uri, _, path => some [.violation path uri .notPassed]
  | .reference target, v, path => env.call target v path
  | .schema head branches allOf anyOf oneOf negated, v, path => do
    let typed ←
      if head.allowed.contains v.kind then evaluateBranches env head.uri branches v path
      else some []
    let allResults ← evaluateEach env allOf v path
    let anyResults ← evaluateEach env anyOf v path
    let oneResults ← evaluateEach env oneOf v path
    let negatedResult ← evaluateNegated env negated v path
    return head.opening v path ++ typed ++ allResults.flatten ++ head.anyOf path anyResults
      ++ head.oneOf path oneResults ++ head.negated path negatedResult ++ head.closing v path

/-- What each of several nodes finds. -/
def evaluateEach (env : Environment) : List Node → Json → String → Option (List Findings)
  | [], _, _ => some []
  | node :: rest, v, path => do
    let found ← evaluate env node v path
    let more ← evaluateEach env rest v path
    return found :: more

def evaluateNegated (env : Environment) :
    Option Node → Json → String → Option (Option Findings)
  | none, _, _ => some none
  | some node, v, path => (evaluate env node v path).map some

/-- Runs the first branch for the type of the value; the last branch serves all types that are left.
-/
def evaluateBranches (env : Environment) (uri : String) :
    List (List Kind × List Check) → Json → String → Option Findings
  | [], _, _ => some []
  | [(_, checks)], v, path => evaluateChecks env uri checks v path
  | (kinds, checks) :: rest, v, path =>
    if kinds.contains v.kind then evaluateChecks env uri checks v path
    else evaluateBranches env uri rest v path

def evaluateChecks (env : Environment) (uri : String) : List Check → Json → String → Option Findings
  | [], _, _ => some []
  | check :: rest, v, path => do
    let found ← evaluateCheck env uri check v path
    let more ← evaluateChecks env uri rest v path
    return found ++ more

def evaluateCheck (env : Environment) (uri : String) : Check → Json → String → Option Findings
  | .assertion a, v, path =>
    some ((a.violation? env.unicodeLength v).map (Finding.violation path uri)).toList
  | .items node, v, path =>
    Findings.gather ((itemsOf v).zipIdx.map (fun (item, i) =>
      evaluate env node item (itemPath path i)))
  | .tuple nodes rest, v, path => do
    let found ← evaluateTuple env nodes (itemsOf v) 0 path
    let more ← Findings.gather (((itemsOf v).zipIdx.drop nodes.length).map
      (fun (item, i) => evaluateExtra env rest item (itemPath path i)))
    return found ++ more ++ surplus uri path nodes.length rest (itemsOf v).length
  | .members properties required dependencies patterns rest, .object members, path => do
    let ruled ← Findings.gather ((ruledKeys properties required dependencies).map (fun key =>
      match Table.get? members key with
      | none => some (if key ∈ required then [.violation path uri (.requiredMissing key)] else [])
      | some member => do
        let found ← evaluateProperty env properties key member path
        let more ← evaluateDependency env uri dependencies key members path
        return found ++ more))
    let others ← Findings.gather (members.map (fun (key, member) => do
      let found ← evaluatePatterns env patterns key member (Pointer.child path key)
      let more ←
        if (properties.map Prod.fst).contains key || patterns.any (fun p => p.1.isMatch key) then
          some []
        else evaluateRest env uri rest key member (Pointer.child path key)
      return found ++ more))
    return ruled ++ others
  | .members _ _ _ _ _, _, _ => some []

/-- Items are matched with nodes by position. -/
def evaluateTuple (env : Environment) : List Node → List Json → Nat → String → Option Findings
  | [], _, _, _ => some []
  | _ :: _, [], _, _ => some []
  | node :: nodes, item :: items, i, path => do
    let found ← evaluate env node item (itemPath path i)
    let more ← evaluateTuple env nodes items (i + 1) path
    return found ++ more

/-- An item behind the tuple; where it is forbidden, the array is at fault. -/
def evaluateExtra (env : Environment) : Additional → Json → String → Option Findings
  | .allowed, _, _ => some []
  | .forbidden, _, _ => some []
  | .schema node, v, path => evaluate env node v path

/-- A member that no other keyword speaks of. -/
def evaluateRest (env : Environment) (uri : String) :
    Additional → String → Json → String → Option Findings
  | .allowed, _, _, _ => some []
  | .forbidden, key, _, path => some [.violation path uri (.additionalProperty key)]
  | .schema node, _, member, path => evaluate env node member path

def evaluateProperty (env : Environment) :
    List (String × Node) → String → Json → String → Option Findings
  | [], _, _, _ => some []
  | (name, node) :: rest, key, member, path =>
    if name = key then evaluate env node member (Pointer.child path key)
    else evaluateProperty env rest key member path

def evaluateDependency (env : Environment) (uri : String) :
    List (String × Dependency) → String → Table Json → String → Option Findings
  | [], _, _, _ => some []
  | (name, dependency) :: rest, key, members, path =>
    if name = key then evaluateDependent env uri dependency key members path
    else evaluateDependency env uri rest key members path

def evaluateDependent (env : Environment) (uri : String) :
    Dependency → String → Table Json → String → Option Findings
  | .keys names, key, members, path => some (missingKeys uri path key members names)
  | .schema node, _, members, path => evaluate env node (.object members) path

/-- A member meets every pattern that matches its key. -/
def evaluatePatterns (env : Environment) :
    List (Pattern × Node) → String → Json → String → Option Findings
  | [], _, _, _ => some []
  | (p, node) :: rest, key, member, path => do
    let found ← if p.isMatch key then evaluate env node member path else some []
    let more ← evaluatePatterns env rest key member path
    return found ++ more

end

end Node

end HyperSchema
