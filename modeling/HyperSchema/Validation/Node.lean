import HyperSchema.Options
import HyperSchema.Template.Expand
import HyperSchema.Validation.Assertion

/-!
# Compiled schemas

A node is a schema made ready for evaluation. Checks are grouped by the types of value they concern,
subschemas are nodes of their own, and a reference is a call to another compiled schema by its URI,
which is what lets schemas refer to themselves.
-/

namespace HyperSchema

/-- A named test of values; it answers a message when it refuses one. -/
structure Format where
  name : String
  refusal? : Json → Option String

structure LinkTemplate where
  rel : String
  method : String
  href : Template

/-- What a schema object says apart from its subschemas and the checks for single types. -/
structure Head where
  uri : String
  allowed : List Kind
  declared : List String
  choices : Option (List Json)
  format : Option Format
  links : List LinkTemplate

mutual

inductive Node where
  | accept
  | reject (uri : String)
  | reference (target : String)
  | schema (head : Head) (branches : List (List Kind × List Check)) (allOf anyOf oneOf : List Node)
      (negated : Option Node)

inductive Check where
  | assertion (a : Assertion)
  | items (node : Node)
  | tuple (nodes : List Node) (rest : Additional)
  | members (properties : List (String × Node)) (required : List String)
      (dependencies : List (String × Dependency)) (patterns : List (Pattern × Node))
      (rest : Additional)

/-- What holds for items or members that no other keyword speaks of. -/
inductive Additional where
  | allowed
  | forbidden
  | schema (node : Node)

inductive Dependency where
  | keys (names : List String)
  | schema (node : Node)

end

namespace Node

mutual

/-- The targets of the references in a node, in the order in which the keywords are read. -/
def targets : Node → List String
  | .accept => []
  | .reject _ => []
  | .reference target => [target]
  | .schema _ branches allOf anyOf oneOf negated =>
    targetsOfBranches branches ++ targetsOfNegated negated ++ targetsOfAll allOf
      ++ targetsOfAll anyOf ++ targetsOfAll oneOf

def targetsOfAll : List Node → List String
  | [] => []
  | node :: rest => targets node ++ targetsOfAll rest

def targetsOfNegated : Option Node → List String
  | none => []
  | some node => targets node

def targetsOfBranches : List (List Kind × List Check) → List String
  | [] => []
  | (_, checks) :: rest => targetsOfChecks checks ++ targetsOfBranches rest

def targetsOfChecks : List Check → List String
  | [] => []
  | check :: rest => targetsOfCheck check ++ targetsOfChecks rest

def targetsOfCheck : Check → List String
  | .assertion _ => []
  | .items node => targets node
  | .tuple nodes rest => targetsOfAll nodes ++ targetsOfRest rest
  | .members properties _ dependencies patterns rest =>
    targetsOfProperties properties ++ targetsOfDependencies dependencies
      ++ targetsOfPatterns patterns
      ++ targetsOfRest rest

def targetsOfRest : Additional → List String
  | .allowed => []
  | .forbidden => []
  | .schema node => targets node

def targetsOfProperties : List (String × Node) → List String
  | [] => []
  | (_, node) :: rest => targets node ++ targetsOfProperties rest

def targetsOfDependencies : List (String × Dependency) → List String
  | [] => []
  | (_, dependency) :: rest => targetsOfDependency dependency ++ targetsOfDependencies rest

def targetsOfDependency : Dependency → List String
  | .keys _ => []
  | .schema node => targets node

def targetsOfPatterns : List (Pattern × Node) → List String
  | [] => []
  | (_, node) :: rest => targets node ++ targetsOfPatterns rest

end

end Node

end HyperSchema
