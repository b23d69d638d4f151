import HyperSchema.Json.Basic
import HyperSchema.Validation.ErrorCode

/-!
# Violations

A violation is the way in which a value fails a keyword, or a reference cannot be followed. An error
is a violation with the place of the value and the URI of the schema. A failed choice holds the
errors of each of its branches.
-/

namespace HyperSchema

/-- Something found at a place in the value by a schema. -/
structure Located (α : Type) where
  cause : α
  path : String
  schema : String

inductive Violation where
  | invalidType (actual expected : String)
  | enumMismatch (value : String)
  | anyOfMissing (branches : List (List (Located Violation)))
  | oneOfMissing (branches : List (List (Located Violation)))
  | oneOfMultiple (first second : Nat)
  | notPassed
  | notMultiple (value divisor : Binary64)
  | belowMinimum (value limit : Binary64)
  | atExclusiveMinimum (value limit : Binary64)
  | aboveMaximum (value limit : Binary64)
  | atExclusiveMaximum (value limit : Binary64)
  | tooShort (length limit : Nat)
  | tooLong (length limit : Nat)
  | patternMismatch (pattern : String)
  | tooFewProperties (count limit : Nat)
  | tooManyProperties (count limit : Nat)
  | requiredMissing (key : String)
  | additionalProperty (key : String)
  | dependencyMissing (key missing : String)
  | tooFewItems (length limit : Nat)
  | tooManyItems (length limit : Nat)
  | duplicateItems (first second : Nat)
  | additionalItems (length limit : Nat)
  | formatRefused (name message : String)
  | circularReference (chain : List String)
  | schemaMissing (url : String)
  | schemaFetchFailed (url message : String)
  | documentFetchFailed (url message : String)

abbrev ValidationError := Located Violation

namespace Violation

def code : Violation → ErrorCode
  | .invalidType _ _ => .invalidType
  | .enumMismatch _ => .enumMismatch
  | .anyOfMissing _ => .anyOfMissing
  | .oneOfMissing _ => .oneOfMissing
  | .oneOfMultiple _ _ => .oneOfMultiple
  | .notPassed => .notPassed
  | .notMultiple _ _ => .numberMultipleOf
  | .belowMinimum _ _ => .numberMinimum
  | .atExclusiveMinimum _ _ => .numberMinimumExclusive
  | .aboveMaximum _ _ => .numberMaximum
  | .atExclusiveMaximum _ _ => .numberMaximumExclusive
  | .tooShort _ _ => .stringLengthShort
  | .tooLong _ _ => .stringLengthLong
  | .patternMismatch _ => .stringPattern
  | .tooFewProperties _ _ => .objectPropertiesMinimum
  | .tooManyProperties _ _ => .objectPropertiesMaximum
  | .requiredMissing _ => .objectRequired
  | .additionalProperty _ => .objectAdditionalProperties
  | .dependencyMissing _ _ => .objectDependencyKey
  | .tooFewItems _ _ => .arrayLengthShort
  | .tooManyItems _ _ => .arrayLengthLong
  | .duplicateItems _ _ => .arrayUnique
  | .additionalItems _ _ => .arrayAdditionalItems
  | .formatRefused _ _ => .formatCustom
  | .circularReference _ => .circularReference
  | .schemaMissing _ => .schemaMissing
  | .schemaFetchFailed _ _ => .schemaFetchError
  | .documentFetchFailed _ _ => .documentFetchError

/-- The details that are reported, without the errors of branches. -/
def details : Violation → Table Json
  | .invalidType actual expected => [("type", .string actual), ("expected", .string expected)]
  | .enumMismatch value => [("value", .string value)]
  | .anyOfMissing _ => []
  | .oneOfMissing _ => []
  | .oneOfMultiple first second => [("index1", .ofNat first), ("index2", .ofNat second)]
  | .notPassed => []
  | .notMultiple value divisor => [("value", .ofFloat value), ("multipleOf", .ofFloat divisor)]
  | .belowMinimum value limit => [("value", .ofFloat value), ("minimum", .ofFloat limit)]
  | .atExclusiveMinimum value limit => [("value", .ofFloat value), ("minimum", .ofFloat limit)]
  | .aboveMaximum value limit => [("value", .ofFloat value), ("maximum", .ofFloat limit)]
  | .atExclusiveMaximum value limit => [("value", .ofFloat value), ("maximum", .ofFloat limit)]
  | .tooShort length limit => [("length", .ofNat length), ("minimum", .ofNat limit)]
  | .tooLong length limit => [("length", .ofNat length), ("maximum", .ofNat limit)]
  | .patternMismatch pattern => [("pattern", .string pattern)]
  | .tooFewProperties count limit => [("propertyCount", .ofNat count), ("minimum", .ofNat limit)]
  | .tooManyProperties count limit => [("propertyCount", .ofNat count), ("maximum", .ofNat limit)]
  | .requiredMissing key => [("key", .string key)]
  | .additionalProperty key => [("key", .string key)]
  | .dependencyMissing key missing => [("key", .string key), ("missing", .string missing)]
  | .tooFewItems length limit => [("length", .ofNat length), ("minimum", .ofNat limit)]
  | .tooManyItems length limit => [("length", .ofNat length), ("maximum", .ofNat limit)]
  | .duplicateItems first second => [("match1", .ofNat first), ("match2", .ofNat second)]
  | .additionalItems length limit => [("length", .ofNat length), ("maximum", .ofNat limit)]
  | .formatRefused name message => [("format", .string name), ("message", .string message)]
  | .circularReference chain => [("chain", .ofStrings chain)]
  | .schemaMissing url => [("url", .string url)]
  | .schemaFetchFailed url message => [("url", .string url), ("message", .string message)]
  | .documentFetchFailed url message => [("url", .string url), ("message", .string message)]

end Violation

namespace ValidationError

/-- The text of an error; the root is shown as a slash. -/
def display (e : ValidationError) : String :=
  let place := if e.path = "" then "/" else e.path
  place ++ ": " ++ e.cause.code.name ++ " (schema " ++ e.schema ++ ")"

def report (path schema : String) (v : Violation) (branches : List Json) : Json :=
  let params := if branches.isEmpty then v.details else v.details ++ [("errors", .array branches)]
  .object [("code", .ofNat v.code.number), ("params", .object params), ("path", .string path),
    ("schema", .string schema)]

mutual
def toJson : ValidationError → Json
  | ⟨.anyOfMissing branches, path, schema⟩ =>
    report path schema (.anyOfMissing branches) (branchesToJson branches)
  | ⟨.oneOfMissing branches, path, schema⟩ =>
    report path schema (.oneOfMissing branches) (branchesToJson branches)
  | ⟨v, path, schema⟩ => report path schema v []

def listToJson : List ValidationError → List Json
  | [] => []
  | e :: rest => toJson e :: listToJson rest

def branchesToJson : List (List ValidationError) → List Json
  | [] => []
  | errors :: rest => .array (listToJson errors) :: branchesToJson rest
end

end ValidationError

end HyperSchema
