import HyperSchema.Text.Count

/-!
# Error codes

Every kind of violation has a stable number and an upper-case name.
-/

namespace HyperSchema

inductive ErrorCode where
  | invalidType
  | enumMismatch
  | anyOfMissing
  | oneOfMissing
  | oneOfMultiple
  | notPassed
  | numberMultipleOf
  | numberMinimum
  | numberMinimumExclusive
  | numberMaximum
  | numberMaximumExclusive
  | stringLengthShort
  | stringLengthLong
  | stringPattern
  | objectPropertiesMinimum
  | objectPropertiesMaximum
  | objectRequired
  | objectAdditionalProperties
  | objectDependencyKey
  | arrayLengthShort
  | arrayLengthLong
  | arrayUnique
  | arrayAdditionalItems
  | formatCustom
  | keywordCustom
  | circularReference
  | schemaMissing
  | schemaFetchError
  | documentFetchError
  | unknownProperty
  deriving DecidableEq

namespace ErrorCode

def all : List ErrorCode :=
  [.invalidType, .enumMismatch, .anyOfMissing, .oneOfMissing, .oneOfMultiple, .notPassed,
    .numberMultipleOf, .numberMinimum, .numberMinimumExclusive, .numberMaximum,
    .numberMaximumExclusive, .stringLengthShort, .stringLengthLong, .stringPattern,
    .objectPropertiesMinimum, .objectPropertiesMaximum, .objectRequired,
    .objectAdditionalProperties, .objectDependencyKey, .arrayLengthShort, .arrayLengthLong,
    .arrayUnique, .arrayAdditionalItems, .formatCustom, .keywordCustom, .circularReference,
    .schemaMissing, .schemaFetchError, .documentFetchError, .unknownProperty]

def number : ErrorCode → Nat
  | .invalidType => 0
  | .enumMismatch => 1
  | .anyOfMissing => 10
  | .oneOfMissing => 11
  | .oneOfMultiple => 12
  | .notPassed => 13
  | .numberMultipleOf => 100
  | .numberMinimum => 101
  | .numberMinimumExclusive => 102
  | .numberMaximum => 103
  | .numberMaximumExclusive => 104
  | .stringLengthShort => 200
  | .stringLengthLong => 201
  | .stringPattern => 202
  | .objectPropertiesMinimum => 300
  | .objectPropertiesMaximum => 301
  | .objectRequired => 302
  | .objectAdditionalProperties => 303
  | .objectDependencyKey => 304
  | .arrayLengthShort => 400
  | .arrayLengthLong => 401
  | .arrayUnique => 402
  | .arrayAdditionalItems => 403
  | .formatCustom => 500
  | .keywordCustom => 501
  | .circularReference => 600
  | .schemaMissing => 601
  | .schemaFetchError => 602
  | .documentFetchError => 603
  | .unknownProperty => 1000

def name : ErrorCode → String
  | .invalidType => "INVALID_TYPE"
  | .enumMismatch => "ENUM_MISMATCH"
  | .anyOfMissing => "ANY_OF_MISSING"
  | .oneOfMissing => "ONE_OF_MISSING"
  | .oneOfMultiple => "ONE_OF_MULTIPLE"
  | .notPassed => "NOT_PASSED"
  | .numberMultipleOf => "NUMBER_MULTIPLE_OF"
  | .numberMinimum => "NUMBER_MINIMUM"
  | .numberMinimumExclusive => "NUMBER_MINIMUM_EXCLUSIVE"
  | .numberMaximum => "NUMBER_MAXIMUM"
  | .numberMaximumExclusive => "NUMBER_MAXIMUM_EXCLUSIVE"
  | .stringLengthShort => "STRING_LENGTH_SHORT"
  | .stringLengthLong => "STRING_LENGTH_LONG"
  | .stringPattern => "STRING_PATTERN"
  | .objectPropertiesMinimum => "OBJECT_PROPERTIES_MINIMUM"
  | .objectPropertiesMaximum => "OBJECT_PROPERTIES_MAXIMUM"
  | .objectRequired => "OBJECT_REQUIRED"
  | .objectAdditionalProperties => "OBJECT_ADDITIONAL_PROPERTIES"
  | .objectDependencyKey => "OBJECT_DEPENDENCY_KEY"
  | .arrayLengthShort => "ARRAY_LENGTH_SHORT"
  | .arrayLengthLong => "ARRAY_LENGTH_LONG"
  | .arrayUnique => "ARRAY_UNIQUE"
  | .arrayAdditionalItems => "ARRAY_ADDITIONAL_ITEMS"
  | .formatCustom => "FORMAT_CUSTOM"
  | .keywordCustom => "KEYWORD_CUSTOM"
  | .circularReference => "CIRCULAR_REFERENCE"
  | .schemaMissing => "SCHEMA_MISSING"
  | .schemaFetchError => "SCHEMA_FETCH_ERROR"
  | .documentFetchError => "DOCUMENT_FETCH_ERROR"
  | .unknownProperty => "UNKNOWN_PROPERTY"

/-- The name with the number in brackets. -/
def display (c : ErrorCode) : String := c.name ++ " (" ++ Text.natText c.number ++ ")"

end ErrorCode

end HyperSchema
