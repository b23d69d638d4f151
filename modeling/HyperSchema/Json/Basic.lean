import HyperSchema.Number.Binary64
import HyperSchema.Table
import HyperSchema.Text.Count

/-!
# JSON values

A number keeps the kind of its literal: an integer that fits 64 bits, signed or not, or a double. An
object keeps its members in document order.
-/

namespace HyperSchema

inductive Number where
  | int (n : Int)
  | float (x : Binary64)
  deriving DecidableEq

/-- The value as a double; every number has one. -/
def Number.toFloat : Number → Binary64
  | .int n => Binary64.ofInt n
  | .float x => x

inductive Json where
  | null
  | bool (b : Bool)
  | number (n : Number)
  | string (s : String)
  | array (items : List Json)
  | object (members : List (String × Json))

/-- The six runtime types; integers are numbers here. -/
inductive Kind where
  | null
  | boolean
  | number
  | string
  | array
  | object
  deriving DecidableEq

namespace Kind

def all : List Kind := [.null, .boolean, .number, .string, .array, .object]

def name : Kind → String
  | .null => "null"
  | .boolean => "boolean"
  | .number => "number"
  | .string => "string"
  | .array => "array"
  | .object => "object"

end Kind

namespace Json

def kind : Json → Kind
  | .null => .null
  | .bool _ => .boolean
  | .number _ => .number
  | .string _ => .string
  | .array _ => .array
  | .object _ => .object

def typeName (v : Json) : String := v.kind.name

def asBool? : Json → Option Bool
  | .bool b => some b
  | _ => none

def asFloat? : Json → Option Binary64
  | .number n => some n.toFloat
  | _ => none

def asString? : Json → Option String
  | .string s => some s
  | _ => none

def asArray? : Json → Option (List Json)
  | .array items => some items
  | _ => none

def asObject? : Json → Option (Table Json)
  | .object members => some members
  | _ => none

/-- A member of an object; other values have none. -/
def member? : Json → String → Option Json
  | .object members, key => Table.get? members key
  | _, _ => none

/-- The keys of an object in document order, or the positions of an array as text. -/
def keys : Json → List String
  | .object members => Table.keys members
  | .array items => (List.range items.length).map Text.natText
  | _ => []

/-- The number of members, items or characters; other values have size zero. -/
def size : Json → Nat
  | .object members => members.length
  | .array items => items.length
  | .string s => s.length
  | _ => 0

def ofNat (n : Nat) : Json := .number (.int n)

def ofFloat (x : Binary64) : Json := .number (.float x)

def ofStrings (ss : List String) : Json := .array (ss.map .string)

mutual
/-- The number of containers on the longest way down. -/
def height : Json → Nat
  | .array items => heightItems items + 1
  | .object members => heightMembers members + 1
  | _ => 0

def heightItems : List Json → Nat
  | [] => 0
  | v :: rest => max v.height (heightItems rest)

def heightMembers : List (String × Json) → Nat
  | [] => 0
  | (_, v) :: rest => max v.height (heightMembers rest)
end

mutual
/-- No object anywhere in the value has a key twice. -/
def UniqueKeys : Json → Prop
  | .array items => UniqueKeysItems items
  | .object members => Table.Distinct members ∧ UniqueKeysMembers members
  | _ => True

def UniqueKeysItems : List Json → Prop
  | [] => True
  | v :: rest => v.UniqueKeys ∧ UniqueKeysItems rest

def UniqueKeysMembers : List (String × Json) → Prop
  | [] => True
  | (_, v) :: rest => v.UniqueKeys ∧ UniqueKeysMembers rest
end

end Json

end HyperSchema
