import HyperSchema.Json.Equal
import HyperSchema.Json.Printer
import HyperSchema.Number.Multiple
import HyperSchema.Pattern.Basic
import HyperSchema.Validation.Violation

/-!
# Assertions

An assertion judges a value by itself, without looking into subschemas. Each concerns one type of
value and is silent about all others.
-/

namespace HyperSchema

inductive Assertion where
  | integer
  | multipleOf (divisor : Binary64)
  | minimum (limit : Binary64) (exclusive : Bool)
  | maximum (limit : Binary64) (exclusive : Bool)
  | minLength (limit : Nat)
  | maxLength (limit : Nat)
  | pattern (p : Pattern)
  | minItems (limit : Nat)
  | maxItems (limit : Nat)
  | uniqueItems
  | minProperties (limit : Nat)
  | maxProperties (limit : Nat)

/-- The number of UTF-16 units of a text. -/
def Text.units16 (s : String) : Nat :=
  s.toList.foldl (fun n c => if c.toNat < 0x10000 then n + 1 else n + 2) 0

/-- The length of a string, in code points or in UTF-16 units. -/
def Text.length (unicode : Bool) (s : String) : Nat := if unicode then s.length else Text.units16 s

namespace Json

/-- The first item equal to a value, and its position. -/
def firstEqual? (v : Json) : List Json → Nat → Option Nat
  | [], _ => none
  | w :: rest, i => if equal v w then some i else firstEqual? v rest (i + 1)

/-- The first pair of positions with equal items. -/
def firstDuplicates? : List Json → Nat → Option (Nat × Nat)
  | [], _ => none
  | v :: rest, i =>
    match firstEqual? v rest (i + 1) with
    | some j => some (i, j)
    | none => firstDuplicates? rest (i + 1)

end Json

namespace Assertion

def ofNumber : Assertion → Binary64 → Option Violation
  | .integer, x => if x.isIntegral then none else some (.invalidType "number" "integer")
  | .multipleOf d, x => if x.isMultiple d then none else some (.notMultiple x d)
  | .minimum limit exclusive, x =>
    if x.less limit then some (.belowMinimum x limit)
    else if exclusive && x.same limit then some (.atExclusiveMinimum x limit)
    else none
  | .maximum limit exclusive, x =>
    if limit.less x then some (.aboveMaximum x limit)
    else if exclusive && x.same limit then some (.atExclusiveMaximum x limit)
    else none
  | _, _ => none

def ofString (unicode : Bool) : Assertion → String → Option Violation
  | .minLength limit, s =>
    if Text.length unicode s < limit then some (.tooShort (Text.length unicode s) limit) else none
  | .maxLength limit, s =>
    if limit < Text.length unicode s then some (.tooLong (Text.length unicode s) limit) else none
  | .pattern p, s => if p.isMatch s then none else some (.patternMismatch p.source)
  | _, _ => none

def ofArray : Assertion → List Json → Option Violation
  | .minItems limit, items =>
    if items.length < limit then some (.tooFewItems items.length limit) else none
  | .maxItems limit, items =>
    if limit < items.length then some (.tooManyItems items.length limit) else none
  | .uniqueItems, items => (Json.firstDuplicates? items 0).map (fun (i, j) => .duplicateItems i j)
  | _, _ => none

def ofObject : Assertion → Table Json → Option Violation
  | .minProperties limit, members =>
    if members.length < limit then some (.tooFewProperties members.length limit) else none
  | .maxProperties limit, members =>
    if limit < members.length then some (.tooManyProperties members.length limit) else none
  | _, _ => none

/-- How a value fails an assertion, if it does. -/
def violation? (unicode : Bool) (a : Assertion) : Json → Option Violation
  | .number n => a.ofNumber n.toFloat
  | .string s => a.ofString unicode s
  | .array items => a.ofArray items
  | .object members => a.ofObject members
  | _ => none

end Assertion

end HyperSchema
