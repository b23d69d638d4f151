import HyperSchema.Json.Basic

/-!
# Equality by value

Two numbers are equal when they denote the same double, whatever their literals; objects are
compared as tables, so the order of members does not matter. The comparison of objects looks for one
side's members in the other and compares the counts.
-/

namespace HyperSchema.Json

mutual
def equal : Json → Json → Bool
  | .null, .null => true
  | .bool a, .bool b => a == b
  | .number m, .number n => m.toFloat.same n.toFloat
  | .string s, .string t => s == t
  | .array xs, .array ys => equalItems xs ys
  | .object ms, .object ns => ms.length == ns.length && foundIn ms ns
  | _, _ => false

def equalItems : List Json → List Json → Bool
  | [], [] => true
  | x :: xs, y :: ys => equal x y && equalItems xs ys
  | _, _ => false

/-- Every member on the left has an equal one under its key on the right. -/
def foundIn : List (String × Json) → List (String × Json) → Bool
  | [], _ => true
  | (key, v) :: rest, ns =>
    (match Table.get? ns key with
      | some w => equal v w
      | none => false) && foundIn rest ns
end

end HyperSchema.Json
