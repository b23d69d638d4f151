import HyperSchema.Number.Binary64

/-!
# Multiples of a double

A number counts as a multiple of a divisor when the rounded quotient is close to a whole number:
within a billionth of the quotient, or of one if the quotient is smaller.
-/

namespace HyperSchema.Binary64

/-- The double nearest to a billionth. -/
def billionth : Binary64 := ⟨false, roundQuotient one 1000000000⟩

def abs (x : Binary64) : Binary64 := ⟨false, x.units⟩

def max (x y : Binary64) : Binary64 := if x.less y then y else x

def unit : Binary64 := ⟨false, one⟩

/-- Every number is a multiple of zero, and none is when the quotient overflows. -/
def isMultiple (value divisor : Binary64) : Bool :=
  if divisor.units = 0 then true
  else
    match value.div? divisor with
    | none => false
    | some q =>
      match billionth.mul? (q.abs.max unit) with
      | none => true
      | some tolerance => decide (q.distanceToWhole ≤ tolerance.units)

def greatestCount : Nat := 0xFFFFFFFFFFFFFFFF

/-- The whole part of a number that is not negative, cut off at the greatest 64-bit count. -/
def count? (x : Binary64) : Option Nat :=
  if 0 ≤ x.signed then some (min x.floorMagnitude greatestCount) else none

end HyperSchema.Binary64
