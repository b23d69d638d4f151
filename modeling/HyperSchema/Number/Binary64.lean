/-!
# Finite binary64 numbers

A finite double is a sign and a whole number of least units, one unit being 2 ^ -1074. Comparison is
comparison of integers, and every operation is an exact integer quotient followed by one rounding to
the nearest double, ties to the even one. Nothing here knows about infinities: an operation whose
result would leave the finite range answers none.
-/

namespace HyperSchema

structure Binary64 where
  negative : Bool
  units : Nat
  deriving DecidableEq

namespace Binary64

/-- The number of least units that make one. -/
def one : Nat := Nat.pow 2 1074

/-- Finite magnitudes stay below this many units. -/
def ceiling : Nat := Nat.pow 2 2098

/-- The quotient of two naturals rounded to the nearest natural, a half going to the even one. -/
def nearest (num den : Nat) : Nat :=
  let q := num / den
  let r := num % den
  if 2 * r < den then q
  else if den < 2 * r then q + 1
  else if q % 2 = 0 then q
  else q + 1

/-- The spacing of doubles from a magnitude upwards: 53 significant bits, and never less than a
unit. -/
def spacing (magnitude : Nat) : Nat := Nat.pow 2 (magnitude.log2 - 52)

/-- The representable magnitude nearest to a quotient of units. -/
def roundQuotient (num den : Nat) : Nat :=
  let step := spacing (num / den)
  nearest num (den * step) * step

/-- A magnitude is representable when 53 significant bits hold it. -/
def Representable (magnitude : Nat) : Prop :=
  magnitude < ceiling ∧ spacing magnitude ∣ magnitude

def ofUnits? (negative : Bool) (magnitude : Nat) : Option Binary64 :=
  if magnitude < ceiling then some ⟨negative, magnitude⟩ else none

def zero : Binary64 := ⟨false, 0⟩

/-- The nearest double; the integers met here have at most 64 bits, so it is always finite. -/
def ofNat (n : Nat) : Binary64 := ⟨false, roundQuotient (n * one) 1⟩

def ofInt : Int → Binary64
  | .ofNat n => ofNat n
  | .negSucc n => ⟨true, (ofNat (n + 1)).units⟩

/-- The value in units, with its sign. Both zeros have the value zero. -/
def signed (x : Binary64) : Int := if x.negative then -(x.units : Int) else x.units

/-- Numerical equality: the two zeros are equal. -/
def same (x y : Binary64) : Bool := decide (x.signed = y.signed)

def less (x y : Binary64) : Bool := decide (x.signed < y.signed)

def mul? (x y : Binary64) : Option Binary64 :=
  ofUnits? (x.negative != y.negative) (roundQuotient (x.units * y.units) one)

/-- The quotient by a divisor other than zero. -/
def div? (x y : Binary64) : Option Binary64 :=
  ofUnits? (x.negative != y.negative) (roundQuotient (x.units * one) y.units)

/-- Whether the value is a whole number. -/
def isIntegral (x : Binary64) : Bool := x.units % one == 0

/-- The whole part of the magnitude. -/
def floorMagnitude (x : Binary64) : Nat := x.units / one

/-- The distance to the nearest whole number, in units. -/
def distanceToWhole (x : Binary64) : Nat :=
  let rest := x.units % one
  min rest (one - rest)

/-- The double nearest to a power of ten. -/
def powerOfTen (e : Nat) : Nat := roundQuotient (Nat.pow 10 e * one) 1

/-- The greatest power of ten that is finite. -/
def greatestTen : Nat := 308

/-- Divides a magnitude by a power of ten, in steps of the greatest finite one. -/
def shrink (magnitude e : Nat) : Nat :=
  if e ≤ greatestTen then roundQuotient (magnitude * one) (powerOfTen e)
  else if magnitude = 0 then 0
  else shrink (roundQuotient (magnitude * one) (powerOfTen greatestTen)) (e - greatestTen)
termination_by e
decreasing_by simp [greatestTen] at *; omega

/-- A decimal significand scaled by a power of ten: the significand is rounded first, and the
scaling once more. Answers none when the result is not finite. -/
def ofDecimal? (negative : Bool) (significand : Nat) (exponent : Int) : Option Binary64 :=
  let start := (ofNat significand).units
  match exponent with
  | .ofNat e =>
    if e ≤ greatestTen then ofUnits? negative (roundQuotient (start * powerOfTen e) one)
    else if start = 0 then some ⟨negative, 0⟩
    else none
  | .negSucc e => some ⟨negative, shrink start (e + 1)⟩

end Binary64

end HyperSchema
