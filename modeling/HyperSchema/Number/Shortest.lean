import HyperSchema.Number.Binary64

/-!
# Shortest decimals

The decimal text of a double has the fewest digits that read back as the same double, and of the
decimals with that many digits the nearest one. The search walks the decimal grids from coarse to
fine and tests the two neighbours of the value on each grid in exact arithmetic.
-/

namespace HyperSchema

/-- Digits without trailing zeros, and the exponent of the first digit. -/
structure Decimal where
  digits : List Char
  exponent : Int

namespace Decimal

/-- The ends of an interval of reals in quarter units, in which the midpoints between doubles are
whole numbers. A closed interval has both its ends. -/
structure Interval where
  low : Nat
  high : Nat
  closed : Bool

/-- The reals that round to a magnitude. Below a power of two the doubles are twice as dense, and a
midpoint rounds to the even neighbour. -/
def roundingInterval (magnitude : Nat) : Interval :=
  let step := Binary64.spacing magnitude
  let below := if magnitude = Nat.pow 2 magnitude.log2 && 1 < step then step else 2 * step
  ⟨4 * magnitude - below, 4 * magnitude + 2 * step, magnitude / step % 2 == 0⟩

def Interval.holds (i : Interval) (num den : Nat) : Bool :=
  if i.closed then decide (i.low * den ≤ num) && decide (num ≤ i.high * den)
  else decide (i.low * den < num) && decide (num < i.high * den)

/-- The decimal exponent of a magnitude below one: the number of places to its first digit. -/
def leadingPlaces (magnitude : Nat) : Nat → Nat → Nat
  | 0, places => places
  | fuel + 1, places =>
    if Binary64.one ≤ magnitude * Nat.pow 10 places then places
    else leadingPlaces magnitude fuel (places + 1)

/-- The exponent of the first significant digit of a magnitude other than zero. No double has its
first digit further than 324 places behind the point. -/
def leadingExponent (magnitude : Nat) : Int :=
  if Binary64.one ≤ magnitude then
    ((Nat.toDigits 10 (magnitude / Binary64.one)).length : Int) - 1
  else
    -(leadingPlaces magnitude 330 0 : Int)

/-- The better of the two neighbours of a magnitude on the grid of multiples of a power of ten, if
one of them lies in the interval; an exact tie goes to the even neighbour. -/
def onGrid (magnitude : Nat) (i : Interval) (power : Int) : Option Nat :=
  let up := Nat.pow 10 power.toNat
  let down := Nat.pow 10 (-power).toNat
  let unit := up * Binary64.one
  let scaled := magnitude * down
  let c := scaled / unit
  let rest := scaled % unit
  let lower := i.holds (4 * c * unit) down
  let upper := i.holds (4 * (c + 1) * unit) down
  match lower, upper with
  | true, true =>
    if 2 * rest < unit then some c
    else if unit < 2 * rest then some (c + 1)
    else if c % 2 = 0 then some c
    else some (c + 1)
  | true, false => some c
  | false, true => some (c + 1)
  | false, false => none

/-- Tries grids with more and more digits; seventeen digits always suffice. -/
def searchGrids (magnitude : Nat) (i : Interval) (lead : Int) : Nat → Nat → Nat × Int
  | 0, digits => (magnitude * Nat.pow 10 digits / Binary64.one, -(digits : Int))
  | fuel + 1, digits =>
    let power := lead - digits
    match onGrid magnitude i power with
    | some c => if c = 0 then searchGrids magnitude i lead fuel (digits + 1) else (c, power)
    | none => searchGrids magnitude i lead fuel (digits + 1)

/-- The shortest decimal that reads back as the given magnitude, which is not zero. -/
def ofMagnitude (magnitude : Nat) : Decimal :=
  let (c, power) :=
    searchGrids magnitude (roundingInterval magnitude) (leadingExponent magnitude) 18 0
  let digits := Nat.toDigits 10 c
  { digits := (digits.reverse.dropWhile (· == '0')).reverse
    exponent := power + ((digits.length : Int) - 1) }

end Decimal

/-- Where positional notation ends: exponents from the first bound up to, and not including, the
second are written without an exponent. -/
structure DecimalLayout where
  positionalFrom : Int
  positionalBelow : Int

/-- Floats are positional from a hundred-thousandth up to ten to the sixteenth. -/
def DecimalLayout.json : DecimalLayout := ⟨-5, 16⟩

namespace Decimal

def positional (digits : List Char) (exponent : Int) : List Char :=
  if exponent < 0 then
    ['0', '.'] ++ List.replicate ((-exponent).toNat - 1) '0' ++ digits
  else
    let whole := exponent.toNat + 1
    let padded := digits ++ List.replicate (whole - digits.length) '0'
    let rest := padded.drop whole
    padded.take whole ++ ['.'] ++ (if rest.isEmpty then ['0'] else rest)

/-- One digit before the point; the exponent always carries its sign. -/
def scientific (digits : List Char) (exponent : Int) : List Char :=
  let rest := digits.drop 1
  let sign := if exponent < 0 then '-' else '+'
  digits.take 1 ++ (if rest.isEmpty then [] else '.' :: rest) ++ ['e', sign]
    ++ Nat.toDigits 10 exponent.natAbs

def layout (l : DecimalLayout) (d : Decimal) : List Char :=
  if l.positionalFrom ≤ d.exponent && d.exponent < l.positionalBelow then
    positional d.digits d.exponent
  else
    scientific d.digits d.exponent

end Decimal

/-- The text of a double; a whole number keeps one zero behind the point, and a negative zero its
sign. -/
def Binary64.chars (x : Binary64) : List Char :=
  let body :=
    if x.units = 0 then ['0', '.', '0']
    else (Decimal.ofMagnitude x.units).layout DecimalLayout.json
  if x.negative then '-' :: body else body

def Binary64.text (x : Binary64) : String := String.ofList x.chars

end HyperSchema
