/-!
# Counts in text

A count is a run of decimal digits, with at most one plus sign in front, whose value fits 64 bits.
-/

namespace HyperSchema.Text

def maxCount : Nat := 0xFFFFFFFFFFFFFFFF

def digitsValue (cs : List Char) : Nat := cs.foldl (fun n c => n * 10 + (c.toNat - 48)) 0

def count? (cs : List Char) : Option Nat :=
  let digits := match cs with
    | '+' :: rest => rest
    | rest => rest
  if digits.isEmpty || !digits.all Char.isDigit then none
  else
    let n := digitsValue digits
    if n ≤ maxCount then some n else none

def natText (n : Nat) : String := String.ofList (Nat.toDigits 10 n)

end HyperSchema.Text
