/-!
# Sets of code points

A set is a list of closed intervals, ascending and apart from each other in normal form. Membership
does not depend on the form.
-/

namespace HyperSchema

abbrev CharSet := List (Nat × Nat)

def maxPoint : Nat := 0x10FFFF

namespace CharSet

def has (s : CharSet) (n : Nat) : Bool := s.any (fun (low, high) => low ≤ n && n ≤ high)

/-- Joins intervals that touch; the list ascends by lower ends. -/
def merge : CharSet → CharSet
  | [] => []
  | [i] => [i]
  | (low, high) :: (low', high') :: rest =>
    if low' ≤ high + 1 then merge ((low, max high high') :: rest)
    else (low, high) :: merge ((low', high') :: rest)
termination_by s => s.length

def ofList (intervals : List (Nat × Nat)) : CharSet :=
  merge (intervals.mergeSort (fun a b => a.1 ≤ b.1))

def single (c : Char) : CharSet := [(c.toNat, c.toNat)]

/-- What lies between the intervals from a point on. -/
def gaps (start : Nat) : CharSet → CharSet
  | [] => if start ≤ maxPoint then [(start, maxPoint)] else []
  | (low, high) :: rest =>
    if start < low then (start, low - 1) :: gaps (high + 1) rest else gaps (high + 1) rest

def complement (s : CharSet) : CharSet := gaps 0 (ofList s)

def union (s t : CharSet) : CharSet := ofList (s ++ t)

def inter (s t : CharSet) : CharSet :=
  ofList (s.flatMap (fun (low, high) =>
    t.filterMap (fun (low', high') =>
      let bottom := max low low'
      let top := min high high'
      if bottom ≤ top then some (bottom, top) else none)))

def diff (s t : CharSet) : CharSet := inter s (complement t)

def symmDiff (s t : CharSet) : CharSet := union (diff s t) (diff t s)

end CharSet

end HyperSchema
