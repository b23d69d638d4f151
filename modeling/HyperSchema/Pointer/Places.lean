import HyperSchema.Pointer.Access

/-!
# The places of a value

A place is a pointer at which a value has something. The places are listed each before those below
it, in document order.
-/

namespace HyperSchema.Pointer

mutual
/-- The places of a value that itself stands at a pointer. -/
def placesFrom (pointer : String) : Json → List String
  | .array items => pointer :: placesOfItems pointer 0 items
  | .object members => pointer :: placesOfMembers pointer members
  | _ => [pointer]

def placesOfItems (pointer : String) (position : Nat) : List Json → List String
  | [] => []
  | v :: rest =>
    placesFrom (child pointer (Text.natText position)) v
      ++ placesOfItems pointer (position + 1) rest

def placesOfMembers (pointer : String) : List (String × Json) → List String
  | [] => []
  | (key, v) :: rest => placesFrom (child pointer key) v ++ placesOfMembers pointer rest
end

def places (v : Json) : List String := placesFrom "" v

end HyperSchema.Pointer
