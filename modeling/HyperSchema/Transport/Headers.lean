import HyperSchema.Table

/-!
# Headers

Headers keep their order and may repeat. Their names are compared without regard to the case of the
letters from A to Z.
-/

namespace HyperSchema

abbrev Headers := List (String × String)

namespace Text

/-- A character's code, that of the lower case for the letters from A to Z. -/
def lowerCode (c : Char) : Nat :=
  if 65 ≤ c.toNat ∧ c.toNat ≤ 90 then c.toNat + 32 else c.toNat

/-- Equality up to the case of ASCII letters. -/
def sameIgnoringCase (a b : String) : Bool := a.toList.map lowerCode == b.toList.map lowerCode

end Text

namespace Headers

/-- All values under a name, in order. -/
def getAll (h : Headers) (name : String) : List String :=
  (h.filter (fun e => Text.sameIgnoringCase e.1 name)).map Prod.snd

/-- The first value under a name. -/
def get? (h : Headers) (name : String) : Option String := (h.getAll name).head?

end Headers

end HyperSchema
