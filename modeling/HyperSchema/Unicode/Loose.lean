import HyperSchema.Unicode.Category
import HyperSchema.Unicode.Property
import HyperSchema.Unicode.Script

/-!
# Loose names of classes

A class of code points may be named with any case, with blanks, hyphens and underscores anywhere,
and with "is" in front. A bare name is a property, else a general category, else a script; a name
with a value says which it means.
-/

namespace HyperSchema.Unicode

def isSeparator (c : Char) : Bool := c == ' ' || c == '_' || c == '-'

/-- The canonical spelling of a loose name. -/
def loose (name : List Char) : String :=
  let lower := name.map Char.toLower
  let squeeze := fun (cs : List Char) => cs.filter (fun c => !isSeparator c && c.toNat < 128)
  match lower with
  | 'i' :: 's' :: rest =>
    let rest := squeeze rest
    if rest = ['c'] then "isc" else String.ofList rest
  | lower => String.ofList (squeeze lower)

/-- The abbreviations that are both properties and categories mean categories. -/
def isCategoryFirst (name : String) : Bool := ["cf", "sc", "lc"].contains name

/-- The class with a bare name. -/
def named? (name : List Char) : Option CharSet :=
  let name := loose name
  let asProperty := if isCategoryFirst name then none else property? name
  asProperty.orElse (fun _ => (category? name).orElse (fun _ => script? name))

/-- The class whose property has a value. -/
def valued? (property value : List Char) : Option CharSet :=
  let value := loose value
  match loose property with
  | "gc" => category? value
  | "generalcategory" => category? value
  | "sc" => script? value
  | "script" => script? value
  | "scx" => script? value
  | "scriptextensions" => script? value
  | _ => none

/-- The decimal digits of all scripts. -/
def digits : CharSet := inCategories ["Nd"]

def whitespace : CharSet := alternating whiteSpaceRuns

/-- What words are made of: letters and what joins them. -/
def wordSet : CharSet :=
  CharSet.ofList (alternating alphabeticRuns ++ inCategories ["Mn", "Mc", "Me", "Nd", "Pc"]
    ++ alternating joinControlRuns)

def isWhitespace (c : Char) : Bool := whitespace.has c.toNat

end HyperSchema.Unicode
