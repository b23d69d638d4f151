import HyperSchema.Json.Basic
import HyperSchema.SchemaUri

/-!
# Scanning a document

Before a document is stored, its references are made absolute. They are resolved against the nearest
enclosing id that was accepted; an id is accepted when it stays within the scope it stands in, since
one that escapes could pass itself off as another document. The values of an enumeration and of a
default are data, not schemas, and are left alone.
-/

namespace HyperSchema

/-- The target of a value that is a reference. -/
def Json.reference? (v : Json) : Option String := (v.member? "$ref").bind Json.asString?

/-- A value with absolute references, their targets, and the schemas below it with an id of
their own. -/
structure Scanned (α : Type) where
  value : α
  targets : List String
  named : List (String × Json)

namespace Scan

/-- Keywords whose values are data. -/
def isData (key : String) : Bool := key == "enum" || key == "default"

/-- The id of an object, made absolute, if its scope accepts it. -/
def ownId? (scope : String) (members : Table Json) : Option String :=
  match (Table.get? members "id").bind Json.asString? with
  | some id =>
    let resolved := SchemaUri.resolve scope id
    if SchemaUri.isWithin resolved scope then some resolved else none
  | none => none

/-- The URI that references in an object are resolved against. -/
def scopeOf (scope : String) (members : Table Json) : String := (ownId? scope members).getD scope

/-- The id under which an object can be found; the root of a document has its URI already. -/
def naming (root : Bool) (scope : String) (members : Table Json) (value : Json) :
    List (String × Json) :=
  if root then []
  else
    match ownId? scope members with
    | some id => [(id, value)]
    | none => []

/-- The absolute target of a member that makes its object a reference. -/
def target? (scope key : String) (v : Json) : Option String :=
  if key = "$ref" then v.asString?.map (SchemaUri.resolve scope) else none

mutual

def value (root : Bool) (scope : String) : Json → Scanned Json
  | .object ms =>
    let inner := members (scopeOf scope ms) ms
    ⟨.object inner.value, inner.targets, inner.named ++ naming root scope ms (.object inner.value)⟩
  | .array items =>
    let inner := list scope items
    ⟨.array inner.value, inner.targets, inner.named⟩
  | v => ⟨v, [], []⟩

def list (scope : String) : List Json → Scanned (List Json)
  | [] => ⟨[], [], []⟩
  | v :: rest =>
    let first := value false scope v
    let more := list scope rest
    ⟨first.value :: more.value, first.targets ++ more.targets, first.named ++ more.named⟩

def members (scope : String) : List (String × Json) → Scanned (List (String × Json))
  | [] => ⟨[], [], []⟩
  | (key, v) :: rest =>
    let first : Scanned Json := match target? scope key v with
      | some target => ⟨.string target, [target], []⟩
      | none => if isData key then ⟨v, [], []⟩ else value false scope v
    let more := members scope rest
    ⟨(key, first.value) :: more.value, first.targets ++ more.targets, first.named ++ more.named⟩

end

end Scan

/-- Scans a whole document. -/
def Json.scan (uri : String) (document : Json) : Scanned Json := Scan.value true uri document

end HyperSchema
