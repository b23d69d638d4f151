import HyperSchema.Json.Basic
import HyperSchema.Text.Count

/-!
# Options and links in configuration

What a validator keeps track of, how long an unused model stays open, and the links found for a
value. Each is read from JSON: an object gives fields by name, unknown ones being ignored, and an
array gives them in order. Options left out take their defaults; a link has to be complete.
-/

namespace HyperSchema

/-- Which maps a run fills in besides the errors, and the unit string lengths are counted in: code
points or UTF-16 units. -/
structure Options where
  assignSchemas : Bool
  assignLinks : Bool
  trackMissing : Bool
  unicodeLength : Bool
  deriving DecidableEq

/-- How long, in milliseconds, a model stays open unused. -/
structure CacheOptions where
  ttl : Nat
  deriving DecidableEq

/-- A hyper-schema link resolved for a value. -/
structure Link where
  href : String
  rel : String
  method : String
  deriving DecidableEq

def Options.standard : Options := ⟨false, false, false, true⟩

/-- All maps on. -/
def Options.tracking : Options := ⟨true, true, true, true⟩

def CacheOptions.standard : CacheOptions := ⟨60000⟩

namespace Config

/-- The field values given by an object or an array, in the order of the names; an array may not be
longer than the names. -/
def fields? (names : List String) : Json → Option (List (Option Json))
  | .object members => some (names.map (Table.get? members))
  | .array items =>
    if items.length ≤ names.length then
      some (items.map some ++ List.replicate (names.length - items.length) none)
    else none
  | _ => none

/-- A flag that may be left out but not be anything else than a boolean. -/
def flag? (standard : Bool) : Option Json → Option Bool
  | none => some standard
  | some (.bool b) => some b
  | some _ => none

/-- A count that may be left out but not be anything else than a natural number. -/
def count? (standard : Nat) : Option Json → Option Nat
  | none => some standard
  | some (.number (.int n)) => if 0 ≤ n then some n.toNat else none
  | some _ => none

def text? : Option Json → Option String
  | some (.string s) => some s
  | _ => none

end Config

namespace Options

def names : List String := ["assign_schemas", "assign_links", "track_missing", "unicode_length"]

def ofJson? (v : Json) : Option Options :=
  match Config.fields? names v with
  | some [schemas, links, missing, unicode] => do
    let schemas ← Config.flag? standard.assignSchemas schemas
    let links ← Config.flag? standard.assignLinks links
    let missing ← Config.flag? standard.trackMissing missing
    let unicode ← Config.flag? standard.unicodeLength unicode
    some ⟨schemas, links, missing, unicode⟩
  | _ => none

def toJson (o : Options) : Json :=
  .object (names.zip
    [.bool o.assignSchemas, .bool o.assignLinks, .bool o.trackMissing, .bool o.unicodeLength])

end Options

namespace CacheOptions

def ofJson? (v : Json) : Option CacheOptions :=
  match Config.fields? ["ttl"] v with
  | some [ttl] => (Config.count? standard.ttl ttl).map CacheOptions.mk
  | _ => none

def toJson (o : CacheOptions) : Json := .object [("ttl", .ofNat o.ttl)]

end CacheOptions

namespace Link

def names : List String := ["href", "rel", "method"]

def ofJson? (v : Json) : Option Link :=
  match Config.fields? names v with
  | some [href, rel, method] => do
    let href ← Config.text? href
    let rel ← Config.text? rel
    let method ← Config.text? method
    some ⟨href, rel, method⟩
  | _ => none

def toJson (l : Link) : Json :=
  .object (names.zip [.string l.href, .string l.rel, .string l.method])

end Link

end HyperSchema
