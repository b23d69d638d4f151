import HyperSchema.NameSet
import HyperSchema.Store.Scan

/-!
# Stores of schema documents

A store is a stack of layers, each a table of documents by URI and a set of URIs of documents that
were referred to but not there. Only the top layer is written to; what is not found in it is looked
for further down. A document can be missing in one layer and be present in another, so the missing
ones are those recorded in any layer and found in none.
-/

namespace HyperSchema

structure Layer where
  schemas : Table Json
  missing : NameSet

structure Store where
  top : Layer
  below : List Layer

namespace Layer

def empty : Layer := ⟨[], []⟩

end Layer

namespace Store

def empty : Store := ⟨.empty, []⟩

/-- A new empty layer over a store. -/
def layered (s : Store) : Store := ⟨.empty, s.top :: s.below⟩

def layers (s : Store) : List Layer := s.top :: s.below

/-- The entry under exactly this URI, in the first layer that has one. -/
def find? (s : Store) (uri : String) : Option Json :=
  s.layers.findSome? (fun l => Table.get? l.schemas uri)

def contains (s : Store) (uri : String) : Bool := (s.find? uri).isSome

/-- The documents referred to and absent, in ascending order. -/
def missing (s : Store) : NameSet :=
  let all := s.layers.foldl (fun all l => NameSet.insertAll all l.missing) []
  all.filter (fun uri => !s.contains uri)

/-- Records that a document is missing. -/
def recordMissing (s : Store) (base : String) : Store :=
  { s with top := { s.top with missing := s.top.missing.insert base } }

/-- Records the document of a URI as missing unless it is there. -/
def markMissing (s : Store) (uri : String) : Store :=
  if s.contains (SchemaUri.base uri) then s else s.recordMissing (SchemaUri.base uri)

/-- Stores a schema under its own id, unless that is taken in the top layer. -/
def addNamed (s : Store) (entry : String × Json) : Store :=
  { s with
    top :=
      ⟨Table.insertNew s.top.schemas entry.1 entry.2,
        NameSet.erase s.top.missing (SchemaUri.base entry.1)⟩ }

/-- Records the document of a reference as missing if nothing is found for it. -/
def noteTarget (s : Store) (target : String) : Store :=
  if s.contains target || s.contains (SchemaUri.base target) then s
  else s.recordMissing (SchemaUri.base target)

/-- Puts a value in the place of a document. -/
def put (s : Store) (uri : String) (value : Json) : Store :=
  { s with
    top :=
      ⟨Table.insert s.top.schemas uri value, NameSet.erase s.top.missing (SchemaUri.base uri)⟩ }

/-- Adds a document: its references made absolute, with the schemas in it that have an id of their
own, and with a record of what it misses. -/
def add (s : Store) (uri : String) (document : Json) : Store :=
  let uri := SchemaUri.normalize uri
  let scanned := document.scan uri
  scanned.targets.foldl noteTarget (scanned.named.foldl addNamed (s.put uri scanned.value))

end Store

end HyperSchema
