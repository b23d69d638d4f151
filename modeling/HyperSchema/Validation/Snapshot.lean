import HyperSchema.SchemaUri
import HyperSchema.Validation.Evaluation

/-!
# Snapshots

A snapshot holds the compiled schemas by URI, the URIs that are aliases of others, and those whose
references go in circles. Running a URI on a value evaluates its schema, and the schemas it refers
to in turn. A schema that is called again at the place where it is already being evaluated would go
on for ever; such a call is cut off with an error. A schema that is not there imposes nothing.
-/

namespace HyperSchema

/-- A schema ready for evaluation, under its URI. -/
structure CompiledSchema where
  uri : String
  name : Option String
  node : Node

inductive Entry where
  | compiled (schema : CompiledSchema)
  | circular (chain : List String)

structure Snapshot where
  entries : Table Entry
  aliases : Table String
  options : Options

/-- A call in progress: a schema by its URI, and the path it is evaluated at. -/
abbrev ActiveCall := String × String

namespace Snapshot

def empty : Snapshot := ⟨[], [], Options.standard⟩

/-- Follows aliases up to an entry, for a bounded number of steps. -/
def targetWithin (s : Snapshot) : Nat → String → Option Entry
  | 0, _ => none
  | steps + 1, uri =>
    match Table.get? s.entries uri with
    | some entry => some entry
    | none =>
      match Table.get? s.aliases uri with
      | some next => targetWithin s steps next
      | none => none

/-- The entry that a URI leads to; no chain of aliases is longer than their number. -/
def target? (s : Snapshot) (uri : String) : Option Entry :=
  s.targetWithin (s.aliases.length + 1) uri

/-- The compiled schema that a URI leads to. -/
def schema? (s : Snapshot) (uri : String) : Option CompiledSchema :=
  match s.target? (SchemaUri.normalize uri) with
  | some (.compiled schema) => some schema
  | _ => none

/-- Whether a URI has been compiled, in whatever way. -/
def contains (s : Snapshot) (uri : String) : Bool :=
  Table.has s.entries (SchemaUri.normalize uri) || Table.has s.aliases (SchemaUri.normalize uri)

def isEmpty (s : Snapshot) : Bool := s.entries.isEmpty

/-- Calls a schema while others are active; no result when the calls nest deeper than the bound. -/
def call (s : Snapshot) : Nat → List ActiveCall → String → Json → String → Option Findings
  | 0, _, _, _, _ => none
  | depth + 1, active, target, v, path =>
    match s.target? target with
    | none => some [.missing path target]
    | some (.circular chain) => some [.violation path target (.circularReference chain)]
    | some (.compiled schema) =>
      if active.contains (schema.uri, path) then
        some [.violation path target (.circularReference [target])]
      else
        let env : Environment :=
          ⟨s.call depth ((schema.uri, path) :: active), s.options.unicodeLength⟩
        schema.node.evaluate env v path

/-- Calls nest at most once per schema and level of the value. -/
def depthBound (s : Snapshot) (v : Json) : Nat := (v.height + 1) * s.entries.length + 1

/-- What running a URI on a value at a path finds. -/
def findings (s : Snapshot) (uri : String) (v : Json) (path : String) : Findings :=
  (s.call (s.depthBound v) [] (SchemaUri.normalize uri) v path).getD []

/-- Runs a URI on a value at a path, adding to a state. -/
def run (s : Snapshot) (uri : String) (v : Json) (path : String) (state : ValidationState) :
    ValidationState :=
  state.recordAll (s.findings uri v path)

/-- What a compiled schema finds by itself; it is not active from the start. -/
def schemaFindings (s : Snapshot) (schema : CompiledSchema) (v : Json) (path : String) : Findings :=
  (schema.node.evaluate ⟨s.call (s.depthBound v) [], s.options.unicodeLength⟩ v path).getD []

/-- Runs several URIs in turn at a path on one state. -/
def runAll (s : Snapshot) (uris : List String) (v : Json) (path : String)
    (state : ValidationState) : ValidationState :=
  uris.foldl (fun state uri => s.run uri v path state) state

/-- Validates a value against several schemas. -/
def validateAll (s : Snapshot) (uris : List String) (v : Json) : ValidationState :=
  s.runAll uris v "" (ValidationState.ofOptions s.options)

/-- Validates a value against one schema. -/
def validate (s : Snapshot) (uri : String) (v : Json) : ValidationState := s.validateAll [uri] v

end Snapshot

end HyperSchema
