import HyperSchema.Options
import HyperSchema.Validation.Violation

/-!
# Findings and what is made of them

Evaluating a schema on a value yields findings: errors, and for the places in the value the schemas
that apply, the links found and the schemas that were absent. A state collects them. Errors are kept
in order; each map holds every entry once per path, in the order of its first finding, and only maps
that are enabled are kept at all.
-/

namespace HyperSchema

inductive Finding where
  | error (e : ValidationError)
  | schema (path uri : String)
  | link (path : String) (l : Link)
  | missing (path uri : String)

abbrev Findings := List Finding

namespace Findings

def errorOf? : Finding → Option ValidationError
  | .error e => some e
  | _ => none

def errors (fs : Findings) : List ValidationError := fs.filterMap errorOf?

/-- Whether there is no error. -/
def passes (fs : Findings) : Bool := fs.errors.isEmpty

/-- Joins what several evaluations found, if all of them came to an end. -/
def gather : List (Option Findings) → Option Findings
  | [] => some []
  | none :: _ => none
  | some fs :: rest => (gather rest).map (fs ++ ·)

end Findings

abbrev PathMap (α : Type) := Table (List α)

namespace PathMap

variable {α : Type} [DecidableEq α]

def entries (m : PathMap α) (path : String) : List α := (Table.get? m path).getD []

def add (m : PathMap α) (path : String) (x : α) : PathMap α :=
  if x ∈ entries m path then m else Table.insert m path (entries m path ++ [x])

def addAll (m : PathMap α) (path : String) (xs : List α) : PathMap α :=
  xs.foldl (fun m x => add m path x) m

def merge (m other : PathMap α) : PathMap α := other.foldl (fun m e => addAll m e.1 e.2) m

end PathMap

/-- What has been collected; a map that is off is absent. -/
structure ValidationState where
  errors : List ValidationError
  schemas : Option (PathMap String)
  links : Option (PathMap Link)
  missing : Option (PathMap String)

namespace ValidationState

def ofOptions (o : Options) : ValidationState where
  errors := []
  schemas := if o.assignSchemas then some [] else none
  links := if o.assignLinks then some [] else none
  missing := if o.trackMissing then some [] else none

/-- An empty state with the same maps enabled. -/
def fresh (s : ValidationState) : ValidationState :=
  ⟨[], s.schemas.map (fun _ => []), s.links.map (fun _ => []), s.missing.map (fun _ => [])⟩

def record (s : ValidationState) : Finding → ValidationState
  | .error e => { s with errors := s.errors ++ [e] }
  | .schema path uri => { s with schemas := s.schemas.map (fun m => m.add path uri) }
  | .link path l => { s with links := s.links.map (fun m => m.add path l) }
  | .missing path uri => { s with missing := s.missing.map (fun m => m.add path uri) }

def recordAll (s : ValidationState) (fs : Findings) : ValidationState := fs.foldl record s

/-- Adds the entries of another state's maps to the maps that are enabled here; its errors are
dropped. -/
def mergeAssignments (s other : ValidationState) : ValidationState :=
  { s with
    schemas := s.schemas.map (fun m => m.merge (other.schemas.getD []))
    links := s.links.map (fun m => m.merge (other.links.getD []))
    missing := s.missing.map (fun m => m.merge (other.missing.getD [])) }

def isValid (s : ValidationState) : Bool := s.errors.isEmpty

def mapToJson {α : Type} (encode : α → Json) (m : PathMap α) : Json :=
  .object (m.map (fun (path, xs) => (path, .array (xs.map encode))))

/-- The report of a run; a map that is off is left out. -/
def toJson (s : ValidationState) : Json :=
  .object
    ([("valid", .bool s.isValid), ("errors", .array (ValidationError.listToJson s.errors))]
      ++ (s.schemas.map (fun m => ("schemas", mapToJson .string m))).toList
      ++ (s.links.map (fun m => ("links", mapToJson Link.toJson m))).toList
      ++ (s.missing.map (fun m => ("missing", mapToJson .string m))).toList)

end ValidationState

end HyperSchema
