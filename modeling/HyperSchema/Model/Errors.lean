import HyperSchema.Model.Basic
import HyperSchema.NameSet

/-!
# Errors of a model

The errors at a path, or at and below it, are those that the schemas found; on demand those follow
that lie with the schemas themselves: a document or a schema that could not be had, and schemas that
are missing. They come in the order of their paths.
-/

namespace HyperSchema

/-- Which errors are asked for: those at exactly the path only, and those of fetching too. -/
structure ErrorFilter where
  exact : Bool
  withSchemaErrors : Bool

namespace ErrorFilter

def selects (f : ErrorFilter) (path candidate : String) : Bool :=
  if f.exact then candidate == path else Pointer.isWithin candidate path

end ErrorFilter

namespace PathMap

/-- The entries of a map in ascending order of the paths. -/
def sorted {α : Type} (m : PathMap α) : List (String × List α) :=
  (NameSet.insertAll [] (Table.keys m)).map (fun path => (path, (Table.get? m path).getD []))

end PathMap

namespace Model

/-- A schema that applies but whose document could not be had. -/
def fetchFailure (path schema : String) (e : TransportError) : ValidationError :=
  ⟨.schemaFetchFailed (SchemaUri.base schema) e.message, path, schema⟩

def documentFailures (m : Model) : List ValidationError :=
  match m.documentError with
  | some e => [⟨.documentFetchFailed (m.url.getD "") e.message, "", m.url.getD ""⟩]
  | none => []

/-- The errors of the schemas that apply. -/
def schemaFailures (m : Model) (fetchError? : String → Option TransportError) :
    List ValidationError :=
  m.schemaMap.sorted.flatMap (fun (path, schemas) =>
    schemas.filterMap (fun schema => (fetchError? schema).map (fetchFailure path schema)))

/-- The errors of the schemas that are missing; one that could not be had may yet be tried again. -/
def missingFailures (m : Model) (fetchError? : String → Option TransportError) :
    List ValidationError :=
  m.missingMap.sorted.flatMap (fun (path, schemas) =>
    schemas.map (fun schema =>
      match fetchError? schema with
      | some e => fetchFailure path schema e
      | none => ⟨.schemaMissing (SchemaUri.base schema), path, schema⟩))

/-- The errors that a filter selects for a path. -/
def errorsAt (m : Model) (fetchError? : String → Option TransportError) (path : String)
    (f : ErrorFilter) : List ValidationError :=
  let fetching :=
    if f.withSchemaErrors then
      m.documentFailures ++ m.schemaFailures fetchError? ++ m.missingFailures fetchError?
    else []
  (m.errors ++ fetching).filter (fun e => f.selects path e.path)

end Model

end HyperSchema
