import HyperSchema.Store.Resolution
import HyperSchema.Validation.Reading
import HyperSchema.Validation.Snapshot

/-!
# Registered schemas

A registry compiles schemas as they become available. Registering a URI queues it; compiling works
through the queue, and each schema that is read queues the targets of its references. A URI whose
document is absent stays queued for the next time. A URI that leads to another one by references
becomes an alias of it, and one whose references go in circles is remembered with its chain. No URI
is compiled twice.
-/

namespace HyperSchema

structure Registry where
  store : Store
  options : Options
  formats : Table Format
  names : Table String
  aliases : Table String
  missing : NameSet
  handled : List String
  queue : List String
  entries : Table Entry
  roots : List String

/-- A document came too late: its URI has been compiled without it or with another one. -/
structure AlreadyCompiled where
  uri : String
  deriving DecidableEq

def AlreadyCompiled.message (e : AlreadyCompiled) : String :=
  "schema " ++ e.uri ++ " has already been compiled"

namespace Registry

/-- A registry that reads schemas from a store. -/
def ofStore (store : Store) (options : Options) : Registry where
  store := store
  options := options
  formats := []
  names := []
  aliases := []
  missing := []
  handled := []
  queue := []
  entries := []
  roots := []

def empty (options : Options) : Registry := ofStore Store.empty options

/-- Registers a test for the name of a format; schemas read from now on use it. -/
def registerFormat (r : Registry) (name : String) (refusal? : Json → Option String) : Registry :=
  { r with formats := Table.insert r.formats name ⟨name, refusal?⟩ }

/-- Whether some URI of a document has been compiled. -/
def handlesBase (r : Registry) (base : String) : Bool :=
  r.handled.any (fun h => SchemaUri.base h == base)

/-- Takes in a document, or records that there is none yet. -/
def supply (r : Registry) (uri : String) : Option Json → Registry
  | some document =>
    { r with
      store := r.store.add uri document
      missing := r.missing.filter (fun m => SchemaUri.base m ≠ SchemaUri.base uri) }
  | none =>
    if r.store.contains uri || r.store.contains (SchemaUri.base uri) then r
    else { r with missing := r.missing.insert uri, store := r.store.markMissing uri }

/-- Makes a URI a root, and queues it unless it has been compiled. -/
def enrol (r : Registry) (uri : String) (name : Option String) : Registry :=
  { r with
    names := match name with
      | some name => Table.insert r.names uri name
      | none => r.names
    roots := if r.roots.contains uri then r.roots else r.roots ++ [uri]
    queue := if r.handled.contains uri then r.queue else r.queue ++ [uri] }

/-- Registers a root schema, with its document and its name if they are known. A document is refused
once its URI has been compiled. -/
def addSchema (r : Registry) (uri : String) (document : Option Json) (name : Option String) :
    Except AlreadyCompiled Registry :=
  let uri := SchemaUri.normalize uri
  if document.isSome && r.handlesBase (SchemaUri.base uri) then .error ⟨uri⟩
  else .ok ((r.supply uri document).enrol uri name)

def name? (r : Registry) (uri : String) : Option String :=
  Table.get? r.names (SchemaUri.normalize uri)

/-- The documents that have to be supplied before everything can be compiled, in ascending order. -/
def missingDocuments (r : Registry) : NameSet :=
  (NameSet.insertAll (NameSet.insertAll [] (r.missing.map SchemaUri.base)) r.store.missing).filter
    (fun base => !r.store.contains base)

def isCompiled (r : Registry) (uri : String) : Bool := r.handled.contains (SchemaUri.normalize uri)

def snapshot (r : Registry) : Snapshot := ⟨r.entries, r.aliases, r.options⟩

def finish (r : Registry) (uri : String) : Registry :=
  { r with
    handled := if r.handled.contains uri then r.handled else r.handled ++ [uri]
    missing := NameSet.erase r.missing uri }

/-- Queues a URI unless it has been compiled or is queued already. -/
def enqueue (r : Registry) (uri : String) : Registry :=
  if r.handled.contains uri || r.queue.contains uri then r else { r with queue := r.queue ++ [uri] }

/-- What a document that is no schema counts as: the placeholder of a document that could not be had
is a schema without keywords. -/
def schemaOf : Json → Json
  | .object members => .object members
  | .bool false => .bool false
  | _ => .object []

def readSchema (r : Registry) (uri : String) (document : Json) :
    Except PatternError CompiledSchema :=
  (Node.ofSchema r.formats uri (schemaOf document)).map (fun node =>
    ⟨uri, Table.get? r.names uri, node⟩)

/-- Compiles one URI. Answers the error if its schema cannot be read, and whether it has to wait for
its document. -/
def compileUri (r : Registry) (uri : String) : Registry × Option PatternError × Bool :=
  let (outcome, store) := r.store.resolve? uri
  let r := { r with store := store }
  match outcome with
  | .error circle =>
    let r := r.finish uri
    ({ r with entries := Table.insert r.entries uri (.circular circle.chain) }, none, false)
  | .ok none => ({ r with missing := r.missing.insert uri }, none, true)
  | .ok (some resolved) =>
    if resolved.uri = uri then
      match r.readSchema uri resolved.value with
      | .ok schema =>
        let r := schema.node.targets.foldl enqueue (r.finish uri)
        ({ r with entries := Table.insert r.entries uri (.compiled schema) }, none, false)
      | .error e => (r.finish uri, some e, false)
    else
      let r := (r.finish uri).enqueue resolved.uri
      ({ r with aliases := Table.insert r.aliases uri resolved.uri }, none, false)

/-- Works through the queue, remembering what has to wait and the first error. What waits goes back
into the queue at the end. -/
def drain :
    Nat → Registry → List String → Option PatternError → Registry × Option PatternError
  | 0, r, waiting, failure => ({ r with queue := r.queue ++ waiting }, failure)
  | steps + 1, r, waiting, failure =>
    match r.queue with
    | [] => ({ r with queue := waiting }, failure)
    | uri :: rest =>
      let r := { r with queue := rest }
      if r.handled.contains uri then drain steps r waiting failure
      else
        let (r, error, waits) := r.compileUri uri
        drain steps r (if waits then waiting ++ [uri] else waiting) (failure.or error)

/-- Every URI taken from the queue was queued at the start or is the target of a reference in the
store, up to hash signs at its end. Each is compiled once, and queues each of the others at most
once. -/
def drainBound (r : Registry) : Nat :=
  let uris := (r.store.references ++ r.queue).foldl (fun n uri => n + uri.length + 1) 0
  r.queue.length + uris * (uris + 1) + 1

/-- Compiles everything that is queued and available. -/
def compile (r : Registry) : Registry × Option PatternError := drain r.drainBound r [] none

end Registry

/-- The URI of a schema that does not declare one. -/
def inlineUri : String := "urn:json-model:inline"

/-- Why a schema cannot be compiled. -/
inductive CompileError where
  | alreadyCompiled (e : AlreadyCompiled)
  | invalidPattern (e : PatternError)
  deriving DecidableEq

def CompileError.message : CompileError → String
  | .alreadyCompiled e => e.message
  | .invalidPattern e => e.message

/-- Validates a value against a single schema document, by itself. -/
def validate (options : Options) (schema v : Json) : Except CompileError ValidationState :=
  let uri := ((schema.member? "id").bind Json.asString?).getD inlineUri
  match (Registry.empty options).addSchema uri (some schema) none with
  | .error e => .error (.alreadyCompiled e)
  | .ok r =>
    match r.compile with
    | (_, some e) => .error (.invalidPattern e)
    | (r, none) => .ok (r.snapshot.validate uri v)

end HyperSchema
