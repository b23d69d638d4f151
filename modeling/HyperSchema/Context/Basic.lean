import HyperSchema.Context.Requests
import HyperSchema.Model.Basic
import HyperSchema.Registry

/-!
# Contexts

A context keeps the registered schemas of several models and fetches the documents that are missing.
Fetching goes in rounds. A fetch gives way once before its first round, so that what is registered
in the meantime is there by then. A round calls for every missing document that this fetch has not
tried yet; its answers are taken in together, and the schemas compiled. A document that cannot be
had is taken to be null, unless it is worth another try. When there is nothing left to try, the
fetch ends, and all who wait are released as one batch. They are let go one after the other while
everything else goes on, and so another fetch may end before the last of them has gone.
-/

namespace HyperSchema

/-- Who waits for the missing schemas. -/
inductive Waiter where
  | callback (c : Callback)
  | settle (model : Nat)
  deriving DecidableEq

/-- What remains to be done when a fetch has ended: to let someone go who waited, or to run a
callback of a model that has become ready. -/
inductive Errand where
  | release (w : Waiter)
  | run (model : Nat) (c : Callback)
  deriving DecidableEq

/-- Where the fetching stands: at rest, giving way before its first round, about to look for what is
missing, or waiting for the answers of a round. -/
inductive Fetching where
  | idle
  | starting
  | looking (tried : List String)
  | awaiting (tried : List String) (calls : List Call)

/-- Every fetch that has ended has a batch of errands, of which the first is to be run next. -/
structure Context where
  parent : Option Store
  options : Options
  formats : Table Format
  registry : Registry
  snapshot : Snapshot
  fetchErrors : Table TransportError
  requests : Requests
  fetching : Fetching
  waiters : List Waiter
  batches : List (List Errand)

namespace Context

/-- A registry over the parent store, with the formats that have been registered. -/
def freshRegistry (parent : Option Store) (options : Options) (formats : Table Format) : Registry :=
  { Registry.ofStore ((parent.map Store.layered).getD Store.empty) options with formats := formats }

def new (parent : Option Store) (options : Options) : Context where
  parent := parent
  options := options
  formats := []
  registry := freshRegistry parent options []
  snapshot := (freshRegistry parent options []).snapshot
  fetchErrors := []
  requests := Requests.empty
  fetching := .idle
  waiters := []
  batches := []

def missing (c : Context) : NameSet := c.registry.missingDocuments

/-- The error with which the document of a schema could not be had. -/
def fetchError? (c : Context) (uri : String) : Option TransportError :=
  Table.get? c.fetchErrors (SchemaUri.base uri)

/-- Compiles what can be compiled, and keeps the snapshot whether or not all went well. -/
def recompile (c : Context) : Context × Option PatternError :=
  let (registry, failure) := c.registry.compile
  ({ c with registry := registry, snapshot := registry.snapshot }, failure)

/-- Registers a root schema and compiles. -/
def addSchema (c : Context) (uri : String) (document : Option Json) (name : Option String) :
    Context × Option CompileError :=
  match c.registry.addSchema uri document name with
  | .error e => (c, some (.alreadyCompiled e))
  | .ok registry =>
    let (c, failure) := { c with registry := registry }.recompile
    (c, failure.map CompileError.invalidPattern)

/-- Registers a test for a format; it outlasts cleaning. -/
def registerFormat (c : Context) (name : String) (refusal? : Json → Option String) : Context :=
  { c with
    registry := c.registry.registerFormat name refusal?
    formats := Table.insert c.formats name ⟨name, refusal?⟩ }

/-- Forgets all schemas, documents and requests. Formats, those who wait and a fetch that is under
way stay. -/
def clean (c : Context) : Context :=
  let registry := freshRegistry c.parent c.options c.formats
  { c with
    registry := registry
    snapshot := registry.snapshot
    fetchErrors := []
    requests := { c.requests with shared := [] } }

def isFetching (c : Context) : Bool :=
  match c.fetching with
  | .idle => false
  | _ => true

/-- Adds someone who waits; where there is a background, a fetch begins unless one is under way. -/
def wait (c : Context) (w : Waiter) (background : Bool) : Context :=
  { c with
    waiters := c.waiters ++ [w]
    fetching := match c.fetching with
      | .idle => if background then .starting else .idle
      | fetching => fetching }

/-- The calls whose answers the fetch waits for. -/
def calls (c : Context) : List Call :=
  match c.fetching with
  | .awaiting _ calls => calls
  | _ => []

/-- Ends the fetch, and releases all who wait. -/
def endFetch (c : Context) : Context :=
  { c with
    fetching := .idle
    waiters := []
    batches := c.batches ++ [c.waiters.map Errand.release] }

/-- Looks for missing documents: calls for those not tried yet, or ends the fetch. -/
def look (c : Context) (tried : List String) : Context :=
  match c.missing.filter (fun base => !tried.contains base) with
  | [] => c.endFetch
  | bases =>
    let (calls, requests) := c.requests.callAll bases
    { c with requests := requests, fetching := .awaiting tried calls }

/-- Takes in the answer for a document. -/
def takeAnswer (c : Context) (base : String) (a : Answer) : Context :=
  let supply := fun (c : Context) (document : Json) =>
    match c.registry.addSchema base (some document) none with
    | .ok registry => { c with registry := registry }
    | .error _ => c
  match a with
  | .ok document => supply { c with fetchErrors := Table.erase c.fetchErrors base } document
  | .error e =>
    let c := { c with fetchErrors := Table.insert c.fetchErrors base e }
    if e.isTransient then c else supply c .null

/-- Ends a round: takes in its answers and compiles. -/
def finishRound (c : Context) (tried : List String) (calls : List Call) : Context :=
  let (answers, requests) := c.requests.takeAll calls
  let c := answers.foldl (fun c a => c.takeAnswer a.1 a.2) { c with requests := requests }
  { c.recompile.1 with fetching := .looking (tried ++ calls.map Call.base) }

end Context

end HyperSchema
