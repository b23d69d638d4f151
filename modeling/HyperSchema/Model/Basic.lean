import HyperSchema.Model.Handles
import HyperSchema.Pointer.Access
import HyperSchema.Transport.Response
import HyperSchema.Validation.Snapshot

/-!
# Models

A model is a document together with what its root schemas find in it. After every write all root
schemas are run again over the whole document, and the difference is told to the listeners: the
change itself to the handles from the written path up to the root and to those below it, then to
every handle the change of the schemas that apply to it. A model that waits for schemas counts what
it waits for; when the last has come, it runs its schemas again if there was any reason to.
-/

namespace HyperSchema

/-- The path of a change is relative to the handle; it is empty when the handle or something above
it was written. -/
inductive ModelEvent where
  | change (path : String)
  | schemaChange (added removed : List String)
  deriving DecidableEq

/-- An event on its way to a listener of a handle. -/
structure Notice where
  listener : Listener
  path : String
  event : ModelEvent
  deriving DecidableEq

/-- What is done when a model or a context has all its schemas. -/
inductive Callback where
  | wake
  | fire (label : String)
  deriving DecidableEq

structure Model where
  value : Json
  url : Option String
  schemas : List String
  schemaMap : PathMap String
  linkMap : PathMap Link
  missingMap : PathMap String
  errors : List ValidationError
  documentError : Option TransportError
  pending : Nat
  dirty : Bool
  callbacks : List Callback
  handles : Handles
  nextListener : Nat

namespace Model

/-- A model without schemas; the URL is where links are resolved from. -/
def new (value : Json) (url : Option String) : Model where
  value := value
  url := url
  schemas := []
  schemaMap := []
  linkMap := []
  missingMap := []
  errors := []
  documentError := none
  pending := 0
  dirty := false
  callbacks := []
  handles := []
  nextListener := 0

def withHandle (m : Model) (path : String) : Model := { m with handles := m.handles.register path }

def valueAt? (m : Model) (path : String) : Option Json := Pointer.get? m.value path

def schemasAt (m : Model) (path : String) : List String := m.schemaMap.entries path

def linksAt (m : Model) (path : String) : List Link := m.linkMap.entries path

/-- A link with its target resolved from the URL of the document. -/
def resolveLink (url : Option String) (l : Link) : Link :=
  match url with
  | some base => { l with href := SchemaUri.resolve base l.href }
  | none => l

/-- Runs all root schemas over the document. -/
def recompute (s : Snapshot) (m : Model) : Model :=
  let run := s.runAll m.schemas m.value "" ⟨[], some [], some [], some []⟩
  { m with
    errors := run.errors
    schemaMap := run.schemas.getD []
    linkMap := (run.links.getD []).map (fun (path, links) => (path, links.map (resolveLink m.url)))
    missingMap := run.missing.getD [] }

/-- The change of the schemas at a path. -/
def schemaEvent? (before after : List String) : Option ModelEvent :=
  let added := after.filter (fun s => !before.contains s)
  let removed := before.filter (fun s => !after.contains s)
  if added.isEmpty && removed.isEmpty then none else some (.schemaChange added removed)

/-- The changes of the schemas at all handles, parents first. -/
def schemaEvents (old : PathMap String) (m : Model) : List (String × ModelEvent) :=
  (m.handles.walk "").filterMap (fun path =>
    (schemaEvent? (old.entries path) (m.schemasAt path)).map (fun e => (path, e)))

/-- The changes that a write is for the handles: from the written path upwards, then below it. -/
def changeEvents (handles : Handles) (written : String) : List (String × ModelEvent) :=
  ((Pointer.lineage written).filter (Table.has handles)).map
      (fun path => (path, .change ((Pointer.relative? written path).getD "")))
    ++ ((handles.walk written).drop 1).map (fun path => (path, .change ""))

/-- Each event goes to all listeners of its handle. -/
def notices (m : Model) (events : List (String × ModelEvent)) : List Notice :=
  events.flatMap (fun (path, event) => (m.handles.listeners path).map (fun l => ⟨l, path, event⟩))

/-- Writes a value at a path; none when there is no place for it. -/
def write? (s : Snapshot) (m : Model) (path : String) (x : Json) : Option (Model × List Notice) :=
  let written := Pointer.writtenPath m.value path
  (Pointer.set? m.value path x).map (fun value =>
    let next := recompute s { m with value := value, dirty := m.dirty || 0 < m.pending }
    (next, next.notices (changeEvents next.handles written ++ next.schemaEvents m.schemaMap)))

/-- Applies another root schema; the model waits if schemas are missing. -/
def addSchema (s : Snapshot) (m : Model) (uri : String) (waiting : Bool) : Model × List Notice :=
  let next := recompute s
    { m with
      schemas := if m.schemas.contains uri then m.schemas else m.schemas ++ [uri]
      pending := if waiting then m.pending + 1 else m.pending
      dirty := m.dirty || waiting }
  (next, next.notices (next.schemaEvents m.schemaMap))

/-- Something that the model waited for has come. With the last of it the callbacks are due. -/
def settle (s : Snapshot) (m : Model) : Model × List Notice × List Callback :=
  let m := { m with pending := m.pending - 1 }
  if 0 < m.pending then (m, [], [])
  else
    let next := if m.dirty then recompute s { m with dirty := false } else m
    let events := if m.dirty then next.schemaEvents m.schemaMap else []
    ({ next with callbacks := [] }, next.notices events, m.callbacks)

/-- Leaves a callback for when the model is ready; it is due at once if the model is. -/
def whenReady (m : Model) (c : Callback) : Model × List Callback :=
  if 0 < m.pending then ({ m with callbacks := m.callbacks ++ [c] }, []) else (m, [c])

def isReady (m : Model) : Bool := m.pending == 0

/-- Attaches a listener, and answers its number. -/
def subscribe (m : Model) (path label : String) : Model × Nat :=
  ({ m with
      handles := m.handles.subscribe path ⟨m.nextListener, label⟩
      nextListener := m.nextListener + 1 },
    m.nextListener)

def unsubscribe (m : Model) (path : String) (number : Nat) : Model :=
  { m with handles := m.handles.unsubscribe path number }

end Model

end HyperSchema
