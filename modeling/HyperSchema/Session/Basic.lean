import HyperSchema.Context.Basic
import HyperSchema.Model.Cache
import HyperSchema.Model.Errors
import HyperSchema.Transport.Memory

/-!
# Sessions

A session is one context with the models that share it, their cache and the documents in memory that
are fetched from. Models are known by number. What listeners and callbacks are told is written down
in the order in which it happens. A listener may answer its first event by a write to the same
model; what that write brings about is told before the events that were waiting already.
-/

namespace HyperSchema

/-- What a listener or a callback was told. -/
inductive Delivery where
  | notice (label path : String) (event : ModelEvent)
  | fired (label : String)
  deriving DecidableEq

/-- A write by which a listener answers its first event. -/
structure Reaction where
  model : Nat
  listener : Nat
  path : String
  value : Json

def Reaction.isOf (model listener : Nat) (r : Reaction) : Bool :=
  r.model == model && r.listener == listener

/-- Without a background nothing is fetched and nothing expires. Where requests overlap, all
requests of a step are made before the first is answered. -/
structure Session where
  context : Context
  transport : MemoryTransport
  models : List Model
  reactions : List Reaction
  cache : Cache
  background : Bool
  overlapping : Bool
  deliveries : List Delivery

namespace Session

def new (context : Context) (transport : MemoryTransport) (ttl : Nat)
    (background overlapping : Bool) : Session where
  context := context
  transport := transport
  models := []
  reactions := []
  cache := Cache.empty ttl
  background := background
  overlapping := overlapping
  deliveries := []

def model? (s : Session) (i : Nat) : Option Model := s.models[i]?

def setModel (s : Session) (i : Nat) (m : Model) : Session := { s with models := s.models.set i m }

def addModel (s : Session) (m : Model) : Nat × Session :=
  (s.models.length, { s with models := s.models ++ [m] })

def tell (s : Session) (d : Delivery) : Session := { s with deliveries := s.deliveries ++ [d] }

def tellNotice (s : Session) (n : Notice) : Session :=
  s.tell (.notice n.listener.label n.path n.event)

/-- The reaction of a listener that has not reacted yet. -/
def reaction? (s : Session) (model listener : Nat) : Option Reaction :=
  s.reactions.find? (Reaction.isOf model listener)

def dropReaction (s : Session) (model listener : Nat) : Session :=
  { s with reactions := s.reactions.filter (fun r => !r.isOf model listener) }

/-- Tells the listeners of a model what they have to know. Every reaction happens once, so their
number bounds how deep writes nest. -/
def deliver : Nat → Session → Nat → List Notice → Session
  | 0, s, _, notices => notices.foldl tellNotice s
  | depth + 1, s, model, notices =>
    notices.foldl (fun s n =>
      let s := s.tellNotice n
      match s.reaction? model n.listener.number, s.model? model with
      | some r, some m =>
        let s := s.dropReaction model n.listener.number
        match m.write? s.context.snapshot r.path r.value with
        | some (m, more) => deliver depth (s.setModel model m) model more
        | none => s
      | _, _ => s) s

def deliverAll (s : Session) (model : Nat) (notices : List Notice) : Session :=
  deliver s.reactions.length s model notices

def runCallback (s : Session) : Callback → Session
  | .wake => s
  | .fire label => s.tell (.fired label)

def runCallbacks (s : Session) (cs : List Callback) : Session := cs.foldl runCallback s

/-- Writes a value at a path of a model; answers whether there was a place for it. -/
def write (s : Session) (i : Nat) (path : String) (x : Json) : Bool × Session :=
  match s.model? i with
  | none => (false, s)
  | some m =>
    match m.write? s.context.snapshot path x with
    | some (m, notices) => (true, (s.setModel i m).deliverAll i notices)
    | none => (false, s)

/-- Applies a root schema to a model, which waits for missing schemas if there are any. -/
def addSchema (s : Session) (i : Nat) (uri : String) (document : Option Json) :
    Session × Option CompileError :=
  let uri := SchemaUri.normalize uri
  match s.context.addSchema uri document none with
  | (context, some e) => ({ s with context := context }, some e)
  | (context, none) =>
    let s := { s with context := context }
    let waiting := !context.missing.isEmpty
    match s.model? i with
    | none => (s, none)
    | some m =>
      let (m, notices) := m.addSchema context.snapshot uri waiting
      let s := (s.setModel i m).deliverAll i notices
      if waiting then ({ s with context := s.context.wait (.settle i) s.background }, none)
      else (s, none)

/-- Runs an errand; answers what is to be done next because of it. -/
def runErrand (s : Session) : Errand → List Errand × Session
  | .run _ c => ([], s.runCallback c)
  | .release (.callback c) => ([], s.runCallback c)
  | .release (.settle i) =>
    match s.model? i with
    | none => ([], s)
    | some m =>
      let (m, notices, due) := m.settle s.context.snapshot
      (due.map (.run i), (s.setModel i m).deliverAll i notices)

/-- Attaches a listener to a handle of a model, with a write by which it answers its first event if
it has one; answers its number. -/
def subscribe (s : Session) (i : Nat) (m : Model) (path label : String)
    (answer : Option (String × Json)) : Nat × Session :=
  let (m, number) := m.subscribe path label
  let reactions := answer.toList.map (fun (path, value) => Reaction.mk i number path value)
  let s := s.setModel i m
  (number, { s with reactions := s.reactions ++ reactions })

def unsubscribe (s : Session) (i : Nat) (path : String) (number : Nat) : Session :=
  match s.model? i with
  | some m => s.setModel i (m.unsubscribe path number)
  | none => s

/-- Leaves a callback for when a model is ready. -/
def whenReady (s : Session) (i : Nat) (c : Callback) : Session :=
  match s.model? i with
  | none => s
  | some m =>
    let (m, due) := m.whenReady c
    (s.setModel i m).runCallbacks due

/-- Leaves a callback for when no schema is missing. -/
def whenFetched (s : Session) (c : Callback) : Session :=
  { s with context := s.context.wait (.callback c) s.background }

def errorsAt (s : Session) (m : Model) (path : String) (f : ErrorFilter) : List ValidationError :=
  m.errorsAt s.context.fetchError? path f

end Session

end HyperSchema
