import HyperSchema.Session.Basic

/-!
# The background of a session

The background answers requests, carries the fetch of missing documents from round to round,
releases those who wait, and lets the timers of the cache look at the clock. It is run until nothing
is left to do. Every round tries a document that has not been tried before, and each of those was
missing from the start or is referred to in a document that can be fetched, so their number bounds
the rounds. Where requests overlap, each gives way once before it is answered, and the fetch takes
its turn meanwhile.
-/

namespace HyperSchema

namespace Session

/-- Sends a request and takes down the answer. -/
def answerCall (s : Session) (c : Call) : Session :=
  let (response, transport) := s.transport.fetch (Request.get c.base)
  let answer := response.bind (fun r => r.document c.base)
  { s with
    transport := transport
    context := { s.context with requests := s.context.requests.answer c.request answer } }

/-- Answers the requests of some callers, in order, as far as they are open. -/
def answerFor (s : Session) (calls : List Call) : Session :=
  (s.context.requests.unanswered.filter
    (fun o => (calls.map Call.request).contains o.request)).foldl answerCall s

/-- The next thing that the fetch has to do. -/
def fetchStep (s : Session) : Session :=
  match s.context.fetching with
  | .idle => s
  | .starting => { s with context := { s.context with fetching := .looking [] } }
  | .looking tried => { s with context := s.context.look tried }
  | .awaiting tried calls =>
    let s := s.answerFor calls
    { s with context := s.context.finishRound tried calls }

/-- Runs an errand, and then what is to be done because of it. -/
def finishErrand (s : Session) (e : Errand) : Session :=
  (s.runErrand e).1.foldl (fun s e => (s.runErrand e).2) (s.runErrand e).2

/-- Runs the errands of all batches, in order. -/
def runBatches (s : Session) : Session :=
  let s' := s.context.batches.flatten.foldl finishErrand s
  { s' with context := { s'.context with batches := s.context.batches.map (fun _ => []) } }

/-- Carries a fetch on until it is at rest. -/
def fetchOn : Nat → Session → Session
  | 0, s => s
  | steps + 1, s => if s.context.isFetching then fetchOn steps s.fetchStep else s

/-- The references in a body that can be read. -/
def referencesIn (r : Response) : List String :=
  match r.body with
  | .json v => v.references
  | .text t => ((Json.parse? t).map Json.references).getD []

/-- The references in the document of an answer. -/
def referencesOf : Answer → List String
  | .ok document => document.references
  | .error _ => []

/-- How many documents a fetch can try at most. -/
def roundBound (s : Session) : Nat :=
  let registry := s.context.registry
  s.context.missing.length + registry.queue.length + registry.store.references.length
    + (s.context.requests.answers.flatMap (fun a => referencesOf a.2)).length
    + (s.transport.documents.flatMap (fun d => referencesIn d.2)).length

/-- Carries the fetch on to its end. It gives way once, and a round takes two steps. -/
def fetchAll (s : Session) : Session := fetchOn (2 * s.roundBound + 3) s

/-- The fetch looks for what is missing, and gives way for the requests that it begins. One that it
joins has given way already and is answered at once; with that the fetch is awake. -/
def lookOn (s : Session) : Session :=
  let looked := s.fetchStep
  if looked.context.calls.any (fun c => c.request < s.context.requests.next) then looked.fetchAll
  else looked

/-- What the fetch does while a request of someone else gives way. It gives way before its first
round, and then for the answers of that. By an answer that it has taken itself it is woken, so that
from there on it comes to its end in one go. -/
def turn (s : Session) : Session :=
  match s.context.fetching with
  | .idle => s
  | .starting => s.fetchStep
  | .looking _ => s.lookOn.runBatches
  | .awaiting _ calls =>
    if calls.any (fun c => s.context.requests.isOpen c.request) then s.fetchAll.runBatches
    else s.fetchStep.lookOn.runBatches

/-- Calls for documents and takes the answers, all at once. Where a request has to be begun,
something may happen before its answer is there. -/
def fetchTogether (meanwhile : Session → Session) (s : Session) (urls : List String) :
    List Answer × Session :=
  let (calls, requests) := s.context.requests.callAll (urls.map SchemaUri.base)
  let begun := s.context.requests.next < requests.next
  let s := { s with context := { s.context with requests := requests } }
  let s := (if begun then meanwhile s else s).answerFor calls
  let (answers, requests) := s.context.requests.takeAll calls
  (answers.map Prod.snd, { s with context := { s.context with requests := requests } })

/-- Calls for documents one after the other. -/
def fetchInTurn (s : Session) : List String → List Answer × Session
  | [] => ([], s)
  | url :: rest =>
    let (first, s) := fetchTogether id s [url]
    let (more, s) := fetchInTurn s rest
    (first ++ more, s)

/-- Fetches the documents of schemas. -/
def fetchSchemas (s : Session) (urls : List String) : List Answer × Session :=
  if s.overlapping then fetchTogether turn s urls else s.fetchInTurn urls

/-- Runs the background until nothing is left to do. -/
def runBackground (s : Session) : Session :=
  let s := s.fetchAll.runBatches
  { s with cache := s.cache.tick }

/-- Does what needs a background; without one nothing comes of it. -/
def inBackground? {α : Type} (s : Session) (act : Session → α) : Option α :=
  if s.background then some (act s) else none

/-- Waits until no schema is missing. -/
def fetchMissing (s : Session) : Session := (s.whenFetched .wake).runBackground

/-- Waits until a model is ready. -/
def awaitReady (s : Session) (i : Nat) : Session := (s.whenReady i .wake).runBackground

/-- Moves the clock. -/
def advance (s : Session) (milliseconds : Nat) : Session :=
  let s := s.runBackground
  { s with cache := s.cache.advance milliseconds }

end Session

end HyperSchema
