import HyperSchema.Session.Background
import HyperSchema.Transport.DescribedBy

/-!
# Opening models

A model is opened from the URL of its document, or created from a value. The schemas of a fetched
document are those that its headers name. A document that cannot be had is opened all the same, as
null, and its model reports the error. Models with a URL go into the cache, where they may be looked
up, used again, or taken out.
-/

namespace HyperSchema

namespace Session

/-- Applies root schemas one after the other, up to the first that cannot be compiled. -/
def addSchemas (s : Session) (i : Nat) : List String → Session × Option CompileError
  | [] => (s, none)
  | uri :: rest =>
    match s.addSchema i uri none with
    | (s, some e) => (s, some e)
    | (s, none) => addSchemas s i rest

/-- Puts a model into the cache; answers the model that is there for the URL. -/
def cacheModel (s : Session) (url : String) (i : Nat) : Nat × Session :=
  let (j, cache) := s.cache.insert url i s.background
  (j, { s with cache := cache })

/-- The response for a document. -/
def fetchDocument (s : Session) (url : String) :
    Except TransportError (Response × Json) × Session :=
  let (response, transport) := s.transport.fetch ⟨"GET", url, [("accept", "application/json")]⟩
  let found := response.bind (fun r => (r.document url).map (fun v => (r, v)))
  (found, { s with transport := transport })

/-- Opens the document at a URL, or the model that is cached for it. -/
def openModel (s : Session) (url : String) : Except CompileError Nat × Session :=
  match s.cache.get? url with
  | some i => (.ok i, { s with cache := s.cache.touch url })
  | none =>
    let (found, s) := (if s.overlapping then s.turn else s).fetchDocument url
    match found with
    | .error e =>
      let (i, s) := s.addModel { Model.new .null (some url) with documentError := some e }
      let (j, s) := s.cacheModel url i
      (.ok j, s)
    | .ok (response, v) =>
      let (i, s) := s.addModel (Model.new v (some url))
      match s.addSchemas i (response.headers.describedBy url) with
      | (s, some e) => (.error e, s)
      | (s, none) =>
        let (j, s) := s.cacheModel url i
        (.ok j, s)

/-- Makes a model of a value, with the given root schemas. -/
def createModel (s : Session) (url : Option String) (v : Json) (schemas : List String) :
    Except CompileError Nat × Session :=
  let (i, s) := s.addModel (Model.new v url)
  let absolute := fun (schema : String) =>
    match url with
    | some base => SchemaUri.resolve base schema
    | none => SchemaUri.normalize schema
  match s.addSchemas i (schemas.map absolute) with
  | (s, some e) => (.error e, s)
  | (s, none) =>
    match url with
    | some url =>
      let (j, s) := s.cacheModel url i
      (.ok j, s)
    | none => (.ok i, s)

/-- The cached model for a URL. -/
def cachedModel? (s : Session) (url : String) : Option Model := (s.cache.get? url).bind s.model?

/-- Counts as use of the cached model for a URL; answers whether there is one. -/
def poke (s : Session) (url : String) : Bool × Session :=
  ((s.cache.get? url).isSome, { s with cache := s.cache.touch url })

/-- Takes the model for a URL out of the cache. -/
def evict (s : Session) (url : String) : Option Model × Session :=
  (s.cachedModel? url, { s with cache := s.cache.evict url })

end Session

end HyperSchema
