import HyperSchema.Json.Parser
import HyperSchema.Text.Count
import HyperSchema.Transport.Headers

/-!
# Requests, responses and failures

A response carries a JSON value or a text that has yet to be read as one. Statuses from 400 upwards
are failures; those from 500 upwards are worth another try, and nothing else is.
-/

namespace HyperSchema

structure Request where
  method : String
  url : String
  headers : Headers

inductive Body where
  | json (v : Json)
  | text (s : String)

structure Response where
  status : Option Nat
  headers : Headers
  body : Body

inductive TransportError where
  | notFound (url : String)
  | badStatus (url : String) (status : Nat)
  | unreadable (path : String)
  | invalidJson (url : String)
  | unsupported (url reason : String)
  deriving DecidableEq

namespace TransportError

def message : TransportError → String
  | .notFound url => "no document at " ++ url
  | .badStatus url status => url ++ " returned HTTP status " ++ Text.natText status
  | .unreadable path => "cannot read " ++ path
  | .invalidJson url => "invalid JSON from " ++ url
  | .unsupported url reason => "unsupported request to " ++ url ++ ": " ++ reason

/-- Whether the same request could succeed later. -/
def isTransient : TransportError → Bool
  | .badStatus _ status => decide (500 ≤ status)
  | _ => false

end TransportError

def Request.get (url : String) : Request := ⟨"GET", url, []⟩

/-- The reason why a method is refused; only GET is not. -/
def Request.refusal? (r : Request) : Option TransportError :=
  if Text.sameIgnoringCase r.method "GET" then none
  else some (.unsupported r.url ("method " ++ r.method ++ " is not supported"))

namespace Response

def ofJson (v : Json) : Response := ⟨none, [], .json v⟩

def ofText (s : String) : Response := ⟨none, [], .text s⟩

def isSuccess (r : Response) : Bool :=
  match r.status with
  | some status => decide (status < 400)
  | none => true

/-- The document of a response that came from a URL. -/
def document (r : Response) (url : String) : Except TransportError Json :=
  match r.status.filter (400 ≤ ·) with
  | some status => .error (.badStatus url status)
  | none =>
    match r.body with
    | .json v => .ok v
    | .text s =>
      match Json.parse? s with
      | some v => .ok v
      | none => .error (.invalidJson url)

end Response

end HyperSchema
