import HyperSchema.SchemaUri
import HyperSchema.Transport.Response

/-!
# Documents in memory

Responses are kept by URL, and every URL that is asked for is written down. The fragment of a
request plays no part in finding its response.
-/

namespace HyperSchema

structure MemoryTransport where
  documents : Table Response
  requests : List String

namespace MemoryTransport

def empty : MemoryTransport := ⟨[], []⟩

def insert (t : MemoryTransport) (url : String) (r : Response) : MemoryTransport :=
  { t with documents := Table.insert t.documents url r }

/-- The answer to a request. -/
def respond (t : MemoryTransport) (r : Request) : Except TransportError Response :=
  match r.refusal? with
  | some e => .error e
  | none =>
    match Table.get? t.documents (SchemaUri.base r.url) with
    | some response => .ok response
    | none => .error (.notFound r.url)

def fetch (t : MemoryTransport) (r : Request) : Except TransportError Response × MemoryTransport :=
  (t.respond r, { t with requests := t.requests ++ [r.url] })

end MemoryTransport

end HyperSchema
