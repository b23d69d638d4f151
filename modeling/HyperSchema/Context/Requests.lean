import HyperSchema.Transport.Response

/-!
# Requests in flight

Callers who want the same document share a request: a call joins the one that is kept for the
document, or begins a new one. When a caller takes its answer, the request that is kept for the
document is dropped, so that the next call begins anew.
-/

namespace HyperSchema

abbrev Answer := Except TransportError Json

/-- A caller waiting for a request. -/
structure Call where
  base : String
  request : Nat
  deriving DecidableEq

structure Requests where
  shared : Table Nat
  unanswered : List Call
  answers : List (Nat × Answer)
  next : Nat

namespace Requests

def empty : Requests := ⟨[], [], [], 0⟩

/-- Calls for a document. -/
def call (r : Requests) (base : String) : Call × Requests :=
  match Table.get? r.shared base with
  | some request => (⟨base, request⟩, r)
  | none =>
    let c := ⟨base, r.next⟩
    (c,
      { r with
        shared := Table.insert r.shared base r.next
        unanswered := r.unanswered ++ [c]
        next := r.next + 1 })

/-- Calls for several documents in turn. -/
def callAll (r : Requests) : List String → List Call × Requests
  | [] => ([], r)
  | base :: rest =>
    let (c, r) := r.call base
    let (cs, r) := callAll r rest
    (c :: cs, r)

/-- Whether a request is waiting for its answer. -/
def isOpen (r : Requests) (request : Nat) : Bool :=
  r.unanswered.any (fun o => o.request == request)

/-- A request is answered. -/
def answer (r : Requests) (request : Nat) (a : Answer) : Requests :=
  { r with
    unanswered := r.unanswered.filter (fun c => c.request ≠ request)
    answers := r.answers ++ [(request, a)] }

def answerTo? (r : Requests) (c : Call) : Option Answer :=
  (r.answers.find? (fun a => a.1 == c.request)).map Prod.snd

/-- A caller has its answer; no further call joins the request. -/
def release (r : Requests) (c : Call) : Requests := { r with shared := Table.erase r.shared c.base }

/-- The answers that callers take, in turn; callers without one are passed over. -/
def takeAll (r : Requests) : List Call → List (String × Answer) × Requests
  | [] => ([], r)
  | c :: rest =>
    let (taken, after) := takeAll (r.release c) rest
    match r.answerTo? c with
    | some a => ((c.base, a) :: taken, after)
    | none => (taken, after)

end Requests

end HyperSchema
