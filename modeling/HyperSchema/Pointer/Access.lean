import HyperSchema.Json.Basic
import HyperSchema.Pointer.Basic
import HyperSchema.Text.Count

/-!
# Reading and writing at a pointer

A token names a member of an object or a position of an array. In an array a dash stands for the
position behind the last item, and a number with a needless leading zero names nothing. Writing
needs the container to exist: a member is added or replaced, an item replaced, or appended at the
position behind the last.
-/

namespace HyperSchema.Pointer

/-- The array position a token names in an array of the given length. -/
def index? (token : String) (length : Nat) : Option Nat :=
  match token.toList with
  | ['-'] => some length
  | '0' :: _ :: _ => none
  | cs => Text.count? cs

def step? (v : Json) (token : String) : Option Json :=
  match v with
  | .object members => Table.get? members token
  | .array items => (index? token items.length).bind (fun i => items[i]?)
  | _ => none

/-- The value some tokens below another. -/
def walk? : Json → List String → Option Json
  | v, [] => some v
  | v, token :: rest => (step? v token).bind (fun next => walk? next rest)

def get? (v : Json) (pointer : String) : Option Json := walk? v (tokens pointer)

/-- The container with a value put in the place a token names. -/
def put? (v : Json) (token : String) (x : Json) : Option Json :=
  match v with
  | .object members => some (.object (Table.insert members token x))
  | .array items =>
    match index? token items.length with
    | some i =>
      if i < items.length then some (.array (items.set i x))
      else if i = items.length then some (.array (items ++ [x]))
      else none
    | none => none
  | _ => none

/-- The value with another written some tokens below it; none when a container is missing on the
way. -/
def write? : Json → List String → Json → Option Json
  | _, [], x => some x
  | v, [token], x => put? v token x
  | v, token :: rest, x => do
    let next ← step? v token
    let next ← write? next rest x
    put? v token next

def set? (v : Json) (pointer : String) (x : Json) : Option Json := write? v (tokens pointer) x

/-- The path that a write at a pointer reaches: behind an array, a last dash is the appended
position. -/
def writtenPath (v : Json) (pointer : String) : String :=
  match Text.before? ['/', '-'] pointer.toList with
  | some parent =>
    match get? v (String.ofList parent) with
    | some (.array items) => child (String.ofList parent) (Text.natText items.length)
    | _ => pointer
  | none => pointer

end HyperSchema.Pointer
