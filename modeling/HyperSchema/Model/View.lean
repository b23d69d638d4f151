import HyperSchema.Model.Basic
import HyperSchema.Pointer.Places

/-!
# Views on a model

A handle is a view on the part of a model at its path: what stands there, which schemas apply and
which links lead on. From a handle one walks to others step by step; every handle on the way is
registered, also when the walk comes to nothing in the end.
-/

namespace HyperSchema

/-- A step from one handle to another. -/
inductive HandleStep where
  | property (key : String)
  | item (position : Nat)
  | pointer (relative : String)
  | parent
  deriving DecidableEq

/-- The path that a step leads to; the root has no parent. -/
def HandleStep.from? (path : String) : HandleStep → Option String
  | .property key => some (Pointer.child path key)
  | .item position => some (Pointer.child path (Text.natText position))
  | .pointer relative => some (path ++ relative)
  | .parent => Pointer.parent? path

namespace Model

/-- Walks on from a handle. -/
def walkFrom (m : Model) (path : String) : List HandleStep → Model × Option String
  | [] => (m, some path)
  | step :: rest =>
    match step.from? path with
    | some next => walkFrom (m.withHandle next) next rest
    | none => (m, none)

/-- Begins with the handle at a path, and walks on from there. -/
def walk (m : Model) (path : String) (steps : List HandleStep) : Model × Option String :=
  walkFrom (m.withHandle path) path steps

def kindAt? (m : Model) (path : String) : Option Kind := (m.valueAt? path).map Json.kind

def keysAt (m : Model) (path : String) : List String :=
  ((m.valueAt? path).map Json.keys).getD []

def sizeAt (m : Model) (path : String) : Nat := ((m.valueAt? path).map Json.size).getD 0

/-- The first link with a relation. -/
def linkAt? (m : Model) (path rel : String) : Option Link :=
  (m.linksAt path).find? (fun l => l.rel == rel)

/-- The handle above, which is registered by asking for it. -/
def parentOf (m : Model) (path : String) : Option String × Model :=
  match Pointer.parent? path with
  | some parent => (some parent, m.withHandle parent)
  | none => (none, m)

/-- The places of the document with something in a map, in document order. -/
def inhabited {α : Type} (m : Model) (map : PathMap α) : List (String × List α) :=
  (Pointer.places m.value).filterMap (fun path =>
    match map.entries path with
    | [] => none
    | entries => some (path, entries))

end Model

end HyperSchema
