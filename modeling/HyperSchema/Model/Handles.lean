import HyperSchema.Pointer.Lineage
import HyperSchema.Table

/-!
# Handles

A handle marks a path in a document that listeners may be attached to. Handles form a tree:
registering one registers its parents, and every handle but a topmost one is listed as a child by
its parent, in the order of registration.
-/

namespace HyperSchema

/-- A listener is known by its number; its label is what its events are reported under. -/
structure Listener where
  number : Nat
  label : String
  deriving DecidableEq

structure Handle where
  children : List String
  listeners : List Listener
  deriving DecidableEq

abbrev Handles := Table Handle

namespace Handles

def addChild (h : Handles) (parent child : String) : Handles :=
  match Table.get? h parent with
  | some handle => Table.insert h parent { handle with children := handle.children ++ [child] }
  | none => h

/-- Registers the first path of a lineage, and the others as far as they are not registered yet. -/
def registerLineage (h : Handles) : List String → Handles
  | [] => h
  | [path] => if Table.has h path then h else Table.insert h path ⟨[], []⟩
  | path :: parent :: rest =>
    if Table.has h path then h
    else addChild (registerLineage (Table.insert h path ⟨[], []⟩) (parent :: rest)) parent path

def register (h : Handles) (path : String) : Handles := registerLineage h (Pointer.lineage path)

/-- Visits the handles on a stack, each before its children. The bound is on the number of visits.
-/
def visit (h : Handles) : Nat → List String → List String
  | 0, _ => []
  | _, [] => []
  | bound + 1, path :: stack =>
    match Table.get? h path with
    | some handle => path :: visit h bound (handle.children ++ stack)
    | none => visit h bound stack

/-- The handles at and below a path, parents first. Each is visited once. -/
def walk (h : Handles) (path : String) : List String := h.visit (h.length + 1) [path]

def listeners (h : Handles) (path : String) : List Listener :=
  match Table.get? h path with
  | some handle => handle.listeners
  | none => []

/-- Attaches a listener to a path. -/
def subscribe (h : Handles) (path : String) (l : Listener) : Handles :=
  let h := h.register path
  match Table.get? h path with
  | some handle => Table.insert h path { handle with listeners := handle.listeners ++ [l] }
  | none => h

def unsubscribe (h : Handles) (path : String) (number : Nat) : Handles :=
  match Table.get? h path with
  | some handle =>
    let listeners := handle.listeners.filter (fun l => l.number ≠ number)
    Table.insert h path { handle with listeners }
  | none => h

end Handles

end HyperSchema
