import HyperSchema.Pointer.Access
import HyperSchema.Store.Basic

/-!
# Following references

A URI names an entry, or a document and a way down into it. On the way and at its end, references
are followed: on the way the rest of the way continues from the target, at the end the target is
what is named. A reference that comes up a second time means that the references go in circles.
Every reference that is followed is one of those in the store, and none is followed twice, so their
number bounds the work.
-/

namespace HyperSchema

inductive Resolution where
  | found (uri : String) (value : Json)
  | documentAbsent (base : String)
  | nodeAbsent
  | circular (chain : List String)

/-- A schema reached by following references, and the URI it has there. -/
structure Resolved where
  uri : String
  value : Json

/-- References that go in circles; the last has been met before. -/
structure CircularReference where
  chain : List String
  deriving DecidableEq

def CircularReference.message (e : CircularReference) : String :=
  "circular $ref chain: " ++ String.intercalate " -> " e.chain

namespace Json

mutual
/-- The references anywhere in a value. -/
def references : Json → List String
  | .array items => referencesOfItems items
  | .object members => referencesOfMembers members
  | _ => []

def referencesOfItems : List Json → List String
  | [] => []
  | v :: rest => references v ++ referencesOfItems rest

def referencesOfMembers : List (String × Json) → List String
  | [] => []
  | (key, .string s) :: rest => (if key = "$ref" then [s] else []) ++ referencesOfMembers rest
  | (_, v) :: rest => references v ++ referencesOfMembers rest
end

end Json

namespace Store

/-- The references in all documents. -/
def references (s : Store) : List String :=
  s.layers.flatMap (fun l => l.schemas.flatMap (fun e => e.2.references))

/-- One step down a document; positions in arrays are plain numbers. -/
def step? (v : Json) (token : String) : Option Json :=
  match v with
  | .object members => Table.get? members token
  | .array items => (Text.count? token.toList).bind (fun i => items[i]?)
  | _ => none

/-- Goes down to the end of the way or to the first reference on it, and answers the rest of the
way. -/
def advance? : Json → List String → Option (Json × List String)
  | v, [] => some (v, [])
  | v, token :: rest =>
    match v.reference? with
    | some _ => some (v, token :: rest)
    | none => (step? v token).bind (fun next => advance? next rest)

/-- Where a URI begins: an entry of its own, or a document and the tokens of the fragment. -/
def entrance? (s : Store) (uri : String) : Option (Json × List String) :=
  match s.find? uri with
  | some v => some (v, [])
  | none =>
    let (base, fragment) := SchemaUri.split uri
    (s.find? base).map (fun document => (document, Pointer.tokens fragment))

/-- What a reference on the way stands for; its own fragment is followed as a plain pointer. -/
def shortcut? (s : Store) (target : String) : Option Json :=
  match s.find? target with
  | some v => some v
  | none =>
    let (base, fragment) := SchemaUri.split target
    (s.find? base).bind (fun document => Pointer.get? document fragment)

/-- Goes on from a value, with the rest of the way and the references followed so far. No result
when more references are followed than the bound allows. -/
def walk (s : Store) : Nat → String → Json → List String → List String → Option Resolution
  | 0, _, _, _, _ => none
  | bound + 1, uri, v, tokens, visited =>
    match advance? v tokens with
    | none => some .nodeAbsent
    | some (v, rest) =>
      match v.reference? with
      | none => some (.found uri v)
      | some target =>
        if target ∈ visited then some (.circular (visited ++ [target]))
        else
          match rest with
          | [] =>
            match s.entrance? target with
            | some (next, tokens) => walk s bound target next tokens (visited ++ [target])
            | none => some (.documentAbsent (SchemaUri.base target))
          | rest =>
            match s.shortcut? target with
            | some next => walk s bound uri next rest (visited ++ [target])
            | none => some .nodeAbsent

/-- Where a canonical URI leads. -/
def resolution (s : Store) (uri : String) : Resolution :=
  match s.entrance? uri with
  | some (v, tokens) => (s.walk (s.references.length + 2) uri v tokens []).getD .nodeAbsent
  | none => .documentAbsent (SchemaUri.base uri)

/-- Looks a schema up without leaving a record. -/
def lookup? (s : Store) (uri : String) : Except CircularReference (Option Json) :=
  match s.resolution (SchemaUri.normalize uri) with
  | .found _ value => .ok (some value)
  | .circular chain => .error ⟨chain⟩
  | _ => .ok none

/-- Looks a schema up, and records its document as missing if it is absent. -/
def resolve? (s : Store) (uri : String) : Except CircularReference (Option Resolved) × Store :=
  match s.resolution (SchemaUri.normalize uri) with
  | .found uri value => (.ok (some ⟨uri, value⟩), s)
  | .documentAbsent base => (.ok none, s.recordMissing base)
  | .nodeAbsent => (.ok none, s)
  | .circular chain => (.error ⟨chain⟩, s)

end Store

end HyperSchema
