import HyperSchema.Pointer.Basic
import HyperSchema.Url.Parser

/-!
# Schema URIs

A schema URI is a text with an optional fragment; in canonical form it has no empty fragment at its
end. References are resolved by the rules of URLs. A base without a scheme, such as a rooted path or
a file name, is resolved as if it lay on a host of its own, and the host is taken off again.
-/

namespace HyperSchema.SchemaUri

/-- The canonical form: one hash sign at the end is dropped. -/
def normalize (uri : String) : String :=
  match Text.before? ['#'] uri.toList with
  | some front => String.ofList front
  | none => uri

/-- What stands before and behind the first hash sign. -/
def split (uri : String) : String × String :=
  match Text.cutFirst? '#' uri.toList with
  | some (base, fragment) => (String.ofList base, String.ofList fragment)
  | none => (uri, "")

/-- The URI of the document. -/
def base (uri : String) : String := (split uri).1

/-- The URI of a subschema some segments further down. -/
def child (uri : String) (segments : List String) : String :=
  if uri.toList.contains '#' then uri ++ Pointer.join segments
  else uri ++ "#" ++ Pointer.join segments

/-- Whether a URI names the document of a scope or a location beneath it. -/
def isWithin (candidate scope : String) : Bool :=
  let scope := (base scope).toList
  match Text.behind? scope candidate.toList with
  | none => false
  | some rest =>
    rest.isEmpty || scope.getLast? == some '/' || rest.head? == some '/' || rest.head? == some '#'

/-- The host that URIs without a scheme are resolved on. -/
def placeholderHost : String := "relative.invalid"

def placeholder : String := "http://" ++ placeholderHost

/-- Resolves a reference against a base that is no URL. -/
def resolvePlain (baseUri reference : String) : String :=
  let rooted := baseUri.toList.head? == some '/'
  let scaffold := if rooted then placeholder ++ baseUri else placeholder ++ "/" ++ baseUri
  match (Url.parse? scaffold).bind (fun b => Url.join? b reference) with
  | none => normalize reference
  | some joined =>
    if joined.host? ≠ some placeholderHost.toList then normalize joined.text
    else
      let rest := joined.chars.drop placeholder.length
      if rooted || reference.toList.head? == some '/' then normalize (String.ofList rest)
      else
        match rest with
        | '/' :: tail => normalize (String.ofList tail)
        | rest => normalize (String.ofList rest)

/-- Resolves a reference against the URI it stands under; the result is canonical. -/
def resolve (baseUri reference : String) : String :=
  match reference.toList with
  | [] => base baseUri
  | '#' :: _ => normalize (base baseUri ++ reference)
  | _ =>
    if (Url.parse? reference).isSome then normalize reference
    else
      match Url.parse? baseUri with
      | some absolute =>
        match Url.join? absolute reference with
        | some joined => normalize joined.text
        | none => normalize reference
      | none => resolvePlain baseUri reference

end HyperSchema.SchemaUri
