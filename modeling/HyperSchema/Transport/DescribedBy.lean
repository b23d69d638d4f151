import HyperSchema.SchemaUri
import HyperSchema.Transport.Headers
import HyperSchema.Unicode.Loose

/-!
# Schemas named by headers

The schemas of a document are named by the links whose relation is describedby, and by the profile
of its content type. Links are separated by commas; a comma inside angle brackets or quotes
separates nothing. Each schema is named once.
-/

namespace HyperSchema

/-- The target of a link and its parameters. -/
structure HeaderLink where
  target : List Char
  parameters : List (List Char × List Char)

namespace HeaderLink

def trim (cs : List Char) : List Char := Text.trim Unicode.isWhitespace cs

def unquote (cs : List Char) : List Char := Text.trim (· == '"') cs

/-- Cuts at the commas outside angle brackets and quotes. -/
def splitLinks (inTarget inQuotes : Bool) : List Char → List (List Char)
  | [] => [[]]
  | c :: rest =>
    if c = ',' && !inTarget && !inQuotes then [] :: splitLinks inTarget inQuotes rest
    else
      let target :=
        if c = '<' && !inQuotes then true else if c = '>' && !inQuotes then false else inTarget
      let quotes := if c = '"' && !inTarget then !inQuotes else inQuotes
      match splitLinks target quotes rest with
      | [] => [[c]]
      | piece :: more => (c :: piece) :: more

/-- A parameter needs an equals sign; the quotes around its value are taken off. -/
def parameter? (cs : List Char) : Option (List Char × List Char) :=
  (Text.cutFirst? '=' cs).map (fun (name, value) => (trim name, unquote (trim value)))

def parse? (cs : List Char) : Option HeaderLink :=
  match trim cs with
  | '<' :: rest =>
    (Text.cutFirst? '>' rest).map (fun (target, parameters) =>
      ⟨target, (Text.pieces ';' parameters).filterMap parameter?⟩)
  | _ => none

/-- The words of a text, divided by blanks. -/
def words : List Char → List (List Char)
  | [] => []
  | c :: rest =>
    if Unicode.isWhitespace c then [] :: words rest
    else
      match words rest with
      | [] => [[c]]
      | word :: more => (c :: word) :: more

def isDescribedBy (l : HeaderLink) : Bool :=
  l.parameters.any (fun (name, value) =>
    Text.sameIgnoringCase (String.ofList name) "rel"
      && (words value).any (fun word => Text.sameIgnoringCase (String.ofList word) "describedby"))

end HeaderLink

namespace Headers

/-- The links of all link headers. -/
def links (h : Headers) : List HeaderLink :=
  (h.getAll "link").flatMap (fun value =>
    (HeaderLink.splitLinks false false value.toList).filterMap HeaderLink.parse?)

/-- The profiles that the content type names. -/
def profiles (h : Headers) : List (List Char) :=
  match h.get? "content-type" with
  | none => []
  | some value =>
    (((Text.pieces ';' value.toList).drop 1).filterMap HeaderLink.parameter?).filterMap
      (fun (name, value) =>
        if Text.sameIgnoringCase (String.ofList name) "profile" then some value else none)

/-- The URIs of the schemas that describe the document at a URL. -/
def describedBy (h : Headers) (url : String) : List String :=
  let targets := (h.links.filter HeaderLink.isDescribedBy).map HeaderLink.target ++ h.profiles
  (targets.map (fun target => SchemaUri.resolve url (String.ofList target))).foldl
    (fun found uri => if found.contains uri then found else found ++ [uri]) []

end Headers

end HyperSchema
