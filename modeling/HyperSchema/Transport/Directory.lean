import HyperSchema.SchemaUri
import HyperSchema.Transport.FileTree
import HyperSchema.Transport.Response

/-!
# Documents in a directory

The URLs under a common beginning are served from the files under a root directory. No path leads
out of the root: every name on the way has to be an ordinary one. A URL whose last name has no
extension means the file with the extension for JSON, unless there is something under the name
itself.
-/

namespace HyperSchema

/-- URLs beginning with a base, and the directory they stand for. -/
structure DirectoryTransport where
  base : String
  root : String

namespace DirectoryTransport

/-- Slashes at the end of the base do not count. -/
def new (base root : String) : DirectoryTransport :=
  ⟨String.ofList (Text.trimEnd (· == '/') base.toList), root⟩

/-- The path below the root that a URL stands for. -/
def relativePath? (t : DirectoryTransport) (url : String) : Option (List Char) :=
  match Text.behind? t.base.toList (SchemaUri.base url).toList with
  | none => none
  | some rest =>
    if rest.isEmpty || rest.head? == some '/' then
      let path := Text.trimStart (· == '/') rest
      let names := (Text.pieces '/' path).filter (fun name => !name.isEmpty)
      if names.contains ['.', '.'] || names.head? == some ['.'] then none else some path
    else none

/-- A path below a root. -/
def joinPath (root : String) (path : List Char) : String :=
  if root.isEmpty || root.toList.getLast? == some '/' then root ++ String.ofList path
  else root ++ "/" ++ String.ofList path

/-- The local path that a URL stands for; none outside the base. -/
def localPath? (t : DirectoryTransport) (url : String) : Option String :=
  (t.relativePath? url).map (joinPath t.root)

/-- Whether the last name has an extension; a dot at the beginning of a name begins none. -/
def hasExtension (name : List Char) : Bool :=
  match Text.beforeLast? '.' name with
  | some stem => !stem.isEmpty
  | none => false

/-- The path with the extension for JSON behind its last name; slashes and single dots at its end
are dropped. -/
def withJson (path : List Char) : List Char :=
  let pieces := (Text.pieces '/' path).reverse.dropWhile (fun name => name.isEmpty || name == ['.'])
  Text.joinWith ['/'] pieces.reverse ++ ['.', 'j', 's', 'o', 'n']

/-- Whether a path means a file or directory itself, and not the file with the extension for JSON.
-/
def standsForItself (files : FileTree) (path : List Char) : Bool :=
  match (FileTree.namesOf path).getLast? with
  | none => true
  | some name =>
    hasExtension name
      || match files.lookup path with
        | .file _ => true
        | .directory => true
        | _ => false

/-- The answer to a request, the root directory holding the given files. -/
def fetch (t : DirectoryTransport) (files : FileTree) (r : Request) :
    Except TransportError Response :=
  match r.refusal? with
  | some e => .error e
  | none =>
    match t.relativePath? r.url with
    | none => .error (.unsupported r.url ("outside " ++ t.base))
    | some path =>
      let path := if standsForItself files path then path else withJson path
      match files.lookup path with
      | .file text =>
        .ok { Response.ofText text with headers := [("content-type", "application/json")] }
      | .absent => .error (.notFound r.url)
      | _ => .error (.unreadable (joinPath t.root path))

end DirectoryTransport

end HyperSchema
