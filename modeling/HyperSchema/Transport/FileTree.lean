import HyperSchema.Table
import HyperSchema.Text.Cut
import HyperSchema.Text.Utf8

/-!
# File trees

A tree of files is given by the paths of its files, as names on the way down; directories are what
lies on the way. Looking up a path goes down name by name. The way ends where there is nothing, and
is barred by a file in the place of a directory and by a name that no file can have.
-/

namespace HyperSchema

structure FileTree where
  files : List (List (List Char) × String)

/-- What a path leads to. -/
inductive FileEntry where
  | file (text : String)
  | directory
  | absent
  | barred
  deriving DecidableEq

namespace FileTree

/-- The names in a path; empty ones and single dots stay where they are. -/
def namesOf (path : List Char) : List (List Char) :=
  (Text.pieces '/' path).filter (fun name => !name.isEmpty && name != ['.'])

def ofFiles (files : List (String × String)) : FileTree :=
  ⟨files.map (fun (path, text) => (namesOf path.toList, text))⟩

def isDirectory (t : FileTree) (names : List (List Char)) : Bool :=
  names.isEmpty || t.files.any (fun f => names.isPrefixOf f.1 && names.length < f.1.length)

def file? (t : FileTree) (names : List (List Char)) : Option String :=
  (t.files.find? (fun f => f.1 == names)).map Prod.snd

/-- Names have at most this many bytes. -/
def nameLimit : Nat := 255

def byteLength (name : List Char) : Nat := (name.flatMap Text.utf8).length

/-- Goes down from a directory. -/
def descend (t : FileTree) (seen : List (List Char)) : List (List Char) → FileEntry
  | [] => .directory
  | name :: rest =>
    if nameLimit < byteLength name then .barred
    else if t.isDirectory (seen ++ [name]) then descend t (seen ++ [name]) rest
    else
      match t.file? (seen ++ [name]) with
      | some text => if rest.isEmpty then .file text else .barred
      | none => .absent

/-- Whether a path can only mean a directory: it ends in a slash, or in a slash and a dot. -/
def asksDirectory (path : List Char) : Bool :=
  match path.reverse with
  | '/' :: _ => true
  | '.' :: '/' :: _ => true
  | _ => false

/-- What a path from the root of the tree leads to. -/
def lookup (t : FileTree) (path : List Char) : FileEntry :=
  if path.any (fun c => c.toNat = 0) then .barred
  else
    match t.descend [] (namesOf path) with
    | .file text => if asksDirectory path then .barred else .file text
    | entry => entry

end FileTree

end HyperSchema
