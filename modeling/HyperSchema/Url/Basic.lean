import HyperSchema.Url.Host

/-!
# URLs

A URL is held in its canonical form: every part is the text that is written for it. A URL without an
authority whose path does not begin with a slash has no hierarchy, and nothing but a fragment can be
resolved against it.
-/

namespace HyperSchema

namespace Url

/-- The special schemes have an authority and know the backslash as a slash. -/
inductive SchemeKind where
  | file
  | special
  | plain
  deriving DecidableEq

def schemeKind (scheme : String) : SchemeKind :=
  if scheme = "file" then .file
  else if ["http", "https", "ws", "wss", "ftp"].contains scheme then .special
  else .plain

def SchemeKind.isSpecial : SchemeKind → Bool
  | .plain => false
  | _ => true

def defaultPort? (scheme : String) : Option Nat :=
  match scheme with
  | "http" => some 80
  | "ws" => some 80
  | "https" => some 443
  | "wss" => some 443
  | "ftp" => some 21
  | _ => none

/-- The credentials carry their at sign; a default port is not kept. -/
structure Authority where
  credentials : List Char
  host : List Char
  port : Option Nat
  deriving DecidableEq

end Url

structure Url where
  scheme : String
  authority : Option Url.Authority
  path : List Char
  query : Option (List Char)
  fragment : Option (List Char)
  deriving DecidableEq

namespace Url

def kind (u : Url) : SchemeKind := schemeKind u.scheme

/-- Whether relative references have something to be resolved against. -/
def isHierarchical (u : Url) : Bool :=
  u.authority.isSome || u.path.head? == some '/'

def Authority.chars (a : Authority) : List Char :=
  a.credentials ++ a.host ++ (match a.port with
    | some port => ':' :: Nat.toDigits 10 port
    | none => [])

/-- The text of a URL. Without an authority, a path that begins with two slashes is set off by a
dot. -/
def chars (u : Url) : List Char :=
  u.scheme.toList ++ [':']
    ++ (match u.authority with
      | some a => '/' :: '/' :: a.chars
      | none =>
        match u.path with
        | '/' :: '/' :: _ => ['/', '.']
        | _ => [])
    ++ u.path
    ++ (match u.query with
      | some q => '?' :: q
      | none => [])
    ++ (match u.fragment with
      | some f => '#' :: f
      | none => [])

def text (u : Url) : String := String.ofList u.chars

/-- The host, if the authority names one. -/
def host? (u : Url) : Option (List Char) :=
  match u.authority with
  | some a => if a.host.isEmpty then none else some a.host
  | none => none

end Url

end HyperSchema
