import HyperSchema.Url.Path

/-!
# Reading and joining URLs

A text is read as an absolute URL, or as a reference to be joined to a base. Blanks and controls at
its ends are dropped, tabs and line breaks everywhere. A reading that fails answers none.
-/

namespace HyperSchema.Url

/-- The scheme in lower case, and the input behind its colon. -/
def scheme? (input : List Char) : Option (String × List Char) :=
  match input with
  | [] => none
  | c :: _ =>
    if !c.isAlpha then none
    else
      let name := input.takeWhile (fun c => c.isAlphanum || c == '+' || c == '-' || c == '.')
      match input.drop name.length with
      | ':' :: rest => some (String.ofList (name.map Char.toLower), rest)
      | _ => none

/-- The query and fragment at the end of the input. -/
def readEnd (special : Bool) (input : List Char) : Option (List Char) × Option (List Char) :=
  match input with
  | '?' :: rest =>
    let query := rest.takeWhile (· != '#')
    let fragment := match rest.drop query.length with
      | _ :: fragment => some (encode fragmentEscapes fragment)
      | [] => none
    (some (encode (queryEscapes special) query), fragment)
  | '#' :: fragment => (none, some (encode fragmentEscapes fragment))
  | _ => (none, none)

def withEnd (u : Url) (input : List Char) : Url :=
  let (query, fragment) := readEnd u.kind.isSpecial input
  { u with query, fragment }

/-- Where the authority ends. -/
def endsAuthority (special : Bool) (c : Char) : Bool :=
  c == '/' || c == '?' || c == '#' || (special && c == '\\')

/-- User name and password, escaped, with the at sign behind them. Without any text they disappear;
an empty password loses its colon. -/
def credentialChars (cs : List Char) : List Char :=
  let body := match Text.cutFirst? ':' cs with
    | none => encode credentialEscapes cs
    | some (user, password) =>
      encode credentialEscapes user
        ++ (if password.isEmpty then [] else ':' :: encode credentialEscapes password)
  if body.isEmpty then [] else body ++ ['@']

/-- Splits the credentials from the input behind the last at sign of the authority. -/
def readCredentials? (special : Bool) (input : List Char) : Option (List Char × List Char) :=
  let authority := input.takeWhile (fun c => !endsAuthority special c)
  match Text.beforeLast? '@' authority with
  | none => some ([], input)
  | some user =>
    let rest := input.drop (user.length + 1)
    if user.isEmpty then
      match rest with
      | c :: _ => if endsAuthority special c then none else some ([], rest)
      | [] => some ([], rest)
    else some (credentialChars user, rest)

/-- How much of the input is the host: up to a delimiter, or to a colon outside brackets. -/
def hostLength (special inBrackets : Bool) : List Char → Nat
  | [] => 0
  | c :: rest =>
    if (c = ':' && !inBrackets) || endsAuthority special c then 0
    else
      let inBrackets := if c = '[' then true else if c = ']' then false else inBrackets
      hostLength special inBrackets rest + 1

def maxPort : Nat := 65535

/-- The port behind its colon, if it has digits and is not the default, and the rest of the input.
-/
def readPort? (scheme : String) (input : List Char) : Option (Option Nat × List Char) :=
  let digits := input.takeWhile Char.isDigit
  let rest := input.drop digits.length
  let port := Text.digitsValue digits
  let ends := match rest with
    | [] => true
    | c :: _ => isDelimiter c
  if maxPort < port || !ends then none
  else if digits.isEmpty || defaultPort? scheme = some port then some (none, rest)
  else some (some port, rest)

/-- The authority behind its two slashes, and the rest of the input. -/
def readAuthority? (scheme : String) (input : List Char) : Option (Authority × List Char) := do
  let special := (schemeKind scheme).isSpecial
  let (credentials, input) ← readCredentials? special input
  let length := hostLength special false input
  let written := input.take length
  let rest := input.drop length
  if written.isEmpty && special then none
  let host ← if special then specialHost? written else opaqueHost? written
  if host.isEmpty && (rest.head? == some ':' || !credentials.isEmpty) then none
  let (port, rest) ← match rest with
    | ':' :: rest => readPort? scheme rest
    | rest => some (none, rest)
  some (⟨credentials, host, port⟩, rest)

/-- The path behind an authority. That of a special URL is never empty. -/
def readPathStart (kind : SchemeKind) (input : List Char) : List Char × List Char :=
  if kind.isSpecial then
    match input with
    | '/' :: rest => readPath kind ['/'] rest
    | '\\' :: rest => readPath kind ['/'] rest
    | rest => readPath kind ['/'] rest
  else
    match input with
    | [] => ([], [])
    | '?' :: rest => ([], '?' :: rest)
    | '#' :: rest => ([], '#' :: rest)
    | '/' :: rest => readPath kind [] ('/' :: rest)
    | rest => readPath kind ['/'] rest

def readAfterSlashes? (scheme : String) (input : List Char) : Option Url := do
  let (authority, rest) ← readAuthority? scheme input
  let (path, rest) := readPathStart (schemeKind scheme) rest
  some (withEnd ⟨scheme, some authority, path, none, none⟩ rest)

def isSlash (c : Char) : Bool := c == '/' || c == '\\'

def fragmentOnly (base : Url) (fragment : List Char) : Url :=
  { base with fragment := some (encode fragmentEscapes fragment) }

def fileAuthority (host : List Char) : Authority := ⟨[], host, none⟩

def fileUrl (host path : List Char) : Url := ⟨"file", some (fileAuthority host), path, none, none⟩

/-- A file URL whose two slashes are read: its host may be empty, and the local host counts as none.
-/
def readFileHost? (input : List Char) : Option Url := do
  let written := input.takeWhile (fun c => !isDelimiter c)
  let (host, rest) ←
    if isDrive written then some ([], input)
    else if written.isEmpty then some ([], input)
    else do
      let host ← specialHost? written
      let rest := input.drop written.length
      some (if host = "localhost".toList then [] else host, rest)
  let (path, rest) :=
    if host.isEmpty then readPath .file ['/'] rest else readPathStart .file rest
  some (withEnd (fileUrl host path) rest)

/-- The host and drive that an absolute path of a file URL takes over from its base. -/
def fileBaseHead (base : Option Url) (input : List Char) : List Char × List Char :=
  match base with
  | none => ([], [])
  | some b =>
    if startsWithDrive input then ([], [])
    else
      let first := ((b.path.drop 1).takeWhile (· != '/'))
      if isNormalDrive first then ([], '/' :: first)
      else ((b.host?).getD [], [])

def readFile? (base : Option Url) (input : List Char) : Option Url :=
  match input with
  | c :: rest =>
    if isSlash c then
      match rest with
      | d :: rest' =>
        if isSlash d then readFileHost? rest'
        else
          let (host, path) := fileBaseHead base rest
          let (path, rest) := readPath .file path input
          some (withEnd (fileUrl host path) rest)
      | [] =>
        let (host, path) := fileBaseHead base rest
        let (path, rest) := readPath .file path input
        some (withEnd (fileUrl host path) rest)
    else
      match base with
      | none =>
        let (path, rest) := readPath .file ['/'] input
        some (withEnd (fileUrl [] path) rest)
      | some b =>
        if c = '?' then some (withEnd { b with query := none, fragment := none } input)
        else if c = '#' then some (fragmentOnly b rest)
        else if startsWithDrive input then
          let (path, rest) := readPath .file ['/'] input
          some (withEnd (fileUrl [] path) rest)
        else
          let path := shorten .file b.path
          let path := if isNormalDrive (path.drop 1) then path ++ ['/'] else path
          let (path, rest) := readPath .file path input
          some (withEnd { b with path } rest)
  | [] =>
    match base with
    | some b => some { b with fragment := none }
    | none => some (fileUrl [] ['/'])

/-- A reference without a scheme, joined to a hierarchical base that is not a file. -/
def readRelative? (base : Url) (input : List Char) : Option Url :=
  let kind := base.kind
  match input with
  | [] => some { base with fragment := none }
  | c :: rest =>
    if c = '?' then some (withEnd { base with query := none, fragment := none } input)
    else if c = '#' then some (fragmentOnly base rest)
    else if isSlash c then
      let slashes := (input.takeWhile isSlash).length
      if 2 ≤ slashes then
        match input with
        | '/' :: '/' :: tail => readAfterSlashes? base.scheme tail
        | _ => readAfterSlashes? base.scheme (input.drop slashes)
      else
        let (path, rest) := readPath kind ['/'] rest
        some (withEnd { base with path } rest)
    else
      let path := pop kind base.path
      let path := if path.isEmpty then ['/'] else path
      let (path, rest) := readPath kind path input
      some (withEnd { base with path } rest)

/-- An absolute URL of a scheme that is not special. -/
def readPlain? (scheme : String) (input : List Char) : Option Url :=
  match input with
  | '/' :: '/' :: rest => readAfterSlashes? scheme rest
  | '/' :: rest =>
    let (path, rest) := readPath .plain ['/'] rest
    some (withEnd ⟨scheme, none, path, none, none⟩ rest)
  | rest =>
    let path := rest.takeWhile (fun c => c != '?' && c != '#')
    some (withEnd ⟨scheme, none, encode isControl path, none, none⟩ (rest.drop path.length))

def readWithScheme? (base : Option Url) (scheme : String) (input : List Char) : Option Url :=
  match schemeKind scheme with
  | .file => readFile? (base.filter (fun b => b.scheme = "file")) input
  | .special =>
    let slashes := (input.takeWhile isSlash).length
    match base with
    | some b =>
      if slashes < 2 && b.scheme = scheme then readRelative? b input
      else readAfterSlashes? scheme (input.drop slashes)
    | none => readAfterSlashes? scheme (input.drop slashes)
  | .plain => readPlain? scheme input

/-- The characters that are read: without blanks and controls at the ends, and without tabs and line
breaks. -/
def significantChars (input : String) : List Char :=
  (Text.trim (fun c => c.toNat ≤ 32) input.toList).filter (fun c =>
    c != '\t' && c != '\n' && c != '\r')

def readWith? (base : Option Url) (input : String) : Option Url :=
  let input := significantChars input
  match scheme? input with
  | some (scheme, rest) => readWithScheme? base scheme rest
  | none =>
    match base with
    | none => none
    | some b =>
      match input with
      | '#' :: fragment => some (fragmentOnly b fragment)
      | input =>
        if !b.isHierarchical then none
        else if b.kind = .file then readFile? base input
        else readRelative? b input

/-- Reads an absolute URL. -/
def parse? (input : String) : Option Url := readWith? none input

/-- Resolves a reference against a base. -/
def join? (base : Url) (reference : String) : Option Url := readWith? (some base) reference

end HyperSchema.Url
