import HyperSchema.Url.Basic

/-!
# URL paths

A path grows segment by segment. A segment of one dot disappears, one of two dots takes the segment
before it away, and either dot may be written as an escape. A drive letter at the head of a path is
never taken away.
-/

namespace HyperSchema.Url

/-- What a fragment has to escape. -/
def fragmentEscapes (c : Char) : Bool := isControl c || [' ', '"', '<', '>', '`'].contains c

def pathEscapes (c : Char) : Bool := fragmentEscapes c || ['#', '?', '{', '}'].contains c

def credentialEscapes (c : Char) : Bool :=
  pathEscapes c || ['/', ':', ';', '=', '@', '[', '\\', ']', '^', '|'].contains c

def queryEscapes (special : Bool) (c : Char) : Bool :=
  isControl c || [' ', '"', '#', '<', '>'].contains c || (special && c.toNat = 39)

def encode (escapes : Char → Bool) (cs : List Char) : List Char :=
  cs.flatMap (fun c => if escapes c then Text.escapeChar c else [c])

def isSingleDot (segment : List Char) : Bool :=
  segment == ['.'] || segment.map Char.toLower == ['%', '2', 'e']

def isDoubleDot (segment : List Char) : Bool :=
  [['.', '.'], ['%', '2', 'e', '.'], ['.', '%', '2', 'e'], ['%', '2', 'e', '%', '2', 'e']].contains
    (segment.map Char.toLower)

def isDelimiter (c : Char) : Bool := c == '/' || c == '\\' || c == '?' || c == '#'

/-- A letter and a colon or bar, and then nothing or a delimiter. -/
def startsWithDrive : List Char → Bool
  | [letter, mark] => letter.isAlpha && (mark == ':' || mark == '|')
  | letter :: mark :: next :: _ =>
    letter.isAlpha && (mark == ':' || mark == '|') && isDelimiter next
  | _ => false

def isDrive (segment : List Char) : Bool := segment.length == 2 && startsWithDrive segment

def isNormalDrive (segment : List Char) : Bool := isDrive segment && segment.getLast? == some ':'

/-- What stands behind the last slash. -/
def lastSegment (path : List Char) : List Char := (path.reverse.takeWhile (· != '/')).reverse

/-- The path cut behind its last slash; a drive letter of a file stays. -/
def pop (kind : SchemeKind) (path : List Char) : List Char :=
  if kind = .file && isNormalDrive (lastSegment path) then path
  else (path.reverse.dropWhile (· != '/')).reverse

def shorten (kind : SchemeKind) (path : List Char) : List Char :=
  if path.isEmpty || (kind = .file && isNormalDrive path) then path else pop kind path

def endsWithSlash (path : List Char) : Bool := path.getLast? == some '/'

/-- A path that ends with a slash without it, unless the slash is the first one or stands behind a
drive letter. -/
def dropLastSlash (path : List Char) : List Char :=
  if endsWithSlash path then
    let front := path.dropLast
    if front.contains '/' && !startsWithDrive (lastSegment front ++ ['/']) then front else path
  else path

/-- The path with one more segment, which is already escaped; the flag says whether a slash follows
it. -/
def addSegment (kind : SchemeKind) (path segment : List Char) (slash : Bool) : List Char :=
  if isDoubleDot segment then
    let path := shorten kind (dropLastSlash path)
    if slash && !endsWithSlash path then path ++ ['/'] else path
  else if isSingleDot segment then
    if endsWithSlash path then path else path ++ ['/']
  else
    let segment :=
      if kind = .file && path == ['/'] && isDrive segment then segment.take 1 ++ [':'] else segment
    path ++ segment ++ (if slash then ['/'] else [])

/-- Cuts the input behind its next segment: the segment, whether a slash ended it, and the rest,
which begins with the query or fragment if the path ends. -/
def nextSegment (special : Bool) : List Char → List Char × Bool × List Char
  | [] => ([], false, [])
  | c :: rest =>
    if c = '/' || (special && c = '\\') then ([], true, rest)
    else if c = '?' || c = '#' then ([], false, c :: rest)
    else
      let (segment, slash, rest) := nextSegment special rest
      (c :: segment, slash, rest)

/-- Adds the segments of the input to a path; the fuel bounds their number. Answers the path and the
rest of the input. -/
def addSegments (kind : SchemeKind) : Nat → List Char → List Char → List Char × List Char
  | 0, path, input => (path, input)
  | fuel + 1, path, input =>
    let (segment, slash, rest) := nextSegment kind.isSpecial input
    let path := addSegment kind path (encode pathEscapes segment) slash
    if slash then addSegments kind fuel path rest else (path, rest)

/-- Reads a path behind the part of it that is already there. A file's path has one leading slash.
-/
def readPath (kind : SchemeKind) (path input : List Char) : List Char × List Char :=
  let (path, rest) := addSegments kind (input.length + 1) path input
  (if kind = .file then '/' :: path.dropWhile (· == '/') else path, rest)

end HyperSchema.Url
