import HyperSchema.Pattern.Syntax
import HyperSchema.Text.Cut
import HyperSchema.Text.Percent
import HyperSchema.Unicode.CaseFold
import HyperSchema.Unicode.Loose

/-!
# Escapes and bracketed classes

What a backslash introduces: a character, a class of code points, or a test of the position. A
bracketed class is a union of characters, ranges, escapes, named ASCII classes and nested classes;
intersection, difference and symmetric difference combine unions from left to right. Ignoring case
closes a class under case before it is negated.
-/

namespace HyperSchema.Pattern

/-- The settings that flags change. Without Unicode, classes and word tests know ASCII only. -/
structure Flags where
  ignoreCase : Bool
  multiLine : Bool
  dotAll : Bool
  unicode : Bool
  crlf : Bool
  spaced : Bool

def Flags.standard : Flags := ⟨false, false, false, true, false, false⟩

/-- What an escape stands for. A byte is a two-digit escape above ASCII. -/
inductive Escaped where
  | char (c : Char)
  | byte (c : Char)
  | set (s : CharSet)
  | look (l : Look)

def dropLine (cs : List Char) : List Char := cs.dropWhile (· != '\n')

/-- In spaced patterns, drops blanks and comments; the fuel bounds the number of comments. -/
def skipSpaceFrom : Nat → List Char → List Char
  | 0, cs => cs
  | fuel + 1, cs =>
    match cs.dropWhile Unicode.isWhitespace with
    | '#' :: rest => skipSpaceFrom fuel (dropLine rest)
    | rest => rest

def Flags.skip (f : Flags) (cs : List Char) : List Char :=
  if f.spaced then skipSpaceFrom (cs.length + 1) cs else cs

def isMeta (c : Char) : Bool :=
  ['\\', '.', '+', '*', '?', '(', ')', '|', '[', ']', '{', '}', '^', '$', '#', '&', '-',
    '~'].contains c

/-- ASCII characters that stand for themselves behind a backslash. -/
def isEscapable (c : Char) : Bool :=
  isMeta c || (c.toNat < 128 && !c.isAlphanum && c != '<' && c != '>')

def isScalar (n : Nat) : Bool := n < 0xD800 || (0xE000 ≤ n && n ≤ maxPoint)

def hexValue (digits : List Char) : Nat :=
  digits.foldl (fun n c => n * 16 + Text.hexDigitValue c) 0

/-- The code point behind x, u or U: a fixed number of digits, or any number in braces. -/
def hexEscape? (f : Flags) (count : Nat) (cs : List Char) : Option (Char × Bool × List Char) :=
  match cs with
  | '{' :: rest =>
    let inside := rest.takeWhile (· != '}')
    let digits := if f.spaced then inside.filter (fun c => !Unicode.isWhitespace c) else inside
    match rest.drop inside.length with
    | '}' :: rest =>
      let n := hexValue digits
      if digits.isEmpty || !digits.all Text.isHexDigit || !isScalar n then none
      else some (Char.ofNat n, false, rest)
    | _ => none
  | cs =>
    let digits := cs.take count
    let n := hexValue digits
    if digits.length < count || !digits.all Text.isHexDigit || !isScalar n then none
    else some (Char.ofNat n, count == 2, cs.drop count)

/-- What stands before and behind the first occurrence of an exclamation mark followed by an equals
sign. -/
def cutNotEqual? : List Char → Option (List Char × List Char)
  | '!' :: '=' :: rest => some ([], rest)
  | c :: rest => (cutNotEqual? rest).map (fun (a, b) => (c :: a, b))
  | [] => none

/-- The class that the text in the braces of a class escape names. -/
def classQuery? (query : List Char) : Option CharSet :=
  match cutNotEqual? query with
  | some (property, value) => (Unicode.valued? property value).map CharSet.complement
  | none =>
    match Text.cutFirst? ':' query with
    | some (property, value) => Unicode.valued? property value
    | none =>
      match Text.cutFirst? '=' query with
      | some (property, value) => Unicode.valued? property value
      | none => Unicode.named? query

/-- The class behind p or P. -/
def unicodeClass? (f : Flags) (negated : Bool) (cs : List Char) : Option (CharSet × List Char) :=
  let finish := fun (s : CharSet) (rest : List Char) =>
    let s := if f.ignoreCase then Unicode.foldSet s else s
    some (if negated then CharSet.complement s else s, rest)
  if !f.unicode then none
  else
    match cs with
    | '{' :: rest =>
      let query := rest.takeWhile (· != '}')
      match rest.drop query.length with
      | '}' :: rest => (classQuery? query).bind (fun s => finish s rest)
      | _ => none
    | '\\' :: _ => none
    | c :: rest => (Unicode.named? [c]).bind (fun s => finish s rest)
    | [] => none

def asciiDigits : CharSet := [(48, 57)]

def asciiSpaces : CharSet := [(9, 13), (32, 32)]

def asciiWordSet : CharSet := [(48, 57), (65, 90), (95, 95), (97, 122)]

/-- The class of a one-letter escape: digits, white space or word characters, and in upper case
everything else. Without Unicode nothing outside ASCII may match. -/
def letterClass? (f : Flags) (c : Char) : Option CharSet :=
  let pick := fun (unicode ascii : CharSet) => if f.unicode then unicode else ascii
  let positive := match c.toLower with
    | 'd' => some (pick Unicode.digits asciiDigits)
    | 's' => some (pick Unicode.whitespace asciiSpaces)
    | 'w' => some (pick Unicode.wordSet asciiWordSet)
    | _ => none
  if c.isUpper then
    if f.unicode then positive.map CharSet.complement else none
  else positive

def controlEscape? : Char → Option Char
  | 'a' => some (Char.ofNat 7)
  | 'f' => some (Char.ofNat 12)
  | 't' => some '\t'
  | 'n' => some '\n'
  | 'r' => some '\r'
  | 'v' => some (Char.ofNat 11)
  | _ => none

/-- A word boundary with its kind in braces; braces that hold no letter are a repetition. -/
def wordBoundary? (f : Flags) (cs : List Char) : Option (Escaped × List Char) :=
  let isName := fun (c : Char) => c.isAlpha || c == '-'
  match cs with
  | '{' :: rest =>
    let inner := f.skip rest
    match inner with
    | [] => none
    | c :: _ =>
      if !isName c then some (.look (.wordEdge f.unicode), cs)
      else
        let name := inner.takeWhile (fun c => isName c || (f.spaced && Unicode.isWhitespace c))
        let letters := name.filter isName
        match inner.drop name.length with
        | '}' :: rest =>
          match String.ofList letters with
          | "start" => some (.look (.wordStart f.unicode), rest)
          | "end" => some (.look (.wordEnd f.unicode), rest)
          | "start-half" => some (.look (.wordStartHalf f.unicode), rest)
          | "end-half" => some (.look (.wordEndHalf f.unicode), rest)
          | _ => none
        | _ => none
  | cs => some (.look (.wordEdge f.unicode), cs)

/-- What stands behind a backslash. Back references do not exist. -/
def escape? (f : Flags) (cs : List Char) : Option (Escaped × List Char) :=
  match cs with
  | [] => none
  | c :: rest =>
    let hex := fun (count : Nat) =>
      (hexEscape? f count (f.skip rest)).map (fun (x, short, rest) =>
        (if short && 127 < x.toNat then Escaped.byte x else .char x, rest))
    if c = 'x' then hex 2
    else if c = 'u' then hex 4
    else if c = 'U' then hex 8
    else if c = 'p' || c = 'P' then
      (unicodeClass? f (c = 'P') (f.skip rest)).map (fun (s, rest) => (.set s, rest))
    else if ['d', 'D', 's', 'S', 'w', 'W'].contains c then
      (letterClass? f c).map (fun s => (.set s, rest))
    else if isEscapable c then some (.char c, rest)
    else if c = 'A' then some (.look .start, rest)
    else if c = 'z' then some (.look .finish, rest)
    else if c = 'b' then wordBoundary? f rest
    else if c = 'B' then some (.look (.noWordEdge f.unicode), rest)
    else if c = '<' then some (.look (.wordStart f.unicode), rest)
    else if c = '>' then some (.look (.wordEnd f.unicode), rest)
    else (controlEscape? c).map (fun x => (.char x, rest))

/-- The letters of ASCII in a set, in their other case. -/
def asciiOtherCase (s : CharSet) : CharSet :=
  (CharSet.inter s [(65, 90)]).map (fun (low, high) => (low + 32, high + 32))
    ++ (CharSet.inter s [(97, 122)]).map (fun (low, high) => (low - 32, high - 32))

/-- The set with the other cases of its members, if case is ignored. -/
def closeCase (f : Flags) (s : CharSet) : CharSet :=
  if !f.ignoreCase then s
  else if f.unicode then Unicode.foldSet s
  else CharSet.ofList (s ++ asciiOtherCase (CharSet.ofList s))

/-- Without Unicode, a class may match nothing outside ASCII. -/
def admits (f : Flags) (s : CharSet) : Bool := f.unicode || s.all (fun i => i.2 < 128)

/-- The code points of a single character. Case is ignored outside ASCII only with Unicode. -/
def charSet? (f : Flags) (c : Char) : Option CharSet :=
  if f.ignoreCase && !admits f (CharSet.single c) then none
  else some (closeCase f (CharSet.single c))

/-- The named classes of ASCII characters. -/
def asciiClass? : String → Option CharSet
  | "alnum" => some [(48, 57), (65, 90), (97, 122)]
  | "alpha" => some [(65, 90), (97, 122)]
  | "ascii" => some [(0, 127)]
  | "blank" => some [(9, 9), (32, 32)]
  | "cntrl" => some [(0, 31), (127, 127)]
  | "digit" => some [(48, 57)]
  | "graph" => some [(33, 126)]
  | "lower" => some [(97, 122)]
  | "print" => some [(32, 126)]
  | "punct" => some [(33, 47), (58, 64), (91, 96), (123, 126)]
  | "space" => some [(9, 13), (32, 32)]
  | "upper" => some [(65, 90)]
  | "word" => some [(48, 57), (65, 90), (95, 95), (97, 122)]
  | "xdigit" => some [(48, 57), (65, 70), (97, 102)]
  | _ => none

/-- A named ASCII class behind its opening bracket; anything else is a nested class. -/
def namedAscii? (cs : List Char) : Option (CharSet × List Char) :=
  match cs with
  | ':' :: rest =>
    let (negated, rest) := match rest with
      | '^' :: rest => (true, rest)
      | rest => (false, rest)
    let name := rest.takeWhile (· != ':')
    match rest.drop name.length with
    | ':' :: ']' :: rest =>
      (asciiClass? (String.ofList name)).map (fun s =>
        (if negated then CharSet.complement s else s, rest))
    | _ => none
  | _ => none

inductive SetOperator where
  | inter
  | diff
  | symmDiff

def SetOperator.apply : SetOperator → CharSet → CharSet → CharSet
  | .inter => CharSet.inter
  | .diff => CharSet.diff
  | .symmDiff => CharSet.symmDiff

/-- One end of a range, or a class on its own. -/
def classItem? (f : Flags) (cs : List Char) : Option (Escaped × List Char) :=
  match cs with
  | [] => none
  | '\\' :: rest =>
    match escape? f rest with
    | some (.look _, _) => none
    | other => other
  | c :: rest => some (.char c, rest)

/-- A character that may end a range. Without Unicode, it has to be ASCII. -/
def rangeEnd? (f : Flags) : Escaped → Option Char
  | .char c => if f.unicode || c.toNat < 128 then some c else none
  | .byte c => if f.unicode then some c else none
  | _ => none

/-- An item of a class: a single character, a range, or an escaped class. -/
def classRange? (f : Flags) (cs : List Char) : Option (CharSet × List Char) := do
  let (first, rest) ← classItem? f cs
  let rest := f.skip rest
  let alone : Option (CharSet × List Char) := match first with
    | .set s => some (s, rest)
    | e => (rangeEnd? f e).map (fun c => (CharSet.single c, rest))
  match rest with
  | [] => none
  | '-' :: tail =>
    match f.skip tail with
    | [] => alone
    | ']' :: _ => alone
    | '-' :: _ => alone
    | tail => do
      let (second, rest) ← classItem? f tail
      let low ← rangeEnd? f first
      let high ← rangeEnd? f second
      if low ≤ high then some ([(low.toNat, high.toNat)], rest) else none
  | _ => alone

/-- The head of a class behind its opening bracket: whether it is negated, and the characters that
are literal only there. -/
def classHead (f : Flags) (cs : List Char) : Bool × CharSet × List Char :=
  let (negated, cs) := match f.skip cs with
    | '^' :: rest => (true, f.skip rest)
    | rest => (false, rest)
  let isDash := fun (c : Char) => c == '-' || (f.spaced && Unicode.isWhitespace c)
  match cs with
  | '-' :: _ => (negated, [(45, 45)], cs.dropWhile isDash)
  | ']' :: rest => (negated, [(93, 93)], rest)
  | cs => (negated, [], cs)

structure ClassResult where
  members : CharSet
  depth : Nat
  rest : List Char

/-- Reads a class from behind its head. Pending is the left side of an operator whose right side is
being read; the depth is the deepest nesting so far, and the fuel bounds the number of items. -/
def classBody? :
    Nat → Flags → Bool → Option (SetOperator × CharSet) → CharSet → Nat → List Char →
      Option ClassResult
  | 0, _, _, _, _, _, _ => none
  | fuel + 1, f, negated, pending, members, depth, cs =>
    let settled := match pending with
      | none => members
      | some (op, left) => op.apply (closeCase f left) (closeCase f members)
    match f.skip cs with
    | [] => none
    | ']' :: rest =>
      let closed := closeCase f settled
      let members := if negated then CharSet.complement closed else closed
      if admits f members then some ⟨members, depth + 1, rest⟩ else none
    | '[' :: rest =>
      match namedAscii? rest with
      | some (s, rest) =>
        if admits f s then classBody? fuel f negated pending (members ++ s) depth rest else none
      | none =>
        let (inner, head, rest) := classHead f rest
        match classBody? fuel f inner none head 0 rest with
        | none => none
        | some nested =>
          let members := members ++ nested.members
          classBody? fuel f negated pending members (max depth nested.depth) nested.rest
    | '&' :: '&' :: rest => classBody? fuel f negated (some (.inter, settled)) [] depth rest
    | '-' :: '-' :: rest => classBody? fuel f negated (some (.diff, settled)) [] depth rest
    | '~' :: '~' :: rest => classBody? fuel f negated (some (.symmDiff, settled)) [] depth rest
    | cs =>
      match classRange? f cs with
      | none => none
      | some (s, rest) => classBody? fuel f negated pending (members ++ s) depth rest

/-- A bracketed class behind its opening bracket. -/
def class? (f : Flags) (cs : List Char) : Option ClassResult :=
  let (negated, head, rest) := classHead f cs
  (classBody? (2 * cs.length + 2) f negated none head 0 rest).map (fun r =>
    { r with members := CharSet.ofList r.members })

end HyperSchema.Pattern
