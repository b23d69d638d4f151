import HyperSchema.Json.Basic

/-!
# Reading JSON text

The grammar is the strict one: no lone surrogates, no raw control characters in strings, nothing
after the value but blanks. An integer literal that fits 64 bits stays an integer; every other
number is a double, and one beyond the finite range makes the text invalid. Containers nest at most
127 deep. A key that comes twice keeps its first place and its last value.
-/

namespace HyperSchema

namespace Json

/-- Containers may nest this deep. -/
def depthLimit : Nat := 127

def isBlank (c : Char) : Bool := c == ' ' || c == '\n' || c == '\t' || c == '\r'

def skipBlanks (cs : List Char) : List Char := cs.dropWhile isBlank

def digitValue (c : Char) : Nat := c.toNat - 48

def hexValue? (c : Char) : Option Nat :=
  if '0' ≤ c && c ≤ '9' then some (c.toNat - 48)
  else if 'a' ≤ c && c ≤ 'f' then some (c.toNat - 87)
  else if 'A' ≤ c && c ≤ 'F' then some (c.toNat - 55)
  else none

def hex4? (a b c d : Char) : Option Nat := do
  let a ← hexValue? a
  let b ← hexValue? b
  let c ← hexValue? c
  let d ← hexValue? d
  some (((a * 16 + b) * 16 + c) * 16 + d)

def isHighSurrogate (n : Nat) : Bool := 0xD800 ≤ n && n < 0xDC00

def isLowSurrogate (n : Nat) : Bool := 0xDC00 ≤ n && n < 0xE000

/-- The character of a one-letter escape. -/
def simpleEscape? : Char → Option Char
  | '"' => some '"'
  | '\\' => some '\\'
  | '/' => some '/'
  | 'b' => some (Char.ofNat 8)
  | 'f' => some (Char.ofNat 12)
  | 'n' => some '\n'
  | 'r' => some '\r'
  | 't' => some '\t'
  | _ => none

/-- Reads the rest of a string behind its opening quote; the characters read so far are held in
reverse. -/
def stringBody (read : List Char) : List Char → Option (List Char × List Char)
  | [] => none
  | '"' :: rest => some (read.reverse, rest)
  | '\\' :: 'u' :: a :: b :: c :: d :: rest =>
    match hex4? a b c d with
    | none => none
    | some n =>
      if isHighSurrogate n then
        match rest with
        | '\\' :: 'u' :: e :: f :: g :: h :: rest =>
          match hex4? e f g h with
          | none => none
          | some m =>
            if isLowSurrogate m then
              stringBody (Char.ofNat (0x10000 + (n - 0xD800) * 1024 + (m - 0xDC00)) :: read) rest
            else none
        | _ => none
      else if isLowSurrogate n then none
      else stringBody (Char.ofNat n :: read) rest
  | '\\' :: c :: rest =>
    match simpleEscape? c with
    | some x => stringBody (x :: read) rest
    | none => none
  | c :: rest => if c = '\\' || c.toNat < 32 then none else stringBody (c :: read) rest

/-- The leading digits of a literal: how many of them a 64-bit significand takes, and how many are
left over. -/
structure Significand where
  value : Nat
  taken : Nat
  dropped : Nat

def maxSignificand : Nat := 0xFFFFFFFFFFFFFFFF

/-- Takes digits as long as the significand fits 64 bits; the digits after the first that does not
are only counted. -/
def Significand.push (s : Significand) (c : Char) : Significand :=
  let next := s.value * 10 + digitValue c
  if s.dropped = 0 && next ≤ maxSignificand then ⟨next, s.taken + 1, 0⟩
  else { s with dropped := s.dropped + 1 }

/-- An exponent part: its sign and digits. None when a sign or mark has no digit behind it. -/
def exponentPart : List Char → Option (Int × List Char)
  | c :: rest =>
    if c = 'e' || c = 'E' then
      let (negative, digits) := match rest with
        | '+' :: tail => (false, tail)
        | '-' :: tail => (true, tail)
        | tail => (false, tail)
      let run := digits.takeWhile Char.isDigit
      if run.isEmpty then none
      else
        let n := run.foldl (fun n d => n * 10 + digitValue d) 0
        some (if negative then -(n : Int) else n, digits.dropWhile Char.isDigit)
    else some (0, c :: rest)
  | [] => some (0, [])

/-- An integer literal: kept exactly when it fits the signed or unsigned 64-bit range. -/
def integerLiteral? (negative : Bool) (s : Significand) : Option Number :=
  if 0 < s.dropped then (Binary64.ofDecimal? negative s.value s.dropped).map .float
  else if negative then
    if 0 < s.value && s.value ≤ 0x8000000000000000 then some (.int (-(s.value : Int)))
    else (Binary64.ofDecimal? true s.value 0).map .float
  else some (.int s.value)

/-- A number literal behind its optional minus sign. -/
def numberBody (negative : Bool) (cs : List Char) : Option (Number × List Char) :=
  let run := cs.takeWhile Char.isDigit
  let rest := cs.dropWhile Char.isDigit
  if run.isEmpty || (run.head? == some '0' && 1 < run.length) then none
  else
    let whole := run.foldl Significand.push ⟨0, 0, 0⟩
    match rest with
    | '.' :: tail =>
      let places := tail.takeWhile Char.isDigit
      if places.isEmpty then none
      else
        let all := places.foldl Significand.push { whole with taken := 0, dropped := 0 }
        match exponentPart (tail.dropWhile Char.isDigit) with
        | none => none
        | some (e, rest) =>
          (Binary64.ofDecimal? negative all.value ((whole.dropped : Int) - all.taken + e)).map
            (fun x => (.float x, rest))
    | c :: _ =>
      if c = 'e' || c = 'E' then
        match exponentPart rest with
        | none => none
        | some (e, rest) =>
          (Binary64.ofDecimal? negative whole.value ((whole.dropped : Int) + e)).map
            (fun x => (.float x, rest))
      else (integerLiteral? negative whole).map (fun n => (n, rest))
    | [] => (integerLiteral? negative whole).map (fun n => (n, []))

/-- The rest of a text behind the given characters. -/
def expect? : List Char → List Char → Option (List Char)
  | [], cs => some cs
  | w :: word, c :: cs => if w = c then expect? word cs else none
  | _ :: _, [] => none

mutual
/-- One value, with the input behind it. The fuel bounds the number of values and separators; the
depth is what is left of the nesting limit. -/
def value? : Nat → Nat → List Char → Option (Json × List Char)
  | 0, _, _ => none
  | fuel + 1, depth, cs =>
    match skipBlanks cs with
    | [] => none
    | 'n' :: rest => (expect? ['u', 'l', 'l'] rest).map (fun r => (.null, r))
    | 't' :: rest => (expect? ['r', 'u', 'e'] rest).map (fun r => (.bool true, r))
    | 'f' :: rest => (expect? ['a', 'l', 's', 'e'] rest).map (fun r => (.bool false, r))
    | '"' :: rest => (stringBody [] rest).map (fun (s, r) => (.string (String.ofList s), r))
    | '[' :: rest =>
      match depth with
      | 0 => none
      | depth + 1 =>
        match skipBlanks rest with
        | ']' :: rest => some (.array [], rest)
        | rest => (items? fuel depth [] rest).map (fun (vs, r) => (.array vs, r))
    | '{' :: rest =>
      match depth with
      | 0 => none
      | depth + 1 =>
        match skipBlanks rest with
        | '}' :: rest => some (.object [], rest)
        | rest => (members? fuel depth [] rest).map (fun (ms, r) => (.object ms, r))
    | '-' :: rest => (numberBody true rest).map (fun (n, r) => (.number n, r))
    | rest => (numberBody false rest).map (fun (n, r) => (.number n, r))

/-- The items of an array up to its closing bracket, those read so far in reverse. -/
def items? : Nat → Nat → List Json → List Char → Option (List Json × List Char)
  | 0, _, _, _ => none
  | fuel + 1, depth, read, cs =>
    match value? fuel depth cs with
    | none => none
    | some (v, rest) =>
      match skipBlanks rest with
      | ',' :: rest => items? fuel depth (v :: read) rest
      | ']' :: rest => some ((v :: read).reverse, rest)
      | _ => none

def members? : Nat → Nat → Table Json → List Char → Option (Table Json × List Char)
  | 0, _, _, _ => none
  | fuel + 1, depth, read, cs =>
    match skipBlanks cs with
    | '"' :: rest =>
      match stringBody [] rest with
      | none => none
      | some (key, rest) =>
        match skipBlanks rest with
        | ':' :: rest =>
          match value? fuel depth rest with
          | none => none
          | some (v, rest) =>
            let read := Table.insert read (String.ofList key) v
            match skipBlanks rest with
            | ',' :: rest => members? fuel depth read rest
            | '}' :: rest => some (read, rest)
            | _ => none
        | _ => none
    | _ => none
end

/-- Reads a whole text as one value. -/
def parse? (text : String) : Option Json :=
  let cs := text.toList
  match value? (2 * cs.length + 1) depthLimit cs with
  | some (v, rest) => if (skipBlanks rest).isEmpty then some v else none
  | none => none

end Json

end HyperSchema
