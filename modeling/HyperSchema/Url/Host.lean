import HyperSchema.Text.Count
import HyperSchema.Text.Cut
import HyperSchema.Text.Percent
import HyperSchema.Url.Punycode

/-!
# Hosts

The host of a special URL is a domain, a version 4 address in any of its spellings, or a version 6
address in brackets; each has one canonical text. Other URLs have opaque hosts, which are kept as
written apart from escapes. A domain is lower case, and a label outside ASCII is written in
Punycode.
-/

namespace HyperSchema.Url

/-- The number of a version 4 part: decimal, octal behind a zero, hexadecimal behind 0x. -/
def ipv4Number? (cs : List Char) : Option Nat :=
  let read (base : Nat) (ok : Char → Bool) (digits : List Char) : Option Nat :=
    if digits.all ok then
      some (digits.foldl (fun n c => n * base + Text.hexDigitValue c) 0)
    else none
  match cs with
  | [] => none
  | '0' :: 'x' :: rest => read 16 Text.isHexDigit rest
  | '0' :: 'X' :: rest => read 16 Text.isHexDigit rest
  | '0' :: d :: rest => read 8 (fun c => '0' ≤ c && c ≤ '7') (d :: rest)
  | rest => read 10 Char.isDigit rest

/-- The parts of a dotted name; one empty part at the end is dropped. -/
def dottedParts (cs : List Char) : List (List Char) :=
  let parts := Text.pieces '.' cs
  if 1 < parts.length && parts.getLast? == some [] then parts.dropLast else parts

/-- A name whose last part is a number is meant as a version 4 address. -/
def endsInNumber (cs : List Char) : Bool :=
  match (dottedParts cs).getLast? with
  | none => false
  | some [] => false
  | some last => last.all Char.isDigit || (ipv4Number? last).isSome

def dotted (address : Nat) : List Char :=
  Text.joinWith ['.'] ([24, 16, 8, 0].map (fun shift =>
    Nat.toDigits 10 (address / Nat.pow 2 shift % 256)))

/-- The last part fills what the parts before it leave. -/
def ipv4? (cs : List Char) : Option Nat := do
  let numbers ← (dottedParts cs).mapM ipv4Number?
  if 4 < numbers.length then none
  else
    let last ← numbers.getLast?
    let front := numbers.dropLast
    if Nat.pow 256 (4 - front.length) ≤ last || front.any (fun n => 255 < n) then none
    else
      some (front.zipIdx.foldl (fun n (part, i) => n + part * Nat.pow 256 (3 - i)) last)

/-- The pieces of a version 6 address, and how many of them stand before the double colon. -/
structure Ipv6Draft where
  pieces : List Nat
  compress : Option Nat

/-- A decimal number below 256 without a leading zero. -/
def decimalByte? (cs : List Char) : Option Nat :=
  let leadingZero := cs.head? == some '0' && 1 < cs.length
  if cs.isEmpty || 3 < cs.length || !cs.all Char.isDigit || leadingZero then none
  else
    let n := Text.digitsValue cs
    if 255 < n then none else some n

/-- A dotted tail of a version 6 address: four decimal bytes. -/
def ipv4Tail? (cs : List Char) : Option (List Nat) :=
  let parts := Text.pieces '.' cs
  if parts.length ≠ 4 then none
  else
    match parts.mapM decimalByte? with
    | some [a, b, c, d] => some [a * 256 + b, c * 256 + d]
    | _ => none

/-- Reads the pieces behind the first, each behind its colon; the fuel bounds their number. -/
def ipv6Pieces? : Nat → Ipv6Draft → List Char → Option Ipv6Draft
  | 0, _, _ => none
  | fuel + 1, draft, cs =>
    match cs with
    | [] => some draft
    | ':' :: rest =>
      if draft.compress.isSome || 8 ≤ draft.pieces.length then none
      else ipv6Pieces? fuel { draft with compress := some draft.pieces.length } rest
    | cs =>
      if 8 ≤ draft.pieces.length then none
      else
        let run := cs.takeWhile Text.isHexDigit
        let count := min run.length 4
        let digits := cs.take count
        let rest := cs.drop count
        let value := digits.foldl (fun n c => n * 16 + Text.hexDigitValue c) 0
        match rest with
        | [] => if count = 0 then none else some { draft with pieces := draft.pieces ++ [value] }
        | '.' :: _ =>
          if count = 0 || 6 < draft.pieces.length then none
          else (ipv4Tail? cs).map (fun tail => { draft with pieces := draft.pieces ++ tail })
        | [':'] => none
        | ':' :: rest =>
          if count = 0 then none
          else ipv6Pieces? fuel { draft with pieces := draft.pieces ++ [value] } rest
        | _ => none

def ipv6? (cs : List Char) : Option (List Nat) :=
  let draft :=
    match cs with
    | ':' :: ':' :: rest => ipv6Pieces? (rest.length + 1) ⟨[], some 0⟩ rest
    | ':' :: _ => none
    | [] => none
    | cs => ipv6Pieces? (cs.length + 1) ⟨[], none⟩ cs
  match draft with
  | none => none
  | some d =>
    match d.compress with
    | none => if d.pieces.length = 8 then some d.pieces else none
    | some front =>
      if 8 ≤ d.pieces.length then none
      else
        some (d.pieces.take front ++ List.replicate (8 - d.pieces.length) 0 ++ d.pieces.drop front)

/-- The first longest run of at least two zero pieces: where it starts and its length. -/
def longestZeroRun (pieces : List Nat) : Option (Nat × Nat) :=
  let runs := (List.range pieces.length).map (fun i =>
    (i, ((pieces.drop i).takeWhile (· == 0)).length))
  let best := runs.foldl (fun (best : Nat × Nat) run =>
    if best.2 < run.2 then run else best) (0, 0)
  if 2 ≤ best.2 then some best else none

def hexDigits (n : Nat) : List Char := Nat.toDigits 16 n

def ipv6Text (pieces : List Nat) : List Char :=
  match longestZeroRun pieces with
  | none => Text.joinWith [':'] (pieces.map hexDigits)
  | some (start, length) =>
    Text.joinWith [':'] ((pieces.take start).map hexDigits) ++ [':', ':']
      ++ Text.joinWith [':'] ((pieces.drop (start + length)).map hexDigits)

/-- What no domain may hold: controls, the blank, and the characters that delimit the parts of a
URL. -/
def forbiddenInDomain (c : Char) : Bool :=
  c.toNat ≤ 32 || c.toNat = 127
    || ['%', '#', '/', ':', '<', '>', '?', '@', '[', '\\', ']', '^', '|'].contains c

/-- Lower case for the Latin, Greek and Cyrillic letters that domains are written in. -/
def foldCase (c : Char) : Char :=
  let n := c.toNat
  if 'A' ≤ c && c ≤ 'Z' then Char.ofNat (n + 32)
  else if (0xC0 ≤ n && n ≤ 0xDE && n ≠ 0xD7) || (0x391 ≤ n && n ≤ 0x3A9 && n ≠ 0x3A2)
      || (0x410 ≤ n && n ≤ 0x42F) then Char.ofNat (n + 32)
  else if 0x400 ≤ n && n ≤ 0x40F then Char.ofNat (n + 80)
  else if 0x100 ≤ n && n ≤ 0x137 && n % 2 = 0 && n ≠ 0x130 then Char.ofNat (n + 1)
  else c

def isAscii (cs : List Char) : Bool := cs.all (fun c => c.toNat < 128)

/-- The ASCII form of one label; an encoded label has to decode to something outside ASCII. -/
def asciiLabel? (label : List Char) : Option (List Char) :=
  match label with
  | 'x' :: 'n' :: '-' :: '-' :: rest =>
    match Punycode.decode? rest with
    | some decoded => if isAscii decoded || !isAscii rest then none else some label
    | none => none
  | label =>
    if isAscii label then some label else some (['x', 'n', '-', '-'] ++ Punycode.encode label)

/-- The ideographic full stops separate labels too. -/
def labelSeparator (c : Char) : Char :=
  if c.toNat = 0x3002 || c.toNat = 0xFF0E || c.toNat = 0xFF61 then '.' else c

def domain? (cs : List Char) : Option (List Char) := do
  let decoded := Text.unescapePercent cs
  let visible := decoded.filter (fun c => c.toNat ≠ 0xAD)
  let mapped := visible.map (fun c => foldCase (labelSeparator c))
  if mapped.any (fun c => forbiddenInDomain c || c = Text.replacement) then none
  else
    let labels ← (Text.pieces '.' mapped).mapM asciiLabel?
    some (Text.joinWith ['.'] labels)

/-- The inside of a bracketed host. -/
def bracketed? (cs : List Char) : Option (List Char) :=
  match cs.reverse with
  | ']' :: inside => some (inside.reverse.drop 1)
  | _ => none

/-- The canonical text of a special URL's host. -/
def specialHost? (cs : List Char) : Option (List Char) :=
  match cs with
  | '[' :: _ => do
    let inside ← bracketed? cs
    let pieces ← ipv6? inside
    some ('[' :: ipv6Text pieces ++ [']'])
  | cs => do
    let name ← domain? cs
    if name.isEmpty then none
    else if endsInNumber name then (ipv4? name).map dotted
    else some name

def forbiddenInHost (c : Char) : Bool :=
  [0, 9, 10, 13, 32].contains c.toNat
    || ['#', '/', ':', '<', '>', '?', '@', '[', '\\', ']', '^', '|'].contains c

def isControl (c : Char) : Bool := c.toNat < 32 || 127 ≤ c.toNat

def opaqueHost? (cs : List Char) : Option (List Char) :=
  match cs with
  | '[' :: _ => do
    let inside ← bracketed? cs
    let pieces ← ipv6? inside
    some ('[' :: ipv6Text pieces ++ [']'])
  | cs =>
    if cs.any forbiddenInHost then none
    else some (cs.flatMap (fun c => if isControl c then Text.escapeChar c else [c]))

end HyperSchema.Url
