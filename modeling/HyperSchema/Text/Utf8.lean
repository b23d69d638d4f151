/-!
# UTF-8

Texts are encoded byte by byte, a byte being a number below 256. Decoding is total: every longest
beginning of a character that the bytes break off becomes one replacement character.
-/

namespace HyperSchema.Text

def utf8 (c : Char) : List Nat :=
  let n := c.toNat
  if n < 0x80 then [n]
  else if n < 0x800 then [0xC0 + n / 64, 0x80 + n % 64]
  else if n < 0x10000 then [0xE0 + n / 4096, 0x80 + n / 64 % 64, 0x80 + n % 64]
  else [0xF0 + n / 262144, 0x80 + n / 4096 % 64, 0x80 + n / 64 % 64, 0x80 + n % 64]

def utf8Bytes (cs : List Char) : List Nat := cs.flatMap utf8

def replacement : Char := Char.ofNat 0xFFFD

/-- The bytes a lead byte may be followed by, and how many more after that; none when it leads
nothing. -/
def afterLead (lead : Nat) : Option (Nat × Nat × Nat) :=
  if 0xC2 ≤ lead && lead ≤ 0xDF then some (0x80, 0xBF, 0)
  else if lead = 0xE0 then some (0xA0, 0xBF, 1)
  else if lead = 0xED then some (0x80, 0x9F, 1)
  else if 0xE1 ≤ lead && lead ≤ 0xEF then some (0x80, 0xBF, 1)
  else if lead = 0xF0 then some (0x90, 0xBF, 2)
  else if 0xF1 ≤ lead && lead ≤ 0xF3 then some (0x80, 0xBF, 2)
  else if lead = 0xF4 then some (0x80, 0x8F, 2)
  else none

def isTail (b : Nat) : Bool := 0x80 ≤ b && b ≤ 0xBF

/-- Decodes bytes; what is no character becomes the replacement character. -/
def decodeLossy : List Nat → List Char
  | [] => []
  | a :: rest =>
    if a < 0x80 then Char.ofNat a :: decodeLossy rest
    else
      match afterLead a with
      | none => replacement :: decodeLossy rest
      | some (low, high, more) =>
        match rest with
        | [] => [replacement]
        | b :: rest =>
          if b < low || high < b then replacement :: decodeLossy (b :: rest)
          else
            match more, rest with
            | 0, rest => Char.ofNat ((a - 0xC0) * 64 + (b - 0x80)) :: decodeLossy rest
            | _ + 1, [] => [replacement]
            | 1, c :: rest =>
              if isTail c then
                Char.ofNat (((a - 0xE0) * 64 + (b - 0x80)) * 64 + (c - 0x80)) :: decodeLossy rest
              else replacement :: decodeLossy (c :: rest)
            | _ + 2, [c] => if isTail c then [replacement] else replacement :: decodeLossy [c]
            | _ + 2, c :: d :: rest =>
              if !isTail c then replacement :: decodeLossy (c :: d :: rest)
              else if isTail d then
                Char.ofNat ((((a - 0xF0) * 64 + (b - 0x80)) * 64 + (c - 0x80)) * 64 + (d - 0x80))
                  :: decodeLossy rest
              else replacement :: decodeLossy (d :: rest)
termination_by bytes => bytes.length

end HyperSchema.Text
