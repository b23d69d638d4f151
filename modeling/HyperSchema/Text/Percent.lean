import HyperSchema.Text.Utf8

/-!
# Percent escapes

A byte is escaped as a percent sign and two upper-case hexadecimal digits; either case is read back.
A percent sign that is not followed by two digits stands for itself.
-/

namespace HyperSchema.Text

def upperHex (n : Nat) : Char :=
  if n < 10 then Char.ofNat (48 + n) else Char.ofNat (55 + n)

def escapeByte (b : Nat) : List Char := ['%', upperHex (b / 16), upperHex (b % 16)]

/-- The bytes of a character, each escaped. -/
def escapeChar (c : Char) : List Char := (utf8 c).flatMap escapeByte

def isHexDigit (c : Char) : Bool :=
  ('0' ≤ c && c ≤ '9') || ('a' ≤ c && c ≤ 'f') || ('A' ≤ c && c ≤ 'F')

def hexDigitValue (c : Char) : Nat :=
  if '0' ≤ c && c ≤ '9' then c.toNat - 48
  else if 'a' ≤ c && c ≤ 'f' then c.toNat - 87
  else c.toNat - 55

/-- The bytes of a text with its escapes undone. -/
def unescapeBytes : List Char → List Nat
  | [] => []
  | '%' :: a :: b :: rest =>
    if isHexDigit a && isHexDigit b then
      (hexDigitValue a * 16 + hexDigitValue b) :: unescapeBytes rest
    else utf8 '%' ++ unescapeBytes (a :: b :: rest)
  | c :: rest => utf8 c ++ unescapeBytes rest

/-- The text with its escapes undone; bytes that are no characters are replaced. -/
def unescapePercent (cs : List Char) : List Char := decodeLossy (unescapeBytes cs)

end HyperSchema.Text
