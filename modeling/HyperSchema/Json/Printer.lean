import HyperSchema.Json.Basic
import HyperSchema.Number.Shortest

/-!
# Compact JSON text

Members are written in their order, without blanks. Inside a string only the quote, the backslash
and the control characters below the blank are escaped; everything else is written as it is.
-/

namespace HyperSchema

namespace Json

def hexDigit (n : Nat) : Char :=
  if n < 10 then Char.ofNat (48 + n) else Char.ofNat (87 + n)

def escapeChar (c : Char) : List Char :=
  if c = '"' then ['\\', '"']
  else if c = '\\' then ['\\', '\\']
  else if c.toNat = 8 then ['\\', 'b']
  else if c.toNat = 9 then ['\\', 't']
  else if c.toNat = 10 then ['\\', 'n']
  else if c.toNat = 12 then ['\\', 'f']
  else if c.toNat = 13 then ['\\', 'r']
  else if c.toNat < 32 then
    ['\\', 'u', '0', '0', hexDigit (c.toNat / 16), hexDigit (c.toNat % 16)]
  else [c]

def quote (s : String) : List Char :=
  '"' :: s.toList.flatMap escapeChar ++ ['"']

def intChars : Int → List Char
  | .ofNat n => Nat.toDigits 10 n
  | .negSucc n => '-' :: Nat.toDigits 10 (n + 1)

def numberChars : Number → List Char
  | .int n => intChars n
  | .float x => x.chars

mutual
def chars : Json → List Char
  | .null => ['n', 'u', 'l', 'l']
  | .bool true => ['t', 'r', 'u', 'e']
  | .bool false => ['f', 'a', 'l', 's', 'e']
  | .number n => numberChars n
  | .string s => quote s
  | .array [] => ['[', ']']
  | .array (v :: rest) => '[' :: chars v ++ itemsChars rest ++ [']']
  | .object [] => ['{', '}']
  | .object ((key, v) :: rest) => '{' :: quote key ++ ':' :: chars v ++ membersChars rest ++ ['}']

/-- The items after the first, each behind its comma. -/
def itemsChars : List Json → List Char
  | [] => []
  | v :: rest => ',' :: chars v ++ itemsChars rest

def membersChars : List (String × Json) → List Char
  | [] => []
  | (key, v) :: rest => ',' :: quote key ++ ':' :: chars v ++ membersChars rest
end

def render (v : Json) : String := String.ofList v.chars

end Json

end HyperSchema
