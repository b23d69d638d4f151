import HyperSchema.Text.Cut
import HyperSchema.Unicode.Category
import HyperSchema.Unicode.Property

/-!
# Quoted text

A text in double quotes, for messages. Quotes and backslashes are escaped, and so is whatever cannot
be seen: controls, unassigned code points, separators other than the blank, and marks that extend
the character before them.
-/

namespace HyperSchema.Text

/-- Code points that print nothing of their own. -/
def invisible : CharSet :=
  CharSet.diff
    (CharSet.union (Unicode.inCategories ["Cc", "Cf", "Cs", "Co", "Cn", "Zl", "Zp", "Zs"])
      (Unicode.alternating Unicode.graphemeExtendRuns))
    (CharSet.single ' ')

def quotedChar (c : Char) : List Char :=
  match c with
  | '"' => ['\\', '"']
  | '\\' => ['\\', '\\']
  | '\n' => ['\\', 'n']
  | '\r' => ['\\', 'r']
  | '\t' => ['\\', 't']
  | c =>
    if c.toNat = 0 then ['\\', '0']
    else if c.toNat < 0x7F && 0x20 ≤ c.toNat then [c]
    else if invisible.has c.toNat then ['\\', 'u', '{'] ++ Nat.toDigits 16 c.toNat ++ ['}']
    else [c]

def quoted (s : String) : String := String.ofList ('"' :: s.toList.flatMap quotedChar ++ ['"'])

end HyperSchema.Text
