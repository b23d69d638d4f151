import HyperSchema.Unicode.CharSet

/-!
# Regular expressions

The kernel of a pattern: sets of code points, tests of a position that consume nothing, sequence,
choice and counted repetition. Whether a repetition is eager does not matter to the question whether
there is a match, so it is not kept; nor are groups.
-/

namespace HyperSchema

/-- What a test looks at: the ends of the text, of a line, or of a word. A half boundary looks at
one side only. -/
inductive Look where
  | start
  | finish
  | lineStart (crlf : Bool)
  | lineEnd (crlf : Bool)
  | wordEdge (unicode : Bool)
  | noWordEdge (unicode : Bool)
  | wordStart (unicode : Bool)
  | wordEnd (unicode : Bool)
  | wordStartHalf (unicode : Bool)
  | wordEndHalf (unicode : Bool)
  deriving DecidableEq

inductive Regex where
  | empty
  | set (members : CharSet)
  | look (test : Look)
  | cat (first second : Regex)
  | alt (left right : Regex)
  | repeated (body : Regex) (least : Nat) (most : Option Nat)
  deriving DecidableEq

namespace Regex

def catAll : List Regex → Regex
  | [] => .empty
  | [r] => r
  | r :: rest => .cat r (catAll rest)

def altAll : List Regex → Regex
  | [] => .empty
  | [r] => r
  | r :: rest => .alt r (altAll rest)

/-- How many bytes of UTF-8 a code point takes. -/
def utf8Length (point : Nat) : Nat :=
  if point < 0x80 then 1 else if point < 0x800 then 2 else if point < 0x10000 then 3 else 4

/-- An estimate of the memory, in bytes, that an automaton for the pattern takes: a state for each
member of a sequence, several for a class of many intervals, and a copy for each repetition. -/
def weight : Regex → Nat
  | .empty => 0
  | .set members =>
    match members with
    | [(low, high)] => if low = high then 32 * utf8Length low else 64
    | members => 64 * members.length
  | .look _ => 32
  | .cat a b => a.weight + b.weight
  | .alt a b => a.weight + b.weight + 32
  | .repeated body least most => body.weight * max 1 (max least (most.getD 1)) + 32

/-- Patterns whose automaton would outgrow ten megabytes are refused. -/
def weightLimit : Nat := 10 * 1024 * 1024

end Regex

end HyperSchema
