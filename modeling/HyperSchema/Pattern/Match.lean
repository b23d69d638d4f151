import HyperSchema.Pattern.Syntax
import HyperSchema.Unicode.Loose

/-!
# Searching

A pattern is run on a set of positions of a text at once: the positions it may begin at go in, those
where a match may end come out. Repetition adds what one more round reaches until nothing is new. A
search begins at every position, so a text has a match when any position comes out.
-/

namespace HyperSchema

namespace Look

def asciiWord (c : Char) : Bool := c.isAlphanum || c == '_'

def isWord (unicode : Bool) : Option Char → Bool
  | none => false
  | some c => if unicode then Unicode.wordSet.has c.toNat else asciiWord c

/-- Whether a test holds between two characters; none stands for an end of the text. -/
def holds (before after : Option Char) : Look → Bool
  | .start => before.isNone
  | .finish => after.isNone
  | .lineStart false => before.isNone || before == some '\n'
  | .lineStart true =>
    before.isNone || before == some '\n' || (before == some '\r' && after != some '\n')
  | .lineEnd false => after.isNone || after == some '\n'
  | .lineEnd true =>
    after.isNone || after == some '\r' || (after == some '\n' && before != some '\r')
  | .wordEdge u => isWord u before != isWord u after
  | .noWordEdge u => isWord u before == isWord u after
  | .wordStart u => !isWord u before && isWord u after
  | .wordEnd u => isWord u before && !isWord u after
  | .wordStartHalf u => !isWord u before
  | .wordEndHalf u => !isWord u after

end Look

namespace Regex

def charBefore? (text : Array Char) (i : Nat) : Option Char :=
  match i with
  | 0 => none
  | i + 1 => text[i]?

/-- The positions of both lists, each once. -/
def join (s t : List Nat) : List Nat := s ++ t.filter (fun i => !s.contains i)

/-- Runs a step a number of times, or until it changes nothing. -/
def rounds (step : List Nat → List Nat) : Nat → List Nat → List Nat
  | 0, s => s
  | n + 1, s =>
    let next := step s
    if next == s then s else rounds step n next

/-- What is reached by any number of rounds up to a bound; only what the last round reached anew
goes into the next. -/
def reach (step : List Nat → List Nat) : Nat → List Nat → List Nat → List Nat
  | 0, reached, _ => reached
  | n + 1, reached, frontier =>
    let fresh := (step frontier).filter (fun i => !reached.contains i)
    if fresh.isEmpty then reached else reach step n (reached ++ fresh) fresh

/-- Where matches that begin at one of the given positions may end. -/
def ends (text : Array Char) : Regex → List Nat → List Nat
  | .empty, s => s
  | .set members, s =>
    s.filterMap (fun i =>
      match text[i]? with
      | some c => if members.has c.toNat then some (i + 1) else none
      | none => none)
  | .look test, s => s.filter (fun i => test.holds (charBefore? text i) text[i]?)
  | .cat a b, s => ends text b (ends text a s)
  | .alt a b, s => join (ends text a s) (ends text b s)
  | .repeated body least most, s =>
    let first := rounds (ends text body) least s
    let more := match most with
      | none => text.size + 1
      | some n => min (n - least) (text.size + 1)
    reach (ends text body) more first first

/-- Whether there is a match anywhere in the text. -/
def isMatch (r : Regex) (text : String) : Bool :=
  let chars := text.toList.toArray
  !(ends chars r (List.range (chars.size + 1))).isEmpty

end Regex

end HyperSchema
