import HyperSchema.Pattern.Class
import HyperSchema.Text.Count

/-!
# Reading patterns

Patterns are sequences and alternatives of characters, classes, tests and groups, each of which may
be repeated. There is neither looking around nor referring back. Flags hold up to the end of their
group. A pattern is refused when it is malformed, nests more than 250 deep, or would grow into too
large an automaton.
-/

namespace HyperSchema

namespace Pattern

/-- A part of a sequence: what it matches, how deep it nests, and whether it can be repeated, which
a change of flags cannot. -/
structure Item where
  regex : Regex
  depth : Nat
  repeatable : Bool

/-- What has been read up to the end of a group: its pattern, the group names so far, the rest of
the input, and whether a bracket closed it. -/
structure Body where
  regex : Regex
  depth : Nat
  names : List (List Char)
  rest : List Char
  closed : Bool

def depthLimit : Nat := 250

def deepest (items : List Item) : Nat := items.foldl (fun d i => max d i.depth) 0

/-- A sequence, from its items in reverse. -/
def sequence (reversed : List Item) : Item :=
  match reversed with
  | [] => ⟨.empty, 0, true⟩
  | [i] => { i with repeatable := true }
  | items => ⟨.catAll (items.reverse.map Item.regex), deepest items + 1, true⟩

/-- Alternatives, from their sequences in reverse. -/
def alternatives (reversed : List Item) : Item :=
  match reversed with
  | [i] => i
  | branches => ⟨.altAll (branches.reverse.map Item.regex), deepest branches + 1, true⟩

def maxRepeat : Nat := 0xFFFFFFFF

/-- A count of a repetition, with blanks around it; none when there is no digit or too many. -/
def repeatCount? (f : Flags) (cs : List Char) : Option (Option Nat × List Char) :=
  let cs := cs.dropWhile Unicode.isWhitespace
  let digits := (if f.spaced then cs.takeWhile (fun c => c.isDigit || Unicode.isWhitespace c)
    else cs.takeWhile Char.isDigit)
  let rest := f.skip ((cs.drop digits.length).dropWhile Unicode.isWhitespace)
  let value := Text.digitsValue (digits.filter Char.isDigit)
  if maxRepeat < value then none
  else some (if digits.any Char.isDigit then some value else none, rest)

/-- The bounds of a counted repetition behind its opening brace, and the rest of the input. -/
def bounds? (f : Flags) (cs : List Char) : Option (Nat × Option Nat × List Char) := do
  let (least, rest) ← repeatCount? f (f.skip cs)
  let least ← least
  match rest with
  | '}' :: rest => some (least, some least, rest)
  | ',' :: rest =>
    match f.skip rest with
    | '}' :: rest => some (least, none, rest)
    | rest => do
      let (most, rest) ← repeatCount? f rest
      let most ← most
      match rest with
      | '}' :: rest => if least ≤ most then some (least, some most, rest) else none
      | _ => none
  | _ => none

/-- A question mark behind a repetition makes it lazy. -/
def skipLazy (cs : List Char) : List Char :=
  match cs with
  | '?' :: rest => rest
  | rest => rest

/-- The last item of a sequence, repeated. -/
def repeatLast? (items : List Item) (least : Nat) (most : Option Nat) : Option (List Item) :=
  match items with
  | [] => none
  | i :: before =>
    if i.repeatable then some (⟨.repeated i.regex least most, i.depth + 1, true⟩ :: before)
    else none

def setFlag? (f : Flags) (c : Char) (value : Bool) : Option Flags :=
  match c with
  | 'i' => some { f with ignoreCase := value }
  | 'm' => some { f with multiLine := value }
  | 's' => some { f with dotAll := value }
  | 'u' => some { f with unicode := value }
  | 'R' => some { f with crlf := value }
  | 'x' => some { f with spaced := value }
  | 'U' => some f
  | _ => none

/-- Reads flags up to a colon or bracket. None may come twice, nor a minus sign twice or without a
flag behind it. Answers the settings, whether there was any flag, and the input from the colon or
bracket on. -/
def flags? (f : Flags) (seen : List Char) : List Char → Option (Flags × List Char × List Char)
  | [] => none
  | c :: rest =>
    if c = ':' || c = ')' then
      if seen.head? == some '-' then none else some (f, seen, c :: rest)
    else if seen.contains c then none
    else if c = '-' then flags? f (c :: seen) rest
    else
      match setFlag? f c (!seen.contains '-') with
      | some f => flags? f (c :: seen) rest
      | none => none

def letters : CharSet := Unicode.alternating Unicode.alphabeticRuns

def numerals : CharSet := Unicode.inCategories ["Nd", "Nl", "No"]

def startsName (c : Char) : Bool := c == '_' || letters.has c.toNat

def continuesName (c : Char) : Bool :=
  startsName c || ['.', '[', ']'].contains c || numerals.has c.toNat

/-- The name of a group up to its closing angle bracket. -/
def groupName? (cs : List Char) : Option (List Char × List Char) :=
  let name := cs.takeWhile (· != '>')
  match name, cs.drop name.length with
  | first :: more, '>' :: rest =>
    if startsName first && more.all continuesName then some (name, rest) else none
  | _, _ => none

/-- What an opening bracket begins: a change of flags for the rest of the group, or a group with its
flags and names. -/
inductive Opening where
  | change (flags : Flags)
  | group (flags : Flags) (names : List (List Char))

def opening? (f : Flags) (names : List (List Char)) (cs : List Char) :
    Option (Opening × List Char) :=
  let withName := fun (rest : List Char) =>
    match groupName? rest with
    | some (name, rest) =>
      if names.contains name then none else some (Opening.group f (name :: names), rest)
    | none => none
  match cs with
  | '?' :: 'P' :: '<' :: rest => withName rest
  | '?' :: '<' :: rest => withName rest
  | '?' :: rest =>
    match flags? f [] rest with
    | some (changed, seen, ')' :: rest) =>
      if seen.isEmpty then none else some (.change changed, rest)
    | some (changed, _, ':' :: rest) => some (.group changed names, rest)
    | _ => none
  | rest => some (.group f names, rest)

def anyChar (f : Flags) : CharSet :=
  if f.dotAll then [(0, maxPoint)]
  else if f.crlf then CharSet.complement [(10, 10), (13, 13)]
  else CharSet.complement [(10, 10)]

/-- A single character, test or escape. -/
def primitive? (f : Flags) (cs : List Char) : Option (Regex × List Char) :=
  let single := fun (c : Char) (rest : List Char) =>
    (charSet? f c).map (fun s => (Regex.set s, rest))
  match cs with
  | [] => none
  | '.' :: rest => if f.unicode then some (.set (anyChar f), rest) else none
  | '^' :: rest => some (.look (if f.multiLine then .lineStart f.crlf else .start), rest)
  | '$' :: rest => some (.look (if f.multiLine then .lineEnd f.crlf else .finish), rest)
  | '\\' :: rest =>
    match escape? f rest with
    | some (.char c, rest) => single c rest
    | some (.byte c, rest) => if f.unicode then single c rest else none
    | some (.set s, rest) => some (.set s, rest)
    | some (.look l, rest) => some (.look l, rest)
    | none => none
  | c :: rest => single c rest

/-- Reads alternatives up to the end of the group or of the pattern. Branches and items are held in
reverse; the fuel bounds the number of items. -/
def body? :
    Nat → Flags → List (List Char) → List Item → List Item → List Char → Option Body
  | 0, _, _, _, _, _ => none
  | fuel + 1, f, names, branches, items, cs =>
    let finish := fun (rest : List Char) (closed : Bool) =>
      let whole := alternatives (sequence items :: branches)
      some (Body.mk whole.regex whole.depth names rest closed)
    let again := fun (repeated : Option (List Item)) (rest : List Char) =>
      repeated.bind (fun items => body? fuel f names branches items rest)
    match f.skip cs with
    | [] => finish [] false
    | ')' :: rest => finish rest true
    | '|' :: rest => body? fuel f names (sequence items :: branches) [] rest
    | '?' :: rest => again (repeatLast? items 0 (some 1)) (skipLazy rest)
    | '*' :: rest => again (repeatLast? items 0 none) (skipLazy rest)
    | '+' :: rest => again (repeatLast? items 1 none) (skipLazy rest)
    | '{' :: rest =>
      match bounds? f rest with
      | some (least, most, rest) => again (repeatLast? items least most) (skipLazy (f.skip rest))
      | none => none
    | '[' :: rest =>
      match class? f rest with
      | some r => body? fuel f names branches (⟨.set r.members, r.depth, true⟩ :: items) r.rest
      | none => none
    | '(' :: rest =>
      match opening? f names (f.skip rest) with
      | none => none
      | some (.change changed, rest) =>
        body? fuel changed names branches (⟨.empty, 0, false⟩ :: items) rest
      | some (.group inner names, rest) =>
        match body? fuel inner names [] [] rest with
        | none => none
        | some b =>
          if b.closed then
            body? fuel f b.names branches (⟨b.regex, b.depth + 1, true⟩ :: items) b.rest
          else none
    | cs =>
      match primitive? f cs with
      | some (r, rest) => body? fuel f names branches (⟨r, 0, true⟩ :: items) rest
      | none => none

/-- Reads a whole pattern. -/
def regex? (source : String) : Option Regex :=
  let cs := source.toList
  match body? (cs.length + 1) Flags.standard [] [] [] cs with
  | none => none
  | some b =>
    if b.closed || depthLimit < b.depth || Regex.weightLimit < b.regex.weight then none
    else some b.regex

end Pattern

end HyperSchema
