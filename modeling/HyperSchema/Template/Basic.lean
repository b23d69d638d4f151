import HyperSchema.Text.Count
import HyperSchema.Text.Cut
import HyperSchema.Text.Percent

/-!
# URI templates

A template is literal text with expressions in braces. An expression is an operator and a list of
variables; each variable names a key, with percent escapes undone, and may cut its value or spread
it out. Two names are special: a dollar sign stands for the value itself, and a name in round
brackets is taken literally between them, so that every key can be named. An expression that is not
closed is literal text.
-/

namespace HyperSchema

namespace Template

inductive Operator where
  | simple
  | reserved
  | fragment
  | label
  | path
  | parameter
  | query
  | continuation
  deriving DecidableEq

namespace Operator

def ofChar? : Char → Option Operator
  | '+' => some .reserved
  | '#' => some .fragment
  | '.' => some .label
  | '/' => some .path
  | ';' => some .parameter
  | '?' => some .query
  | '&' => some .continuation
  | _ => none

/-- What stands before the first defined variable. -/
def opening : Operator → List Char
  | .simple => []
  | .reserved => []
  | .fragment => ['#']
  | .label => ['.']
  | .path => ['/']
  | .parameter => [';']
  | .query => ['?']
  | .continuation => ['&']

/-- What stands between defined variables, and between the items of one that is spread out. -/
def separator : Operator → List Char
  | .simple => [',']
  | .reserved => [',']
  | .fragment => [',']
  | .label => ['.']
  | .path => ['/']
  | .parameter => [';']
  | .query => ['&']
  | .continuation => ['&']

/-- Whether values come with their names. -/
def named : Operator → Bool
  | .parameter => true
  | .query => true
  | .continuation => true
  | _ => false

/-- What stands behind the name of an empty value. -/
def behindEmpty : Operator → List Char
  | .query => ['=']
  | .continuation => ['=']
  | _ => []

/-- Whether reserved characters and escapes in values stay as they are. -/
def allowsReserved : Operator → Bool
  | .reserved => true
  | .fragment => true
  | _ => false

end Operator

/-- A variable's key; none stands for the value itself. The label is the name as written. -/
structure Variable where
  key : Option String
  label : List Char
  limit : Option Nat
  explode : Bool

inductive Part where
  | literal (text : List Char)
  | expression (operator : Operator) (vars : List Variable)

end Template

structure Template where
  source : String
  parts : List Template.Part

namespace Template

/-- Cuts a list of variables at the commas that stand in no round brackets. -/
def splitVariables (depth : Nat) : List Char → List (List Char)
  | [] => [[]]
  | c :: rest =>
    if c = ',' && depth = 0 then [] :: splitVariables 0 rest
    else
      let depth := if c = '(' then depth + 1 else if c = ')' then depth - 1 else depth
      match splitVariables depth rest with
      | [] => [[c]]
      | piece :: more => (c :: piece) :: more

/-- The name of a variable, and the modifiers behind it. -/
def cutModifiers (spec : List Char) : List Char × List Char :=
  match spec with
  | '(' :: _ =>
    match Text.cutFirst? ')' spec with
    | some (name, modifiers) => (name ++ [')'], modifiers)
    | none => (spec, [])
  | spec =>
    let name := spec.takeWhile (fun c => c != ':' && c != '*')
    (name, spec.drop name.length)

/-- What stands between round brackets at both ends. -/
def insideBrackets? (label : List Char) : Option (List Char) :=
  match label with
  | '(' :: rest => Text.before? [')'] rest
  | _ => none

def keyOf (label : List Char) : Option String :=
  if label = ['$'] then none
  else some (String.ofList (Text.unescapePercent ((insideBrackets? label).getD label)))

def parseVariable (spec : List Char) : Variable :=
  let (label, modifiers) := cutModifiers spec
  { key := keyOf label
    label
    limit := match modifiers with
      | ':' :: digits => Text.count? digits
      | _ => none
    explode := modifiers == ['*'] }

def parseExpression (body : List Char) : Part :=
  match body with
  | [] => .expression .simple ((splitVariables 0 []).map parseVariable)
  | c :: rest =>
    match Operator.ofChar? c with
    | some operator => .expression operator ((splitVariables 0 rest).map parseVariable)
    | none => .expression .simple ((splitVariables 0 (c :: rest)).map parseVariable)

def literalPart (text : List Char) : List Part := if text.isEmpty then [] else [.literal text]

theorem length_behind {sep : Char} {cs before behind : List Char}
    (h : Text.cutFirst? sep cs = some (before, behind)) : behind.length < cs.length := by
  induction cs generalizing before with
  | nil => simp [Text.cutFirst?] at h
  | cons c rest ih =>
    rw [Text.cutFirst?] at h
    split at h
    · simp only [Option.some.injEq, Prod.mk.injEq] at h
      obtain ⟨-, rfl⟩ := h
      simp
    · rw [Option.map_eq_some_iff] at h
      obtain ⟨⟨a, b⟩, hcut, heq⟩ := h
      simp only [Prod.mk.injEq] at heq
      obtain ⟨-, rfl⟩ := heq
      have := ih hcut
      simp
      omega

def parseParts (cs : List Char) : List Part :=
  match _hopen : Text.cutFirst? '{' cs with
  | none => literalPart cs
  | some (before, behind) =>
    match _hclose : Text.cutFirst? '}' behind with
    | none => literalPart cs
    | some (body, rest) => literalPart before ++ parseExpression body :: parseParts rest
termination_by cs.length
decreasing_by
  have := length_behind _hopen
  have := length_behind _hclose
  omega

def parse (source : String) : Template := ⟨source, parseParts source.toList⟩

end Template

end HyperSchema
