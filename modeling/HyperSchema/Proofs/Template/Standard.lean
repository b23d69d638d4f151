import HyperSchema.Proofs.Template.Parsing

/-!
# RFC 6570

The grammar of URI templates and the algorithm that expands them. A template is a sequence of
literals and expressions, with well-formedness in the types: a literal is an allowed character or a
triplet, a name is a chain of name characters with single dots between them, and a prefix is a
length below 10000. Names are taken without triplets here. An expression is expanded variable by
variable, by the row of a table that its operator stands in; undefined variables are passed over,
and what goes before a defined one depends on whether it is the first.
-/

namespace HyperSchema.Template.Standard

/-! ### The grammar -/

/-- The code points of literal characters: first those of ASCII, where the quotes, the percent sign,
the brackets around expressions and a few others are missing, then those of other scripts, then
those for private use. -/
def literalRanges : List (Nat × Nat) :=
  [(0x21, 0x21), (0x23, 0x24), (0x26, 0x26), (0x28, 0x3B), (0x3D, 0x3D), (0x3F, 0x5B), (0x5D, 0x5D),
    (0x5F, 0x5F), (0x61, 0x7A), (0x7E, 0x7E),
    (0xA0, 0xD7FF), (0xF900, 0xFDCF), (0xFDF0, 0xFFEF), (0x10000, 0x1FFFD), (0x20000, 0x2FFFD),
    (0x30000, 0x3FFFD), (0x40000, 0x4FFFD), (0x50000, 0x5FFFD), (0x60000, 0x6FFFD),
    (0x70000, 0x7FFFD), (0x80000, 0x8FFFD), (0x90000, 0x9FFFD), (0xA0000, 0xAFFFD),
    (0xB0000, 0xBFFFD), (0xC0000, 0xCFFFD), (0xD0000, 0xDFFFD), (0xE1000, 0xEFFFD),
    (0xE000, 0xF8FF), (0xF0000, 0xFFFFD), (0x100000, 0x10FFFD)]

def isLiteral (c : Char) : Bool :=
  literalRanges.any (fun (low, high) => low ≤ c.toNat && c.toNat ≤ high)

inductive Literal where
  | char (c : Char) (hc : isLiteral c = true)
  | triplet (high low : Char) (hhigh : UriText.isHexDigit high = true)
      (hlow : UriText.isHexDigit low = true)

def isNameChar (c : Char) : Bool :=
  ('A' ≤ c && c ≤ 'Z') || ('a' ≤ c && c ≤ 'z') || ('0' ≤ c && c ≤ '9') || c == '_'

inductive IsName : List Char → Prop where
  | char {c : Char} (hc : isNameChar c = true) : IsName [c]
  | next {c : Char} {rest : List Char} (hc : isNameChar c = true) (hrest : IsName rest) :
      IsName (c :: rest)
  | dotted {c : Char} {rest : List Char} (hc : isNameChar c = true) (hrest : IsName rest) :
      IsName (c :: '.' :: rest)

inductive Modifier where
  | none
  | cut (length : Nat) (hpos : 0 < length) (hlt : length < 10000)
  | explode

structure VarSpec where
  name : List Char
  hname : IsName name
  modifier : Modifier

/-- An expression has at least one variable. -/
structure Expression where
  operator : Operator
  first : VarSpec
  more : List VarSpec

inductive Piece where
  | literal (l : Literal)
  | expression (e : Expression)

/-! ### Templates as text -/

def Literal.written : Literal → List Char
  | .char c _ => [c]
  | .triplet high low _ _ => ['%', high, low]

def Modifier.written : Modifier → List Char
  | .none => []
  | .cut length _ _ => ':' :: Nat.toDigits 10 length
  | .explode => ['*']

def VarSpec.written (spec : VarSpec) : List Char := spec.name ++ spec.modifier.written

def Expression.specs (e : Expression) : List VarSpec := e.first :: e.more

def Expression.written (e : Expression) : List Char :=
  '{' :: (e.operator.written ++ [','].intercalate (e.specs.map VarSpec.written) ++ ['}'])

def Piece.written : Piece → List Char
  | .literal l => l.written
  | .expression e => e.written

def written (pieces : List Piece) : List Char := pieces.flatMap Piece.written

/-! ### Values -/

/-- A name within a value, of unreserved characters. -/
structure MemberName where
  text : String
  plain : ∀ c ∈ text.toList, UriText.isUnreserved c = true

inductive Value where
  | undefined
  | text (s : String)
  | list (items : List String)
  | pairs (members : List (MemberName × String))

/-- A list and a map without members count as undefined. -/
def Value.isDefined : Value → Bool
  | .undefined => false
  | .text _ => true
  | .list items => !items.isEmpty
  | .pairs members => !members.isEmpty

/-! ### The algorithm -/

/-- A row of the table: what goes before the first defined variable and between two of them, whether
values come with names, what goes behind the name of an empty value, and whether reserved characters
and triplets are let through. -/
structure Row where
  first : List Char
  separator : List Char
  named : Bool
  ifEmpty : List Char
  reservedToo : Bool

def row : Operator → Row
  | .simple => ⟨[], [','], false, [], false⟩
  | .reserved => ⟨[], [','], false, [], true⟩
  | .label => ⟨['.'], ['.'], false, [], false⟩
  | .path => ⟨['/'], ['/'], false, [], false⟩
  | .parameter => ⟨[';'], [';'], true, [], false⟩
  | .query => ⟨['?'], ['&'], true, ['='], false⟩
  | .continuation => ⟨['&'], ['&'], true, ['='], false⟩
  | .fragment => ⟨['#'], [','], false, [], true⟩

def Row.encoded (r : Row) (s : String) : List Char := UriText.encoded r.reservedToo s.toList

/-- Names are encoded as literal text is. -/
def literally (name : List Char) : List Char := UriText.encoded true name

def Modifier.explodes : Modifier → Bool
  | .explode => true
  | _ => false

/-- A value behind its name, with the characters that are taken of it. -/
def Row.assigned (r : Row) (name : List Char) (s taken : String) : List Char :=
  if s = "" then name ++ r.ifEmpty else name ++ '=' :: r.encoded taken

/-- A prefix is taken of the characters, before they are encoded. -/
def Modifier.taken (m : Modifier) (s : String) : String :=
  match m with
  | .cut length _ _ => String.ofList (s.toList.take length)
  | _ => s

/-- What a defined value is expanded to. -/
def Row.valueText (r : Row) (spec : VarSpec) : Value → List Char
  | .undefined => []
  | .text s =>
    if r.named then r.assigned (literally spec.name) s (spec.modifier.taken s)
    else r.encoded (spec.modifier.taken s)
  | .list items =>
    if spec.modifier.explodes then
      r.separator.intercalate (items.map (fun s =>
        if r.named then r.assigned (literally spec.name) s s else r.encoded s))
    else
      (if r.named then literally spec.name ++ ['='] else [])
        ++ [','].intercalate (items.map r.encoded)
  | .pairs members =>
    if spec.modifier.explodes then
      r.separator.intercalate (members.map (fun (name, s) =>
        if r.named then r.assigned (literally name.text.toList) s s
        else r.encoded name.text ++ '=' :: r.encoded s))
    else
      (if r.named then literally spec.name ++ ['='] else [])
        ++ [','].intercalate
          (members.map (fun (name, s) => r.encoded name.text ++ ',' :: r.encoded s))

/-- Variable by variable; the flag tells whether one was defined before. -/
def Row.expandFrom (r : Row) (assignment : String → Value) (started : Bool) :
    List VarSpec → List Char
  | [] => []
  | spec :: rest =>
    let value := assignment (String.ofList spec.name)
    if value.isDefined then
      (if started then r.separator else r.first) ++ r.valueText spec value
        ++ r.expandFrom assignment true rest
    else r.expandFrom assignment started rest

/-- A literal character is copied if it can stand in a URI. -/
def Literal.expansion : Literal → List Char
  | .char c _ =>
    if UriText.isUnreserved c || UriText.isReserved c then [c] else UriText.escaped c
  | .triplet high low _ _ => ['%', high, low]

def Piece.expansion (assignment : String → Value) : Piece → List Char
  | .literal l => l.expansion
  | .expression e => (row e.operator).expandFrom assignment false e.specs

def expansion (pieces : List Piece) (assignment : String → Value) : List Char :=
  pieces.flatMap (Piece.expansion assignment)

end HyperSchema.Template.Standard
