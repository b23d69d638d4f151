import HyperSchema.Json.Printer
import HyperSchema.Template.Basic

/-!
# Expanding templates

A variable is undefined when nothing is found for it, or null, or an empty list or object; undefined
variables leave no trace. The types of values are looked at only here. Everything outside the
unreserved characters is escaped, except where the operator lets reserved characters and escapes
through, as it is for literal text and names.
-/

namespace HyperSchema

namespace Template

/-- Where variables are looked up; the current value is what a dollar sign stands for. -/
structure Subject where
  lookup : String → Option Json
  current : Option Json

/-- The members of an object are its variables, and it stands for itself. -/
def Subject.ofJson (v : Json) : Subject := ⟨v.member?, some v⟩

/-- A table of variables with no value of its own. -/
def Subject.ofTable (t : Table Json) : Subject := ⟨Table.get? t, none⟩

def isUnreserved (c : Char) : Bool := c.isAlphanum || ['-', '.', '_', '~'].contains c

def isReserved (c : Char) : Bool :=
  [':', '/', '?', '#', '[', ']', '@', '!', '$', '&', '(', ')', '*', '+', ',', ';', '='].contains c
    || c.toNat = 39

/-- Escapes a text; reserved characters and escapes pass if they are allowed. -/
def encode (allowReserved : Bool) : List Char → List Char
  | [] => []
  | '%' :: a :: b :: rest =>
    if allowReserved && Text.isHexDigit a && Text.isHexDigit b then
      '%' :: a :: b :: encode allowReserved rest
    else Text.escapeChar '%' ++ encode allowReserved (a :: b :: rest)
  | c :: rest =>
    (if isUnreserved c || (allowReserved && isReserved c) then [c] else Text.escapeChar c)
      ++ encode allowReserved rest

def isDefined : Json → Bool
  | .null => false
  | .array items => !items.isEmpty
  | .object members => !members.isEmpty
  | _ => true

/-- The text of a value inside an expansion: strings as they are, null as nothing, the rest as JSON.
-/
def plainText : Json → List Char
  | .string s => s.toList
  | .null => []
  | v => v.chars

def pair (op : Operator) (name text : List Char) : List Char :=
  if text.isEmpty then name ++ op.behindEmpty else name ++ '=' :: text

def expandItems (op : Operator) (v : Variable) (items : List Json) : List Char :=
  let name := encode true v.label
  let texts := items.map (fun item => encode op.allowsReserved (plainText item))
  if v.explode then
    Text.joinWith op.separator (if op.named then texts.map (pair op name) else texts)
  else
    (if op.named then name ++ ['='] else []) ++ Text.joinWith [','] texts

def expandMembers (op : Operator) (v : Variable) (members : Table Json) : List Char :=
  let name := encode true v.label
  let texts := members.map (fun (key, value) =>
    (encode op.allowsReserved key.toList, encode op.allowsReserved (plainText value)))
  if v.explode then
    Text.joinWith op.separator (texts.map (fun (key, text) =>
      if op.named then pair op key text else key ++ '=' :: text))
  else
    (if op.named then name ++ ['='] else [])
      ++ Text.joinWith [','] (texts.map (fun (key, text) => key ++ ',' :: text))

/-- A scalar is cut before it is escaped. -/
def expandScalar (op : Operator) (v : Variable) (value : Json) : List Char :=
  let text := plainText value
  let cut := match v.limit with
    | some n => text.take n
    | none => text
  let text := encode op.allowsReserved cut
  if op.named then pair op (encode true v.label) text else text

def expandValue (op : Operator) (v : Variable) : Json → List Char
  | .array items => expandItems op v items
  | .object members => expandMembers op v members
  | value => expandScalar op v value

/-- The value of a variable, if it is defined. -/
def Variable.value? (v : Variable) (subject : Subject) : Option Json :=
  (match v.key with
    | none => subject.current
    | some key => subject.lookup key).filter isDefined

def expandExpression (op : Operator) (vars : List Variable) (subject : Subject) : List Char :=
  match vars.filterMap (fun v => (v.value? subject).map (expandValue op v)) with
  | [] => []
  | texts => op.opening ++ Text.joinWith op.separator texts

def Part.expand (subject : Subject) : Part → List Char
  | .literal text => encode true text
  | .expression op vars => expandExpression op vars subject

def expandChars (t : Template) (subject : Subject) : List Char :=
  t.parts.flatMap (Part.expand subject)

def expand (t : Template) (subject : Subject) : String := String.ofList (t.expandChars subject)

end Template

end HyperSchema
