import HyperSchema.Text.Cut

/-!
# JSON Pointers

A pointer is a text: each of its tokens stands behind a slash, with a tilde written as ~0 and a
slash as ~1. The root is the empty text. A text that does not begin with a slash is read as if its
first token had lost it.
-/

namespace HyperSchema.Pointer

def escapeChars : List Char → List Char
  | [] => []
  | c :: rest =>
    if c = '~' then '~' :: '0' :: escapeChars rest
    else if c = '/' then '~' :: '1' :: escapeChars rest
    else c :: escapeChars rest

/-- A tilde that starts no escape stands for itself. -/
def unescapeChars : List Char → List Char
  | [] => []
  | '~' :: '0' :: rest => '~' :: unescapeChars rest
  | '~' :: '1' :: rest => '/' :: unescapeChars rest
  | c :: rest => c :: unescapeChars rest

def escape (token : String) : String := String.ofList (escapeChars token.toList)

def unescape (token : String) : String := String.ofList (unescapeChars token.toList)

def tokensOfChars (cs : List Char) : List String :=
  match cs with
  | [] => []
  | '/' :: rest => (Text.pieces '/' rest).map (fun piece => String.ofList (unescapeChars piece))
  | rest => (Text.pieces '/' rest).map (fun piece => String.ofList (unescapeChars piece))

/-- The unescaped tokens of a pointer; the root has none. -/
def tokens (pointer : String) : List String := tokensOfChars pointer.toList

def joinChars : List String → List Char
  | [] => []
  | token :: rest => '/' :: escapeChars token.toList ++ joinChars rest

/-- The pointer with the given tokens. -/
def join (tokens : List String) : String := String.ofList (joinChars tokens)

/-- The pointer one token further down. -/
def child (pointer token : String) : String :=
  String.ofList (pointer.toList ++ '/' :: escapeChars token.toList)

/-- The pointer one token up; the root has no parent. -/
def parent? (pointer : String) : Option String :=
  (Text.beforeLast? '/' pointer.toList).map String.ofList

/-- The rest of a pointer strictly below an ancestor. -/
def below? (pointer ancestor : String) : Option (List Char) :=
  match Text.behind? ancestor.toList pointer.toList with
  | some ('/' :: rest) => some ('/' :: rest)
  | _ => none

def isBelow (pointer ancestor : String) : Bool := (below? pointer ancestor).isSome

/-- Whether a pointer is an ancestor itself or lies below it. -/
def isWithin (pointer ancestor : String) : Bool := pointer == ancestor || isBelow pointer ancestor

/-- The pointer that leads from an ancestor to a pointer within it. -/
def relative? (pointer ancestor : String) : Option String :=
  if pointer = ancestor then some ""
  else (below? pointer ancestor).map String.ofList

end HyperSchema.Pointer
