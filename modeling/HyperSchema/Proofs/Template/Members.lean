import HyperSchema.Proofs.Template.Parsing

/-!
# Every member has a name

A name in brackets is read with its escapes undone, so a key that is encoded outside of the
unreserved characters names its member, whatever the key is: what is left of it has no character
that a template is cut at, and reading undoes the encoding. Names leave no trace in the expansion
unless the operator writes them, so the member is then expanded as the dollar sign expands the
member's value.
-/

namespace HyperSchema

namespace Template

variable {name modifier : List Char} {c : Char}

def placeholder (op : Operator) (name modifier : List Char) : String :=
  String.ofList ('{' :: (op.written ++ (name ++ modifier) ++ ['}']))

theorem parts_placeholder (op : Operator) (hc : Operator.ofChar? c = none)
    (hname : '}' ∉ c :: name) (hcomma : ',' ∉ c :: name) (hmodifier : IsModifier modifier) :
    (parse (placeholder op (c :: name) modifier)).parts
      = [.expression op [parseVariable (c :: name ++ modifier)]] := by
  have hclose : '}' ∉ op.written ++ (c :: name ++ modifier) := by
    rw [List.mem_append, List.mem_append, not_or, not_or]
    exact ⟨not_mem_written_of_ofChar? op rfl, hname,
      not_mem_modifier hmodifier (by decide) (by decide) (by decide)⟩
  have hcomma' : ',' ∉ c :: name ++ modifier := by
    rw [List.mem_append, not_or]
    exact ⟨hcomma, not_mem_modifier hmodifier (by decide) (by decide) (by decide)⟩
  have hparts : parseParts ('{' :: (op.written ++ (c :: name ++ modifier) ++ '}' :: []))
      = literalPart []
        ++ parseExpression (op.written ++ (c :: name ++ modifier)) :: parseParts [] :=
    parseParts_expression List.not_mem_nil hclose []
  rw [parse, placeholder, String.toList_ofList]
  dsimp only
  rw [hparts, List.cons_append, parseExpression_written op hc, ← List.cons_append,
    splitVariables_of_no_comma hcomma', parseParts_of_no_brace List.not_mem_nil]
  rfl

/-- Where names are not written, only the modifiers of a variable matter. -/
theorem expandValue_congr {op : Operator} (hop : op.named = false) {v w : Variable}
    (hlimit : v.limit = w.limit) (hexplode : v.explode = w.explode) (x : Json) :
    expandValue op v x = expandValue op w x := by
  have hitems : ∀ items, expandItems op v items = expandItems op w items := by
    intro items
    rw [expandItems, expandItems, hop, hexplode]
    rfl
  have hmembers : ∀ members, expandMembers op v members = expandMembers op w members := by
    intro members
    rw [expandMembers, expandMembers, hop, hexplode]
    rfl
  have hscalar : ∀ value, expandScalar op v value = expandScalar op w value := by
    intro value
    rw [expandScalar, expandScalar, hop, hlimit]
    rfl
  cases x with
  | array items => exact hitems items
  | object members => exact hmembers members
  | _ => exact hscalar _

theorem expand_single {t : Template} {op : Operator} {v : Variable} (subject : Subject)
    (hparts : t.parts = [.expression op [v]]) :
    t.expand subject = String.ofList
      (match v.value? subject with
        | some x => op.opening ++ expandValue op v x
        | none => []) := by
  rw [expand, expandChars, hparts, List.flatMap_singleton, Part.expand, expandExpression,
    List.filterMap_cons, List.filterMap_nil]
  cases v.value? subject <;> rfl

theorem parts_this (op : Operator) (hmodifier : IsModifier modifier) :
    (parse (placeholder op ['$'] modifier)).parts
      = [.expression op [⟨none, ['$'], (modifiersOf modifier).1, (modifiersOf modifier).2⟩]] := by
  have hcut : cutModifiers (['$'] ++ modifier) = (['$'], modifier) :=
    cutModifiers_append (by decide) (by decide) (by decide) hmodifier
  rw [parts_placeholder op rfl (by decide) (by decide) hmodifier, parseVariable_of_cut hcut]
  rfl

/-- Reading undoes the encoding of a key. -/
theorem parts_bracketed (op : Operator) (key : String) (hmodifier : IsModifier modifier) :
    (parse (placeholder op (bracketed (UriText.encoded false key.toList)) modifier)).parts
      = [.expression op [⟨some key, bracketed (UriText.encoded false key.toList),
          (modifiersOf modifier).1, (modifiersOf modifier).2⟩]] := by
  have hnot : ∀ c, c ≠ '%' → UriText.isUnreserved c = false → c ≠ '(' → c ≠ ')' →
      c ∉ bracketed (UriText.encoded false key.toList) := by
    intro c hpercent hc hopen hclose
    rw [bracketed, List.mem_cons, List.mem_append, List.mem_singleton, not_or, not_or]
    exact ⟨hopen, UriText.not_mem_encoded hpercent hc, hclose⟩
  have hclose : ')' ∉ UriText.encoded false key.toList :=
    UriText.not_mem_encoded (by decide) (by decide)
  have hbrace : '}' ∉ bracketed (UriText.encoded false key.toList) :=
    hnot '}' (by decide) (by decide) (by decide) (by decide)
  have hcomma : ',' ∉ bracketed (UriText.encoded false key.toList) :=
    hnot ',' (by decide) (by decide) (by decide) (by decide)
  rw [bracketed, parts_placeholder op rfl hbrace hcomma hmodifier, ← bracketed,
    parseVariable_of_cut (cutModifiers_bracketed hclose modifier), keyOf_bracketed,
    Text.unescapePercent_encoded, String.ofList_toList]

/-- A member is expanded under its encoded key in brackets as the dollar sign expands its value. -/
theorem expand_bracketed_member {members : Table Json} {key : String} {x : Json}
    (hmember : Table.get? members key = some x) {op : Operator} (hop : op.named = false)
    (hmodifier : IsModifier modifier) :
    (parse (placeholder op (bracketed (UriText.encoded false key.toList)) modifier)).expand
        (.ofJson (.object members))
      = (parse (placeholder op ['$'] modifier)).expand (.ofJson x) := by
  have hfound : (Json.object members).member? key = some x := hmember
  rw [expand_single _ (parts_bracketed op key hmodifier), expand_single _ (parts_this op hmodifier),
    Variable.value?, Variable.value?, Subject.ofJson, Subject.ofJson]
  dsimp only
  rw [hfound]
  cases (some x).filter isDefined with
  | none => rfl
  | some x =>
      refine congrArg (fun text => String.ofList (op.opening ++ text))
        (expandValue_congr hop ?_ ?_ x) <;> rfl

/-- A key of marks that a template is cut at, with a letter of two bytes. -/
def awkwardKey : String := String.ofList ['{', '(', 'é', ')', ',', ':', '*', '%', '4', '}']

theorem expand_bracketed_member_awkward :
    Table.get? [(awkwardKey, Json.array [.string "a b", .string "c"])] awkwardKey
        = some (.array [.string "a b", .string "c"])
      ∧ Operator.path.named = false ∧ IsModifier ['*']
      ∧ placeholder .path (bracketed (UriText.encoded false awkwardKey.toList)) ['*']
        = "\x7b/(%7B%28%C3%A9%29%2C%3A%2A%254%7D)*\x7d"
      ∧ (parse "\x7b/(%7B%28%C3%A9%29%2C%3A%2A%254%7D)*\x7d").expand
          (.ofJson (.object [(awkwardKey, .array [.string "a b", .string "c"])]))
        = (parse (placeholder .path ['$'] ['*'])).expand
          (.ofJson (.array [.string "a b", .string "c"])) := by
  have hmember : Table.get? [(awkwardKey, Json.array [.string "a b", .string "c"])] awkwardKey
      = some (.array [.string "a b", .string "c"]) := if_pos rfl
  have hwritten : placeholder .path (bracketed (UriText.encoded false awkwardKey.toList)) ['*']
      = "\x7b/(%7B%28%C3%A9%29%2C%3A%2A%254%7D)*\x7d" := by decide +kernel
  refine ⟨hmember, rfl, .spread, hwritten, ?_⟩
  rw [← hwritten]
  exact expand_bracketed_member hmember rfl .spread

end Template

end HyperSchema
