import HyperSchema.Proofs.SchemaUri
import HyperSchema.Proofs.Template.Encoding

/-!
# How a template is read

A template is cut at the first brace that opens and the next one that closes, an expression at the
commas outside its brackets, and a variable at the first mark of a modifier. Where the text between
the cuts has none of these characters, each cut gives back what was written.
-/

namespace HyperSchema.Template

variable {cs before body rest name modifiers : List Char} {c : Char}

/-! ### Literal text and expressions -/

theorem parseParts_of_no_brace (h : '{' ∉ cs) : parseParts cs = literalPart cs := by
  rw [parseParts]
  split
  · rfl
  · next before behind hopen =>
    rw [Text.cutFirst?_eq_none_iff.2 h] at hopen
    cases hopen

/-- The first expression of a template, with the text before it. -/
theorem parseParts_expression (hbefore : '{' ∉ before) (hbody : '}' ∉ body) (rest : List Char) :
    parseParts (before ++ '{' :: (body ++ '}' :: rest))
      = literalPart before ++ parseExpression body :: parseParts rest := by
  have hopen : Text.cutFirst? '{' (before ++ '{' :: (body ++ '}' :: rest))
      = some (before, body ++ '}' :: rest) := Text.cutFirst?_append hbefore
  have hclose : Text.cutFirst? '}' (body ++ '}' :: rest) = some (body, rest) :=
    Text.cutFirst?_append hbody
  rw [parseParts]
  split
  · next hnone => rw [hopen] at hnone; cases hnone
  · next front behind hcut =>
    rw [hopen] at hcut
    obtain ⟨rfl, rfl⟩ := Prod.mk.inj (Option.some.inj hcut)
    split
    · next hnone => rw [hclose] at hnone; cases hnone
    · next inside more hinside =>
      rw [hclose] at hinside
      obtain ⟨rfl, rfl⟩ := Prod.mk.inj (Option.some.inj hinside)
      rfl

theorem flatMap_expand_literalPart (subject : Subject) (cs : List Char) :
    (literalPart cs).flatMap (Part.expand subject) = encode true cs := by
  cases cs with
  | nil => rfl
  | cons c rest => rw [literalPart]; exact List.append_nil _

/-! ### Operators -/

def Operator.written : Operator → List Char
  | .simple => []
  | .reserved => ['+']
  | .fragment => ['#']
  | .label => ['.']
  | .path => ['/']
  | .parameter => [';']
  | .query => ['?']
  | .continuation => ['&']

theorem parseExpression_written (op : Operator) {c : Char} (hc : Operator.ofChar? c = none)
    (rest : List Char) :
    parseExpression (op.written ++ c :: rest)
      = .expression op ((splitVariables 0 (c :: rest)).map parseVariable) := by
  cases op with
  | simple =>
      rw [Operator.written, List.nil_append, parseExpression, hc]
  | _ => rfl

theorem not_mem_written_of_ofChar? (op : Operator) (hc : Operator.ofChar? c = none) :
    c ∉ op.written := by
  cases op with
  | simple => exact List.not_mem_nil
  | _ => rw [Operator.written, List.mem_singleton]; rintro rfl; cases hc

/-! ### Lists of variables -/

theorem splitVariables_of_no_comma (h : ',' ∉ cs) (depth : Nat) :
    splitVariables depth cs = [cs] := by
  induction cs generalizing depth with
  | nil => rfl
  | cons c rest ih =>
      rw [List.mem_cons, not_or] at h
      have hc : (decide (c = ',') && decide (depth = 0)) = false := by
        rw [decide_eq_false (Ne.symm h.1), Bool.false_and]
      rw [splitVariables, hc, if_neg Bool.false_ne_true]
      dsimp only
      rw [ih h.2]

/-- A comma outside of brackets ends a variable. -/
theorem splitVariables_append (hcomma : ',' ∉ cs) (hopen : '(' ∉ cs) (hclose : ')' ∉ cs)
    (rest : List Char) : splitVariables 0 (cs ++ ',' :: rest) = cs :: splitVariables 0 rest := by
  induction cs with
  | nil => rfl
  | cons c more ih =>
      rw [List.mem_cons, not_or] at hcomma hopen hclose
      have hc : (decide (c = ',') && decide (0 = 0)) = false := by
        rw [decide_eq_false (Ne.symm hcomma.1), Bool.false_and]
      rw [List.cons_append, splitVariables, hc, if_neg (Ne.symm hopen.1),
        if_neg (Ne.symm hclose.1)]
      dsimp only
      rw [ih hcomma.2 hopen.2 hclose.2]
      rfl

/-! ### Variables -/

/-- A modifier: none, a star that spreads a value out, or a colon with digits that cut it. -/
inductive IsModifier : List Char → Prop where
  | absent : IsModifier []
  | spread : IsModifier ['*']
  | limit {digits : List Char} (hdigits : ∀ d ∈ digits, d.isDigit = true) :
      IsModifier (':' :: digits)

theorem not_mem_modifier (h : IsModifier modifiers) (hstar : c ≠ '*') (hcolon : c ≠ ':')
    (hdigit : c.isDigit = false) : c ∉ modifiers := by
  cases h with
  | absent => exact List.not_mem_nil
  | spread => exact fun hmem => hstar (List.mem_singleton.1 hmem)
  | limit hdigits =>
      intro hmem
      rcases List.mem_cons.1 hmem with heq | hmem
      · exact hcolon heq
      · rw [hdigits c hmem] at hdigit
        cases hdigit

/-- What modifiers say: how many characters are kept, and whether the value is spread out. -/
def modifiersOf (modifiers : List Char) : Option Nat × Bool :=
  (match modifiers with
    | ':' :: digits => Text.count? digits
    | _ => none, modifiers == ['*'])

theorem parseVariable_of_cut (h : cutModifiers cs = (name, modifiers)) :
    parseVariable cs
      = { key := keyOf name
          label := name
          limit := (modifiersOf modifiers).1
          explode := (modifiersOf modifiers).2 } := by
  rw [parseVariable, h]
  rfl

def bracketed (name : List Char) : List Char := '(' :: (name ++ [')'])

/-- A name in brackets goes as far as the bracket that closes. -/
theorem cutModifiers_bracketed (h : ')' ∉ name) (modifiers : List Char) :
    cutModifiers (bracketed name ++ modifiers) = (bracketed name, modifiers) := by
  have hfront : ')' ∉ '(' :: name := by
    rw [List.mem_cons, not_or]
    exact ⟨by decide, h⟩
  have hcut : Text.cutFirst? ')' ('(' :: (name ++ ')' :: modifiers))
      = some ('(' :: name, modifiers) := Text.cutFirst?_append hfront
  rw [bracketed, List.cons_append, List.append_assoc, List.singleton_append, cutModifiers, hcut]
  rfl

/-- Any other name goes as far as the first mark of a modifier. -/
theorem cutModifiers_append {c : Char} (hc : c ≠ '(') (hcolon : ':' ∉ c :: name)
    (hstar : '*' ∉ c :: name) (hmodifiers : IsModifier modifiers) :
    cutModifiers (c :: name ++ modifiers) = (c :: name, modifiers) := by
  have hname : ∀ d ∈ c :: name, (d != ':' && d != '*') = true := by
    intro d hd
    rw [Bool.and_eq_true, bne_iff_ne, bne_iff_ne]
    exact ⟨fun h => hcolon (h ▸ hd), fun h => hstar (h ▸ hd)⟩
  have htake : (c :: name ++ modifiers).takeWhile (fun d => d != ':' && d != '*') = c :: name := by
    rw [List.takeWhile_append_of_pos hname]
    cases hmodifiers with
    | absent => exact List.append_nil _
    | spread => exact List.append_nil _
    | limit _ => exact List.append_nil _
  rw [cutModifiers]
  · rw [htake, List.drop_left]
  · rintro rest h
    exact hc (List.cons.inj h).1

theorem keyOf_bracketed (name : List Char) :
    keyOf (bracketed name) = some (String.ofList (Text.unescapePercent name)) := by
  have hinside : insideBrackets? (bracketed name) = some name := Text.before?_eq_some_iff.2 rfl
  have hthis : bracketed name ≠ ['$'] := fun h => absurd (List.cons.inj h).1 (by decide)
  rw [keyOf, if_neg hthis, hinside, Option.getD_some]

theorem keyOf_of_no_percent {c : Char} (hc : c ≠ '(') (hthis : c :: name ≠ ['$'])
    (hpercent : '%' ∉ c :: name) : keyOf (c :: name) = some (String.ofList (c :: name)) := by
  have hinside : insideBrackets? (c :: name) = none := by
    rw [insideBrackets?]
    exact fun rest h => hc (List.cons.inj h).1
  rw [keyOf, if_neg hthis, hinside, Option.getD_none, Text.unescapePercent_of_no_percent hpercent]

end HyperSchema.Template
