import HyperSchema.Proofs.Pointer.Resolution
import HyperSchema.Proofs.Template.Standard

/-!
# Reading a template of the grammar

The characters that a template is cut at stand nowhere else in a template of the grammar: no literal
is a brace, and names have none of the marks that end a variable. So the pieces that were written
are the pieces that are read, but for literals, which are read together. As each is encoded by
itself, their expansion is the same.
-/

namespace HyperSchema.Template.Standard

variable {cs : List Char} {c : Char}

/-! ### Reading what was written -/

theorem ne_of_isLiteral (hc : isLiteral c = true) : c ≠ '{' ∧ c ≠ '%' := by
  constructor <;> (rintro rfl; exact absurd hc (by decide))

theorem brace_not_mem_literals (literals : List Literal) :
    '{' ∉ literals.flatMap Literal.written := by
  intro hmem
  obtain ⟨l, -, hl⟩ := List.mem_flatMap.1 hmem
  cases l with
  | char c hc => exact (ne_of_isLiteral hc).1 (List.mem_singleton.1 hl).symm
  | triplet high low hhigh hlow =>
      rcases List.mem_cons.1 hl with h | hl
      · exact absurd h (by decide)
      · rcases List.mem_cons.1 hl with h | hl
        · exact UriText.ne_of_isHexDigit hhigh (by decide) h.symm
        · exact UriText.ne_of_isHexDigit hlow (by decide) (List.mem_singleton.1 hl).symm

theorem encode_literals (literals : List Literal) :
    encode true (literals.flatMap Literal.written) = literals.flatMap Literal.expansion := by
  induction literals with
  | nil => rfl
  | cons l rest ih =>
      rw [List.flatMap_cons, List.flatMap_cons, ← ih]
      cases l with
      | char c hc =>
          rw [Literal.written, List.singleton_append,
            UriText.encode_of_ne_percent (ne_of_isLiteral hc).2, Bool.true_and, Literal.expansion]
      | triplet high low hhigh hlow =>
          rw [Literal.written, Literal.expansion, List.cons_append, List.cons_append,
            List.cons_append, List.nil_append, encode, UriText.isHexDigit_eq, UriText.isHexDigit_eq,
            hhigh, hlow]
          rfl

/-! ### Names -/

theorem isNameChar_of_mem (h : IsName cs) (hmem : c ∈ cs) : isNameChar c = true ∨ c = '.' := by
  induction h with
  | char hc => rw [List.mem_singleton.1 hmem]; exact .inl hc
  | next hc _ ih =>
      rcases List.mem_cons.1 hmem with rfl | hmem
      · exact .inl hc
      · exact ih hmem
  | dotted hc _ ih =>
      rcases List.mem_cons.1 hmem with rfl | hmem
      · exact .inl hc
      · rcases List.mem_cons.1 hmem with rfl | hmem
        · exact .inr rfl
        · exact ih hmem

theorem exists_eq_cons (h : IsName cs) : ∃ c rest, cs = c :: rest ∧ isNameChar c = true := by
  cases h with
  | char hc => exact ⟨_, _, rfl, hc⟩
  | next hc _ => exact ⟨_, _, rfl, hc⟩
  | dotted hc _ => exact ⟨_, _, rfl, hc⟩

/-- No character that a template is cut at stands in a name. -/
theorem not_mem_of_isName (h : IsName cs) (hc : isNameChar c = false) (hdot : c ≠ '.') :
    c ∉ cs := by
  intro hmem
  rcases isNameChar_of_mem h hmem with hname | heq
  · rw [hc] at hname
    cases hname
  · exact hdot heq

theorem ofChar?_of_isNameChar (hc : isNameChar c = true) : Operator.ofChar? c = none := by
  unfold Operator.ofChar?
  split <;> first | rfl | exact absurd hc (by decide)

/-! ### Variables -/

theorem isModifier_written (m : Modifier) : IsModifier m.written := by
  cases m with
  | none => exact .absent
  | cut length _ _ => exact .limit fun d hd => Text.isDigit_of_mem_toDigits hd
  | explode => exact .spread

def VarSpec.variable (spec : VarSpec) : Variable where
  key := some (String.ofList spec.name)
  label := spec.name
  limit := match spec.modifier with
    | .cut length _ _ => some length
    | _ => none
  explode := spec.modifier.explodes

theorem modifiersOf_written (spec : VarSpec) :
    modifiersOf spec.modifier.written = (spec.variable.limit, spec.variable.explode) := by
  rw [VarSpec.variable]
  cases spec.modifier with
  | none => rfl
  | cut length _ hlt =>
      have hcount : length ≤ Text.maxCount := Nat.le_trans (Nat.le_of_lt hlt) (by decide)
      rw [Modifier.written, modifiersOf, Text.count?_toDigits, if_pos hcount]
      rfl
  | explode => rfl

theorem parseVariable_written (spec : VarSpec) : parseVariable spec.written = spec.variable := by
  obtain ⟨c, rest, hname, hc⟩ := exists_eq_cons spec.hname
  have hnot : ∀ d, isNameChar d = false → d ≠ '.' → d ∉ c :: rest :=
    fun d hd hdot => not_mem_of_isName (hname ▸ spec.hname) hd hdot
  have hopen : c ≠ '(' := by rintro rfl; exact absurd hc (by decide)
  have hthis : c :: rest ≠ ['$'] := by
    intro h
    rw [(List.cons.inj h).1] at hc
    exact absurd hc (by decide)
  have hcut : cutModifiers spec.written = (c :: rest, spec.modifier.written) := by
    rw [VarSpec.written, hname]
    exact cutModifiers_append hopen (hnot ':' (by decide) (by decide))
      (hnot '*' (by decide) (by decide)) (isModifier_written _)
  rw [parseVariable_of_cut hcut, keyOf_of_no_percent hopen hthis (hnot '%' (by decide) (by decide)),
    modifiersOf_written, ← hname]
  rfl

/-! ### Expressions -/

theorem splitVariables_intercalate {piece : List Char} {more : List (List Char)}
    (h : ∀ p ∈ piece :: more, ',' ∉ p ∧ '(' ∉ p ∧ ')' ∉ p) :
    splitVariables 0 ([','].intercalate (piece :: more)) = piece :: more := by
  induction more generalizing piece with
  | nil =>
      rw [List.intercalate_singleton]
      exact splitVariables_of_no_comma (h piece List.mem_cons_self).1 0
  | cons next rest ih =>
      obtain ⟨hcomma, hopen, hclose⟩ := h piece List.mem_cons_self
      rw [List.intercalate_cons_cons, List.append_assoc, List.singleton_append,
        splitVariables_append hcomma hopen hclose,
        ih fun p hp => h p (List.mem_cons_of_mem _ hp)]

/-- No character that an expression is cut at stands in a variable. -/
theorem cut_not_mem_written (spec : VarSpec) {c : Char} (hc : c ∈ ['}', ',', '(', ')']) :
    c ∉ spec.written := by
  have hcut : isNameChar c = false ∧ c ≠ '.' ∧ c ≠ '*' ∧ c ≠ ':' ∧ c.isDigit = false := by
    simp only [List.mem_cons, List.not_mem_nil, or_false] at hc
    rcases hc with rfl | rfl | rfl | rfl <;> decide
  obtain ⟨hname, hdot, hstar, hcolon, hdigit⟩ := hcut
  rw [VarSpec.written, List.mem_append, not_or]
  exact ⟨not_mem_of_isName spec.hname hname hdot,
    not_mem_modifier (isModifier_written _) hstar hcolon hdigit⟩

def Expression.body (e : Expression) : List Char :=
  e.operator.written ++ [','].intercalate (e.specs.map VarSpec.written)

theorem brace_not_mem_body (e : Expression) : '}' ∉ e.body := by
  rw [Expression.body, List.mem_append, not_or]
  refine ⟨not_mem_written_of_ofChar? _ rfl, ?_⟩
  rw [← Text.joinWith_eq_intercalate]
  refine Text.not_mem_joinWith (by decide) ?_
  rw [List.forall_mem_map]
  exact fun spec _ => cut_not_mem_written spec (by decide)

theorem parseExpression_body (e : Expression) :
    parseExpression e.body = .expression e.operator (e.specs.map VarSpec.variable) := by
  obtain ⟨c, rest, hname, hc⟩ := exists_eq_cons e.first.hname
  obtain ⟨tail, htail⟩ : ∃ tail,
      [','].intercalate (e.specs.map VarSpec.written) = c :: tail := by
    rw [Expression.specs, List.map_cons, VarSpec.written, hname, List.cons_append]
    cases e.more with
    | nil => exact ⟨_, rfl⟩
    | cons next more =>
      rw [List.map_cons, List.intercalate_cons_cons]
      exact ⟨_, rfl⟩
  have hpieces : splitVariables 0 ([','].intercalate (e.specs.map VarSpec.written))
      = e.specs.map VarSpec.written := by
    refine splitVariables_intercalate ?_
    rw [← List.map_cons, List.forall_mem_map]
    intro spec _
    exact ⟨cut_not_mem_written spec (by decide), cut_not_mem_written spec (by decide),
      cut_not_mem_written spec (by decide)⟩
  rw [Expression.body, htail, parseExpression_written _ (ofChar?_of_isNameChar hc), ← htail,
    hpieces, List.map_map]
  exact congrArg (Part.expression e.operator)
    (List.map_congr_left fun spec _ => parseVariable_written spec)

def Piece.read (subject : Subject) : Piece → List Char
  | .literal l => l.expansion
  | .expression e => expandExpression e.operator (e.specs.map VarSpec.variable) subject

/-- Literals that follow each other are read together; they wait in front until an expression or the
end comes. -/
theorem flatMap_expand_parseParts (subject : Subject) (literals : List Literal)
    (pieces : List Piece) :
    (parseParts (literals.flatMap Literal.written ++ written pieces)).flatMap (Part.expand subject)
      = literals.flatMap Literal.expansion ++ pieces.flatMap (Piece.read subject) := by
  induction pieces generalizing literals with
  | nil =>
      rw [written, List.flatMap_nil, List.flatMap_nil, List.append_nil, List.append_nil,
        parseParts_of_no_brace (brace_not_mem_literals literals), flatMap_expand_literalPart,
        encode_literals]
  | cons piece rest ih =>
      cases piece with
      | literal l =>
          have hgrown := ih (literals ++ [l])
          rw [List.flatMap_append, List.flatMap_append, List.flatMap_singleton,
            List.flatMap_singleton, List.append_assoc, List.append_assoc] at hgrown
          exact hgrown
      | expression e =>
          have hwritten : written (.expression e :: rest)
              = '{' :: (e.body ++ '}' :: written rest) := by
            rw [written, List.flatMap_cons, Piece.written, Expression.written, ← Expression.body]
            simp only [List.cons_append, List.append_assoc, List.nil_append]
            rfl
          have hrest := ih []
          rw [List.flatMap_nil, List.flatMap_nil, List.nil_append, List.nil_append] at hrest
          rw [hwritten, parseParts_expression (brace_not_mem_literals literals)
            (brace_not_mem_body e), List.flatMap_append, flatMap_expand_literalPart,
            encode_literals, List.flatMap_cons, parseExpression_body, List.flatMap_cons, hrest]
          rfl

end HyperSchema.Template.Standard
