import HyperSchema.Proofs.SchemaUri
import HyperSchema.Proofs.Text.Cut
import HyperSchema.Transport.DescribedBy

/-!
# Links as they are written

A link is written as its target in angle brackets and its parameters behind semicolons, each a name,
an equals sign and a value in quotes. Links are divided by commas. Anything but quotes and
backslashes may stand in a value, so that commas, semicolons, equals signs and angle brackets in
quotes divide nothing.
-/

namespace HyperSchema

/-- Letters, digits and fifteen marks, the last two being the apostrophe and the grave accent. -/
def WebLink.isTokenChar (c : Char) : Bool :=
  c.isAlphanum || "!#$%&*+-.^_|~".toList.contains c || c.toNat == 0x27 || c.toNat == 0x60

theorem WebLink.toNat_lt_of_isTokenChar {c : Char} (hc : isTokenChar c = true) : c.toNat < 128 := by
  rw [isTokenChar, Bool.or_eq_true, Bool.or_eq_true, Bool.or_eq_true] at hc
  rcases hc with ((hc | hc) | hc) | hc
  · delta Char.isAlphanum Char.isAlpha Char.isUpper Char.isLower Char.isDigit at hc
    simp only [Bool.or_eq_true, Bool.and_eq_true, decide_eq_true_eq, UInt32.le_iff_toNat_le,
      ge_iff_le] at hc
    change ((65 ≤ c.toNat ∧ c.toNat ≤ 90) ∨ (97 ≤ c.toNat ∧ c.toNat ≤ 122))
      ∨ (48 ≤ c.toNat ∧ c.toNat ≤ 57) at hc
    omega
  · rw [List.contains_iff_mem] at hc
    have hall : "!#$%&*+-.^_|~".toList.all (fun d => d.toNat < 128) = true := by decide
    exact of_decide_eq_true (List.all_eq_true.1 hall c hc)
  · rw [beq_iff_eq] at hc
    omega
  · rw [beq_iff_eq] at hc
    omega

/-- What can stand in a token is neither a blank nor one of the marks that divide a header. -/
theorem WebLink.of_isTokenChar {c : Char} (hc : isTokenChar c = true) :
    Unicode.isWhitespace c = false ∧ c ∉ [',', '<', '>', '"', ';', '='] := by
  have hall : ∀ n < 128, isTokenChar (Char.ofNat n) = true →
      Unicode.isWhitespace (Char.ofNat n) = false
        ∧ Char.ofNat n ∉ [',', '<', '>', '"', ';', '='] := by decide +kernel
  have hchar := hall c.toNat (toNat_lt_of_isTokenChar hc)
  rw [Char.ofNat_toNat] at hchar
  exact hchar hc

structure WebLink.Parameter where
  name : List Char
  value : List Char
  nonempty : name ≠ []
  token : ∀ c ∈ name, isTokenChar c = true
  unquoted : '"' ∉ value ∧ '\\' ∉ value

def WebLink.Parameter.ofStrings (name value : String)
    (h : name.toList ≠ [] ∧ name.toList.all isTokenChar = true
      ∧ '"' ∉ value.toList ∧ '\\' ∉ value.toList) : WebLink.Parameter :=
  ⟨name.toList, value.toList, h.1, List.all_eq_true.1 h.2.1, h.2.2⟩

structure WebLink where
  target : List Char
  parameters : List WebLink.Parameter
  unbracketed : '<' ∉ target ∧ '>' ∉ target

namespace WebLink

def Parameter.written (p : Parameter) : List Char := p.name ++ '=' :: '"' :: (p.value ++ ['"'])

def written (l : WebLink) : List Char :=
  '<' :: (l.target ++ '>' :: l.parameters.flatMap (fun p => ';' :: ' ' :: p.written))

def header (links : List WebLink) : String :=
  String.ofList ([',', ' '].intercalate (links.map written))

/-- Whether a parameter lists relations of a link. -/
def Parameter.NamesRelations (p : Parameter) : Prop :=
  Text.sameIgnoringCase (String.ofList p.name) "rel" = true

/-- Whether a word is among those of a text, whatever the case of its letters. -/
def Lists (text : List Char) (word : String) : Prop :=
  ∃ listed ∈ text.splitOnP Unicode.isWhitespace,
    Text.sameIgnoringCase (String.ofList listed) word = true

/-- Whether the target of a link describes the document that the link is found with. -/
def Describes (l : WebLink) : Prop :=
  ∃ p ∈ l.parameters, p.NamesRelations ∧ Lists p.value "describedby"

instance (p : Parameter) : Decidable p.NamesRelations := inferInstanceAs (Decidable (_ = true))

instance (text : List Char) (word : String) : Decidable (Lists text word) :=
  inferInstanceAs (Decidable (∃ _ ∈ _, _))

instance (l : WebLink) : Decidable l.Describes := inferInstanceAs (Decidable (∃ _ ∈ _, _))

/-- A semicolon in a value does no harm if the value is no list of relations and no equals sign
stands behind it. -/
def Parameter.Harmless (p : Parameter) : Prop :=
  ∀ front behind, p.value = front ++ ';' :: behind → ¬p.NamesRelations ∧ '=' ∉ behind

/-- Behind the first semicolon there is all that stands behind any. -/
theorem Parameter.harmless_iff {p : Parameter} :
    p.Harmless ↔ ∀ cut ∈ Text.cutFirst? ';' p.value, ¬p.NamesRelations ∧ '=' ∉ cut.2 := by
  constructor
  · intro h cut hcut
    exact h cut.1 cut.2 (Text.cutFirst?_eq_some hcut).1
  · intro h front behind hvalue
    obtain ⟨first, rest, hcut, hfirst⟩ :=
      List.eq_append_cons_of_mem (hvalue ▸ List.mem_append_right front List.mem_cons_self)
    have hharmless := h (first, rest) (by rw [hcut, Text.cutFirst?_append hfirst]; rfl)
    refine ⟨hharmless.1, fun hequals => hharmless.2 ?_⟩
    rcases List.append_eq_append_iff.1 (hcut.symm.trans hvalue) with
      ⟨more, -, hrest⟩ | ⟨more, hmore, hrest⟩
    · rcases List.cons_eq_append_iff.1 hrest with ⟨-, heq⟩ | ⟨later, -, hlater⟩
      · exact (List.cons.inj heq).2 ▸ hequals
      · rw [hlater]
        exact List.mem_append_right _ (List.mem_cons_of_mem _ hequals)
    · rcases List.cons_eq_append_iff.1 hrest with ⟨-, heq⟩ | ⟨later, hsemicolon, -⟩
      · exact (List.cons.inj heq).2 ▸ hequals
      · rw [hmore, hsemicolon] at hfirst
        exact absurd (List.mem_append_right _ List.mem_cons_self) hfirst

instance (p : Parameter) : Decidable p.Harmless := decidable_of_iff _ Parameter.harmless_iff.symm

end WebLink

/-! ### Cutting a header into links -/

namespace HeaderLink

theorem splitLinks_ne_nil (inTarget inQuotes : Bool) (cs : List Char) :
    splitLinks inTarget inQuotes cs ≠ [] := by
  cases cs with
  | nil => exact List.cons_ne_nil _ _
  | cons c rest =>
      rw [splitLinks]
      split
      · exact List.cons_ne_nil _ _
      · dsimp only
        split
        · exact List.cons_ne_nil _ _
        · exact List.cons_ne_nil _ _

/-- A text that is carried through whole, from one state of the cutting to another: inside angle
brackets or not, inside quotes or not. -/
def Carries (inTarget inQuotes : Bool) (cs : List Char) (inTarget' inQuotes' : Bool) : Prop :=
  ∀ rest, splitLinks inTarget inQuotes (cs ++ rest)
    = (splitLinks inTarget' inQuotes' rest).modifyHead (cs ++ ·)

section

variable {inTarget inQuotes inTarget' inQuotes' inTarget'' inQuotes'' : Bool} {c : Char}
  {cs ds : List Char}

theorem carries_nil (inTarget inQuotes : Bool) :
    Carries inTarget inQuotes [] inTarget inQuotes := by
  intro rest
  exact (congrFun List.modifyHead_id _).symm

theorem Carries.append (h : Carries inTarget inQuotes cs inTarget' inQuotes')
    (h' : Carries inTarget' inQuotes' ds inTarget'' inQuotes'') :
    Carries inTarget inQuotes (cs ++ ds) inTarget'' inQuotes'' := by
  intro rest
  rw [List.append_assoc, h, h', List.modifyHead_modifyHead]
  congr 1
  funext piece
  exact (List.append_assoc cs ds piece).symm

/-- A character that is no comma outside of brackets and quotes. -/
theorem carries_char (hc : (decide (c = ',') && !inTarget && !inQuotes) = false) :
    Carries inTarget inQuotes [c]
      (if c = '<' && !inQuotes then true else if c = '>' && !inQuotes then false else inTarget)
      (if c = '"' && !inTarget then !inQuotes else inQuotes) := by
  intro rest
  rw [List.singleton_append, splitLinks, hc, if_neg Bool.false_ne_true]
  dsimp only
  split
  · next hnil => exact absurd hnil (splitLinks_ne_nil _ _ _)
  · next piece more hpieces => rw [hpieces, List.modifyHead_cons, List.singleton_append]

/-- What changes nothing character by character changes nothing. -/
theorem carries_of_forall (h : ∀ c ∈ cs, Carries inTarget inQuotes [c] inTarget inQuotes) :
    Carries inTarget inQuotes cs inTarget inQuotes := by
  induction cs with
  | nil => exact carries_nil inTarget inQuotes
  | cons c rest ih =>
      rw [List.forall_mem_cons] at h
      exact h.1.append (ih h.2)

theorem carries_target (h : '>' ∉ cs) : Carries true false cs true false := by
  refine carries_of_forall fun c hc => ?_
  have hclose : c ≠ '>' := fun heq => h (heq ▸ hc)
  have hchar : Carries true false [c] _ _ := carries_char (by simp)
  simpa [hclose] using hchar

theorem carries_value (h : '"' ∉ cs) : Carries false true cs false true := by
  refine carries_of_forall fun c hc => ?_
  have hquote : c ≠ '"' := fun heq => h (heq ▸ hc)
  have hchar : Carries false true [c] _ _ := carries_char (by simp)
  simpa [hquote] using hchar

theorem carries_plain (h : ∀ c ∈ cs, c ≠ ',' ∧ c ≠ '<' ∧ c ≠ '>' ∧ c ≠ '"') :
    Carries false false cs false false := by
  refine carries_of_forall fun c hc => ?_
  obtain ⟨hcomma, hopen, hclose, hquote⟩ := h c hc
  have hchar : Carries false false [c] _ _ := carries_char (by simp [hcomma])
  simpa [hopen, hclose, hquote] using hchar

theorem carries_quote {inQuotes : Bool} : Carries false inQuotes ['"'] false !inQuotes :=
  carries_char (by simp)

theorem carries_parameter (p : WebLink.Parameter) :
    Carries false false (';' :: ' ' :: p.written) false false := by
  have hname : Carries false false (';' :: ' ' :: (p.name ++ ['='])) false false := by
    refine carries_plain fun c hc => ?_
    rw [List.mem_cons, List.mem_cons, List.mem_append, List.mem_singleton] at hc
    rcases hc with rfl | rfl | hc | rfl
    · decide
    · decide
    · have hplain := (WebLink.of_isTokenChar (p.token c hc)).2
      simp only [List.mem_cons, not_or] at hplain
      exact ⟨hplain.1, hplain.2.1, hplain.2.2.1, hplain.2.2.2.1⟩
    · decide
  have hwritten : ';' :: ' ' :: p.written
      = (';' :: ' ' :: (p.name ++ ['='])) ++ (['"'] ++ (p.value ++ ['"'])) := by
    rw [WebLink.Parameter.written, List.cons_append, List.cons_append, List.append_assoc]
    rfl
  rw [hwritten]
  exact hname.append (carries_quote.append ((carries_value p.unquoted.1).append carries_quote))

theorem carries_written (l : WebLink) : Carries false false l.written false false := by
  have hparameters : ∀ ps : List WebLink.Parameter,
      Carries false false (ps.flatMap (fun p => ';' :: ' ' :: p.written)) false false := by
    intro ps
    induction ps with
    | nil => exact carries_nil false false
    | cons p rest ih =>
        rw [List.flatMap_cons]
        exact (carries_parameter p).append ih
  have hopen : Carries false false ['<'] true false := carries_char (by simp)
  have hclose : Carries true false ['>'] false false := carries_char (by simp)
  exact hopen.append
    ((carries_target l.unbracketed.2).append (hclose.append (hparameters l.parameters)))

/-- Texts that are carried through are got back from behind commas and blanks, with the blanks. -/
theorem splitLinks_intercalate {first : List Char} {more : List (List Char)}
    (h : ∀ text ∈ first :: more, Carries false false text false false) :
    splitLinks false false ([',', ' '].intercalate (first :: more))
      = first :: more.map (' ' :: ·) := by
  induction more generalizing first with
  | nil =>
      have hfirst := h first List.mem_cons_self []
      rw [List.append_nil] at hfirst
      rw [List.intercalate_singleton, hfirst, splitLinks, List.modifyHead_cons, List.append_nil,
        List.map_nil]
  | cons next rest ih =>
      obtain ⟨hfirst, hmore⟩ := List.forall_mem_cons.1 h
      have hblank : Carries false false [' '] false false := carries_char (by simp)
      have hcomma : ∀ text, splitLinks false false (',' :: text)
          = [] :: splitLinks false false text := by
        intro text
        rw [splitLinks]
        rfl
      rw [List.intercalate_cons_cons, List.append_assoc, hfirst, List.cons_append, hcomma,
        List.modifyHead_cons, List.append_nil, hblank, ih hmore, List.modifyHead_cons,
        List.map_cons, List.singleton_append]

end

end HeaderLink

end HyperSchema
