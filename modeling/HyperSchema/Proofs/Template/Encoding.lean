import HyperSchema.Template.Expand
import HyperSchema.Proofs.Text.Utf8

/-!
# The characters of a URI

A URI is written in unreserved characters, reserved characters and triplets: a percent sign and two
hexadecimal digits for one byte. Encoding a text lets through what is allowed and writes the bytes
of every other character as triplets. What is allowed are the unreserved characters, or the reserved
ones and whole triplets as well. Whether a percent sign begins a triplet is seen from the two
characters behind it, and as these stand for themselves, the encoding goes character by character.
-/

namespace HyperSchema

namespace UriText

/-- Letters, digits and four marks. -/
def isUnreserved (c : Char) : Bool :=
  ('A' ≤ c && c ≤ 'Z') || ('a' ≤ c && c ≤ 'z') || ('0' ≤ c && c ≤ '9')
    || "-._~".toList.contains c

/-- The delimiters of a URI's components, and those within them; the last is the apostrophe. -/
def isReserved (c : Char) : Bool :=
  ":/?#[]@".toList.contains c || "!$&()*+,;=".toList.contains c || c.toNat == 0x27

def isHexDigit (c : Char) : Bool :=
  ('0' ≤ c && c ≤ '9') || ('A' ≤ c && c ≤ 'F') || ('a' ≤ c && c ≤ 'f')

def hexDigit (n : Nat) : Char := "0123456789ABCDEF".toList.getD n '0'

def tripletOf (byte : UInt8) : List Char :=
  ['%', hexDigit (byte.toNat / 16), hexDigit (byte.toNat % 16)]

/-- A character written as triplets. -/
def escaped (c : Char) : List Char := (String.utf8EncodeChar c).flatMap tripletOf

/-- Whether a percent sign in front would begin a triplet. -/
def beginsTriplet : List Char → Bool
  | high :: low :: _ => isHexDigit high && isHexDigit low
  | _ => false

/-- Whether a character is let through, with what stands behind it. -/
def passes (reservedToo : Bool) (c : Char) (behind : List Char) : Bool :=
  isUnreserved c || (reservedToo && (isReserved c || (c == '%' && beginsTriplet behind)))

def encoded (reservedToo : Bool) : List Char → List Char
  | [] => []
  | c :: rest =>
    (if passes reservedToo c rest then [c] else escaped c) ++ encoded reservedToo rest

end UriText

/-- Text that can stand in a URI. -/
inductive UriText : List Char → Prop where
  | empty : UriText []
  | plain {c : Char} {rest : List Char}
      (hplain : (UriText.isUnreserved c || UriText.isReserved c) = true) (hrest : UriText rest) :
      UriText (c :: rest)
  | triplet {high low : Char} {rest : List Char} (hhigh : UriText.isHexDigit high = true)
      (hlow : UriText.isHexDigit low = true) (hrest : UriText rest) :
      UriText ('%' :: high :: low :: rest)

namespace UriText

variable {c d : Char} {cs ds : List Char}

/-! ### The same characters -/

theorem isUnreserved_eq (c : Char) : Template.isUnreserved c = isUnreserved c := by
  have hupper : c.isUpper = ('A' ≤ c && c ≤ 'Z') := Bool.decide_and _ _
  have halphanum : c.isAlphanum
      = (('A' ≤ c && c ≤ 'Z') || ('a' ≤ c && c ≤ 'z') || ('0' ≤ c && c ≤ '9')) := by
    rw [← hupper]
    rfl
  rw [Template.isUnreserved, halphanum]
  rfl

theorem isReserved_eq (c : Char) : Template.isReserved c = isReserved c := by
  rw [Bool.eq_iff_iff]
  simp [Template.isReserved, isReserved, or_assoc]

theorem isHexDigit_eq (c : Char) : Text.isHexDigit c = isHexDigit c := by
  rw [Text.isHexDigit, isHexDigit, Bool.or_assoc, Bool.or_assoc,
    Bool.or_comm ('a' ≤ c && c ≤ 'f')]

theorem escapeByte_toNat (byte : UInt8) : Text.escapeByte byte.toNat = tripletOf byte := by
  have hdigit : ∀ n < 16, Text.upperHex n = hexDigit n := by decide
  have hlt := byte.toNat_lt
  rw [Text.escapeByte, tripletOf, hdigit _ (by omega), hdigit _ (by omega)]

theorem escapeChar_eq (c : Char) : Text.escapeChar c = escaped c := by
  rw [Text.escapeChar, Text.utf8_eq_map_utf8EncodeChar, List.flatMap_map, escaped]
  exact List.flatMap_congr fun byte _ => escapeByte_toNat byte

/-! ### Digits and percent signs -/

theorem isUnreserved_of_isHexDigit (h : isHexDigit c = true) : isUnreserved c = true := by
  simp only [isHexDigit, Bool.or_eq_true, Bool.and_eq_true, decide_eq_true_eq] at h
  simp only [isUnreserved, Bool.or_eq_true, Bool.and_eq_true, decide_eq_true_eq]
  rcases h with (hdigit | ⟨hlow, hhigh⟩) | ⟨hlow, hhigh⟩
  · exact .inl (.inr hdigit)
  · exact .inl (.inl (.inl ⟨hlow, Char.le_trans hhigh (by decide)⟩))
  · exact .inl (.inl (.inr ⟨hlow, Char.le_trans hhigh (by decide)⟩))

theorem ne_of_isHexDigit (h : isHexDigit c = true) (hd : isHexDigit d = false) : c ≠ d := by
  rintro rfl
  rw [h] at hd
  cases hd

theorem ne_percent_of_plain (h : (isUnreserved c || isReserved c) = true) : c ≠ '%' := by
  rintro rfl
  exact absurd h (by decide)

theorem isHexDigit_hexDigit {n : Nat} (h : n < 16) : isHexDigit (hexDigit n) = true := by
  have hall : ∀ m < 16, isHexDigit (hexDigit m) = true := by decide
  exact hall n h

/-! ### Encoding character by character -/

theorem encode_of_ne_percent (hc : c ≠ '%') (reservedToo : Bool) (rest : List Char) :
    Template.encode reservedToo (c :: rest)
      = (if isUnreserved c || (reservedToo && isReserved c) then [c] else escaped c)
        ++ Template.encode reservedToo rest := by
  rw [Template.encode, isUnreserved_eq, isReserved_eq, escapeChar_eq]
  exact fun _ _ _ h _ => hc h

theorem encode_hexDigit (hc : isHexDigit c = true) (reservedToo : Bool) (rest : List Char) :
    Template.encode reservedToo (c :: rest) = c :: Template.encode reservedToo rest := by
  rw [encode_of_ne_percent (ne_of_isHexDigit hc (by decide)), isUnreserved_of_isHexDigit hc]
  rfl

theorem encode_percent (reservedToo : Bool) (rest : List Char) :
    Template.encode reservedToo ('%' :: rest)
      = (if reservedToo && beginsTriplet rest then ['%'] else escaped '%')
        ++ Template.encode reservedToo rest := by
  match rest with
  | [] => rw [← escapeChar_eq]; cases reservedToo <;> rfl
  | [a] => rw [← escapeChar_eq]; cases reservedToo <;> rfl
  | high :: low :: more =>
    rw [Template.encode, beginsTriplet, isHexDigit_eq, isHexDigit_eq, escapeChar_eq, Bool.and_assoc]
    split
    · next h =>
      simp only [Bool.and_eq_true] at h
      rw [encode_hexDigit h.2.1, encode_hexDigit h.2.2]
      rfl
    · rfl

theorem encode_cons (reservedToo : Bool) (c : Char) (rest : List Char) :
    Template.encode reservedToo (c :: rest)
      = (if passes reservedToo c rest then [c] else escaped c)
        ++ Template.encode reservedToo rest := by
  rw [passes]
  by_cases hc : c = '%'
  · subst hc
    exact encode_percent reservedToo rest
  · rw [encode_of_ne_percent hc, beq_eq_false_iff_ne.2 hc, Bool.false_and, Bool.or_false]

theorem encode_eq_encoded (reservedToo : Bool) (cs : List Char) :
    Template.encode reservedToo cs = encoded reservedToo cs := by
  induction cs with
  | nil => rfl
  | cons c rest ih => rw [encode_cons, encoded, ih]

/-! ### What can stand in a URI -/

theorem of_plain (hplain : cs.all (fun c => isUnreserved c || isReserved c) = true) :
    UriText cs := by
  induction cs with
  | nil => exact .empty
  | cons c rest ih =>
      rw [List.all_cons, Bool.and_eq_true] at hplain
      exact .plain hplain.1 (ih hplain.2)

protected theorem append (h : UriText cs) (h' : UriText ds) : UriText (cs ++ ds) := by
  induction h with
  | empty => exact h'
  | plain hplain _ ih => exact .plain hplain ih
  | triplet hhigh hlow _ ih => exact .triplet hhigh hlow ih

theorem of_flatMap {α : Type} {xs : List α} {f : α → List Char}
    (h : ∀ x ∈ xs, UriText (f x)) : UriText (xs.flatMap f) := by
  induction xs with
  | nil => exact .empty
  | cons x rest ih =>
      rw [List.forall_mem_cons] at h
      exact h.1.append (ih h.2)

theorem of_joinWith {sep : List Char} {pieces : List (List Char)} (hsep : UriText sep)
    (h : ∀ piece ∈ pieces, UriText piece) : UriText (Text.joinWith sep pieces) := by
  cases pieces with
  | nil => exact .empty
  | cons piece more =>
      rw [List.forall_mem_cons] at h
      rw [Text.joinWith_cons]
      exact h.1.append (of_flatMap fun next hnext => hsep.append (h.2 next hnext))

theorem of_escaped (c : Char) : UriText (escaped c) := by
  refine of_flatMap fun byte _ => ?_
  have hlt := byte.toNat_lt
  exact .triplet (isHexDigit_hexDigit (by omega)) (isHexDigit_hexDigit (by omega)) .empty

theorem of_encode (reservedToo : Bool) (cs : List Char) :
    UriText (Template.encode reservedToo cs) := by
  fun_induction Template.encode reservedToo cs with
  | case1 => exact .empty
  | case2 high low rest h ih =>
      rw [isHexDigit_eq, isHexDigit_eq, Bool.and_assoc] at h
      simp only [Bool.and_eq_true] at h
      exact .triplet h.2.1 h.2.2 ih
  | case3 high low rest _ ih =>
      rw [escapeChar_eq]
      exact (of_escaped '%').append ih
  | case4 c rest _ ih =>
      rw [isUnreserved_eq, isReserved_eq, escapeChar_eq]
      refine UriText.append ?_ ih
      split
      · next h =>
        have hplain : (isUnreserved c || isReserved c) = true := by
          revert h
          cases isUnreserved c <;> cases isReserved c <;> simp
        exact .plain hplain .empty
      · exact of_escaped c

theorem encode_eq_self (h : UriText cs) : Template.encode true cs = cs := by
  induction h with
  | empty => rfl
  | @plain c rest hplain _ ih =>
      rw [encode_of_ne_percent (ne_percent_of_plain hplain), Bool.true_and, hplain, ih]
      rfl
  | triplet hhigh hlow _ ih =>
      rw [Template.encode, isHexDigit_eq, isHexDigit_eq, hhigh, hlow, ih]
      rfl

theorem brace_not_mem (h : UriText cs) : '{' ∉ cs := by
  induction h with
  | empty => exact List.not_mem_nil
  | @plain c rest hplain _ ih =>
      rw [List.mem_cons, not_or]
      refine ⟨?_, ih⟩
      rintro rfl
      exact absurd hplain (by decide)
  | @triplet high low rest hhigh hlow _ ih =>
      rw [List.mem_cons, List.mem_cons, List.mem_cons, not_or, not_or, not_or]
      exact ⟨by decide, (ne_of_isHexDigit hhigh (by decide)).symm,
        (ne_of_isHexDigit hlow (by decide)).symm, ih⟩

/-! ### Encoded text -/

theorem escaped_ne_nil (c : Char) : escaped c ≠ [] := by
  cases hbytes : String.utf8EncodeChar c with
  | nil =>
      have hlength := String.length_utf8EncodeChar c
      rw [hbytes] at hlength
      exact absurd hlength.symm (Nat.ne_of_gt c.utf8Size_pos)
  | cons byte rest =>
      rw [escaped, hbytes]
      exact List.cons_ne_nil _ _

theorem encoded_eq_nil_iff (reservedToo : Bool) : encoded reservedToo cs = [] ↔ cs = [] := by
  cases cs with
  | nil => exact iff_of_true rfl rfl
  | cons c rest =>
      refine iff_of_false (fun h => ?_) (List.cons_ne_nil _ _)
      rw [encoded, List.append_eq_nil_iff] at h
      have hfirst := h.1
      split at hfirst
      · cases hfirst
      · exact escaped_ne_nil c hfirst

theorem encoded_of_unreserved (h : ∀ c ∈ cs, isUnreserved c = true) (reservedToo : Bool) :
    encoded reservedToo cs = cs := by
  induction cs with
  | nil => rfl
  | cons c rest ih =>
      rw [List.forall_mem_cons] at h
      rw [encoded, passes, h.1, Bool.true_or, ih h.2]
      rfl

theorem isUnreserved_of_mem_tripletOf {byte : UInt8} (h : c ∈ tripletOf byte) :
    c = '%' ∨ isUnreserved c = true := by
  have hlt := byte.toNat_lt
  rw [tripletOf, List.mem_cons, List.mem_cons, List.mem_singleton] at h
  rcases h with rfl | rfl | rfl
  · exact .inl rfl
  · exact .inr (isUnreserved_of_isHexDigit (isHexDigit_hexDigit (by omega)))
  · exact .inr (isUnreserved_of_isHexDigit (isHexDigit_hexDigit (by omega)))

/-- Outside of the unreserved characters, only percent signs are left by the encoding. -/
theorem isUnreserved_of_mem_encoded (h : c ∈ encoded false cs) :
    c = '%' ∨ isUnreserved c = true := by
  induction cs with
  | nil => cases h
  | cons d rest ih =>
      rw [encoded, List.mem_append] at h
      rcases h with hfirst | hrest
      · rw [passes, Bool.false_and, Bool.or_false] at hfirst
        split at hfirst
        · next hd =>
          rw [List.mem_singleton.1 hfirst]
          exact .inr hd
        · obtain ⟨byte, -, hbyte⟩ := List.mem_flatMap.1 hfirst
          exact isUnreserved_of_mem_tripletOf hbyte
      · exact ih hrest

theorem not_mem_encoded (hpercent : c ≠ '%') (hc : isUnreserved c = false) :
    c ∉ encoded false cs := by
  intro hmem
  rcases isUnreserved_of_mem_encoded hmem with h | h
  · exact hpercent h
  · rw [hc] at h
    cases h

end UriText

/-! ### Reading back -/

namespace Text

variable {c : Char} {cs : List Char}

theorem unescapeBytes_of_ne_percent (hc : c ≠ '%') (rest : List Char) :
    unescapeBytes (c :: rest) = utf8 c ++ unescapeBytes rest := by
  rw [unescapeBytes]
  exact fun _ _ _ h _ => hc h

theorem unescapeBytes_tripletOf (byte : UInt8) (rest : List Char) :
    unescapeBytes (UriText.tripletOf byte ++ rest) = byte.toNat :: unescapeBytes rest := by
  have hdigit : ∀ n < 16, isHexDigit (UriText.hexDigit n) = true
      ∧ hexDigitValue (UriText.hexDigit n) = n := by decide
  have hlt := byte.toNat_lt
  obtain ⟨hhigh, hhigh'⟩ := hdigit (byte.toNat / 16) (by omega)
  obtain ⟨hlow, hlow'⟩ := hdigit (byte.toNat % 16) (by omega)
  rw [UriText.tripletOf, List.cons_append, List.cons_append, List.cons_append, List.nil_append,
    unescapeBytes, hhigh, hlow, hhigh', hlow', Nat.div_add_mod']
  rfl

theorem unescapeBytes_escaped (c : Char) (rest : List Char) :
    unescapeBytes (UriText.escaped c ++ rest) = utf8 c ++ unescapeBytes rest := by
  rw [utf8_eq_map_utf8EncodeChar, UriText.escaped]
  induction String.utf8EncodeChar c with
  | nil => rfl
  | cons byte more ih =>
      rw [List.flatMap_cons, List.append_assoc, unescapeBytes_tripletOf, ih]
      rfl

theorem unescapePercent_of_no_percent (h : '%' ∉ cs) : unescapePercent cs = cs := by
  have hbytes : unescapeBytes cs = utf8Bytes cs := by
    induction cs with
    | nil => rfl
    | cons c rest ih =>
        rw [List.mem_cons, not_or] at h
        rw [unescapeBytes_of_ne_percent (Ne.symm h.1), ih h.2]
        rfl
  rw [unescapePercent, hbytes, decodeLossy_utf8Bytes]

/-- A text that is encoded outside of the unreserved characters is read back, whatever it is. -/
theorem unescapePercent_encoded (cs : List Char) :
    unescapePercent (UriText.encoded false cs) = cs := by
  have hbytes : unescapeBytes (UriText.encoded false cs) = utf8Bytes cs := by
    induction cs with
    | nil => rfl
    | cons c rest ih =>
        rw [UriText.encoded, UriText.passes, Bool.false_and, Bool.or_false]
        split
        · next h =>
          have hplain : (UriText.isUnreserved c || UriText.isReserved c) = true := by
            rw [h, Bool.true_or]
          rw [List.singleton_append,
            unescapeBytes_of_ne_percent (UriText.ne_percent_of_plain hplain), ih]
          rfl
        · rw [unescapeBytes_escaped, ih]
          rfl
  rw [unescapePercent, hbytes, decodeLossy_utf8Bytes]

end Text

end HyperSchema
