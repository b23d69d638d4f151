import HyperSchema.Text.Utf8
import Mathlib.Data.List.Basic

/-!
# Characters as bytes

The bytes of a character are its UTF-8 encoding, and decoding reads them back: a lead byte tells how
many bytes follow and what the first of them may be, so a character that is whole is never broken
off, whatever comes behind it.
-/

namespace HyperSchema.Text

variable {a b c d low high : Nat} {rest : List Nat}

/-! ### The encoding -/

theorem toNat_lt_codePoints (c : Char) : c.toNat < 0x110000 := by
  have hvalid : c.toNat < 0xD800 ∨ 0xDFFF < c.toNat ∧ c.toNat < 0x110000 := c.valid
  omega

/-- The bytes are those of the core library's encoding. -/
theorem utf8_eq_map_utf8EncodeChar (c : Char) :
    utf8 c = (String.utf8EncodeChar c).map UInt8.toNat := by
  have hlt := toNat_lt_codePoints c
  have hval : c.val.toNat = c.toNat := rfl
  rw [utf8, String.utf8EncodeChar, hval]
  by_cases h1 : c.toNat < 0x80
  · have h1' : c.toNat ≤ 0x7F := by omega
    rw [if_pos h1, if_pos h1']
    simp only [List.map_cons, List.map_nil, UInt8.toNat_ofNat', List.cons.injEq, and_true]
    omega
  have h1' : ¬c.toNat ≤ 0x7F := by omega
  rw [if_neg h1, if_neg h1']
  by_cases h2 : c.toNat < 0x800
  · have h2' : c.toNat ≤ 0x7FF := by omega
    rw [if_pos h2, if_pos h2']
    simp only [List.map_cons, List.map_nil, UInt8.toNat_ofNat', List.cons.injEq, and_true]
    omega
  have h2' : ¬c.toNat ≤ 0x7FF := by omega
  rw [if_neg h2, if_neg h2']
  by_cases h3 : c.toNat < 0x10000
  · have h3' : c.toNat ≤ 0xFFFF := by omega
    rw [if_pos h3, if_pos h3']
    simp only [List.map_cons, List.map_nil, UInt8.toNat_ofNat', List.cons.injEq, and_true]
    omega
  have h3' : ¬c.toNat ≤ 0xFFFF := by omega
  rw [if_neg h3, if_neg h3']
  simp only [List.map_cons, List.map_nil, UInt8.toNat_ofNat', List.cons.injEq, and_true]
  omega

theorem lt_of_mem_utf8 {c : Char} (h : b ∈ utf8 c) : b < 256 := by
  rw [utf8_eq_map_utf8EncodeChar] at h
  obtain ⟨byte, -, rfl⟩ := List.mem_map.1 h
  exact byte.toNat_lt

/-! ### Reading one character -/

theorem decodeLossy_one (ha : a < 0x80) (rest : List Nat) :
    decodeLossy (a :: rest) = Char.ofNat a :: decodeLossy rest := by
  rw [decodeLossy, if_pos ha]

theorem decodeLossy_two (ha : ¬a < 0x80) (hlead : afterLead a = some (low, high, 0))
    (hlow : low ≤ b) (hhigh : b ≤ high) (rest : List Nat) :
    decodeLossy (a :: b :: rest)
      = Char.ofNat ((a - 0xC0) * 64 + (b - 0x80)) :: decodeLossy rest := by
  have hfits : (decide (b < low) || decide (high < b)) = false := by
    rw [decide_eq_false (Nat.not_lt.2 hlow), decide_eq_false (Nat.not_lt.2 hhigh), Bool.or_false]
  rw [decodeLossy, if_neg ha, hlead]
  dsimp only
  rw [hfits]
  rfl

theorem decodeLossy_three (ha : ¬a < 0x80) (hlead : afterLead a = some (low, high, 1))
    (hlow : low ≤ b) (hhigh : b ≤ high) (hc : isTail c = true) (rest : List Nat) :
    decodeLossy (a :: b :: c :: rest)
      = Char.ofNat (((a - 0xE0) * 64 + (b - 0x80)) * 64 + (c - 0x80)) :: decodeLossy rest := by
  have hfits : (decide (b < low) || decide (high < b)) = false := by
    rw [decide_eq_false (Nat.not_lt.2 hlow), decide_eq_false (Nat.not_lt.2 hhigh), Bool.or_false]
  rw [decodeLossy, if_neg ha, hlead]
  dsimp only
  rw [hfits, hc]
  rfl

theorem decodeLossy_four (ha : ¬a < 0x80) (hlead : afterLead a = some (low, high, 2))
    (hlow : low ≤ b) (hhigh : b ≤ high) (hc : isTail c = true) (hd : isTail d = true)
    (rest : List Nat) :
    decodeLossy (a :: b :: c :: d :: rest)
      = Char.ofNat ((((a - 0xF0) * 64 + (b - 0x80)) * 64 + (c - 0x80)) * 64 + (d - 0x80))
        :: decodeLossy rest := by
  have hfits : (decide (b < low) || decide (high < b)) = false := by
    rw [decide_eq_false (Nat.not_lt.2 hlow), decide_eq_false (Nat.not_lt.2 hhigh), Bool.or_false]
  rw [decodeLossy, if_neg ha, hlead]
  dsimp only
  rw [hfits, hc, hd]
  rfl

theorem isTail_add_mod (n : Nat) : isTail (0x80 + n % 64) = true := by
  rw [isTail, Bool.and_eq_true, decide_eq_true_eq, decide_eq_true_eq]
  omega

theorem ofNat_eq_of_eq_toNat {n : Nat} {c : Char} (h : n = c.toNat) : Char.ofNat n = c := by
  rw [h, Char.ofNat_toNat]

/-- Two bytes are never fewer than needed, so every lead byte that comes up leads something. -/
theorem afterLead_of_two {n : Nat} (hlow : 0x80 ≤ n) (hhigh : n < 0x800) :
    afterLead (0xC0 + n / 64) = some (0x80, 0xBF, 0) := by
  rw [afterLead, if_pos]
  simp only [Bool.and_eq_true, decide_eq_true_eq]
  omega

/-- The bounds for the byte behind the lead keep out what two bytes could say, and surrogates. -/
theorem exists_afterLead_of_three {n : Nat} (hlow : 0x800 ≤ n) (hhigh : n < 0x10000)
    (hvalid : n < 0xD800 ∨ 0xDFFF < n) :
    ∃ low high, afterLead (0xE0 + n / 4096) = some (low, high, 1)
      ∧ low ≤ 0x80 + n / 64 % 64 ∧ 0x80 + n / 64 % 64 ≤ high := by
  rw [afterLead]
  simp only [Bool.and_eq_true, decide_eq_true_eq]
  repeat' split
  all_goals first | omega | exact ⟨_, _, rfl, by omega, by omega⟩

/-- The bounds keep out what three bytes could say, and what lies behind the last code point. -/
theorem exists_afterLead_of_four {n : Nat} (hlow : 0x10000 ≤ n) (hhigh : n < 0x110000) :
    ∃ low high, afterLead (0xF0 + n / 262144) = some (low, high, 2)
      ∧ low ≤ 0x80 + n / 4096 % 64 ∧ 0x80 + n / 4096 % 64 ≤ high := by
  rw [afterLead]
  simp only [Bool.and_eq_true, decide_eq_true_eq]
  repeat' split
  all_goals first | omega | exact ⟨_, _, rfl, by omega, by omega⟩

theorem decodeLossy_utf8 (c : Char) (rest : List Nat) :
    decodeLossy (utf8 c ++ rest) = c :: decodeLossy rest := by
  have hvalid : c.toNat < 0xD800 ∨ 0xDFFF < c.toNat ∧ c.toNat < 0x110000 := c.valid
  rw [utf8]
  by_cases h1 : c.toNat < 0x80
  · rw [if_pos h1, List.singleton_append, decodeLossy_one h1, Char.ofNat_toNat]
  rw [if_neg h1]
  by_cases h2 : c.toNat < 0x800
  · have hlead := afterLead_of_two (Nat.le_of_not_lt h1) h2
    rw [if_pos h2, List.cons_append, List.singleton_append,
      decodeLossy_two (by omega) hlead (by omega) (by omega), ofNat_eq_of_eq_toNat (c := c)]
    omega
  rw [if_neg h2]
  by_cases h3 : c.toNat < 0x10000
  · obtain ⟨low, high, hlead, hlow, hhigh⟩ :=
      exists_afterLead_of_three (Nat.le_of_not_lt h2) h3 (by omega)
    rw [if_pos h3, List.cons_append, List.cons_append, List.singleton_append,
      decodeLossy_three (by omega) hlead hlow hhigh (isTail_add_mod _),
      ofNat_eq_of_eq_toNat (c := c)]
    omega
  · obtain ⟨low, high, hlead, hlow, hhigh⟩ :=
      exists_afterLead_of_four (Nat.le_of_not_lt h3) (toNat_lt_codePoints c)
    rw [if_neg h3, List.cons_append, List.cons_append, List.cons_append, List.singleton_append,
      decodeLossy_four (by omega) hlead hlow hhigh (isTail_add_mod _) (isTail_add_mod _),
      ofNat_eq_of_eq_toNat (c := c)]
    omega

theorem utf8Bytes_append (cs ds : List Char) :
    utf8Bytes (cs ++ ds) = utf8Bytes cs ++ utf8Bytes ds := List.flatMap_append

/-- What is encoded is read back, whatever stands behind it. -/
theorem decodeLossy_utf8Bytes_append (cs : List Char) (rest : List Nat) :
    decodeLossy (utf8Bytes cs ++ rest) = cs ++ decodeLossy rest := by
  induction cs with
  | nil => rfl
  | cons c cs ih =>
      rw [utf8Bytes, List.flatMap_cons, List.append_assoc, decodeLossy_utf8]
      exact congrArg (c :: ·) ih

theorem decodeLossy_utf8Bytes (cs : List Char) : decodeLossy (utf8Bytes cs) = cs := by
  have hread := decodeLossy_utf8Bytes_append cs []
  rwa [List.append_nil, decodeLossy, List.append_nil] at hread

end HyperSchema.Text
