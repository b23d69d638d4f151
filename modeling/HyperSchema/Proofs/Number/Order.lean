import HyperSchema.Proofs.Number.Rounding

/-!
# Rounding keeps the order

A smaller quotient is never rounded to a greater double. Where the doubles about both are equally
dense this is so of rounding to whole numbers of steps; otherwise a power of two lies between, which
is representable on both sides. Integers therefore compare as their nearest doubles do, unless the
same double is nearest to both.
-/

namespace HyperSchema.Binary64

variable {num num' den m : ℕ} {a b : ℤ}

/-! ### Naturals -/

theorem nearest_mono (hden : 0 < den) (h : num ≤ num') : nearest num den ≤ nearest num' den := by
  rcases h.eq_or_lt with rfl | hlt
  · exact le_rfl
  · obtain ⟨-, hhigh⟩ := nearest_bounds num hden
    obtain ⟨hlow, -⟩ := nearest_bounds num' hden
    have hclose : nearest num den * den < (nearest num' den + 1) * den := by
      rw [Nat.succ_mul]
      omega
    exact Nat.le_of_lt_succ (Nat.lt_of_mul_lt_mul_right hclose)

/-- Rounding to whole steps leaves whole steps alone. -/
theorem nearest_mul_of_dvd {step : ℕ} (hden : 0 < den) (hstep : 0 < step) (h : step ∣ m) :
    nearest (m * den) (den * step) * step = m := by
  obtain ⟨k, rfl⟩ := h
  have hpos : 0 < den * step := Nat.mul_pos hden hstep
  have hscaled : step * k * den = den * step * k := by ring
  rw [hscaled, nearest_of_dvd hpos (Dvd.intro k rfl), Nat.mul_div_cancel_left k hpos,
    Nat.mul_comm]

/-! ### Quotients -/

theorem roundQuotient_le_of_dvd (hden : 0 < den) (hdvd : spacing (num / den) ∣ m)
    (h : num ≤ m * den) : roundQuotient num den ≤ m := by
  have hstep := spacing_pos (num / den)
  calc roundQuotient num den
      ≤ nearest (m * den) (den * spacing (num / den)) * spacing (num / den) :=
        Nat.mul_le_mul_right _ (nearest_mono (Nat.mul_pos hden hstep) h)
    _ = m := nearest_mul_of_dvd hden hstep hdvd

theorem le_roundQuotient_of_dvd (hden : 0 < den) (hdvd : spacing (num / den) ∣ m)
    (h : m * den ≤ num) : m ≤ roundQuotient num den := by
  have hstep := spacing_pos (num / den)
  calc m = nearest (m * den) (den * spacing (num / den)) * spacing (num / den) :=
        (nearest_mul_of_dvd hden hstep hdvd).symm
    _ ≤ roundQuotient num den :=
        Nat.mul_le_mul_right _ (nearest_mono (Nat.mul_pos hden hstep) h)

theorem log2_mono {q q' : ℕ} (h : q ≤ q') : q.log2 ≤ q'.log2 := by
  rcases Nat.eq_zero_or_pos q with rfl | hpos
  · rw [Nat.log2_zero]
    exact Nat.zero_le _
  · rw [Nat.le_log2 (by omega)]
    exact (Nat.log2_self_le (by omega)).trans h

theorem spacing_dvd_pow {q e : ℕ} (h : q.log2 ≤ e) : spacing q ∣ 2 ^ e :=
  Nat.pow_dvd_pow 2 (by omega)

theorem roundQuotient_mono (hden : 0 < den) (h : num ≤ num') :
    roundQuotient num den ≤ roundQuotient num' den := by
  have hle : num / den ≤ num' / den := Nat.div_le_div_right h
  rcases (log2_mono hle).eq_or_lt with heq | hlt
  · have hstep : spacing (num / den) = spacing (num' / den) := by rw [spacing, heq, spacing]
    have hpos := spacing_pos (num' / den)
    rw [roundQuotient, roundQuotient, hstep]
    exact Nat.mul_le_mul_right _ (nearest_mono (Nat.mul_pos hden hpos) h)
  · -- the power of two in between is representable on both sides
    have hpower : 2 ^ (num' / den).log2 ≤ num' / den := by
      refine Nat.log2_self_le fun hzero => ?_
      rw [hzero] at hlt
      exact absurd hlt (Nat.not_lt_zero _)
    have hbelow : num / den < 2 ^ (num' / den).log2 :=
      Nat.lt_of_lt_of_le Nat.lt_log2_self (Nat.pow_le_pow_right (by decide) hlt)
    calc roundQuotient num den ≤ 2 ^ (num' / den).log2 :=
          roundQuotient_le_of_dvd hden (spacing_dvd_pow hlt.le)
            ((Nat.div_lt_iff_lt_mul hden).1 hbelow).le
      _ ≤ roundQuotient num' den :=
          le_roundQuotient_of_dvd hden (spacing_dvd_pow le_rfl)
            ((Nat.le_div_iff_mul_le hden).1 hpower)

/-! ### Integers -/

theorem units_ofNat_mono {n n' : ℕ} (h : n ≤ n') : (ofNat n).units ≤ (ofNat n').units :=
  roundQuotient_mono Nat.one_pos (Nat.mul_le_mul_right one h)

theorem signed_ofInt_ofNat (n : ℕ) : (ofInt (.ofNat n)).signed = (ofNat n).units := by
  have hsign : (ofInt (.ofNat n)).negative = false := rfl
  rw [signed, hsign, if_neg Bool.false_ne_true, ofInt]

theorem signed_ofInt_negSucc (n : ℕ) :
    (ofInt (.negSucc n)).signed = -((ofNat (n + 1)).units : ℤ) := by
  have hsign : (ofInt (.negSucc n)).negative = true := rfl
  rw [signed, if_pos hsign, ofInt]

theorem signed_ofInt_mono (h : a ≤ b) : (ofInt a).signed ≤ (ofInt b).signed := by
  cases a with
  | ofNat n =>
      cases b with
      | ofNat n' =>
          rw [signed_ofInt_ofNat, signed_ofInt_ofNat]
          exact Int.ofNat_le.2 (units_ofNat_mono (Int.ofNat_le.1 h))
      | negSucc n' =>
          exact absurd (h.trans_lt (Int.negSucc_lt_zero n')) (not_lt.2 (Int.natCast_nonneg n))
  | negSucc n =>
      cases b with
      | ofNat n' =>
          rw [signed_ofInt_negSucc, signed_ofInt_ofNat]
          exact (Int.neg_nonpos_of_nonneg (Int.natCast_nonneg _)).trans (Int.natCast_nonneg _)
      | negSucc n' =>
          have hle : n' + 1 ≤ n + 1 := by omega
          rw [signed_ofInt_negSucc, signed_ofInt_negSucc]
          exact Int.neg_le_neg (Int.ofNat_le.2 (units_ofNat_mono hle))

theorem signed_ofInt {n : ℤ} (hn : n.natAbs ≤ 2 ^ 53) : (ofInt n).signed = n * one := by
  cases n with
  | ofNat n =>
      rw [signed_ofInt_ofNat, units_ofNat (show n ≤ 2 ^ 53 from hn), Nat.cast_mul]
      rfl
  | negSucc n =>
      rw [signed_ofInt_negSucc, units_ofNat (show n + 1 ≤ 2 ^ 53 from hn), Nat.cast_mul, ← neg_mul]
      rfl

/-- Two integers have nearest doubles of their own, unless they are equal. -/
def ToldApart (a b : ℤ) : Prop := a = b ∨ (ofInt a).signed ≠ (ofInt b).signed

theorem ToldApart.symm (h : ToldApart a b) : ToldApart b a := h.imp Eq.symm Ne.symm

theorem ToldApart.same_iff (h : ToldApart a b) : (ofInt a).same (ofInt b) = true ↔ a = b := by
  rw [same, decide_eq_true_iff]
  constructor
  · exact fun hsame => h.resolve_right fun hne => hne hsame
  · exact fun heq => heq ▸ rfl

theorem ToldApart.less_iff (h : ToldApart a b) : (ofInt a).less (ofInt b) = true ↔ a < b := by
  rw [less, decide_eq_true_iff]
  constructor
  · intro hless
    by_contra hnot
    exact absurd (signed_ofInt_mono (not_lt.1 hnot)) (not_le.2 hless)
  · intro hlt
    exact lt_of_le_of_ne (signed_ofInt_mono hlt.le) (h.resolve_left hlt.ne)

theorem ToldApart.same_eq_false_iff (h : ToldApart a b) :
    (ofInt a).same (ofInt b) = false ↔ a ≠ b := by
  rw [← Bool.not_eq_true, h.same_iff]

theorem ToldApart.less_eq_false_iff (h : ToldApart a b) :
    (ofInt a).less (ofInt b) = false ↔ b ≤ a := by
  rw [← Bool.not_eq_true, h.less_iff, not_lt]

/-- An integer of less than 54 bits is told apart from every other. -/
theorem toldApart_of_natAbs_lt (h : a.natAbs < 2 ^ 53) (b : ℤ) : ToldApart a b := by
  have hone : (0 : ℤ) < one := by exact_mod_cast one_pos
  have ha : (ofInt a).signed = a * one := signed_ofInt h.le
  rcases lt_trichotomy a b with hlt | heq | hgt
  · have hnext : (ofInt (a + 1)).signed = (a + 1) * one := signed_ofInt (by omega)
    have hle : (ofInt (a + 1)).signed ≤ (ofInt b).signed := signed_ofInt_mono (by omega)
    right
    rw [ha]
    rw [hnext, add_mul, one_mul] at hle
    omega
  · exact .inl heq
  · have hprevious : (ofInt (a - 1)).signed = (a - 1) * one := signed_ofInt (by omega)
    have hle : (ofInt b).signed ≤ (ofInt (a - 1)).signed := signed_ofInt_mono (by omega)
    right
    rw [ha]
    rw [hprevious, sub_mul, one_mul] at hle
    omega

end HyperSchema.Binary64
