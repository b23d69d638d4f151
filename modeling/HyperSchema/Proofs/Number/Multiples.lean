import HyperSchema.Number.Multiple
import HyperSchema.Proofs.Number.Rounding

/-!
# Multiples among integers

The quotient of two numbers is exact when it is an integer of up to 53 bits. Otherwise the rounded
quotient is almost as far from the whole numbers as the quotient. This is told apart from a whole
number if it is more than the tolerance, which grows with the quotient: a number is told apart from
the multiples of a divisor if its distance to them is more than a billionth of the number, or of the
divisor if that is greater, and a little for the rounding. Distances are counted in units, the same
for integers and fractions.
-/

namespace HyperSchema.Binary64

variable {x y q : Binary64} {n d : ℕ}

/-! ### Distances -/

/-- How far a number is from the nearest multiple of a divisor. -/
def remoteness (n d : ℕ) : ℕ := min (n % d) (d - n % d)

theorem remoteness_pos (hd : 0 < d) (h : ¬d ∣ n) : 0 < remoteness n d := by
  have hlt : n % d < d := Nat.mod_lt n hd
  have hne : n % d ≠ 0 := fun hzero => h (Nat.dvd_of_mod_eq_zero hzero)
  rw [remoteness]
  omega

theorem remoteness_le (n : ℕ) (hd : 0 < d) (j : ℤ) : (remoteness n d : ℤ) ≤ |n - j * d| := by
  have hsplit : (d : ℤ) * (n / d : ℕ) + (n % d : ℕ) = n := by exact_mod_cast Nat.div_add_mod n d
  have hshift : (n : ℤ) - j * d = ((n / d : ℕ) - j) * d + (n % d : ℕ) := by
    rw [← hsplit]
    ring
  have hnear : (remoteness n d : ℤ) ≤ (n % d : ℕ) := by exact_mod_cast min_le_left _ _
  rw [hshift, le_abs]
  rcases le_or_gt j (n / d : ℕ) with hle | hgt
  · left
    have hfront : (0 : ℤ) ≤ ((n / d : ℕ) - j) * d := mul_nonneg (by omega) (by omega)
    omega
  · right
    have hfar : remoteness n d ≤ d - n % d := min_le_right _ _
    have hback : (d : ℤ) ≤ (j - (n / d : ℕ)) * d := le_mul_of_one_le_left (by omega) (by omega)
    have hneg : -(((n / d : ℕ) - j) * d + (n % d : ℕ) : ℤ)
        = (j - (n / d : ℕ)) * d - (n % d : ℕ) := by ring
    have hlt : n % d < d := Nat.mod_lt n hd
    rw [hneg]
    omega

theorem exists_distanceToWhole_eq (x : Binary64) :
    ∃ j : ℤ, (x.distanceToWhole : ℤ) = |x.units - j * one| := by
  have hsplit : (one : ℤ) * (x.units / one : ℕ) + (x.units % one : ℕ) = x.units := by
    exact_mod_cast Nat.div_add_mod x.units one
  have hlt : x.units % one < one := Nat.mod_lt _ one_pos
  have hlt' : ((x.units % one : ℕ) : ℤ) < one := by exact_mod_cast hlt
  rw [distanceToWhole]
  rcases Nat.le_total (x.units % one) (one - x.units % one) with hle | hle
  · refine ⟨(x.units / one : ℕ), ?_⟩
    rw [Nat.min_eq_left hle, abs_of_nonneg (by linarith)]
    linarith
  · refine ⟨(x.units / one : ℕ) + 1, ?_⟩
    rw [Nat.min_eq_right hle, abs_of_nonpos (by linarith), Nat.cast_sub hlt.le]
    linarith

/-! ### Magnitudes -/

def magnitude (x : Binary64) : ℚ := x.units / one

theorem one_pos' : (0 : ℚ) < one := by exact_mod_cast one_pos

theorem ofUnits?_of_le {negative : Bool} {units : ℕ} (h : (units : ℚ) / one ≤ 2 ^ 60) :
    ofUnits? negative units = some ⟨negative, units⟩ := by
  have hle : units ≤ 2 ^ 60 * one := by
    rw [div_le_iff₀ one_pos'] at h
    exact_mod_cast h
  exact if_pos (Nat.lt_of_le_of_lt hle (by decide +kernel))

theorem exists_distanceToWhole_div_eq (x : Binary64) :
    ∃ j : ℤ, (x.distanceToWhole : ℚ) / one = |x.magnitude - j| := by
  obtain ⟨j, hj⟩ := exists_distanceToWhole_eq x
  refine ⟨j, ?_⟩
  have hcast : (x.distanceToWhole : ℚ) = |(x.units : ℚ) - j * one| := by exact_mod_cast hj
  have hscale : x.magnitude - j = (x.units - j * one) / one := by
    rw [magnitude, sub_div, mul_div_assoc, div_self one_pos'.ne', mul_one]
  rw [hcast, hscale, abs_div, abs_of_pos one_pos']

theorem le_of_error {a b : ℚ} (h : |a - b| ≤ b / 2 ^ 53) : a ≤ b * (1 + 1 / 2 ^ 53) := by
  have hhigh := (abs_le.1 h).2
  linarith

/-- The error of a rounded quotient, beside a quotient in units of one. -/
theorem roundQuotient_div_error {num den : ℕ} {r : ℚ} (hden : 0 < den) (h : 2 ^ 52 ≤ num / den)
    (hr : (num : ℚ) / den = r * one) : |(roundQuotient num den : ℚ) / one - r| ≤ r / 2 ^ 53 := by
  have hone := one_pos'
  have herror := roundQuotient_error hden h
  rw [hr] at herror
  have hfactor : (roundQuotient num den : ℚ) / one - r
      = (roundQuotient num den - r * one) / one := by
    rw [sub_div, mul_div_assoc, div_self hone.ne', mul_one]
  rw [hfactor, abs_div, abs_of_pos hone, div_le_iff₀ hone]
  calc |(roundQuotient num den : ℚ) - r * one| ≤ r * one / 2 ^ 53 := herror
    _ = r / 2 ^ 53 * one := by ring

/-! ### Quotients -/

theorem exists_div?_of_dvd (hx : x.units = n * one) (hy : y.units = d * one) (hn : n ≤ 2 ^ 53)
    (hd : 0 < d) (h : d ∣ n) : ∃ q, x.div? y = some q ∧ q.units = n / d * one := by
  obtain ⟨k, rfl⟩ := h
  have hk : k ≤ 2 ^ 53 := (Nat.le_mul_of_pos_left k hd).trans hn
  have hden : 0 < d * one := Nat.mul_pos hd one_pos
  have hnum : d * k * one * one = d * one * (k * one) := by ring
  have hquotient : roundQuotient (x.units * one) y.units = k * one := by
    rw [hx, hy, hnum, roundQuotient_of_dvd hden, Nat.mul_div_cancel_left _ hden]
    rw [Nat.mul_div_cancel_left _ hden]
    exact Nat.mul_dvd_mul_left _ (spacing_dvd hk)
  have hsmall : ((k * one : ℕ) : ℚ) / one ≤ 2 ^ 60 := by
    rw [Nat.cast_mul, mul_div_assoc, div_self one_pos'.ne', mul_one]
    exact_mod_cast hk.trans (by decide)
  rw [Nat.mul_div_cancel_left k hd, div?, hquotient, ofUnits?_of_le hsmall]
  exact ⟨_, rfl, rfl⟩

/-- The quotient is finite, and close to the exact one, when neither number is much greater than the
other. -/
theorem exists_div? (hpos : 0 < y.units) (hlow : y.units ≤ 2 ^ 53 * x.units)
    (hhigh : x.units ≤ 2 ^ 53 * y.units) :
    ∃ q, x.div? y = some q
      ∧ |q.magnitude - x.units / y.units| ≤ x.units / y.units / 2 ^ 53 := by
  have hlarge : 2 ^ 52 ≤ x.units * one / y.units := by
    rw [Nat.le_div_iff_mul_le hpos]
    calc 2 ^ 52 * y.units ≤ 2 ^ 52 * (2 ^ 53 * x.units) := Nat.mul_le_mul_left _ hlow
      _ = x.units * 2 ^ 105 := by ring
      _ ≤ x.units * one := Nat.mul_le_mul_left _ (by decide +kernel)
  have hratio : ((x.units * one : ℕ) : ℚ) / y.units = x.units / y.units * one := by
    rw [Nat.cast_mul, mul_div_right_comm]
  have herror := roundQuotient_div_error hpos hlarge hratio
  have hquotient : (x.units : ℚ) / y.units ≤ 2 ^ 53 := by
    rw [div_le_iff₀ (by exact_mod_cast hpos)]
    exact_mod_cast hhigh
  have hsmall : (roundQuotient (x.units * one) y.units : ℚ) / one ≤ 2 ^ 60 := by
    calc _ ≤ (x.units / y.units * (1 + 1 / 2 ^ 53) : ℚ) := le_of_error herror
      _ ≤ 2 ^ 53 * (1 + 1 / 2 ^ 53) := mul_le_mul_of_nonneg_right hquotient (by positivity)
      _ ≤ 2 ^ 60 := by norm_num
  rw [div?, ofUnits?_of_le hsmall]
  exact ⟨_, rfl, herror⟩

/-! ### Tolerances -/

theorem units_max {x y : Binary64} (hx : x.negative = false) (hy : y.negative = false) :
    (x.max y).units = x.units ⊔ y.units := by
  have hless : x.less y = true ↔ x.units < y.units := by
    simp [less, signed, hx, hy]
  rw [max]
  split
  · next h => exact (Nat.max_eq_right (hless.1 h).le).symm
  · next h => exact (Nat.max_eq_left (Nat.le_of_not_lt fun hlt => h (hless.2 hlt))).symm

theorem units_max_unit (q : Binary64) : (q.abs.max unit).units = q.units ⊔ one := by
  have hunit : unit.units = one := by rw [unit]
  rw [units_max rfl rfl, hunit, abs]

theorem magnitude_max_unit (q : Binary64) : (q.abs.max unit).magnitude = q.magnitude ⊔ 1 := by
  have hone := one_pos'
  rw [magnitude, units_max_unit, Nat.cast_max, magnitude, ← div_self hone.ne']
  exact (max_div_div_right hone.le _ _).symm

theorem magnitude_billionth : billionth.magnitude ≤ 1 / 10 ^ 9 * (1 + 1 / 2 ^ 53) := by
  have hratio : (one : ℚ) / (1000000000 : ℕ) = 1 / 10 ^ 9 * one := by
    push_cast
    ring
  exact le_of_error (roundQuotient_div_error (by decide) (by decide +kernel) hratio)

/-- The tolerance is a billionth, up to two roundings. -/
theorem exists_tolerance (hq : q.magnitude ≤ 2 ^ 54) :
    ∃ t, billionth.mul? (q.abs.max unit) = some t
      ∧ t.magnitude ≤ (q.magnitude ⊔ 1) * ((1 + 1 / 2 ^ 53) ^ 2 / 10 ^ 9) := by
  have hlarge : 2 ^ 52 ≤ billionth.units * (q.abs.max unit).units / one := by
    have hbillionth : 2 ^ 52 ≤ billionth.units := by decide +kernel
    rw [Nat.le_div_iff_mul_le one_pos, units_max_unit]
    exact Nat.mul_le_mul hbillionth (Nat.le_max_right _ _)
  have hratio : ((billionth.units * (q.abs.max unit).units : ℕ) : ℚ) / one
      = billionth.magnitude * (q.abs.max unit).magnitude * one := by
    rw [magnitude, magnitude, Nat.cast_mul, mul_assoc, div_mul_cancel₀ _ one_pos'.ne',
      mul_div_right_comm]
  have herror := le_of_error (roundQuotient_div_error one_pos hlarge hratio)
  have hbound : billionth.magnitude * (q.abs.max unit).magnitude * (1 + 1 / 2 ^ 53)
      ≤ (q.magnitude ⊔ 1) * ((1 + 1 / 2 ^ 53) ^ 2 / 10 ^ 9) := by
    have hmax : 0 ≤ q.magnitude ⊔ 1 := zero_le_one.trans (le_max_right _ _)
    have hscaled := mul_le_mul_of_nonneg_right magnitude_billionth hmax
    rw [magnitude_max_unit]
    calc _ ≤ 1 / 10 ^ 9 * (1 + 1 / 2 ^ 53) * (q.magnitude ⊔ 1) * (1 + 1 / 2 ^ 53) :=
          mul_le_mul_of_nonneg_right hscaled (by positivity)
      _ = (q.magnitude ⊔ 1) * ((1 + 1 / 2 ^ 53) ^ 2 / 10 ^ 9) := by ring
  have hsmall : (roundQuotient (billionth.units * (q.abs.max unit).units) one : ℚ) / one
      ≤ 2 ^ 60 := by
    calc _ ≤ (q.magnitude ⊔ 1) * ((1 + 1 / 2 ^ 53) ^ 2 / 10 ^ 9) := herror.trans hbound
      _ ≤ 2 ^ 54 * ((1 + 1 / 2 ^ 53) ^ 2 / 10 ^ 9) := by
          have hmax : q.magnitude ⊔ 1 ≤ 2 ^ 54 := max_le hq (by norm_num)
          gcongr
      _ ≤ 2 ^ 60 := by norm_num
  rw [mul?, ofUnits?_of_le hsmall]
  exact ⟨_, rfl, herror.trans hbound⟩

/-! ### Divisibility -/

theorem distanceToWhole_of_units (h : x.units = n * one) : x.distanceToWhole = 0 := by
  have hrest : x.units % one = 0 := Nat.mod_eq_zero_of_dvd (Dvd.intro_left n h.symm)
  rw [distanceToWhole, hrest]
  exact Nat.zero_min _

/-- The judgement on a quotient. The product is named apart, as it must not be evaluated. -/
theorem isMultiple_eq (hy : y.units ≠ 0) (hq : x.div? y = some q) : x.isMultiple y
    = (billionth.mul? (q.abs.max unit)).all (fun t => decide (q.distanceToWhole ≤ t.units)) := by
  obtain ⟨scale, hscale⟩ : ∃ scale, billionth.mul? = scale := ⟨_, rfl⟩
  rw [isMultiple, if_neg hy, hq, hscale]
  cases htolerance : scale (q.abs.max unit) with
  | none => simp only [htolerance, Option.all_none]
  | some t => simp only [htolerance, Option.all_some]

theorem isMultiple_of_dvd (hx : x.units = n * one) (hy : y.units = d * one) (hn : n ≤ 2 ^ 53)
    (hd : 0 < d) (h : d ∣ n) : x.isMultiple y = true := by
  have hnonzero : y.units ≠ 0 := hy ▸ (Nat.mul_pos hd one_pos).ne'
  obtain ⟨q, hdiv, hunits⟩ := exists_div?_of_dvd hx hy hn hd h
  rw [isMultiple_eq hnonzero hdiv, distanceToWhole_of_units hunits]
  cases billionth.mul? (q.abs.max unit) with
  | none => rfl
  | some t => exact decide_eq_true (Nat.zero_le t.units)

/-- The distance of the rounded quotient to the whole numbers. -/
theorem le_distanceToWhole (hd : 0 < d) (herror : |q.magnitude - n / d| ≤ n / d / 2 ^ 53) :
    (remoteness n d : ℚ) / d - n / d / 2 ^ 53 ≤ (q.distanceToWhole : ℚ) / one := by
  obtain ⟨j, hj⟩ := exists_distanceToWhole_div_eq q
  have hd₀ : (0 : ℚ) < d := by exact_mod_cast hd
  have hremote : (remoteness n d : ℚ) ≤ |(n : ℚ) - j * d| := by
    exact_mod_cast remoteness_le n hd j
  have hquotient : (remoteness n d : ℚ) / d ≤ |(n : ℚ) / d - j| := by
    have hscale : (n : ℚ) / d - j = (n - j * d) / d := by field_simp
    rw [hscale, abs_div, abs_of_pos hd₀]
    gcongr
  have htriangle : |(n : ℚ) / d - j| ≤ |n / d - q.magnitude| + |q.magnitude - j| :=
    abs_sub_le _ _ _
  rw [abs_sub_comm] at herror
  rw [hj]
  linarith

/-- What is tolerated is less than what rounding leaves of the distance. -/
theorem tolerance_lt {remote ratio : ℚ} (hpos : 0 < remote)
    (hfar : ratio ⊔ 1 ≤ 999999888 * remote) :
    (ratio * (1 + 1 / 2 ^ 53) ⊔ 1) * ((1 + 1 / 2 ^ 53) ^ 2 / 10 ^ 9)
      < remote - ratio / 2 ^ 53 := by
  have hgrown : ratio * (1 + 1 / 2 ^ 53) ⊔ 1 ≤ (ratio ⊔ 1) * (1 + 1 / 2 ^ 53) := by
    refine max_le (mul_le_mul_of_nonneg_right (le_max_left _ _) (by positivity)) ?_
    exact one_le_mul_of_one_le_of_one_le (le_max_right _ _) (by norm_num)
  have hratio : ratio ≤ ratio ⊔ 1 := le_max_left _ _
  generalize ratio ⊔ 1 = most at hfar hgrown hratio
  calc (ratio * (1 + 1 / 2 ^ 53) ⊔ 1) * ((1 + 1 / 2 ^ 53) ^ 2 / 10 ^ 9)
      ≤ most * (1 + 1 / 2 ^ 53) * ((1 + 1 / 2 ^ 53) ^ 2 / 10 ^ 9) :=
        mul_le_mul_of_nonneg_right hgrown (by positivity)
    _ < remote - most / 2 ^ 53 := by
        norm_num
        linarith
    _ ≤ remote - ratio / 2 ^ 53 := by linarith

/-- The distance of a number to the multiples of a divisor is more than about a billionth of the
number, and of the divisor. -/
def Apart (x y : Binary64) : Prop := x.units ⊔ y.units ≤ 999999888 * remoteness x.units y.units

theorem Apart.units_le (h : Apart x y) :
    x.units ≤ 2 ^ 53 * y.units ∧ y.units ≤ 2 ^ 53 * x.units := by
  rw [Apart] at h
  have hx : remoteness x.units y.units ≤ x.units := (min_le_left _ _).trans (Nat.mod_le _ _)
  have hy : remoteness x.units y.units ≤ y.units := (min_le_right _ _).trans (Nat.sub_le _ _)
  constructor <;> omega

theorem Apart.isMultiple_eq_false (hfar : Apart x y) (hpos : 0 < y.units)
    (h : ¬y.units ∣ x.units) : x.isMultiple y = false := by
  obtain ⟨hhigh, hlow⟩ := hfar.units_le
  have hpos₀ : (0 : ℚ) < y.units := by exact_mod_cast hpos
  obtain ⟨q, hdiv, herror⟩ := exists_div? hpos hlow hhigh
  have hbound := le_of_error herror
  have hquotient : (x.units : ℚ) / y.units ≤ 2 ^ 53 := by
    rw [div_le_iff₀ hpos₀]
    exact_mod_cast hhigh
  have hsmall : q.magnitude ≤ 2 ^ 54 := by
    calc q.magnitude ≤ x.units / y.units * (1 + 1 / 2 ^ 53) := hbound
      _ ≤ 2 ^ 53 * (1 + 1 / 2 ^ 53) := mul_le_mul_of_nonneg_right hquotient (by positivity)
      _ ≤ 2 ^ 54 := by norm_num
  obtain ⟨tolerance, hmul, htolerance⟩ := exists_tolerance hsmall
  have hremote : (0 : ℚ) < remoteness x.units y.units / y.units :=
    div_pos (by exact_mod_cast remoteness_pos hpos h) hpos₀
  have hratio : (x.units / y.units ⊔ 1 : ℚ)
      ≤ 999999888 * (remoteness x.units y.units / y.units) := by
    have hcast : ((x.units : ℚ) ⊔ y.units) ≤ 999999888 * remoteness x.units y.units := by
      exact_mod_cast hfar
    rw [← mul_div_assoc, le_div_iff₀ hpos₀, max_mul_of_nonneg _ _ hpos₀.le, one_mul,
      div_mul_cancel₀ _ hpos₀.ne']
    exact hcast
  have hlt : tolerance.magnitude < (q.distanceToWhole : ℚ) / one := by
    calc tolerance.magnitude ≤ (q.magnitude ⊔ 1) * ((1 + 1 / 2 ^ 53) ^ 2 / 10 ^ 9) := htolerance
      _ ≤ ((x.units : ℚ) / y.units * (1 + 1 / 2 ^ 53) ⊔ 1)
            * ((1 + 1 / 2 ^ 53) ^ 2 / 10 ^ 9) :=
          mul_le_mul_of_nonneg_right (max_le_max_right 1 hbound) (by positivity)
      _ < (remoteness x.units y.units : ℚ) / y.units - x.units / y.units / 2 ^ 53 :=
          tolerance_lt hremote hratio
      _ ≤ (q.distanceToWhole : ℚ) / one := le_distanceToWhole hpos herror
  rw [magnitude, div_lt_div_iff_of_pos_right one_pos', Nat.cast_lt] at hlt
  rw [isMultiple_eq hpos.ne' hdiv, hmul, Option.all_some]
  exact decide_eq_false (Nat.not_le.2 hlt)

theorem remoteness_mul (n d k : ℕ) : remoteness (n * k) (d * k) = remoteness n d * k := by
  rw [remoteness, remoteness, Nat.mul_mod_mul_right, ← Nat.sub_mul, Nat.mul_min_mul_right]

theorem not_isMultiple_of_remote (hx : x.units = n * one) (hy : y.units = d * one)
    (hd : 0 < d) (h : ¬d ∣ n) (hfar : n ⊔ d ≤ 999999888 * remoteness n d) :
    x.isMultiple y = false := by
  have hpos : 0 < y.units := hy ▸ Nat.mul_pos hd one_pos
  have hapart : Apart x y := by
    rw [Apart, hx, hy, remoteness_mul, ← mul_assoc, Nat.mul_max_mul_right]
    exact Nat.mul_le_mul_right one hfar
  refine hapart.isMultiple_eq_false hpos fun hdvd => h ?_
  rw [hx, hy] at hdvd
  exact Nat.dvd_of_mul_dvd_mul_right one_pos hdvd

end HyperSchema.Binary64
