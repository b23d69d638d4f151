import HyperSchema.Number.Binary64
import Mathlib.Data.Nat.Cast.Order.Field
import Mathlib.Tactic.FieldSimp
import Mathlib.Tactic.Linarith
import Mathlib.Tactic.Positivity
import Mathlib.Tactic.Ring

/-!
# Rounding errors

A rounded quotient differs from the quotient by at most one part in 2 ^ 53, unless the quotient is
so small that doubles are sparse there. It is exact when it has 53 significant bits, as the integers
up to 2 ^ 53 have.
-/

namespace HyperSchema.Binary64

variable {num den n : ℕ}

theorem one_eq : one = (2 ^ 179) ^ 6 := by decide +kernel

theorem exists_one_eq_pow : ∃ e, 53 ≤ e ∧ one = 2 ^ e := by
  refine ⟨179 * 6, by decide, ?_⟩
  rw [Nat.pow_mul]
  exact one_eq

theorem one_pos : 0 < one := by
  rw [one_eq]
  positivity

/-! ### The nearest natural -/

theorem nearest_bounds (num : ℕ) (hden : 0 < den) :
    2 * num ≤ 2 * (nearest num den * den) + den ∧ 2 * (nearest num den * den) ≤ 2 * num + den := by
  have hsplit : den * (num / den) + num % den = num := Nat.div_add_mod num den
  have hrest : num % den < den := Nat.mod_lt num hden
  rw [nearest]
  generalize num / den = q at hsplit ⊢
  generalize num % den = r at hsplit hrest ⊢
  have hcomm : den * q = q * den := Nat.mul_comm den q
  have hup : (q + 1) * den = q * den + den := Nat.succ_mul q den
  split
  · omega
  · split
    · rw [hup]
      omega
    · split
      · omega
      · rw [hup]
        omega

theorem nearest_error (num : ℕ) (hden : 0 < den) :
    |(nearest num den : ℚ) - num / den| ≤ 1 / 2 := by
  obtain ⟨hlow, hhigh⟩ := nearest_bounds num hden
  have hlow' : 2 * (num : ℚ) ≤ 2 * (nearest num den * den) + den := by exact_mod_cast hlow
  have hhigh' : 2 * (nearest num den * den : ℚ) ≤ 2 * num + den := by exact_mod_cast hhigh
  have hden' : (0 : ℚ) < den := by exact_mod_cast hden
  rw [abs_le]
  constructor
  · rw [neg_le_sub_iff_le_add, div_le_iff₀ hden']
    linarith
  · rw [sub_le_iff_le_add, ← sub_le_iff_le_add', le_div_iff₀ hden']
    linarith

theorem nearest_of_dvd (hden : 0 < den) (h : den ∣ num) : nearest num den = num / den := by
  rw [nearest]
  rw [Nat.mod_eq_zero_of_dvd h, if_pos (by omega)]

/-! ### Rounded quotients -/

theorem spacing_pos (magnitude : ℕ) : 0 < spacing magnitude := by
  rw [spacing]
  exact Nat.pow_pos (by decide)

/-- The spacing is small beside the magnitude. -/
theorem spacing_mul_le {magnitude : ℕ} (h : 2 ^ 52 ≤ magnitude) :
    spacing magnitude * 2 ^ 52 ≤ magnitude := by
  have hne : magnitude ≠ 0 := by
    rintro rfl
    exact absurd h (by decide)
  have hlog : 52 ≤ magnitude.log2 := (Nat.le_log2 hne).2 h
  calc spacing magnitude * 2 ^ 52 = 2 ^ (magnitude.log2 - 52 + 52) := (Nat.pow_add ..).symm
    _ = 2 ^ magnitude.log2 := by rw [Nat.sub_add_cancel hlog]
    _ ≤ magnitude := Nat.log2_self_le hne

theorem roundQuotient_error (hden : 0 < den) (h : 2 ^ 52 ≤ num / den) :
    |(roundQuotient num den : ℚ) - num / den| ≤ num / den / 2 ^ 53 := by
  rw [roundQuotient]
  generalize hstep : spacing (num / den) = step
  have hpos : 0 < step := hstep ▸ spacing_pos _
  have hpos' : (0 : ℚ) < step := by exact_mod_cast hpos
  have hden' : (0 : ℚ) < den := by exact_mod_cast hden
  have hsmall : (step : ℚ) * 2 ^ 52 ≤ num / den := by
    have hnat : step * 2 ^ 52 ≤ num / den := hstep ▸ spacing_mul_le h
    calc (step : ℚ) * 2 ^ 52 ≤ (num / den : ℕ) := by exact_mod_cast hnat
      _ ≤ num / den := Nat.cast_div_le
  have hnearest := nearest_error num (Nat.mul_pos hden hpos)
  rw [Nat.cast_mul] at hnearest
  have hscale : ((nearest num (den * step) * step : ℕ) : ℚ) - num / den
      = (nearest num (den * step) - num / (den * step)) * step := by
    rw [Nat.cast_mul]
    field_simp
  rw [hscale, abs_mul, abs_of_pos hpos']
  calc |(nearest num (den * step) : ℚ) - num / (den * step)| * step
      ≤ 1 / 2 * step := mul_le_mul_of_nonneg_right hnearest hpos'.le
    _ ≤ num / den / 2 ^ 53 := by
      rw [le_div_iff₀ (by positivity)]
      linarith

theorem roundQuotient_of_dvd (hden : 0 < den) (h : den * spacing (num / den) ∣ num) :
    roundQuotient num den = num / den := by
  have hstep := spacing_pos (num / den)
  rw [roundQuotient]
  rw [nearest_of_dvd (Nat.mul_pos hden hstep) h, ← Nat.div_div_eq_div_mul]
  exact Nat.div_mul_cancel (Nat.dvd_div_of_mul_dvd h)

/-! ### Integers -/

theorem log2_mul_pow (hn : n ≠ 0) (e : ℕ) : (n * 2 ^ e).log2 = n.log2 + e := by
  have hlow : 2 ^ n.log2 ≤ n := Nat.log2_self_le hn
  have hhigh : n < 2 ^ (n.log2 + 1) := Nat.lt_log2_self
  rw [Nat.log2_eq_iff (Nat.mul_ne_zero hn (by positivity))]
  constructor
  · rw [Nat.pow_add]
    exact Nat.mul_le_mul_right _ hlow
  · rw [Nat.add_right_comm, Nat.pow_add]
    exact Nat.mul_lt_mul_of_pos_right hhigh (by positivity)

theorem spacing_dvd (hn : n ≤ 2 ^ 53) : spacing (n * one) ∣ n * one := by
  obtain ⟨e, he, hone⟩ := exists_one_eq_pow
  rcases Nat.eq_zero_or_pos n with rfl | hpos
  · rw [Nat.zero_mul]
    exact Nat.dvd_zero _
  · rw [spacing, hone, log2_mul_pow (by omega)]
    rcases Nat.lt_or_ge n (2 ^ 53) with hlt | hge
    · have hbits : n.log2 < 53 := (Nat.log2_lt (by omega)).2 hlt
      exact Dvd.dvd.mul_left (Nat.pow_dvd_pow 2 (by omega)) n
    · obtain rfl : n = 2 ^ 53 := by omega
      rw [Nat.log2_two_pow, ← Nat.pow_add]
      exact Nat.pow_dvd_pow 2 (by omega)

theorem units_ofNat (hn : n ≤ 2 ^ 53) : (ofNat n).units = n * one := by
  rw [ofNat]
  dsimp only
  rw [roundQuotient_of_dvd Nat.one_pos, Nat.div_one]
  rw [Nat.div_one, Nat.one_mul]
  exact spacing_dvd hn

/-! ### Signs -/

theorem natAbs_signed (x : Binary64) : x.signed.natAbs = x.units := by
  rw [signed]
  split
  · rw [Int.natAbs_neg, Int.natAbs_natCast]
  · rw [Int.natAbs_natCast]

end HyperSchema.Binary64
