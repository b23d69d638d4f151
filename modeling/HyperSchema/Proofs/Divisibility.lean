import HyperSchema.Proofs.Flat
import HyperSchema.Proofs.Number.Multiples
import HyperSchema.Proofs.Number.Order

/-!
# Divisibility

A schema with a divisor and nothing else accepts a number when the number counts as a multiple of
the divisor. For integers of up to 53 bits this is divisibility, unless the number is so near to a
multiple, beside its size or that of the divisor, that it is taken for one. That happens from about
a billion upwards.
-/

namespace HyperSchema

open Binary64 (one remoteness)

variable {options : Options} {value divisor : Number} {n : ℤ} {d : ℕ}

/-! ### Integers as numbers -/

/-- A number that is an integer, written as one or as a double. -/
inductive Number.Denotes : Number → ℤ → Prop where
  | int (n : ℤ) : Denotes (.int n) n
  | float {x : Binary64} {n : ℤ} (h : x.signed = n * one) : Denotes (.float x) n

theorem Number.Denotes.signed_toFloat (h : value.Denotes n) (hn : n.natAbs ≤ 2 ^ 53) :
    value.toFloat.signed = n * one := by
  cases h with
  | int => exact Binary64.signed_ofInt hn
  | float h => exact h

theorem Number.Denotes.units_toFloat (h : value.Denotes n) (hn : n.natAbs ≤ 2 ^ 53) :
    value.toFloat.units = n.natAbs * one := by
  rw [← Binary64.natAbs_signed, h.signed_toFloat hn, Int.natAbs_mul, Int.natAbs_natCast]

theorem Number.Denotes.zero_less (h : divisor.Denotes d) (hd : 0 < d) (hd' : d ≤ 2 ^ 53) :
    Binary64.zero.less divisor.toFloat = true := by
  have hpos : (0 : ℤ) < d * one := by exact_mod_cast Nat.mul_pos hd Binary64.one_pos
  rw [Binary64.less, h.signed_toFloat hd']
  exact decide_eq_true hpos

/-! ### A schema with a divisor -/

def multiplesOf (divisor : Number) : Json := .object [("multipleOf", .number divisor)]

theorem flat_multiplesOf : Schema.Flat [("multipleOf", .number divisor)] where
  references := rfl
  holders := by simp [Schema.holders, Table.get?_cons]
  absent := by simp [Table.get?_cons]

/-- A number is valid by itself when it counts as a multiple of the divisor. -/
theorem acceptsIff_multiplesOf (options : Options) (value : Number)
    (hpos : Binary64.zero.less divisor.toFloat = true) :
    AcceptsIff options (multiplesOf divisor) (.number value)
      (value.toFloat.isMultiple divisor.toFloat = true) := by
  have hdivisor : Node.divisor? [("multipleOf", .number divisor)] = some divisor.toFloat := by
    rw [Node.divisor?, Table.get?_cons, if_pos rfl]
    exact Option.filter_some_pos hpos
  refine (acceptsIff_untyped flat_multiplesOf rfl options (.number value)).of_iff
    ⟨fun h => h.2.multiple _ hdivisor, fun h => ⟨?_, ?_, ?_, ?_⟩⟩
  · exact Schema.enumKeyword_of_absent rfl _
  · intro d hd
    obtain rfl := Option.some.inj (hdivisor.symm.trans hd)
    exact h
  · exact fun _ hget => absurd hget (Option.some_ne_none _).symm
  · exact fun _ hget => absurd hget (Option.some_ne_none _).symm

/-- A schema with a divisor accepts an integer exactly when the divisor divides it, if the integer
is a multiple of the divisor or its distance to the nearest multiple is more than about a billionth
of the integer and of the divisor. -/
theorem isValid_iff_dvd (options : Options) (hvalue : value.Denotes n)
    (hdivisor : divisor.Denotes d) (hn : n.natAbs ≤ 2 ^ 53) (hd : 0 < d) (hd' : d ≤ 2 ^ 53)
    (hfar : (d : ℤ) ∣ n ∨ n.natAbs ⊔ d ≤ 999999888 * remoteness n.natAbs d) :
    ∃ state, validate options (multiplesOf divisor) (.number value) = .ok state
      ∧ (state.isValid = true ↔ (d : ℤ) ∣ n) := by
  have hx := hvalue.units_toFloat hn
  have hy := hdivisor.units_toFloat hd'
  rw [Int.natAbs_natCast] at hy
  obtain ⟨state, hstate, hvalid⟩ :=
    acceptsIff_multiplesOf options value (hdivisor.zero_less hd hd')
  refine ⟨state, hstate, hvalid.trans ?_⟩
  by_cases hdvd : (d : ℤ) ∣ n
  · exact iff_of_true
      (Binary64.isMultiple_of_dvd hx hy hn hd (Int.natCast_dvd.1 hdvd)) hdvd
  · refine iff_of_false ?_ hdvd
    rw [Binary64.not_isMultiple_of_remote hx hy hd (fun h => hdvd (Int.natCast_dvd.2 h))
      (hfar.resolve_left hdvd)]
    exact Bool.false_ne_true

theorem isValid_iff_dvd_seven :
    remoteness 7 3 = 1
      ∧ ∃ state, validate .standard (multiplesOf (.int 3)) (.number (.int (-7))) = .ok state
        ∧ (state.isValid = true ↔ (3 : ℤ) ∣ -7) := by
  have hfar : ((3 : ℕ) : ℤ) ∣ -7
      ∨ (-7 : ℤ).natAbs ⊔ 3 ≤ 999999888 * remoteness (-7 : ℤ).natAbs 3 := by decide
  exact ⟨by decide, isValid_iff_dvd .standard (.int (-7)) (.int 3) (by decide) (by decide)
    (by decide) hfar⟩

/-- A billion and one is odd, and passes for a multiple of two. -/
theorem billion_and_one_accepted :
    ¬(2 : ℤ) ∣ 1000000001
      ∧ ∃ state, validate .standard (multiplesOf (.int 2)) (.number (.int 1000000001)) = .ok state
        ∧ state.isValid = true := by
  have hdivisor : Number.Denotes (.int 2) (2 : ℕ) := .int 2
  obtain ⟨state, hstate, hvalid⟩ := acceptsIff_multiplesOf .standard (.int 1000000001)
    (hdivisor.zero_less (by decide) (by decide))
  exact ⟨by decide, state, hstate, hvalid.2 (by decide +kernel)⟩

end HyperSchema
