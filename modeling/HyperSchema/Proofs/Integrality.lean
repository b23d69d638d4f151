import HyperSchema.Proofs.Flat
import HyperSchema.Proofs.Number.Multiples
import HyperSchema.Proofs.Validation.Guard

/-!
# Whole numbers

Where only integers are allowed and the divisor is whole, numbers are not tested for being whole, as
the multiples of a whole number are. But what counts as a multiple may lie beside one. The test can
be spared for all numbers that are whole, or are told apart from the multiples of the divisor: their
distance to these is more than about a billionth of the number, and of the divisor. From a billion
upwards there are others, and they pass for integers.
-/

namespace HyperSchema

open Binary64 (Apart one)
open Node (declaredTypes divisor? integersOnly numberAssertions)

namespace Binary64

variable {x d : Binary64}

def Whole (x : Binary64) : Prop := ∃ k : ℤ, x.signed = k * one

theorem isIntegral_iff : x.isIntegral = true ↔ one ∣ x.units := by
  rw [isIntegral, beq_iff_eq, Nat.dvd_iff_mod_eq_zero]

theorem whole_iff : x.Whole ↔ x.isIntegral = true := by
  rw [isIntegral_iff, ← natAbs_signed, ← Int.natCast_dvd]
  exact ⟨fun ⟨k, hk⟩ => ⟨k, hk.trans (mul_comm _ _)⟩, fun ⟨k, hk⟩ => ⟨k, hk.trans (mul_comm _ _)⟩⟩

theorem units_pos_of_zero_less (h : zero.less d = true) : 0 < d.units := by
  have hpos : (0 : ℤ) < d.signed := of_decide_eq_true h
  rw [← natAbs_signed]
  exact Int.natAbs_pos.2 hpos.ne'

/-- What counts as a multiple of a whole number is whole, unless it lies beside a multiple. -/
theorem isIntegral_of_isMultiple (hpos : zero.less d = true) (hwhole : d.isIntegral = true)
    (hfar : x.Whole ∨ Apart x d) (h : x.isMultiple d = true) : x.isIntegral = true := by
  rcases hfar with hx | hfar
  · exact whole_iff.1 hx
  · have hdvd : d.units ∣ x.units := by
      by_contra hnot
      rw [hfar.isMultiple_eq_false (units_pos_of_zero_less hpos) hnot] at h
      cases h
    exact isIntegral_iff.2 ((isIntegral_iff.1 hwhole).trans hdvd)

end Binary64

variable {formats : Table Format} {keywords : Table Json} {uri : String} {node : Node} {n : Number}

namespace Node

theorem zero_less_of_divisor? {d : Binary64} (h : divisor? keywords = some d) :
    Binary64.zero.less d = true :=
  (Option.filter_eq_some_iff.1 h).2

theorem numberAssertions_true : numberAssertions keywords true
    = (if ((divisor? keywords).map Binary64.isIntegral).getD false then [] else [.integer])
      ++ numberAssertions keywords false := by
  rw [numberAssertions, numberAssertions]
  cases ((divisor? keywords).map Binary64.isIntegral).getD false <;> rfl

theorem multipleOf_mem_numberAssertions {d : Binary64} (h : divisor? keywords = some d)
    (integer : Bool) : .multipleOf d ∈ numberAssertions keywords integer := by
  rw [numberAssertions, h]
  simp

theorem integerAssertions_silent_iff {x : Binary64}
    (hfar : ∀ d, divisor? keywords = some d → d.isIntegral = true → x.Whole ∨ Apart x d) :
    (∀ a ∈ numberAssertions keywords true, a.ofNumber x = none)
      ↔ ∀ a ∈ .integer :: numberAssertions keywords false, a.ofNumber x = none := by
  rw [numberAssertions_true, List.forall_mem_cons, List.forall_mem_append,
    Assertion.ofNumber_integer]
  cases hwhole : ((divisor? keywords).map Binary64.isIntegral).getD false with
  | false => simp
  | true =>
      refine and_congr_left fun hsilent => iff_of_true (by simp) ?_
      obtain ⟨d, hd, hintegral⟩ : ∃ d, divisor? keywords = some d ∧ d.isIntegral = true := by
        cases hdivisor : divisor? keywords with
        | none => simp [hdivisor] at hwhole
        | some d => exact ⟨d, rfl, by simpa [hdivisor] using hwhole⟩
      have hmultiple := hsilent _ (multipleOf_mem_numberAssertions hd false)
      exact Binary64.isIntegral_of_isMultiple (zero_less_of_divisor? hd) hintegral
        (hfar d hd hintegral) (Assertion.ofNumber_multipleOf.1 hmultiple)

theorem silent_of_passes (hread : ofSchema formats uri (.object keywords) = .ok node)
    (href : text? keywords "$ref" = none) {env : Environment} {path : String}
    {found : Findings} (hfound : node.evaluate env (.number n) path = some found)
    (hpasses : found.passes = true) :
    ∀ a ∈ numberAssertions keywords (integersOnly (declaredTypes keywords)),
      a.ofNumber n.toFloat = none := by
  cases readAs_of_ofSchema hread with
  | reference htarget =>
      rw [href] at htarget
      cases htarget
  | other hobject => exact absurd rfl (hobject keywords)
  | @schema _ list _ _ _ _ _ hlist =>
      rw [evaluate_schema] at hfound
      obtain ⟨typed, htyped, hfound⟩ := Option.bind_eq_some_iff.1 hfound
      obtain ⟨allResults, -, hfound⟩ := Option.bind_eq_some_iff.1 hfound
      obtain ⟨anyResults, -, hfound⟩ := Option.bind_eq_some_iff.1 hfound
      obtain ⟨oneResults, -, hfound⟩ := Option.bind_eq_some_iff.1 hfound
      obtain ⟨negatedResult, -, hfound⟩ := Option.bind_eq_some_iff.1 hfound
      rw [← Option.some.inj hfound] at hpasses
      simp only [Findings.passes_append, Bool.and_eq_true, and_assoc] at hpasses
      obtain ⟨hopening, htypedPasses, -⟩ := hpasses
      have hkind : (head formats uri keywords).allowed.contains Kind.number = true := by
        by_contra hnot
        rw [Head.opening, Json.kind, if_neg hnot] at hopening
        simp at hopening
      rw [Json.kind, if_pos hkind] at htyped
      obtain ⟨hserved, hchecks⟩ := kindChecks_spec hlist
      obtain ⟨own, hmem, heval⟩ := evaluateBranches_branches env uri path
        (hserved (Json.number n).kind (List.contains_iff_mem.1 hkind))
      cases kindReads_of_checks (hchecks _ hmem)
      have hverdict : Verdict (evaluateChecks env uri _ (.number n) path) _ :=
        evaluateChecks_assertions
          (numberAssertions keywords (integersOnly (declaredTypes keywords)))
      obtain ⟨own, hown, hsilent⟩ := hverdict
      have hsame : typed = own := Option.some.inj (htyped.symm.trans (heval.trans hown))
      exact hsilent.1 (hsame ▸ htypedPasses)

end Node

/-- A valid run of a compiled schema is an evaluation of its node that passes. -/
theorem Snapshot.exists_passes_of_isValid {s : Snapshot} {target : String} {schema : CompiledSchema}
    {v : Json} (htarget : s.target? (SchemaUri.normalize target) = some (.compiled schema))
    (hvalid : (s.validate target v).isValid = true) :
    ∃ env found, schema.node.evaluate env v "" = some found ∧ found.passes = true := by
  have hcall := s.call_depthBound target v "" le_rfl
  rw [depthBound, call_fresh htarget List.not_mem_nil] at hcall
  rw [isValid_validate] at hvalid
  exact ⟨_, _, hcall, hvalid⟩

/-- Where only integers are allowed, what passes is whole, provided that it is told apart from the
multiples of the divisor if this is whole. So leaving out the test for being whole changes nothing
for such numbers. -/
theorem whole_of_integersOnly (hread : Node.ofSchema formats uri (.object keywords) = .ok node)
    (href : Node.text? keywords "$ref" = none)
    (hinteger : "integer" ∈ declaredTypes keywords) (hnumber : "number" ∉ declaredTypes keywords)
    (hfar : ∀ d, divisor? keywords = some d → d.isIntegral = true →
      n.toFloat.Whole ∨ Apart n.toFloat d) :
    (∀ env path found, node.evaluate env (.number n) path = some found → found.passes = true →
        n.toFloat.Whole)
      ∧ (∀ (s : Snapshot) target schema,
        s.target? (SchemaUri.normalize target) = some (.compiled schema) → schema.node = node →
          (s.validate target (.number n)).isValid = true → n.toFloat.Whole)
      ∧ ((∀ a ∈ numberAssertions keywords true, a.ofNumber n.toFloat = none)
        ↔ ∀ a ∈ .integer :: numberAssertions keywords false, a.ofNumber n.toFloat = none) := by
  have honly : integersOnly (declaredTypes keywords) = true :=
    Schema.integersOnly_iff.2 ⟨hinteger, hnumber⟩
  have hsame := Node.integerAssertions_silent_iff hfar
  have hwhole : ∀ env path found, node.evaluate env (.number n) path = some found →
      found.passes = true → n.toFloat.Whole := by
    intro env path found hfound hpasses
    have hsilent := Node.silent_of_passes hread href hfound hpasses
    rw [honly, hsame, List.forall_mem_cons] at hsilent
    exact Binary64.whole_iff.2 (Assertion.ofNumber_integer.1 hsilent.1)
  refine ⟨hwhole, fun s target schema htarget hnode hvalid => ?_, hsame⟩
  obtain ⟨env, found, hfound, hpasses⟩ := Snapshot.exists_passes_of_isValid htarget hvalid
  exact hwhole env "" found (hnode ▸ hfound) hpasses

/-! ### Halves between integers -/

def integersBy (divisor : ℤ) : Table Json :=
  [("type", .string "integer"), ("multipleOf", .number (.int divisor))]

def andHalf (n : ℕ) : Binary64 := ⟨false, n * one + one / 2⟩

theorem flat_integersBy (divisor : ℤ) : Schema.Flat (integersBy divisor) where
  references := rfl
  holders := by simp [Schema.holders, integersBy, Table.get?_cons]
  absent := by simp [integersBy, Table.get?_cons]

theorem divisor?_integersBy (divisor : ℤ) (hpos : Binary64.zero.less (.ofInt divisor) = true) :
    divisor? (integersBy divisor) = some (.ofInt divisor) := by
  rw [divisor?, integersBy, Table.get?_cons, if_neg (by decide), Table.get?_cons, if_pos rfl]
  exact Option.filter_some_pos hpos

theorem not_whole_andHalf (n : ℕ) : ¬(andHalf n).Whole := by
  have hhalf : 0 < one / 2 ∧ one / 2 < one := by decide +kernel
  rw [Binary64.whole_iff, Binary64.isIntegral_iff, andHalf,
    Nat.dvd_add_right (Dvd.intro_left n rfl)]
  exact Nat.not_dvd_of_pos_of_lt hhalf.1 hhalf.2

theorem whole_of_integersOnly_half :
    Apart (andHalf 1000) (.ofInt 2) ∧ ∃ node,
      Node.ofSchema [] "a" (.object (integersBy 2)) = .ok node
        ∧ ∀ env path found, node.evaluate env (.number (.float (andHalf 1000))) path = some found →
          found.passes = false := by
  have hapart : Apart (andHalf 1000) (.ofInt 2) := by
    rw [Apart]
    decide +kernel
  obtain ⟨node, hread⟩ := (flat_integersBy 2).exists_ofSchema "a"
  refine ⟨hapart, node, hread, fun env path found hfound => ?_⟩
  have hdivisor := divisor?_integersBy 2 (by decide +kernel)
  have hwhole := (whole_of_integersOnly (n := .float (andHalf 1000)) hread rfl
    List.mem_cons_self (by decide) (fun d hd _ => by
      obtain rfl := Option.some.inj (hdivisor.symm.trans hd)
      exact .inr hapart)).1
  rw [← Bool.not_eq_true]
  exact fun hpasses => not_whole_andHalf 1000 (hwhole env path found hfound hpasses)

/-- A billion and a half is no integer, and passes for one where the divisor is one. -/
theorem billion_and_half_accepted :
    Binary64.Representable (andHalf 1000000000).units ∧ ¬(andHalf 1000000000).Whole
      ∧ ∃ state, validate .standard (.object (integersBy 1))
          (.number (.float (andHalf 1000000000))) = .ok state
        ∧ state.isValid = true := by
  have hdivisor := divisor?_integersBy 1 (by decide +kernel)
  have hrepresentable : Binary64.Representable (andHalf 1000000000).units := by
    rw [Binary64.Representable]
    decide +kernel
  have hone : (Binary64.ofInt 1).isIntegral = true := by decide +kernel
  have hmultiple : (andHalf 1000000000).isMultiple (.ofInt 1) = true := by decide +kernel
  have hassertions : numberAssertions (integersBy 1) true = [.multipleOf (.ofInt 1)] := by
    rw [numberAssertions, hdivisor]
    simp [hone, Node.float?, integersBy, Table.get?_cons]
  have haccepts : AcceptsIff .standard (.object (integersBy 1))
      (.number (.float (andHalf 1000000000))) _ :=
    (flat_integersBy 1).acceptsIff fun env _ uri node hread =>
      (flat_integersBy 1).verdict_number hread ""
  obtain ⟨state, hstate, hvalid⟩ := haccepts
  refine ⟨hrepresentable, not_whole_andHalf _, state, hstate,
    hvalid.2 ⟨by decide, Schema.enumKeyword_of_absent rfl _, ?_⟩⟩
  rw [show integersOnly (declaredTypes (integersBy 1)) = true by decide, hassertions,
    List.forall_mem_singleton, Assertion.ofNumber_multipleOf]
  exact hmultiple

end HyperSchema
