import HyperSchema.Proofs.Flat
import HyperSchema.Proofs.Number.Order

/-!
# Comparison of integers

Choices, bounds and the test for items that occur twice compare integers by their nearest doubles.
Rounding keeps the order, so that they judge as the integers themselves compare, unless two integers
have the same nearest double. One of less than 54 bits shares its double with no other.
-/

namespace HyperSchema

open Binary64 (ToldApart)
open Schema (EnumKeyword Flat NumberKeywords)

variable {options : Options} {a b : ℤ} {x : Binary64} {exclusive : Option Bool}

def Json.ofInt (n : ℤ) : Json := .number (.int n)

theorem equal_ofInt (a b : ℤ) :
    Json.equal (.ofInt a) (.ofInt b) = (Binary64.ofInt a).same (.ofInt b) := by
  rw [Json.ofInt, Json.ofInt, Json.equal]
  rfl

/-! ### Choices -/

def just (b : ℤ) : Table Json := [("enum", .array [.ofInt b])]

theorem flat_just (b : ℤ) : Flat (just b) where
  references := rfl
  holders := by simp [Schema.holders, just, Table.get?_cons]
  absent := by simp [just, Table.get?_cons]

theorem acceptsIff_just (options : Options) (a b : ℤ) :
    AcceptsIff options (.object (just b)) (.ofInt a)
      ((Binary64.ofInt b).same (.ofInt a) = true) := by
  refine (acceptsIff_untyped (flat_just b) rfl options (.ofInt a)).of_iff ?_
  rw [← equal_ofInt]
  constructor
  · intro haccepts
    obtain ⟨choice, hchoice, hequal⟩ := haccepts.1 _ rfl
    obtain rfl := List.mem_singleton.1 hchoice
    exact hequal
  · intro hequal
    have henum : EnumKeyword (just b) (.ofInt a) := by
      intro choices hchoices
      obtain rfl := Json.array.inj (Option.some.inj hchoices)
      exact ⟨_, List.mem_singleton_self _, hequal⟩
    refine ⟨henum, ?_, ?_, ?_⟩
    · exact fun _ hget => absurd hget (Option.some_ne_none _).symm
    · exact fun _ hget => absurd hget (Option.some_ne_none _).symm
    · exact fun _ hget => absurd hget (Option.some_ne_none _).symm

/-! ### Bounds -/

def bounded (key mark : String) (b : ℤ) (exclusive : Option Bool) : Table Json :=
  (key, .ofInt b) :: (exclusive.map (fun e => (mark, .bool e))).toList

theorem get?_bounded (key mark : String) (k : String) :
    Table.get? (bounded key mark b exclusive) k
      = if key = k then some (.ofInt b) else if mark = k then exclusive.map .bool else none := by
  rw [bounded, Table.get?_cons]
  cases exclusive with
  | none => simp
  | some e => simp [Table.get?_cons]

theorem flag_bounded {key mark : String} (hne : key ≠ mark) :
    Node.flag (bounded key mark b exclusive) mark = true ↔ exclusive = some true := by
  rw [Node.flag, get?_bounded, if_neg hne, if_pos rfl]
  cases exclusive with
  | none => simp
  | some e => simp [Json.asBool?]

theorem float?_bounded (key mark : String) :
    Node.float? (bounded key mark b exclusive) key = some (.ofInt b) := by
  rw [Node.float?, get?_bounded, if_pos rfl]
  rfl

theorem numberKeywords_minimum :
    NumberKeywords (bounded "minimum" "exclusiveMinimum" b exclusive) x
      ↔ x.less (.ofInt b) = false ∧ (exclusive = some true → x.same (.ofInt b) = false) := by
  have hflag : Node.flag (bounded "minimum" "exclusiveMinimum" b exclusive)
      "exclusiveMinimum" = true ↔ exclusive = some true := flag_bounded (by decide)
  have hdivisor : Node.divisor? (bounded "minimum" "exclusiveMinimum" b exclusive) = none := by
    simp [Node.divisor?, get?_bounded]
  have hmaximum : Node.float? (bounded "minimum" "exclusiveMinimum" b exclusive) "maximum" = none :=
    by simp [Node.float?, get?_bounded]
  constructor
  · intro h
    rw [← hflag]
    exact h.minimum _ (float?_bounded _ _)
  · intro h
    refine ⟨?_, fun limit hlimit => ?_, ?_⟩
    · simp [hdivisor]
    · obtain rfl := Option.some.inj ((float?_bounded _ _).symm.trans hlimit)
      rwa [hflag]
    · simp [hmaximum]

theorem numberKeywords_maximum :
    NumberKeywords (bounded "maximum" "exclusiveMaximum" b exclusive) x
      ↔ (Binary64.ofInt b).less x = false
        ∧ (exclusive = some true → x.same (.ofInt b) = false) := by
  have hflag : Node.flag (bounded "maximum" "exclusiveMaximum" b exclusive)
      "exclusiveMaximum" = true ↔ exclusive = some true := flag_bounded (by decide)
  have hdivisor : Node.divisor? (bounded "maximum" "exclusiveMaximum" b exclusive) = none := by
    simp [Node.divisor?, get?_bounded]
  have hminimum : Node.float? (bounded "maximum" "exclusiveMaximum" b exclusive) "minimum" = none :=
    by simp [Node.float?, get?_bounded]
  constructor
  · intro h
    rw [← hflag]
    exact h.maximum _ (float?_bounded _ _)
  · intro h
    refine ⟨?_, ?_, fun limit hlimit => ?_⟩
    · simp [hdivisor]
    · simp [hminimum]
    · obtain rfl := Option.some.inj ((float?_bounded _ _).symm.trans hlimit)
      rwa [hflag]

theorem acceptsIff_bounded {key mark : String}
    (h : ∀ k ∈ Schema.holders ++ ["id", "pattern", "required", "type", "enum"], key ≠ k ∧ mark ≠ k)
    (options : Options) (a : ℤ) :
    AcceptsIff options (.object (bounded key mark b exclusive)) (.ofInt a)
      (NumberKeywords (bounded key mark b exclusive) (.ofInt a)) := by
  have hnone : ∀ k ∈ Schema.holders ++ ["id", "pattern", "required", "type", "enum"],
      Table.get? (bounded key mark b exclusive) k = none := by
    intro k hk
    rw [get?_bounded, if_neg (h k hk).1, if_neg (h k hk).2]
  have hflat : Flat (bounded key mark b exclusive) := by
    refine ⟨?_, fun k hk => hnone k (List.mem_append_left _ hk), fun k hk => hnone k ?_⟩
    · cases exclusive <;> rfl
    · exact List.mem_append_right _
        ((show ∀ k ∈ ["id", "pattern", "required"], k ∈ _ by decide) k hk)
  have henum : EnumKeyword (bounded key mark b exclusive) (.ofInt a) :=
    Schema.enumKeyword_of_absent (hnone "enum" (by decide)) _
  exact (acceptsIff_untyped hflat (hnone "type" (by decide)) options (.ofInt a)).of_iff
    ⟨fun haccepts => haccepts.2, fun hkeywords => ⟨henum, hkeywords⟩⟩

theorem acceptsIff_minimum (h : ToldApart a b) (options : Options) (exclusive : Option Bool) :
    AcceptsIff options (.object (bounded "minimum" "exclusiveMinimum" b exclusive)) (.ofInt a)
      (b ≤ a ∧ (exclusive = some true → b < a)) := by
  refine (acceptsIff_bounded (by decide) options a).of_iff ?_
  rw [numberKeywords_minimum, h.less_eq_false_iff, h.same_eq_false_iff]
  exact and_congr_right fun hle => imp_congr_right fun _ =>
    ⟨fun hne => lt_of_le_of_ne hle hne.symm, ne_of_gt⟩

theorem acceptsIff_maximum (h : ToldApart a b) (options : Options) (exclusive : Option Bool) :
    AcceptsIff options (.object (bounded "maximum" "exclusiveMaximum" b exclusive)) (.ofInt a)
      (a ≤ b ∧ (exclusive = some true → a < b)) := by
  refine (acceptsIff_bounded (by decide) options a).of_iff ?_
  rw [numberKeywords_maximum, h.symm.less_eq_false_iff, h.same_eq_false_iff]
  exact and_congr_right fun hle => imp_congr_right fun _ =>
    ⟨fun hne => lt_of_le_of_ne hle hne, ne_of_lt⟩

/-! ### Items that occur twice -/

def unique : Table Json := [("uniqueItems", .bool true)]

theorem flat_unique : Flat unique where
  references := rfl
  holders := by simp [Schema.holders, unique, Table.get?_cons]
  absent := by simp [unique, Table.get?_cons]

theorem acceptsIff_unique (options : Options) (items : List Json) :
    AcceptsIff options (.object unique) (.array items)
      (items.Pairwise (fun v w => Json.equal v w = false)) := by
  refine (acceptsIff_untyped flat_unique rfl options (.array items)).of_iff ?_
  constructor
  · exact fun haccepts => haccepts.2.uniqueItems rfl
  · intro hdistinct
    refine ⟨Schema.enumKeyword_of_absent rfl _, ?_, ?_, fun _ => hdistinct⟩
    · exact fun _ hget => absurd hget (Option.some_ne_none _).symm
    · exact fun _ hget => absurd hget (Option.some_ne_none _).symm

/-- Two integers that are equal, or have nearest doubles of their own, are told apart by choices, by
bounds and by the test for items that occur twice, as they compare. -/
theorem compares_integers (h : ToldApart a b) (options : Options) :
    AcceptsIff options (.object (just b)) (.ofInt a) (a = b)
      ∧ (∀ exclusive, AcceptsIff options
        (.object (bounded "minimum" "exclusiveMinimum" b exclusive)) (.ofInt a)
        (b ≤ a ∧ (exclusive = some true → b < a)))
      ∧ (∀ exclusive, AcceptsIff options
        (.object (bounded "maximum" "exclusiveMaximum" b exclusive)) (.ofInt a)
        (a ≤ b ∧ (exclusive = some true → a < b)))
      ∧ AcceptsIff options (.object unique) (.array [.ofInt a, .ofInt b]) (a ≠ b) := by
  have hjust := (acceptsIff_just options a b).of_iff (h.symm.same_iff.trans eq_comm)
  have hunique : AcceptsIff options (.object unique) (.array [.ofInt a, .ofInt b]) (a ≠ b) := by
    refine (acceptsIff_unique options _).of_iff ?_
    rw [List.pairwise_pair, equal_ofInt, h.same_eq_false_iff]
  exact ⟨hjust, acceptsIff_minimum h options, acceptsIff_maximum h options, hunique⟩

theorem compares_integers_of_many_bits :
    ToldApart (2 ^ 53 + 1) (2 ^ 53 + 3) ∧ ToldApart (-7) (2 ^ 64 - 1)
      ∧ AcceptsIff .standard (.object (just (2 ^ 53 + 3))) (.ofInt (2 ^ 53 + 1))
        ((2 ^ 53 + 1 : ℤ) = 2 ^ 53 + 3)
      ∧ AcceptsIff .standard (.object unique) (.array [.ofInt (-7), .ofInt (2 ^ 64 - 1)])
        ((-7 : ℤ) ≠ 2 ^ 64 - 1) := by
  have hodd : ToldApart (2 ^ 53 + 1) (2 ^ 53 + 3) := by
    rw [ToldApart]
    decide +kernel
  have hsmall : ToldApart (-7) (2 ^ 64 - 1) := Binary64.toldApart_of_natAbs_lt (by decide) _
  exact ⟨hodd, hsmall, (compares_integers hodd .standard).1,
    (compares_integers hsmall .standard).2.2.2⟩

/-- An odd integer of 54 bits is rounded to a neighbour, which passes for it. -/
theorem odd_neighbour_accepted :
    (2 ^ 53 : ℤ) ≠ 2 ^ 53 + 1 ∧ ∃ state,
      validate .standard (.object (just (2 ^ 53 + 1))) (.ofInt (2 ^ 53)) = .ok state
        ∧ state.isValid = true := by
  obtain ⟨state, hstate, hvalid⟩ := acceptsIff_just .standard (2 ^ 53) (2 ^ 53 + 1)
  exact ⟨by decide, state, hstate, hvalid.2 (by decide +kernel)⟩

end HyperSchema
