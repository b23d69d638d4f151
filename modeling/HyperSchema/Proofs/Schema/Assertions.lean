import HyperSchema.Proofs.Schema.Reading
import HyperSchema.Proofs.Schema.Satisfaction

/-!
# Assertions and the keywords they come from

A value violates none of the assertions read from a schema exactly when it meets the keywords for
its type. The one exception is the integer type, for which the test is left out where the divisor is
whole. The names of types come down to the kinds they allow, and to that test.
-/

namespace HyperSchema

namespace Json

theorem firstEqual?_eq_none_iff {v : Json} {items : List Json} {i : Nat} :
    firstEqual? v items i = none ↔ ∀ w ∈ items, equal v w = false := by
  induction items generalizing i with
  | nil => simp [firstEqual?]
  | cons w rest ih =>
      rw [firstEqual?, List.forall_mem_cons]
      cases equal v w with
      | true => simp
      | false => simp [ih]

theorem firstDuplicates?_eq_none_iff {items : List Json} {i : Nat} :
    firstDuplicates? items i = none ↔ items.Pairwise (fun v w => equal v w = false) := by
  induction items generalizing i with
  | nil => simp [firstDuplicates?]
  | cons v rest ih =>
      rw [firstDuplicates?, List.pairwise_cons]
      cases hfirst : firstEqual? v rest (i + 1) with
      | some j =>
          refine iff_of_false (by simp) (fun h => ?_)
          rw [firstEqual?_eq_none_iff.2 h.1] at hfirst
          cases hfirst
      | none => exact ih.trans (and_iff_right (firstEqual?_eq_none_iff.1 hfirst)).symm

end Json

namespace Assertion

variable {x limit : Binary64} {exclusive unicode : Bool} {n : Nat} {s : String}
  {items : List Json} {members : Table Json}

@[simp] theorem ofNumber_integer : integer.ofNumber x = none ↔ x.isIntegral = true := by
  simp [ofNumber]

@[simp] theorem ofNumber_multipleOf : (multipleOf limit).ofNumber x = none
    ↔ x.isMultiple limit = true := by
  simp [ofNumber]

@[simp] theorem ofNumber_minimum : (minimum limit exclusive).ofNumber x = none
    ↔ x.less limit = false ∧ (exclusive = true → x.same limit = false) := by
  cases hless : x.less limit <;> simp [ofNumber, hless]

@[simp] theorem ofNumber_maximum : (maximum limit exclusive).ofNumber x = none
    ↔ limit.less x = false ∧ (exclusive = true → x.same limit = false) := by
  cases hless : limit.less x <;> simp [ofNumber, hless]

@[simp] theorem ofString_minLength : (minLength n).ofString unicode s = none
    ↔ n ≤ Text.length unicode s := by
  simp [ofString]

@[simp] theorem ofString_maxLength : (maxLength n).ofString unicode s = none
    ↔ Text.length unicode s ≤ n := by
  simp [ofString]

@[simp] theorem ofString_pattern {p : Pattern} : (pattern p).ofString unicode s = none
    ↔ p.isMatch s = true := by
  simp [ofString]

@[simp] theorem ofArray_minItems : (minItems n).ofArray items = none ↔ n ≤ items.length := by
  simp [ofArray]

@[simp] theorem ofArray_maxItems : (maxItems n).ofArray items = none ↔ items.length ≤ n := by
  simp [ofArray]

@[simp] theorem ofArray_uniqueItems : uniqueItems.ofArray items = none
    ↔ items.Pairwise (fun v w => Json.equal v w = false) := by
  simp [ofArray, Json.firstDuplicates?_eq_none_iff]

@[simp] theorem ofObject_minProperties : (minProperties n).ofObject members = none
    ↔ n ≤ members.length := by
  simp [ofObject]

@[simp] theorem ofObject_maxProperties : (maxProperties n).ofObject members = none
    ↔ members.length ≤ n := by
  simp [ofObject]

end Assertion

namespace Schema

open Node

variable {keywords : Table Json}

theorem forall_mem_toList_map {α β : Type} {o : Option α} {f : α → β} {P : β → Prop} :
    (∀ b ∈ (o.map f).toList, P b) ↔ ∀ a, o = some a → P (f a) := by
  cases o with
  | none => simp
  | some a => simp

theorem numberAssertions_silent_iff {integer : Bool} {x : Binary64}
    (hdivisor : integer = true → divisor? keywords = none) :
    (∀ a ∈ numberAssertions keywords integer, a.ofNumber x = none)
      ↔ (integer = true → x.isIntegral = true) ∧ NumberKeywords keywords x := by
  have htest : (∀ a ∈ (if integer && !((divisor? keywords).map Binary64.isIntegral).getD false
      then [Assertion.integer] else []), a.ofNumber x = none)
        ↔ (integer = true → x.isIntegral = true) := by
    cases integer with
    | false => simp
    | true => simp [hdivisor rfl]
  rw [numberAssertions]
  simp only [List.forall_mem_append, htest, forall_mem_toList_map, Assertion.ofNumber_multipleOf,
    Assertion.ofNumber_minimum, Assertion.ofNumber_maximum]
  constructor
  · intro h
    obtain ⟨⟨⟨hinteger, hmultiple⟩, hminimum⟩, hmaximum⟩ := h
    exact ⟨hinteger, hmultiple, hminimum, hmaximum⟩
  · intro h
    obtain ⟨hinteger, hmultiple, hminimum, hmaximum⟩ := h
    exact ⟨⟨⟨hinteger, hmultiple⟩, hminimum⟩, hmaximum⟩

theorem stringAssertions_silent_iff {unicode : Bool} {uri s : String}
    {assertions : List Assertion} (h : stringAssertions uri keywords = .ok assertions) :
    (∀ a ∈ assertions, a.ofString unicode s = none) ↔ StringKeywords unicode keywords s := by
  have hlengths : (∀ a ∈ ((limit? keywords "minLength").map Assertion.minLength).toList
      ++ ((limit? keywords "maxLength").map Assertion.maxLength).toList,
        a.ofString unicode s = none)
      ↔ (∀ n, limit? keywords "minLength" = some n → n ≤ Text.length unicode s)
        ∧ ∀ n, limit? keywords "maxLength" = some n → Text.length unicode s ≤ n := by
    simp only [List.forall_mem_append, forall_mem_toList_map, Assertion.ofString_minLength,
      Assertion.ofString_maxLength]
  rw [stringAssertions] at h
  cases hsource : text? keywords "pattern" with
  | none =>
      rw [hsource] at h
      obtain rfl := Except.ok.inj h
      rw [hlengths]
      constructor
      · intro h
        obtain ⟨hmin, hmax⟩ := h
        exact ⟨hmin, hmax, fun source p hnone => by simp [hsource] at hnone⟩
      · intro h
        obtain ⟨hmin, hmax, -⟩ := h
        exact ⟨hmin, hmax⟩
  | some source =>
      rw [hsource] at h
      obtain ⟨p, hp, h⟩ := Except.exists_of_bind_eq_ok h
      obtain rfl := Except.ok.inj h
      have hcompile := compile?_of_pattern hp
      rw [List.forall_mem_append, hlengths]
      constructor
      · intro h
        obtain ⟨⟨hmin, hmax⟩, hpattern⟩ := h
        refine ⟨hmin, hmax, fun source' p' hsource' hp' => ?_⟩
        obtain rfl := Option.some.inj (hsource.symm.trans hsource')
        obtain rfl := Option.some.inj (hcompile.symm.trans hp')
        simpa using hpattern
      · intro h
        obtain ⟨hmin, hmax, hpattern⟩ := h
        refine ⟨⟨hmin, hmax⟩, ?_⟩
        simpa using hpattern source p hsource hcompile

theorem arrayAssertions_silent_iff {items : List Json} :
    (∀ a ∈ arrayAssertions keywords ++ (if flag keywords "uniqueItems" then
        [Assertion.uniqueItems] else []), a.ofArray items = none)
      ↔ ArrayKeywords keywords items := by
  have hunique : (∀ a ∈ (if flag keywords "uniqueItems" then [Assertion.uniqueItems] else []),
      a.ofArray items = none)
        ↔ (flag keywords "uniqueItems" = true →
          items.Pairwise (fun v w => Json.equal v w = false)) := by
    cases flag keywords "uniqueItems" with
    | false => simp
    | true => simp
  rw [arrayAssertions]
  simp only [List.forall_mem_append, forall_mem_toList_map, hunique, Assertion.ofArray_minItems,
    Assertion.ofArray_maxItems]
  constructor
  · intro h
    obtain ⟨⟨hmin, hmax⟩, hdistinct⟩ := h
    exact ⟨hmin, hmax, hdistinct⟩
  · intro h
    obtain ⟨hmin, hmax, hdistinct⟩ := h
    exact ⟨⟨hmin, hmax⟩, hdistinct⟩

theorem objectAssertions_silent_iff {members : Table Json} :
    (∀ a ∈ objectAssertions keywords, a.ofObject members = none)
      ↔ (∀ n, limit? keywords "minProperties" = some n → n ≤ members.length)
        ∧ ∀ n, limit? keywords "maxProperties" = some n → members.length ≤ n := by
  rw [objectAssertions]
  simp only [List.forall_mem_append, forall_mem_toList_map, Assertion.ofObject_minProperties,
    Assertion.ofObject_maxProperties]

/-! ### Types -/

def typeNames : List String :=
  ["null", "boolean", "integer", "number", "string", "array", "object"]

theorem mem_kindsNamed_iff {name : String} (hname : name ∈ typeNames) {kind : Kind} :
    kind ∈ kindsNamed name ↔ if name = "integer" then kind = .number else kind.name = name := by
  simp only [typeNames, List.mem_cons, List.not_mem_nil, or_false] at hname
  rcases hname with rfl | rfl | rfl | rfl | rfl | rfl | rfl <;> cases kind <;> decide

theorem mem_allowedKinds_iff {declared : List String} (hnames : ∀ name ∈ declared, name ∈ typeNames)
    {kind : Kind} :
    kind ∈ allowedKinds declared
      ↔ (declared ≠ [] → ∃ name ∈ declared, kind ∈ kindsNamed name) := by
  have hall : kind ∈ Kind.all := by cases kind <;> decide
  rw [allowedKinds]
  by_cases hnone : (declared.flatMap kindsNamed).isEmpty = true
  · rw [if_pos hnone]
    refine iff_of_true hall (fun hdeclared => ?_)
    obtain ⟨name, hname⟩ := List.exists_mem_of_ne_nil declared hdeclared
    have hempty := List.flatMap_eq_nil_iff.1 (List.isEmpty_iff.1 hnone) name hname
    have hknown := hnames name hname
    simp only [typeNames, List.mem_cons, List.not_mem_nil, or_false] at hknown
    rcases hknown with rfl | rfl | rfl | rfl | rfl | rfl | rfl <;> cases hempty
  · rw [if_neg hnone, List.mem_filter, List.contains_iff_mem, List.mem_flatMap]
    refine ⟨fun h _ => h.2, fun h => ⟨hall, h ?_⟩⟩
    intro heq
    subst heq
    exact hnone rfl

theorem integersOnly_iff {declared : List String} :
    integersOnly declared = true ↔ "integer" ∈ declared ∧ "number" ∉ declared := by
  rw [integersOnly, Bool.and_eq_true, List.contains_iff_mem, Bool.not_eq_true',
    List.contains_eq_mem, decide_eq_false_iff_not]

/-- A value has one of the types exactly when its kind is allowed and, where only integers are
allowed among numbers, it is no other number. -/
theorem typeKeyword_iff {v : Json} (hnames : ∀ name ∈ declaredTypes keywords, name ∈ typeNames) :
    TypeKeyword keywords v
      ↔ v.kind ∈ allowedKinds (declaredTypes keywords)
        ∧ ∀ n, v = .number n → integersOnly (declaredTypes keywords) = true →
          n.toFloat.isIntegral = true := by
  rw [mem_allowedKinds_iff hnames, TypeKeyword]
  generalize declaredTypes keywords = declared at hnames ⊢
  constructor
  · intro htype
    refine ⟨fun hdeclared => ?_, ?_⟩
    · obtain ⟨name, hname, hof⟩ := htype hdeclared
      refine ⟨name, hname, (mem_kindsNamed_iff (hnames name hname)).2 ?_⟩
      rw [IsOfType] at hof
      split at hof
      · next hinteger =>
        obtain ⟨n, rfl, -⟩ := hof
        rw [if_pos hinteger, Json.kind]
      · next hother =>
        rw [if_neg hother]
        exact hof
    · intro n heq honly
      subst heq
      rw [integersOnly_iff] at honly
      obtain ⟨name, hname, hof⟩ := htype (List.ne_nil_of_mem honly.1)
      rw [IsOfType] at hof
      split at hof
      · obtain ⟨m, hm, hintegral⟩ := hof
        rwa [Json.number.inj hm]
      · rw [Json.typeName, Json.kind, Kind.name] at hof
        exact absurd (hof ▸ hname) honly.2
  · intro h hdeclared
    obtain ⟨hkind, hintegral⟩ := h
    obtain ⟨name, hname, hmem⟩ := hkind hdeclared
    rw [mem_kindsNamed_iff (hnames name hname)] at hmem
    split at hmem
    · next hinteger =>
      subst hinteger
      obtain ⟨n, rfl⟩ : ∃ n, v = .number n := by
        cases v with
        | number n => exact ⟨n, rfl⟩
        | _ => cases hmem
      by_cases hnumber : "number" ∈ declared
      · exact ⟨"number", hnumber, rfl⟩
      · refine ⟨"integer", hname, ?_⟩
        rw [IsOfType, if_pos rfl]
        refine ⟨n, rfl, hintegral n rfl ?_⟩
        exact integersOnly_iff.2 ⟨hname, hnumber⟩
    · next hother =>
      refine ⟨name, hname, ?_⟩
      rw [IsOfType, if_neg hother]
      exact hmem

end Schema

end HyperSchema
