import HyperSchema.Proofs.Schema.Assertions
import HyperSchema.Proofs.Schema.Members

/-!
# Compiled schemas agree with their documents

The node read from a document finds no error in a value exactly when the value satisfies the
document, provided that the document is plain. The proof goes by induction on the document; what is
left to do here is to put the keywords together, of which those for other types than that of the
value are silent.
-/

namespace HyperSchema

namespace Schema

/-- A plain document names types by their names only, asks for divisors only of numbers that need
not be integers, and has no reference in it. So do all the schemas in it. -/
structure Plain (document : Json) : Prop where
  references : document.references = []
  types : ∀ keywords, Within document (.object keywords) →
    ∀ name ∈ Node.declaredTypes keywords, name ∈ typeNames
  divisors : ∀ keywords, Within document (.object keywords) →
    Node.integersOnly (Node.declaredTypes keywords) = true →
      Table.get? keywords "multipleOf" = none ∧ Table.get? keywords "divisibleBy" = none

theorem text?_reference_eq_none {keywords : Table Json}
    (h : (Json.object keywords).references = []) : Node.text? keywords "$ref" = none := by
  cases htext : Node.text? keywords "$ref" with
  | none => rfl
  | some target =>
      have hmem := mem_references_of_text? htext
      rw [h] at hmem
      cases hmem

theorem Plain.of_sub {keywords : Table Json} {sub : Json} (h : Plain (.object keywords))
    (hsub : Sub keywords sub) : Plain sub where
  references := List.subset_nil.1 (h.references ▸ references_subset_of_sub hsub)
  types := fun _ hwithin => h.types _ ((Within.whole.inner hsub).trans hwithin)
  divisors := fun _ hwithin => h.divisors _ ((Within.whole.inner hsub).trans hwithin)

end Schema

open Schema (Satisfies)

namespace Node

variable {env : Environment} {uri path : String} {keywords : Table Json} {v : Json}

/-! ### Keywords that are silent -/

theorem itemKeywords_of_nil {unicode : Bool} (h : itemsOf v = []) :
    Schema.ItemKeywords unicode keywords v where
  each := by
    intro sub _ item hitem
    rw [h] at hitem
    cases hitem
  tuple := by
    intro subs _
    rw [h]
    exact ⟨fun i sub item _ hitem => by simp at hitem, fun rest _ item hitem => by simp at hitem⟩

theorem memberKeywords_of_nil {unicode : Bool} (h : Schema.membersOf v = []) :
    Schema.MemberKeywords unicode keywords v where
  properties := by
    intro table _ key sub member _ hmember
    rw [h] at hmember
    cases hmember
  patternProperties := by
    intro table _ source sub p _ _ key member hmember
    rw [h] at hmember
    cases hmember
  additionalProperties := by
    intro rest _ key member hmember
    rw [h] at hmember
    cases hmember
  dependencies := by
    intro table _ key dependency _ hhas
    rw [h] at hhas
    cases hhas

/-! ### The checks for one type -/

/-- All that the keywords ask of the contents of a value and of its own kind. -/
structure KindAccepts (unicode : Bool) (keywords : Table Json) (integer : Bool) (v : Json) :
    Prop where
  integral : ∀ n, v = .number n → integer = true → n.toFloat.isIntegral = true
  kind : Schema.KindKeywords unicode keywords v
  items : Schema.ItemKeywords unicode keywords v
  members : Schema.MemberKeywords unicode keywords v

section

variable {integer : Bool} {own : List Check}
  (hagrees : ∀ sub, Schema.Sub keywords sub → Agrees env sub)

theorem numberChecks_verdict {n : Number} (hdivisor : integer = true → divisor? keywords = none)
    (h : checks [] uri keywords integer .number = .ok own) :
    Verdict (evaluateChecks env uri own (.number n) path)
      (KindAccepts env.unicodeLength keywords integer (.number n)) := by
  cases kindReads_of_checks h
  refine (evaluateChecks_assertions _).of_iff
    ((Schema.numberAssertions_silent_iff hdivisor).trans ⟨?_, ?_⟩)
  · intro h
    obtain ⟨hintegral, hnumber⟩ := h
    refine ⟨fun m hm hinteger => ?_, hnumber, itemKeywords_of_nil rfl, memberKeywords_of_nil rfl⟩
    rw [← Json.number.inj hm]
    exact hintegral hinteger
  · intro h
    obtain ⟨hintegral, hnumber, -, -⟩ := h
    exact ⟨hintegral n rfl, hnumber⟩

theorem stringChecks_verdict {s : String}
    (h : checks [] uri keywords integer .string = .ok own) :
    Verdict (evaluateChecks env uri own (.string s) path)
      (KindAccepts env.unicodeLength keywords integer (.string s)) := by
  cases kindReads_of_checks h with
  | string hassertions =>
      refine (evaluateChecks_assertions _).of_iff
        ((Schema.stringAssertions_silent_iff hassertions).trans ⟨fun hstring => ?_, ?_⟩)
      · exact ⟨fun n hn => (by cases hn), hstring, itemKeywords_of_nil rfl,
          memberKeywords_of_nil rfl⟩
      · exact fun haccepts => haccepts.kind

include hagrees in
theorem arrayChecks_verdict {items : List Json}
    (h : checks [] uri keywords integer .array = .ok own) :
    Verdict (evaluateChecks env uri own (.array items) path)
      (KindAccepts env.unicodeLength keywords integer (.array items)) := by
  cases kindReads_of_checks h with
  | array hitems =>
      refine (evaluateChecks_append (evaluateChecks_append (evaluateChecks_assertions _)
        (itemChecks_verdict hagrees hitems)) (evaluateChecks_assertions _)).of_iff ?_
      have harray := @Schema.arrayAssertions_silent_iff keywords items
      rw [List.forall_mem_append] at harray
      constructor
      · intro h
        obtain ⟨⟨hbounds, hitem⟩, hdistinct⟩ := h
        have hkind := harray.1 ⟨hbounds, hdistinct⟩
        exact ⟨fun n hn => (by cases hn), hkind, hitem, memberKeywords_of_nil rfl⟩
      · intro h
        obtain ⟨-, hkind, hitem, -⟩ := h
        obtain ⟨hbounds, hdistinct⟩ := harray.2 hkind
        exact ⟨⟨hbounds, hitem⟩, hdistinct⟩

include hagrees in
theorem objectChecks_verdict {members : Table Json}
    (h : checks [] uri keywords integer .object = .ok own) :
    Verdict (evaluateChecks env uri own (.object members) path)
      (KindAccepts env.unicodeLength keywords integer (.object members)) := by
  cases kindReads_of_checks h with
  | object hrules =>
      refine (evaluateChecks_append (evaluateChecks_assertions _)
        (memberChecks_verdict hagrees hrules)).of_iff ?_
      refine (and_congr_left' Schema.objectAssertions_silent_iff).trans ⟨?_, ?_⟩
      · intro h
        obtain ⟨⟨hmin, hmax⟩, hrequired, hmembers⟩ := h
        exact ⟨fun n hn => (by cases hn), ⟨hmin, hmax, hrequired⟩, itemKeywords_of_nil rfl,
          hmembers⟩
      · intro h
        obtain ⟨-, ⟨hmin, hmax, hrequired⟩, -, hmembers⟩ := h
        exact ⟨⟨hmin, hmax⟩, hrequired, hmembers⟩

include hagrees in
theorem checks_verdict (hdivisor : integer = true → divisor? keywords = none)
    (h : checks [] uri keywords integer v.kind = .ok own) :
    Verdict (evaluateChecks env uri own v path)
      (KindAccepts env.unicodeLength keywords integer v) := by
  cases v with
  | number n => exact numberChecks_verdict hdivisor h
  | string s => exact stringChecks_verdict h
  | array items => exact arrayChecks_verdict hagrees h
  | object members => exact objectChecks_verdict hagrees h
  | _ =>
      cases kindReads_of_checks h
      exact .accept ⟨fun n hn => (by cases hn), trivial, itemKeywords_of_nil rfl,
        memberKeywords_of_nil rfl⟩

end

/-! ### The whole schema -/

theorem opening_passes_iff {members : Table Json} :
    Findings.passes ((head [] uri members).opening v path) = true
      ↔ v.kind ∈ allowedKinds (declaredTypes members) ∧ Schema.EnumKeyword members v := by
  have henum : (∀ choices, (head [] uri members).choices = some choices →
      choices.any (fun choice => Json.equal choice v) = true) ↔ Schema.EnumKeyword members v := by
    rw [head, Schema.EnumKeyword]
    simp only [Option.bind_eq_some_iff, List.any_eq_true]
    constructor
    · intro h choices hget
      exact h choices ⟨_, hget, rfl⟩
    · rintro h choices ⟨w, hget, hw⟩
      cases w with
      | array items =>
          obtain rfl := Option.some.inj hw
          exact h items hget
      | _ => cases hw
  rw [← henum, Head.opening, Findings.passes_cons, Findings.passes_append]
  have hallowed : (head [] uri members).allowed = allowedKinds (declaredTypes members) := rfl
  rw [hallowed, Bool.and_eq_true, Bool.and_eq_true]
  refine (and_iff_right rfl).trans (and_congr ?_ ?_)
  · by_cases hkind : v.kind ∈ allowedKinds (declaredTypes members)
    · rw [if_pos (List.contains_iff_mem.2 hkind)]
      exact iff_of_true rfl hkind
    · rw [if_neg (fun h => hkind (List.contains_iff_mem.1 h))]
      exact iff_of_false (by simp) hkind
  · cases (head [] uri members).choices with
    | none => simp
    | some choices =>
        dsimp only
        by_cases hany : choices.any (fun choice => Json.equal choice v) = true
        · rw [if_pos hany]
          refine iff_of_true rfl (fun other hother => ?_)
          rwa [← Option.some.inj hother]
        · rw [if_neg hany]
          exact iff_of_false (by simp) (fun h => hany (h choices rfl))

theorem closing_passes : Findings.passes ((head [] uri keywords).closing v path) = true := by
  have hformat : (head [] uri keywords).format = none := by
    rw [head]
    cases text? keywords "format" <;> rfl
  rw [Head.closing, hformat, List.nil_append]
  induction (head [] uri keywords).links with
  | nil => rfl
  | cons l rest ih => rw [List.map_cons, Findings.passes_cons, ih]; rfl

theorem divisor?_eq_none_of_plain (hplain : Schema.Plain (.object keywords))
    (hinteger : integersOnly (declaredTypes keywords) = true) : divisor? keywords = none := by
  obtain ⟨hmultiple, hdivisible⟩ := hplain.divisors keywords .whole hinteger
  rw [divisor?, hmultiple, hdivisible]
  rfl

/-- The checks for one type are run on a value of this type, and on no other. -/
theorem typed_verdict {list : List (Kind × List Check)} (hplain : Schema.Plain (.object keywords))
    (hagrees : ∀ sub, Schema.Sub keywords sub → Agrees env sub)
    (hlist : kindChecks [] uri keywords (head [] uri keywords).allowed
      (integersOnly (declaredTypes keywords)) = .ok list) :
    Verdict
      (if (head [] uri keywords).allowed.contains v.kind then
        evaluateBranches env (head [] uri keywords).uri (branches list) v path else some [])
      ((head [] uri keywords).allowed.contains v.kind = true →
        KindAccepts env.unicodeLength keywords (integersOnly (declaredTypes keywords)) v) := by
  refine .ite (fun hkind => ?_)
  obtain ⟨hserved, hchecks⟩ := kindChecks_spec hlist
  obtain ⟨own, hown, heval⟩ := evaluateBranches_branches env (head [] uri keywords).uri path
    (hserved v.kind (List.contains_iff_mem.1 hkind))
  rw [heval]
  exact checks_verdict hagrees (divisor?_eq_none_of_plain hplain) (hchecks _ hown)

/-- The verdict of a schema on a value is put together from those of its parts. -/
theorem schema_verdict {list : List (Kind × List Check)} {negated : Option Node}
    {allOf anyOf oneOf : List Node} {P : Prop}
    (hagrees : ∀ sub, Schema.Sub keywords sub → Agrees env sub)
    (hnegated : negation [] uri keywords = .ok negated)
    (hallOf : listed [] uri "allOf" keywords = .ok allOf)
    (hanyOf : listed [] uri "anyOf" keywords = .ok anyOf)
    (honeOf : listed [] uri "oneOf" keywords = .ok oneOf)
    (htyped : Verdict
      (if (head [] uri keywords).allowed.contains v.kind then
        evaluateBranches env (head [] uri keywords).uri (branches list) v path else some []) P) :
    Verdict
      (evaluate env (.schema (head [] uri keywords) (branches list) allOf anyOf oneOf negated) v
        path)
      (v.kind ∈ allowedKinds (declaredTypes keywords) ∧ Schema.EnumKeyword keywords v ∧ P
        ∧ Schema.AllOfKeyword env.unicodeLength keywords v
        ∧ Schema.AnyOfKeyword env.unicodeLength keywords v
        ∧ Schema.OneOfKeyword env.unicodeLength keywords v
        ∧ Schema.NotKeyword env.unicodeLength keywords v) := by
  obtain ⟨allResults, hallResults, hallPasses⟩ := allOf_verdict hagrees hallOf
  obtain ⟨anyResults, hanyResults, hanyPasses⟩ :=
    anyOf_verdict (head [] uri keywords) hagrees hanyOf
  obtain ⟨oneResults, honeResults, honePasses⟩ :=
    oneOf_verdict (head [] uri keywords) hagrees honeOf
  obtain ⟨negatedResult, hnegatedResult, hnegatedPasses⟩ :=
    negated_verdict (head [] uri keywords) hagrees hnegated
  obtain ⟨typed, htypedResult, htypedPasses⟩ := htyped
  have heval : evaluate env
      (.schema (head [] uri keywords) (branches list) allOf anyOf oneOf negated) v path
        = some ((head [] uri keywords).opening v path ++ typed ++ allResults.flatten
          ++ (head [] uri keywords).anyOf path anyResults
          ++ (head [] uri keywords).oneOf path oneResults
          ++ (head [] uri keywords).negated path negatedResult
          ++ (head [] uri keywords).closing v path) := by
    rw [evaluate_schema, htypedResult, hallResults, hanyResults, honeResults, hnegatedResult]
    rfl
  refine ⟨_, heval, ?_⟩
  simp only [Findings.passes_append, Bool.and_eq_true, opening_passes_iff, closing_passes,
    hallPasses, hanyPasses, honePasses, hnegatedPasses, htypedPasses, and_assoc, and_true]

/-- A schema object agrees with its document if all the schemas below its keywords do. -/
theorem agrees_object (hplain : Schema.Plain (.object keywords))
    (hagrees : ∀ sub, Schema.Sub keywords sub → Agrees env sub) :
    Agrees env (.object keywords) := by
  intro uri node h v path
  have htypes := hplain.types keywords .whole
  cases readAs_of_ofSchema h with
  | reference href =>
      rw [Schema.text?_reference_eq_none hplain.references] at href
      cases href
  | @schema _ list negated allOf anyOf oneOf _ hlist hnegated hallOf hanyOf honeOf =>
      refine (schema_verdict hagrees hnegated hallOf hanyOf honeOf
        (typed_verdict hplain hagrees hlist)).of_iff ?_
      rw [Schema.satisfies_object_iff, Schema.typeKeyword_iff htypes]
      constructor
      · intro h
        obtain ⟨hkind, henum, hchecks, hall, hany, hone, hnot⟩ := h
        have haccepts := hchecks (List.contains_iff_mem.2 hkind)
        exact ⟨⟨hkind, haccepts.integral⟩, henum, haccepts.kind, hall, hany, hone, hnot,
          haccepts.items, haccepts.members⟩
      · intro h
        obtain ⟨⟨hkind, hintegral⟩, henum, hkeywords, hall, hany, hone, hnot, hitems, hmembers⟩ := h
        exact ⟨hkind, henum, fun _ => ⟨hintegral, hkeywords, hitems, hmembers⟩, hall, hany, hone,
          hnot⟩
  | other hobject => exact absurd rfl (hobject keywords)

/-- Whatever a plain document is read into agrees with it. -/
theorem agrees_of_plain {document : Json} (hplain : Schema.Plain document) :
    Agrees env document := by
  by_cases hobject : ∃ keywords, document = .object keywords
  · obtain ⟨keywords, rfl⟩ := hobject
    exact agrees_object hplain (fun sub hsub =>
      have := hsub.sizeOf_lt
      agrees_of_plain (hplain.of_sub hsub))
  · intro uri node h v path
    cases readAs_of_ofSchema h with
    | reference => exact absurd ⟨_, rfl⟩ hobject
    | schema => exact absurd ⟨_, rfl⟩ hobject
    | refusal => exact .of_passes (iff_of_false (by simp) (Schema.satisfies_false _ v))
    | other hne hfalse => exact .accept (Schema.satisfies_of_not_object _ v hfalse hne)
termination_by sizeOf document

end Node

end HyperSchema
