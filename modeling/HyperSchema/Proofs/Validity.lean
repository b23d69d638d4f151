import HyperSchema.Proofs.Registry.OneShot
import HyperSchema.Proofs.Validation.Recording

/-!
# Validity and satisfaction

A value is valid against a plain schema by itself exactly when it satisfies the schema that judges
it. The schema is its own judge unless its id ends in three hash signs: it is stored under its id
without two of these, and looked for without all three.
-/

namespace HyperSchema

namespace Snapshot

variable {s : Snapshot} {uri : String} {v : Json}

theorem isValid_of_no_target (h : s.target? (SchemaUri.normalize uri) = none) :
    (s.validate uri v).isValid = true := by
  rw [isValid_validate, findings, depthBound, call, h]
  rfl

theorem isValid_iff_of_target {schema : CompiledSchema} {P : Prop}
    (h : s.target? (SchemaUri.normalize uri) = some (.compiled schema))
    (hverdict : ∀ env : Environment, env.unicodeLength = s.options.unicodeLength →
      Verdict (schema.node.evaluate env v "") P) :
    (s.validate uri v).isValid = true ↔ P := by
  obtain ⟨found, hfound, hpasses⟩ := hverdict
    ⟨s.call ((v.height + 1) * s.entries.length) [(schema.uri, "")], s.options.unicodeLength⟩ rfl
  rw [isValid_validate, findings, depthBound, call, h]
  dsimp only
  rw [List.contains_nil, if_neg Bool.false_ne_true, hfound]
  exact hpasses

end Snapshot

namespace Schema

variable {unicode : Bool} {document v : Json}

theorem within_empty (h : Within (.object []) document) : document = .object [] := by
  induction h with
  | whole => rfl
  | inner _ hsub ih =>
      obtain rfl := Json.object.inj ih
      cases hsub with
      | single _ _ hget => cases hget
      | listed _ _ hget _ => cases hget
      | named _ _ hget _ => cases hget

theorem plain_empty : Plain (.object []) where
  references := rfl
  types := by
    intro keywords hwithin name hname
    rw [Json.object.inj (within_empty hwithin)] at hname
    cases hname
  divisors := by
    intro keywords hwithin _
    rw [Json.object.inj (within_empty hwithin)]
    exact ⟨rfl, rfl⟩

theorem satisfies_empty (unicode : Bool) (v : Json) : Satisfies unicode (.object []) v := by
  have hkind : KindKeywords unicode [] v := by
    cases v with
    | number n =>
        refine ⟨?_, ?_, ?_⟩
        all_goals exact fun _ h => nomatch h
    | string s =>
        refine ⟨?_, ?_, ?_⟩
        · exact fun _ h => nomatch h
        · exact fun _ h => nomatch h
        · exact fun _ _ h => nomatch h
    | array items =>
        refine ⟨?_, ?_, ?_⟩
        · exact fun _ h => nomatch h
        · exact fun _ h => nomatch h
        · exact fun h => nomatch h
    | object members =>
        refine ⟨?_, ?_, ?_⟩
        all_goals exact fun _ h => nomatch h
    | _ => exact trivial
  rw [satisfies_object_iff]
  refine ⟨fun h => absurd rfl h, ?_, hkind, ?_, ?_, ?_, ?_, ⟨?_, ?_⟩, ⟨?_, ?_, ?_, ?_⟩⟩
  all_goals exact fun _ h => nomatch h

end Schema

namespace Registry

open Schema (Plain Satisfies)

/-- What does not have the form of a schema counts as the schema without keywords, which accepts as
much. -/
theorem schemaOf_cases (w : Json) :
    schemaOf w = w
      ∨ schemaOf w = .object [] ∧ ∀ unicode v, Satisfies unicode w v := by
  cases w with
  | object members => exact .inl rfl
  | bool b =>
      cases b with
      | false => exact .inl rfl
      | true =>
          exact .inr ⟨rfl, fun unicode v =>
            Schema.satisfies_of_not_object unicode v (by simp) (by simp)⟩
  | _ =>
      exact .inr ⟨rfl, fun unicode v =>
        Schema.satisfies_of_not_object unicode v (by simp) (by simp)⟩

theorem verdict_of_read {uri : String} {node : Node} {w v : Json} {env : Environment}
    (hread : Node.ofSchema [] uri (schemaOf w) = .ok node) (hplain : Plain w) (path : String) :
    Verdict (node.evaluate env v path) (Satisfies env.unicodeLength w v) := by
  rcases schemaOf_cases w with hsame | ⟨hempty, haccepts⟩
  · rw [hsame] at hread
    exact Node.agrees_of_plain hplain uri node hread v path
  · rw [hempty] at hread
    apply (Node.agrees_of_plain Schema.plain_empty uri node hread v path).of_iff
    exact iff_of_true (Schema.satisfies_empty _ v) (haccepts _ v)

end Registry

def ownUri (schema : Json) : String :=
  SchemaUri.normalize (((schema.member? "id").bind Json.asString?).getD inlineUri)

def alone (options : Options) (schema : Json) : Registry :=
  ((Registry.empty options).supply (ownUri schema) (some schema)).enrol (ownUri schema) none

theorem validate_eq (options : Options) (schema v : Json) :
    validate options schema v = match (alone options schema).compile with
      | (_, some e) => .error (.invalidPattern e)
      | (r, none) => .ok (r.snapshot.validate
          (((schema.member? "id").bind Json.asString?).getD inlineUri) v) := rfl

/-- The schema that values are validated against when they are validated against a schema by
itself. -/
def Judges (schema : Json) : Json → Prop :=
  (Store.empty.add (ownUri schema) schema).EndsAt (ownUri schema)

section

variable {options : Options} {schema v w : Json} {state : ValidationState}

open Schema (Plain Satisfies)

theorem pending_alone (options : Options) (schema : Json) :
    Registry.Pending (Store.empty.add (ownUri schema) schema) options (ownUri schema)
      (ownUri schema) (alone options schema) where
  store := rfl
  options := rfl
  formats := rfl
  queue := rfl
  entries := rfl
  chain := .start
  longer := fun _ hu => nomatch hu
  done := fun _ hu => absurd rfl hu
  ends := fun _ => Iff.rfl

theorem validate_cases (hplain : Plain schema) (h : validate options schema v = .ok state) :
    (state.isValid = true ∧ ∀ w, ¬Judges schema w)
      ∨ ∃ w, Judges schema w
        ∧ (Plain w → (state.isValid = true ↔ Satisfies options.unicodeLength w v)) := by
  obtain ⟨waiting, hprogress⟩ := Registry.progress_compile
    (Store.references_add _ rfl hplain.references) (pending_alone options schema)
  rw [validate_eq] at h
  generalize (alone options schema).compile = outcome at h hprogress
  obtain ⟨r, failure⟩ := outcome
  cases hprogress with
  | pending hpending => cases hpending.queue
  | failed => cases h
  | waits _ htarget hends =>
      obtain rfl := Except.ok.inj h
      exact .inl ⟨Snapshot.isValid_of_no_target htarget, hends⟩
  | @finished _ w compiled hfinished =>
      obtain rfl := Except.ok.inj h
      refine .inr ⟨w, hfinished.ends, fun hw => ?_⟩
      apply Snapshot.isValid_iff_of_target hfinished.target
      intro env henv
      have hlength : env.unicodeLength = options.unicodeLength :=
        henv.trans (congrArg Options.unicodeLength hfinished.options)
      rw [← hlength]
      exact Registry.verdict_of_read hfinished.read hw ""

theorem Store.EndsAt.unique {s : Store} {uri : String} {w w' : Json} (h : s.EndsAt uri w)
    (h' : s.EndsAt uri w') : w = w' := by
  induction h with
  | here hfound =>
      cases h' with
      | here hfound' =>
          rw [hfound] at hfound'
          exact (Resolution.found.inj hfound').2
      | next hfound' hne _ =>
          rw [hfound] at hfound'
          exact absurd (Resolution.found.inj hfound').1.symm hne
  | next hfound hne _ ih => exact ih (h'.of_renamed hfound hne)

theorem hash_not_mem_inlineUri : '#' ∉ inlineUri.toList := by decide +kernel

theorem normalize_normalize_normalize {id : String}
    (h : ∀ front, id.toList ≠ front ++ ['#', '#', '#']) :
    SchemaUri.normalize (SchemaUri.normalize (SchemaUri.normalize id))
      = SchemaUri.normalize (SchemaUri.normalize id) := by
  rcases SchemaUri.normalize_cases (SchemaUri.normalize (SchemaUri.normalize id)) with
    ⟨heq, -⟩ | hthird
  · exact heq
  · rcases SchemaUri.normalize_cases (SchemaUri.normalize id) with ⟨heq, -⟩ | hsecond
    · rw [heq, heq]
    · rcases SchemaUri.normalize_cases id with ⟨heq, -⟩ | hfirst
      · rw [heq, heq, heq]
      · rw [hthird] at hsecond
        rw [hsecond, List.append_assoc, List.append_assoc] at hfirst
        exact absurd hfirst (h _)

/-- Whose id ends in at most two hash signs is its own judge. -/
theorem judges_self (hplain : Plain schema)
    (hid : ∀ id front, (schema.member? "id").bind Json.asString? = some id →
      id.toList ≠ front ++ ['#', '#', '#']) : Judges schema schema := by
  have hthird : SchemaUri.normalize (SchemaUri.normalize (ownUri schema))
      = SchemaUri.normalize (ownUri schema) := by
    apply normalize_normalize_normalize
    intro front
    cases hdeclared : (schema.member? "id").bind Json.asString? with
    | some id => exact hid id front hdeclared
    | none =>
        exact fun hend => hash_not_mem_inlineUri (hend ▸ List.mem_append_right _ List.mem_cons_self)
  have hfound : (Store.empty.add (ownUri schema) schema).resolution
      (SchemaUri.normalize (ownUri schema)) = .found (SchemaUri.normalize (ownUri schema)) schema :=
    Store.resolution_of_find? (Store.find?_add_of_no_references _ _ hplain.references)
      hplain.references
  by_cases hcanonical : SchemaUri.normalize (ownUri schema) = ownUri schema
  · rw [hcanonical] at hfound
    exact .here (by rwa [hcanonical])
  · exact .next hfound hcanonical (.here (by rwa [hthird]))

/-- A schema without references that names types by their names, and asks for divisors only of
numbers that need not be integers, accepts what satisfies the schema that judges for it: the schema
itself, if its id does not end in three hash signs. Otherwise it may be a schema inside it with a
shorter id, or none, and then all values are accepted. -/
theorem isValid_iff_satisfies (hplain : Plain schema) (h : validate options schema v = .ok state) :
    ((∀ id front, (schema.member? "id").bind Json.asString? = some id →
        id.toList ≠ front ++ ['#', '#', '#']) →
        (state.isValid = true ↔ Satisfies options.unicodeLength schema v))
      ∧ (∀ w, Judges schema w → Plain w →
        (state.isValid = true ↔ Satisfies options.unicodeLength w v))
      ∧ ((∀ w, ¬Judges schema w) → state.isValid = true) := by
  have hjudged : ∀ w, Judges schema w → Plain w →
      (state.isValid = true ↔ Satisfies options.unicodeLength w v) := by
    intro w hw hplain'
    rcases validate_cases hplain h with ⟨-, hnone⟩ | ⟨w', hw', hvalid⟩
    · exact absurd hw (hnone w)
    · rw [hw'.unique hw] at hvalid
      exact hvalid hplain'
  refine ⟨fun hid => hjudged schema (judges_self hplain hid) hplain, hjudged, fun hnone => ?_⟩
  rcases validate_cases hplain h with ⟨hvalid, -⟩ | ⟨w, hw, -⟩
  · exact hvalid
  · exact absurd hw (hnone w)

/-- A schema that asks for strings, with or without an id. -/
def strings (id? : Option String) : Json :=
  .object ((id?.map (fun id => ("id", .string id))).toList ++ [("type", .string "string")])

theorem plain_strings (id? : Option String) : Plain (strings id?) := by
  have hwithin : ∀ {sub}, Schema.Within (strings id?) sub → sub = strings id? := by
    intro sub h
    induction h with
    | whole => rfl
    | @inner keywords sub _ hsub ih =>
        obtain rfl := Json.object.inj ih
        cases hsub with
        | single key hkey hget =>
            simp only [List.mem_cons, List.not_mem_nil, or_false] at hkey
            rcases hkey with rfl | rfl | rfl | rfl <;> cases id? <;> cases hget
        | listed key hkey hget _ =>
            simp only [List.mem_cons, List.not_mem_nil, or_false] at hkey
            rcases hkey with rfl | rfl | rfl | rfl <;> cases id? <;> cases hget
        | named key hkey hget _ =>
            simp only [List.mem_cons, List.not_mem_nil, or_false] at hkey
            rcases hkey with rfl | rfl | rfl <;> cases id? <;> cases hget
  refine ⟨by cases id? <;> rfl, ?_, ?_⟩
  · intro keywords h name hname
    obtain rfl := Json.object.inj (hwithin h)
    have hstring : name ∈ ["string"] := by cases id? <;> exact hname
    obtain rfl := List.mem_singleton.1 hstring
    decide
  · intro keywords h _
    obtain rfl := Json.object.inj (hwithin h)
    cases id? <;> exact ⟨rfl, rfl⟩

theorem not_satisfies_strings (unicode : Bool) (id? : Option String) (n : Number) :
    ¬Satisfies unicode (strings id?) (.number n) := by
  rw [strings, Schema.satisfies_object_iff]
  intro h
  obtain ⟨htype, -⟩ := h
  have hdeclared : ∃ name ∈ ["string"], Schema.IsOfType (.number n) name := by
    cases id? <;> exact htype (List.cons_ne_nil _ _)
  obtain ⟨name, hname, hkind⟩ := hdeclared
  obtain rfl := List.mem_singleton.1 hname
  rw [Schema.IsOfType, if_neg (by decide)] at hkind
  exact absurd (show "number" = "string" from hkind) (by simp)

theorem exists_ok_of_toOption_map {ε α β : Type} {outcome : Except ε α} {f : α → β} {b : β}
    (h : outcome.toOption.map f = some b) : ∃ a, outcome = .ok a ∧ f a = b := by
  cases outcome with
  | error e => cases h
  | ok a => exact ⟨a, rfl, Option.some.inj h⟩

theorem isValid_iff_satisfies_strings :
    Plain (strings none) ∧ ∃ state,
      validate Options.standard (strings none) (.number (.int 1)) = .ok state
        ∧ (state.isValid = true
          ↔ Satisfies Options.standard.unicodeLength (strings none) (.number (.int 1))) := by
  have hok : (validate Options.standard (strings none) (.number (.int 1))).toOption.map
      ValidationState.isValid = some false := by cbv
  obtain ⟨state, h, -⟩ := exists_ok_of_toOption_map hok
  have hvalid := isValid_iff_satisfies (plain_strings none) h
  refine ⟨plain_strings none, state, h, hvalid.1 ?_⟩
  intro id front hid
  cases hid

/-- With three hash signs at the end of its id, the schema is not found, and a number is accepted
where a string is asked for. -/
theorem threeHashes_accepts :
    Plain (strings (some "foo###")) ∧ ∃ state,
      validate Options.standard (strings (some "foo###")) (.number (.int 1)) = .ok state
        ∧ ¬(state.isValid = true ↔ Satisfies Options.standard.unicodeLength
          (strings (some "foo###")) (.number (.int 1))) := by
  have hok : (validate Options.standard (strings (some "foo###")) (.number (.int 1))).toOption.map
      ValidationState.isValid = some true := by rfl
  obtain ⟨state, h, hvalid⟩ := exists_ok_of_toOption_map hok
  exact ⟨plain_strings _, state, h, fun hiff =>
    not_satisfies_strings _ _ _ (hiff.1 hvalid)⟩

end

end HyperSchema
