import HyperSchema.Proofs.Registry.Absent
import HyperSchema.Proofs.Validity

/-!
# Flat schemas

A schema without references is compiled in one step when it can be read. A flat schema, which holds
no other schemas and neither names types nor has a pattern, can always be read. By itself it accepts
what its choices and its keywords for the type of the value accept.
-/

namespace HyperSchema

open Schema (AllOfKeyword AnyOfKeyword EnumKeyword ItemKeywords KindKeywords MemberKeywords
  NotKeyword OneOfKeyword Sub)

variable {options : Options} {schema v : Json} {keywords : Table Json}

theorem normalize_inlineUri : SchemaUri.normalize inlineUri = inlineUri :=
  SchemaUri.normalize_of_no_hash hash_not_mem_inlineUri

/-- By itself a schema can be compiled, and accepts a value exactly when a statement holds. -/
def AcceptsIff (options : Options) (schema v : Json) (P : Prop) : Prop :=
  ∃ state, validate options schema v = .ok state ∧ (state.isValid = true ↔ P)

theorem AcceptsIff.of_iff {P Q : Prop} (h : AcceptsIff options schema v P) (hiff : P ↔ Q) :
    AcceptsIff options schema v Q := by
  obtain ⟨state, hstate, hvalid⟩ := h
  exact ⟨state, hstate, hvalid.trans hiff⟩

/-! ### Schemas that can be read -/

namespace Registry

variable {r : Registry} {node : Node}

theorem drain_nil (steps : Nat) (hqueue : r.queue = []) : drain steps r [] none = (r, none) := by
  have hsame : { r with queue := [] } = r := by rw [← hqueue]
  cases steps with
  | zero => rw [drain, hqueue, List.append_nil, hsame]
  | succ steps =>
      rw [drain, hqueue]
      dsimp only
      rw [hsame]

theorem exists_finished_alone (options : Options)
    (hcanonical : SchemaUri.normalize (ownUri schema) = ownUri schema)
    (hreferences : schema.references = [])
    (hread : Node.ofSchema [] (ownUri schema) (schemaOf schema) = .ok node) :
    ∃ r compiled, (alone options schema).compile = (r, none) ∧ compiled.node = node
      ∧ Finished (Store.empty.add (ownUri schema) schema) options (ownUri schema) schema compiled
        r := by
  have hpending := pending_alone options schema
  have hfound : (Store.empty.add (ownUri schema) schema).resolution
      (SchemaUri.normalize (ownUri schema)) = .found (ownUri schema) schema := by
    rw [hcanonical]
    refine Store.resolution_of_find? ?_ hreferences
    have hadded := Store.find?_add_of_no_references Store.empty (ownUri schema) hreferences
    rwa [hcanonical] at hadded
  have hcompiled : ({ alone options schema with queue := [] } : Registry).readSchema
      (ownUri schema) schema = .ok ⟨ownUri schema, none, node⟩ := readSchema_of_ofSchema hread
  have htargets : node.targets = [] := (read_of_no_references hcompiled hreferences).1
  refine ⟨_, ⟨ownUri schema, none, node⟩, ?_, rfl, hpending.finished hfound hread⟩
  rw [compile, drainBound, drain_cons hpending.queue List.not_mem_nil
    (compileUri_of_read (r := { alone options schema with queue := [] }) hfound hcompiled)]
  dsimp only
  rw [htargets, List.foldl_nil, if_neg Bool.false_ne_true, Option.none_or]
  exact drain_nil _ rfl

end Registry

theorem acceptsIff_of_read {node : Node} {P : Prop}
    (hcanonical : SchemaUri.normalize (ownUri schema) = ownUri schema)
    (hreferences : schema.references = [])
    (hread : Node.ofSchema [] (ownUri schema) (Registry.schemaOf schema) = .ok node)
    (hverdict : ∀ env : Environment, env.unicodeLength = options.unicodeLength →
      Verdict (node.evaluate env v "") P) : AcceptsIff options schema v P := by
  obtain ⟨r, compiled, hcompile, rfl, hfinished⟩ :=
    Registry.exists_finished_alone options hcanonical hreferences hread
  rw [AcceptsIff, validate_eq, hcompile]
  refine ⟨_, rfl, Snapshot.isValid_iff_of_target hfinished.target fun env henv => ?_⟩
  exact hverdict env (henv.trans (congrArg Options.unicodeLength hfinished.options))

/-! ### Schemas without schemas in them -/

theorem Schema.enumKeyword_of_absent (h : Table.get? keywords "enum" = none) (v : Json) :
    EnumKeyword keywords v :=
  fun _ hget => absurd (hget.symm.trans h) (Option.some_ne_none _)

/-- The keywords below which schemas stand. -/
def Schema.holders : List String :=
  ["not", "items", "additionalItems", "additionalProperties", "allOf", "anyOf", "oneOf",
    "properties", "patternProperties", "dependencies"]

theorem Schema.Sub.exists_holder {sub : Json} (h : Sub keywords sub) :
    ∃ key ∈ holders, Table.get? keywords key ≠ none := by
  cases h with
  | single key hkey hget | listed key hkey hget _ | named key hkey hget _ =>
      exact ⟨key, (show ∀ k ∈ _, k ∈ holders by decide) key hkey,
        Option.ne_none_iff_exists'.2 ⟨_, hget⟩⟩

/-- No schema is referred to or held, and there is no id, no pattern and no list of required
members. -/
structure Schema.Flat (keywords : Table Json) : Prop where
  references : (Json.object keywords).references = []
  holders : ∀ key ∈ holders, Table.get? keywords key = none
  absent : ∀ key ∈ ["id", "pattern", "required"], Table.get? keywords key = none

namespace Schema.Flat

section

variable (h : Flat keywords)

include h

theorem get?_ne {key : String} (hkey : key ∈ Schema.holders) (w : Json) :
    Table.get? keywords key ≠ some w := by
  rw [h.holders key hkey]
  exact Option.some_ne_none w |>.symm

theorem not_sub (sub : Json) : ¬Sub keywords sub := by
  intro hsub
  obtain ⟨key, hkey, hsome⟩ := hsub.exists_holder
  exact hsome (h.holders key hkey)

theorem combined (unicode : Bool) (v : Json) :
    AllOfKeyword unicode keywords v ∧ AnyOfKeyword unicode keywords v
      ∧ OneOfKeyword unicode keywords v ∧ NotKeyword unicode keywords v := by
  refine ⟨?_, ?_, ?_, ?_⟩
  · exact fun _ hget => absurd hget (h.get?_ne (by decide) _)
  · exact fun _ hget => absurd hget (h.get?_ne (by decide) _)
  · exact fun _ hget => absurd hget (h.get?_ne (by decide) _)
  · exact fun _ hget => absurd hget (h.get?_ne (by decide) _)

theorem itemKeywords (unicode : Bool) (v : Json) : ItemKeywords unicode keywords v where
  each := fun _ hget => absurd hget (h.get?_ne (by decide) _)
  tuple := fun _ hget => absurd hget (h.get?_ne (by decide) _)

theorem memberKeywords (unicode : Bool) (v : Json) : MemberKeywords unicode keywords v where
  properties := fun _ hget => absurd hget (h.get?_ne (by decide) _)
  patternProperties := fun _ hget => absurd hget (h.get?_ne (by decide) _)
  additionalProperties := fun _ hget => absurd hget (h.get?_ne (by decide) _)
  dependencies := fun _ hget => absurd hget (h.get?_ne (by decide) _)

theorem exists_checks (uri : String) (integer : Bool) (kind : Kind) :
    ∃ own, Node.checks [] uri keywords integer kind = .ok own := by
  cases kind with
  | null => exact ⟨_, by rw [Node.checks]⟩
  | boolean => exact ⟨_, by rw [Node.checks]⟩
  | number => exact ⟨_, by rw [Node.checks]⟩
  | string =>
      have hpattern : Node.text? keywords "pattern" = none := by
        rw [Node.text?, h.absent "pattern" (by decide)]
        rfl
      rw [Node.checks, Node.stringAssertions, hpattern]
      exact ⟨_, rfl⟩
  | array =>
      rw [Node.checks, Node.itemChecks_of_absent (h.holders "items" (by decide))]
      exact ⟨_, rfl⟩
  | object =>
      have hmembers : Node.memberChecks [] uri keywords = .ok [] :=
        Node.memberChecks_of_absent (h.holders "properties" (by decide))
          (h.holders "patternProperties" (by decide)) (h.holders "additionalProperties" (by decide))
          (h.holders "dependencies" (by decide)) (h.absent "required" (by decide))
      rw [Node.checks, hmembers]
      exact ⟨_, rfl⟩

theorem exists_ofSchema (uri : String) :
    ∃ node, Node.ofSchema [] uri (.object keywords) = .ok node := by
  choose own hown using h.exists_checks uri
    (Node.integersOnly (Node.head [] uri keywords).declared)
  rw [Node.ofSchema, text?_reference_eq_none h.references]
  dsimp only
  rw [Node.kindChecks_of_checks fun kind _ => hown kind,
    Node.negation_of_absent (h.holders "not" (by decide)),
    Node.listed_eq_nil (listOf_of_absent (h.holders "allOf" (by decide))),
    Node.listed_eq_nil (listOf_of_absent (h.holders "anyOf" (by decide))),
    Node.listed_eq_nil (listOf_of_absent (h.holders "oneOf" (by decide)))]
  exact ⟨_, rfl⟩

end

theorem verdict (h : Flat keywords) {env : Environment} {uri : String} {node : Node} {P : Prop}
    (hread : Node.ofSchema [] uri (.object keywords) = .ok node) (path : String)
    (hown : v.kind ∈ Node.allowedKinds (Node.declaredTypes keywords) → ∀ own,
      Node.checks [] uri keywords (Node.integersOnly (Node.declaredTypes keywords)) v.kind
          = .ok own →
        Verdict (Node.evaluateChecks env uri own v path) P) :
    Verdict (node.evaluate env v path)
      (v.kind ∈ Node.allowedKinds (Node.declaredTypes keywords) ∧ EnumKeyword keywords v ∧ P) := by
  have hagrees : ∀ sub, Sub keywords sub → Node.Agrees env sub :=
    fun sub hsub => absurd hsub (h.not_sub sub)
  cases Node.readAs_of_ofSchema hread with
  | reference href =>
      rw [text?_reference_eq_none h.references] at href
      cases href
  | other hobject => exact absurd rfl (hobject keywords)
  | @schema _ list _ _ _ _ _ hlist hnegated hallOf hanyOf honeOf =>
      have htyped : Verdict
          (if (Node.head [] uri keywords).allowed.contains v.kind then
            Node.evaluateBranches env uri (Node.branches list) v path else some [])
          ((Node.head [] uri keywords).allowed.contains v.kind = true → P) := by
        refine .ite fun hkind => ?_
        have hallowed := List.contains_iff_mem.1 hkind
        obtain ⟨hserved, hchecks⟩ := Node.kindChecks_spec hlist
        obtain ⟨own, hmem, heval⟩ :=
          Node.evaluateBranches_branches env uri path (hserved v.kind hallowed)
        rw [heval]
        exact hown hallowed own (hchecks _ hmem)
      refine (Node.schema_verdict hagrees hnegated hallOf hanyOf honeOf htyped).of_iff ?_
      have hcombined := h.combined env.unicodeLength v
      constructor
      · intro hholds
        obtain ⟨hkind, henum, hP, -⟩ := hholds
        exact ⟨hkind, henum, hP (List.contains_iff_mem.2 hkind)⟩
      · intro hholds
        obtain ⟨hkind, henum, hP⟩ := hholds
        exact ⟨hkind, henum, fun _ => hP, hcombined⟩

/-- A flat schema without types accepts what its choices and its keywords for the type of the value
accept. -/
theorem verdict_untyped (h : Flat keywords) (htype : Table.get? keywords "type" = none)
    {env : Environment} {uri : String} {node : Node}
    (hread : Node.ofSchema [] uri (.object keywords) = .ok node) (path : String) :
    Verdict (node.evaluate env v path)
      (EnumKeyword keywords v ∧ KindKeywords env.unicodeLength keywords v) := by
  have hdeclared : Node.declaredTypes keywords = [] := by rw [Node.declaredTypes, htype]
  have hkind : v.kind ∈ Node.allowedKinds [] := by
    generalize v.kind = kind
    cases kind <;> decide
  have hverdict : Verdict (node.evaluate env v path)
      (v.kind ∈ Node.allowedKinds (Node.declaredTypes keywords) ∧ EnumKeyword keywords v
        ∧ Node.KindAccepts env.unicodeLength keywords false v) :=
    h.verdict hread path fun _ own hchecks => by
      rw [hdeclared] at hchecks
      exact Node.checks_verdict (fun sub hsub => absurd hsub (h.not_sub sub))
        (fun htrue => absurd htrue Bool.false_ne_true) hchecks
  refine hverdict.of_iff ?_
  rw [hdeclared]
  constructor
  · intro hholds
    obtain ⟨-, henum, haccepts⟩ := hholds
    exact ⟨henum, haccepts.kind⟩
  · intro hholds
    obtain ⟨henum, hkeywords⟩ := hholds
    exact ⟨hkind, henum, fun _ _ htrue => absurd htrue Bool.false_ne_true, hkeywords,
      h.itemKeywords _ _, h.memberKeywords _ _⟩

/-- A flat schema accepts the numbers that it allows, that are among its choices and that pass its
tests. -/
theorem verdict_number (h : Flat keywords) {n : Number} {env : Environment} {uri : String}
    {node : Node} (hread : Node.ofSchema [] uri (.object keywords) = .ok node) (path : String) :
    Verdict (node.evaluate env (.number n) path)
      (.number ∈ Node.allowedKinds (Node.declaredTypes keywords)
        ∧ EnumKeyword keywords (.number n)
        ∧ ∀ a ∈ Node.numberAssertions keywords
          (Node.integersOnly (Node.declaredTypes keywords)), a.ofNumber n.toFloat = none) := by
  refine h.verdict hread path fun _ own hchecks => ?_
  cases Node.kindReads_of_checks hchecks
  exact Node.evaluateChecks_assertions _

theorem acceptsIff (h : Flat keywords) {P : Prop}
    (hverdict : ∀ env : Environment, env.unicodeLength = options.unicodeLength → ∀ uri node,
      Node.ofSchema [] uri (.object keywords) = .ok node → Verdict (node.evaluate env v "") P) :
    AcceptsIff options (.object keywords) v P := by
  have hown : ownUri (.object keywords) = inlineUri := by
    rw [ownUri, Json.member?, h.absent "id" (by decide)]
    exact normalize_inlineUri
  have hcanonical : SchemaUri.normalize (ownUri (.object keywords))
      = ownUri (.object keywords) := by
    rw [hown, normalize_inlineUri]
  obtain ⟨node, hnode⟩ := h.exists_ofSchema (ownUri (.object keywords))
  exact acceptsIff_of_read hcanonical h.references hnode fun env henv =>
    hverdict env henv _ node hnode

end Schema.Flat

theorem acceptsIff_untyped (h : Schema.Flat keywords)
    (htype : Table.get? keywords "type" = none) (options : Options) (v : Json) :
    AcceptsIff options (.object keywords) v
      (EnumKeyword keywords v ∧ KindKeywords options.unicodeLength keywords v) :=
  h.acceptsIff fun _ henv _ _ hread => henv ▸ h.verdict_untyped htype hread ""

end HyperSchema
