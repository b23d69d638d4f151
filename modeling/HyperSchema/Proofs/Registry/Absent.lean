import HyperSchema.Proofs.Registry.Demand
import HyperSchema.Proofs.Registry.Visits
import HyperSchema.Proofs.Validation.Polarity

/-!
# Absent schemas

Where a schema is absent, nothing is imposed. Supplying it therefore only takes validity away, as
long as the references that it answers stand positively: what is valid once it is there was valid
without it. A negated reference to an absent schema does impose something, as everything passes the
absent schema and so nothing its negation.
-/

namespace HyperSchema

namespace Registry

variable {r r' : Registry} {uri : String}

/-! ### What is there stays -/

/-- What is not done has been made nothing of, and the tables name no URI twice. -/
structure Orderly (r : Registry) : Prop where
  fresh : ∀ u, u ∉ r.handled → Table.get? r.entries u = none ∧ Table.get? r.aliases u = none
  distinct : Table.Distinct r.entries ∧ Table.Distinct r.aliases

theorem Orderly.congr (h : Orderly r) (hhandled : r'.handled = r.handled)
    (hentries : r'.entries = r.entries) (haliases : r'.aliases = r.aliases) : Orderly r' := by
  refine ⟨fun u hu => ?_, ?_⟩
  · rw [hentries, haliases]
    exact h.fresh u (hhandled ▸ hu)
  · rw [hentries, haliases]
    exact h.distinct

theorem orderly_ofStore (store : Store) (options : Options) : Orderly (ofStore store options) :=
  ⟨fun _ _ => ⟨rfl, rfl⟩, List.nodup_nil, List.nodup_nil⟩

theorem of_addSchema {document : Option Json} {name : Option String}
    (hadd : r.addSchema uri document name = .ok r') : r'.options = r.options
      ∧ r'.handled = r.handled ∧ r'.entries = r.entries ∧ r'.aliases = r.aliases := by
  rw [addSchema] at hadd
  split at hadd
  · cases hadd
  · obtain rfl := Except.ok.inj hadd
    cases document with
    | some document => exact ⟨rfl, rfl, rfl, rfl⟩
    | none =>
        rw [supply]
        split
        · exact ⟨rfl, rfl, rfl, rfl⟩
        · exact ⟨rfl, rfl, rfl, rfl⟩

theorem Orderly.addSchema {document : Option Json} {name : Option String} (h : Orderly r)
    (hadd : r.addSchema uri document name = .ok r') : Orderly r' := by
  obtain ⟨-, hhandled, hentries, haliases⟩ := of_addSchema hadd
  exact h.congr hhandled hentries haliases

theorem Orderly.compile (h : Orderly r) : Orderly r.compile.1 := by
  have hstep : ∀ (r' : Registry) u rest (waiting : List String) (failure : Option PatternError)
      r'' error waits, r'.queue = u :: rest → u ∉ r'.handled → Orderly r' →
        Compiles { r' with queue := rest } u r'' error waits → Orderly r'' :=
    fun _ _ _ _ _ _ _ _ _ hopen horderly hcompiles =>
      ⟨fun _ hu => hcompiles.fresh hopen horderly.fresh hu,
        hcompiles.distinct horderly.distinct.1 horderly.distinct.2⟩
  obtain ⟨r', waiting, failure, horderly, -, hcompile⟩ := compile_induction
    (P := fun r' _ _ => Orderly r') (fun _ _ _ _ _ _ _ hP => hP.congr rfl rfl rfl) hstep h
  rw [hcompile]
  exact horderly.congr rfl rfl rfl

theorem Reached.orderly (h : Reached r) : Orderly r := by
  induction h with
  | start => exact orderly_ofStore _ _
  | format _ _ _ ih => exact ih.congr rfl rfl rfl
  | schema _ hadd ih => exact ih.addSchema hadd
  | compilation _ ih => exact ih.compile

theorem options_compile (r : Registry) : r.compile.1.options = r.options := by
  obtain ⟨r', waiting, failure, hoptions, -, hcompile⟩ := compile_induction
    (P := fun r' _ _ => r'.options = r.options) (fun _ _ _ _ _ _ _ hP => hP)
    (fun _ _ _ _ _ _ _ _ _ _ hP hcompiles => hcompiles.options.trans hP) rfl
  rw [hcompile]
  exact hoptions

section

variable (horderly : Orderly r) (hsame : ∀ u ∈ r.handled, SameAt r r' u)

include horderly hsame

/-- Aliases that lead on and entries at their ends belong to URIs that are done. -/
theorem targetWithin_of_same {steps steps' : Nat} (hsteps : steps ≤ steps') {entry : Entry}
    (h : r.snapshot.targetWithin steps uri = some entry) :
    r'.snapshot.targetWithin steps' uri = some entry := by
  induction steps generalizing steps' uri with
  | zero => cases h
  | succ steps ih =>
      obtain ⟨more, rfl⟩ := Nat.exists_eq_add_of_le' (Nat.le_trans (Nat.le_add_left 1 steps) hsteps)
      rw [Snapshot.targetWithin] at h ⊢
      have hdone : uri ∈ r.handled := by
        by_contra hopen
        have hnone := horderly.fresh uri hopen
        simp only [snapshot, hnone.1, hnone.2] at h
        cases h
      have hentries : Table.get? r'.snapshot.entries uri = Table.get? r.snapshot.entries uri :=
        (hsame uri hdone).1
      have haliases : Table.get? r'.snapshot.aliases uri = Table.get? r.snapshot.aliases uri :=
        (hsame uri hdone).2
      rw [hentries, haliases]
      cases hentry : Table.get? r.snapshot.entries uri with
      | some found =>
          rw [hentry] at h
          exact h
      | none =>
          rw [hentry] at h
          dsimp only at h ⊢
          cases halias : Table.get? r.snapshot.aliases uri with
          | none =>
              rw [halias] at h
              cases h
          | some next =>
              rw [halias] at h
              exact ih (Nat.le_of_succ_le_succ hsteps) h

theorem length_aliases_le : r.aliases.length ≤ r'.aliases.length := by
  have hsub : Table.keys r.aliases ⊆ Table.keys r'.aliases := by
    intro u hu
    by_contra hnot
    have hdone : u ∈ r.handled := by
      by_contra hopen
      exact Table.get?_eq_none_iff.1 (horderly.fresh u hopen).2 hu
    rw [← Table.get?_eq_none_iff, (hsame u hdone).2, Table.get?_eq_none_iff] at hnot
    exact hnot hu
  have hle := List.Nodup.length_le_of_subset horderly.distinct.2 hsub
  rwa [Table.keys, Table.keys, List.length_map, List.length_map] at hle

theorem extends_of_same (hoptions : r'.options = r.options) :
    r.snapshot.Extends r'.snapshot where
  unicodeLength := congrArg Options.unicodeLength hoptions
  target := fun _ _ htarget => targetWithin_of_same horderly hsame
    (Nat.succ_le_succ (length_aliases_le horderly hsame)) htarget

end

theorem extends_supplied {document : Option Json} {name : Option String} (hreached : Reached r)
    (hadd : r.addSchema uri document name = .ok r') :
    r.snapshot.Extends r'.compile.1.snapshot := by
  obtain ⟨hoptions, hhandled, hentries, haliases⟩ := of_addSchema hadd
  refine extends_of_same hreached.orderly (fun u hu => ?_) (r'.options_compile.trans hoptions)
  obtain ⟨-, hkept⟩ := compile_of_handled (hhandled ▸ hu : u ∈ r'.handled)
  rwa [SameAt, hentries, haliases] at hkept

/-- If a value is valid once a document has been supplied, it is valid while the document is absent,
provided that no reference which the document answers stands negatively, be it below a negation or
in a choice of exactly one. -/
theorem isValid_of_supplied {b : String} {document : Json} {name : Option String} {v : Json}
    (hreached : Reached r) (hadd : r.addSchema b (some document) name = .ok r')
    (habsent : ∀ target, r.snapshot.Stands uri .negative (.reference target) →
      r.snapshot.target? target = none → r'.compile.1.snapshot.target? target = none)
    (hvalid : (r'.compile.1.snapshot.validate uri v).isValid = true) :
    (r.snapshot.validate uri v).isValid = true :=
  Snapshot.isValid_of_extends (extends_supplied hreached hadd) habsent hvalid

/-! ### A schema that includes one and excludes another -/

theorem compileUri_of_read {v : Json} {schema : CompiledSchema}
    (hfound : r.store.resolution (SchemaUri.normalize uri) = .found uri v)
    (hread : r.readSchema uri v = .ok schema) :
    r.compileUri uri
      = ({ schema.node.targets.foldl enqueue (r.finish uri) with
            entries := Table.insert (schema.node.targets.foldl enqueue (r.finish uri)).entries uri
              (.compiled schema) }, none, false) := by
  rw [compileUri, Store.resolve?, hfound]
  dsimp only
  rw [if_pos rfl, hread]

theorem compileUri_of_refused {v : Json} {e : PatternError}
    (hfound : r.store.resolution (SchemaUri.normalize uri) = .found uri v)
    (hread : r.readSchema uri v = .error e) :
    r.compileUri uri = (r.finish uri, some e, false) := by
  rw [compileUri, Store.resolve?, hfound]
  dsimp only
  rw [if_pos rfl, hread]

theorem drain_cons {rest waiting : List String} {failure error : Option PatternError}
    {waits : Bool} {steps : Nat} (hqueue : r.queue = uri :: rest) (hopen : uri ∉ r.handled)
    (hcompile : ({ r with queue := rest } : Registry).compileUri uri = (r', error, waits)) :
    drain (steps + 1) r waiting failure
      = drain steps r' (if waits then waiting ++ [uri] else waiting) (failure.or error) := by
  rw [drain, hqueue]
  dsimp only
  rw [if_neg (fun hmem => hopen (List.contains_iff_mem.1 hmem)), hcompile]

theorem ofSchema_of_combining {members : Table Json}
    (hkeys : ∀ key ∈ Table.keys members, key ∈ ["id", "allOf", "anyOf", "oneOf", "not"])
    {negated : Option Node} {allOf anyOf oneOf : List Node}
    (hnegated : Node.negation [] uri members = .ok negated)
    (hall : Node.listed [] uri "allOf" members = .ok allOf)
    (hany : Node.listed [] uri "anyOf" members = .ok anyOf)
    (hone : Node.listed [] uri "oneOf" members = .ok oneOf) :
    Node.ofSchema [] uri (.object members)
      = .ok (.schema ⟨uri, Kind.all, [], none, none, []⟩ [(Kind.all, [])] allOf anyOf oneOf
        negated) := by
  have hnone : ∀ key, key ∉ ["id", "allOf", "anyOf", "oneOf", "not"] →
      Table.get? members key = none := fun key hkey =>
    Table.get?_eq_none_iff.2 (fun hmem => hkey (hkeys key hmem))
  have hchecks : ∀ kind ∈ Kind.all, Node.checks [] uri members false kind = .ok [] := by
    intro kind _
    refine Node.checks_of_absent fun key hkey => hnone key ?_
    cases kind <;> revert key <;> decide
  have hplain : ∀ key ∈ ["$ref", "type", "enum", "format", "links"],
      Table.get? members key = none := by
    intro key hkey
    refine hnone key ?_
    revert key
    decide
  exact Node.ofSchema_of_absent hplain (Node.kindChecks_of_checks hchecks) hnegated hall hany hone

/-- A schema that includes one schema and excludes another. -/
def relying : Json :=
  .object [("allOf", .array [.object [("$ref", .string "b")]]),
    ("not", .object [("$ref", .string "c")])]

def relyingNode : Node :=
  .schema ⟨"a", Kind.all, [], none, none, []⟩ [(Kind.all, [])] [.reference "b"] [] []
    (some (.reference "c"))

theorem ofSchema_relying : Node.ofSchema [] "a" relying = .ok relyingNode := by
  have hreference : ∀ uri target, Node.ofSchema [] uri (.object [("$ref", .string target)])
      = .ok (.reference target) := fun uri target => Node.ofSchema_of_reference? [] uri rfl
  refine ofSchema_of_combining (by decide) ?_ ?_ ?_ ?_
  · exact Node.negation_of_get? rfl (hreference _ _)
  · rw [Node.listed_eq, show Schema.listOf _ "allOf" = [.object [("$ref", .string "b")]] from rfl,
      Node.nodesOf, hreference, Node.nodesOf]
    rfl
  · exact Node.listed_eq_nil rfl
  · exact Node.listed_eq_nil rfl

theorem ofSchema_empty (uri : String) : Node.ofSchema [] uri (.object [])
    = .ok (.schema ⟨uri, Kind.all, [], none, none, []⟩ [(Kind.all, [])] [] [] [] none) := by
  refine ofSchema_of_combining (fun key hkey => absurd hkey List.not_mem_nil) ?_
    (Node.listed_eq_nil rfl) (Node.listed_eq_nil rfl) (Node.listed_eq_nil rfl)
  rw [Node.negation]
  rfl

/-- The schema has come. -/
def relied : Registry where
  store := ⟨⟨[("a", relying)], ["b", "c"]⟩, []⟩
  options := .standard
  formats := []
  names := []
  aliases := []
  missing := []
  handled := []
  queue := ["a"]
  entries := []
  roots := ["a"]

/-- It has been compiled, while both others are absent. -/
def forsaken : Registry :=
  { relied with
    missing := ["b", "c"]
    handled := ["a"]
    queue := ["c", "b"]
    entries := [("a", .compiled ⟨"a", none, relyingNode⟩)] }

def excluded : Registry :=
  { forsaken with
    store := ⟨⟨[("a", relying), ("c", .bool false)], ["b"]⟩, []⟩
    missing := ["b"]
    queue := ["c", "b", "c"]
    roots := ["a", "c"] }

def settled : Registry :=
  { excluded with
    handled := ["a", "c"]
    queue := ["b"]
    entries :=
      [("a", .compiled ⟨"a", none, relyingNode⟩), ("c", .compiled ⟨"c", none, .reject "c"⟩)] }

def included : Registry :=
  { settled with
    store := ⟨⟨[("a", relying), ("c", .bool false), ("b", .object [])], []⟩, []⟩
    missing := []
    queue := ["b", "b"]
    roots := ["a", "c", "b"] }

theorem scan_relying : relying.scan "a" = ⟨relying, ["b", "c"], []⟩ := by
  have hresolve : ∀ target ∈ ["b", "c"], SchemaUri.resolve "a" target = target := by
    decide +kernel
  have hown : ∀ members : Table Json, Table.get? members "id" = none →
      Scan.ownId? "a" members = none := by
    intro members hnone
    rw [Scan.ownId?, hnone]
    rfl
  simp [relying, Json.scan, Scan.value, Scan.members, Scan.list, Scan.scopeOf, Scan.naming,
    Scan.target?, Scan.isData, hown, Table.get?, Json.asString?, hresolve]

theorem addSchema_relying : (empty .standard).addSchema "a" (some relying) none = .ok relied := by
  have hstore : (empty .standard).store.add "a" relying = relied.store := by
    rw [Store.add, show SchemaUri.normalize "a" = "a" from rfl, scan_relying]
    rfl
  have hsupply : (empty .standard).supply "a" (some relying)
      = { empty .standard with store := relied.store } := by
    rw [supply, hstore]
    rfl
  rw [addSchema, show SchemaUri.normalize "a" = "a" from rfl, hsupply]
  rfl

theorem compile_relied : relied.compile.1 = forsaken := by
  have hfound : relied.store.resolution (SchemaUri.normalize "a") = .found "a" relying := rfl
  have hread : ({ relied with queue := [] } : Registry).readSchema "a" relying
      = .ok ⟨"a", none, relyingNode⟩ := readSchema_of_ofSchema ofSchema_relying
  rw [compile, drainBound, drain_cons (show relied.queue = ["a"] from rfl) (by decide)
    (compileUri_of_read (r := { relied with queue := [] }) hfound hread)]
  rfl

theorem addSchema_forsaken :
    forsaken.addSchema "c" (some (.bool false)) none = .ok excluded := rfl

theorem compile_excluded : excluded.compile.1 = settled := by
  have hfound : excluded.store.resolution (SchemaUri.normalize "c")
      = .found "c" (.bool false) := rfl
  have hread : ({ excluded with queue := ["b", "c"] } : Registry).readSchema "c" (.bool false)
      = .ok ⟨"c", none, .reject "c"⟩ := by
    refine readSchema_of_ofSchema ?_
    rw [schemaOf, Node.ofSchema]
  rw [compile, drainBound, drain_cons (show excluded.queue = ["c", "b", "c"] from rfl) (by decide)
    (compileUri_of_read (r := { excluded with queue := ["b", "c"] }) hfound hread)]
  rfl

theorem reached_forsaken : Reached forsaken :=
  compile_relied ▸ .compilation (.schema (.start Store.empty .standard) addSchema_relying)

theorem reached_settled : Reached settled :=
  compile_excluded ▸ .compilation (.schema reached_forsaken addSchema_forsaken)

theorem stands_settled {p : Polarity} {node : Node} (h : settled.snapshot.Stands "a" p node) :
    p = .positive ∧ (node = .reference "a" ∨ node = relyingNode ∨ node = .reference "b")
      ∨ p = .negative ∧ (node = .reference "c" ∨ node = .reject "c") := by
  induction h with
  | root => exact .inl ⟨rfl, .inl rfl⟩
  | @turn p q node sub _ hturns ih =>
      obtain ⟨rfl, rfl | rfl | rfl⟩ | ⟨rfl, rfl | rfl⟩ := ih
      · cases hturns
      · cases hturns with
        | check hchecks hcheck _ =>
            obtain rfl := (Prod.mk.inj (List.mem_singleton.1 hchecks)).2
            cases hcheck
        | allOf hsub => exact .inl ⟨rfl, .inr (.inr (List.mem_singleton.1 hsub))⟩
        | anyOf hsub => cases hsub
        | oneOf hsub => cases hsub
        | negated => exact .inr ⟨rfl, .inl rfl⟩
      · cases hturns
      · cases hturns
      · cases hturns
  | @call p target schema _ htarget ih =>
      obtain ⟨rfl, htargets⟩ | ⟨rfl, htargets⟩ := ih
      · obtain heq | heq | heq := htargets
        · obtain rfl := Node.reference.inj heq
          obtain rfl := Entry.compiled.inj (Option.some.inj htarget)
          exact .inl ⟨rfl, .inr (.inl rfl)⟩
        · cases heq
        · obtain rfl := Node.reference.inj heq
          cases htarget
      · obtain heq | heq := htargets
        · obtain rfl := Node.reference.inj heq
          obtain rfl := Entry.compiled.inj (Option.some.inj htarget)
          exact .inr ⟨rfl, .inr rfl⟩
        · cases heq

theorem isValid_of_supplied_included :
    settled.addSchema "b" (some (.object [])) none = .ok included
      ∧ (included.compile.1.snapshot.validate "a" .null).isValid = true
      ∧ (settled.snapshot.validate "a" .null).isValid = true := by
  have hadd : settled.addSchema "b" (some (.object [])) none = .ok included := rfl
  have hread : ({ included with queue := ["b"] } : Registry).readSchema "b" (.object [])
      = .ok ⟨"b", none, .schema ⟨"b", Kind.all, [], none, none, []⟩ [(Kind.all, [])] [] [] []
        none⟩ := by
    rw [readSchema, show schemaOf (.object []) = .object [] from rfl,
      show included.formats = [] from rfl, ofSchema_empty]
    rfl
  have hfound : included.store.resolution (SchemaUri.normalize "b") = .found "b" (.object []) := rfl
  have hvalid : (included.compile.1.snapshot.validate "a" .null).isValid = true := by
    rw [compile, drainBound, drain_cons (show included.queue = ["b", "b"] from rfl) (by decide)
      (compileUri_of_read (r := { included with queue := ["b"] }) hfound hread)]
    rfl
  refine ⟨hadd, hvalid, isValid_of_supplied reached_settled hadd (fun target hstands hnone => ?_)
    hvalid⟩
  obtain ⟨hside, -⟩ | ⟨-, heq | heq⟩ := stands_settled hstands
  · cases hside
  · obtain rfl := Node.reference.inj heq
    cases hnone
  · cases heq

/-- While the excluded schema is absent, nothing is valid, although everything is valid once it has
come and excludes nothing. -/
theorem forsaken_rejects :
    Reached forsaken ∧ "c" ∈ forsaken.missingDocuments
      ∧ forsaken.addSchema "c" (some (.bool false)) none = .ok excluded
      ∧ (excluded.compile.1.snapshot.validate "a" .null).isValid = true
      ∧ (forsaken.snapshot.validate "a" .null).isValid = false := by
  refine ⟨reached_forsaken, by decide, addSchema_forsaken, ?_, rfl⟩
  rw [compile_excluded]
  rfl

end Registry

end HyperSchema
