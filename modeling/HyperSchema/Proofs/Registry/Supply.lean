import HyperSchema.Proofs.Registry.Closure
import HyperSchema.Proofs.Store.Trail

/-!
# Documents that are asked for

A document that is missing can be supplied unless a URI of it has been compiled. What has been
compiled leads somewhere, so it has an entry of its own or its document is there. A document that is
missing is not there. So it is refused just when something of it has been compiled that came without
it: a schema under a URI with a fragment, added as a document or found by its id in another one.
-/

namespace HyperSchema

namespace Store

variable {s : Store} {base : String}

/-- The stores that can come about. -/
inductive Reached : Store → Prop
  | empty : Reached empty
  | layered {s : Store} (h : Reached s) : Reached s.layered
  | add {s : Store} (h : Reached s) (uri : String) (document : Json) : Reached (s.add uri document)
  | mark {s : Store} (h : Reached s) (uri : String) : Reached (s.markMissing uri)
  | resolve {s : Store} (h : Reached s) (uri : String) : Reached (s.resolve? uri).2

/-- Only documents are recorded as missing, no places in them. -/
def Bare (s : Store) : Prop := ∀ l ∈ s.layers, ∀ base ∈ l.missing, '#' ∉ base.toList

theorem Bare.of_top {s' : Store} (h : s.Bare) (hbelow : s'.below = s.below)
    (htop : ∀ base ∈ s'.top.missing, base ∈ s.top.missing ∨ '#' ∉ base.toList) : s'.Bare := by
  rw [Bare, layers, List.forall_mem_cons] at h ⊢
  rw [hbelow]
  exact ⟨fun base hbase => (htop base hbase).elim (h.1 base) id, h.2⟩

theorem Bare.recordMissing (h : s.Bare) (hbase : '#' ∉ base.toList) : (s.recordMissing base).Bare :=
  h.of_top rfl fun _ hother => by
    rcases NameSet.mem_insert.1 hother with rfl | hother
    · exact .inr hbase
    · exact .inl hother

theorem Reached.bare (h : s.Reached) : s.Bare := by
  induction h with
  | empty => exact List.forall_mem_singleton.2 fun _ hbase => absurd hbase List.not_mem_nil
  | layered _ ih => exact List.forall_mem_cons.2 ⟨fun _ hbase => absurd hbase List.not_mem_nil, ih⟩
  | add _ uri document ih =>
      refine ih.of_top (below_add _ uri document) fun base hbase => ?_
      rcases mem_missing_add.1 hbase with ⟨hbase, -⟩ | ⟨target, -, -, -, rfl⟩
      · exact .inl hbase
      · exact .inr (SchemaUri.hash_not_mem_base target)
  | mark _ uri ih =>
      rw [markMissing]
      split
      · exact ih
      · exact ih.recordMissing (SchemaUri.hash_not_mem_base uri)
  | @resolve s _ uri ih =>
      rw [resolve?]
      cases hresolution : s.resolution (SchemaUri.normalize uri) with
      | documentAbsent base => exact ih.recordMissing (hash_not_mem_of_documentAbsent hresolution)
      | found target v => exact ih
      | nodeAbsent => exact ih
      | circular chain => exact ih

end Store

namespace Registry

variable {r r' : Registry} {uri base : String}

/-- What is known of a registry between commands: everything that is done has an entry of its own,
or its document is there. -/
structure Grounded (r : Registry) : Prop where
  store : r.store.Reached
  handled : ∀ u ∈ r.handled,
    r.store.contains (SchemaUri.normalize u) = true ∨ r.store.contains (SchemaUri.base u) = true

namespace Grounded

theorem congr (h : Grounded r) (hstore : r'.store = r.store) (hhandled : r'.handled = r.handled) :
    Grounded r' := by
  refine ⟨hstore ▸ h.store, ?_⟩
  rw [hstore, hhandled]
  exact h.handled

theorem compiles {error : Option PatternError} {waits : Bool} (h : Grounded r)
    (hcompiles : Compiles r uri r' error waits) : Grounded r' where
  store := by
    cases hcompiles with
    | documentAbsent habsent =>
        have hreached := h.store.resolve uri
        rwa [Store.resolve?, habsent] at hreached
    | renamed =>
        dsimp only
        rw [(sameBut_enqueue _ _).store]
        exact h.store
    | schema =>
        dsimp only
        rw [(sameBut_enqueueAll _ _).store]
        exact h.store
    | _ => exact h.store
  handled := fun u hu => by
    rw [hcompiles.sameDocuments.contains, hcompiles.sameDocuments.contains]
    rcases hcompiles.mem_handled.1 hu with hu | ⟨rfl, hwaits⟩
    · exact h.handled u hu
    · exact Store.contains_of_settled (hcompiles.waits_iff.1 hwaits)

theorem compile (h : Grounded r) : Grounded r.compile.1 := by
  have hskip : ∀ (r' : Registry) u rest (waiting : List String) (failure : Option PatternError),
      r'.queue = u :: rest → u ∈ r'.handled → Grounded r' → Grounded { r' with queue := rest } :=
    fun _ _ _ _ _ _ _ hgrounded => hgrounded.congr rfl rfl
  have hstep : ∀ (r' : Registry) u rest (waiting : List String) (failure : Option PatternError)
      r'' error waits, r'.queue = u :: rest → u ∉ r'.handled → Grounded r' →
        Compiles { r' with queue := rest } u r'' error waits → Grounded r'' := by
    intro r' u rest _ _ r'' error waits _ _ hgrounded hcompiles
    have hrest : Grounded { r' with queue := rest } := hgrounded.congr rfl rfl
    exact hrest.compiles hcompiles
  obtain ⟨r', waiting, failure, hgrounded, -, hcompile⟩ := compile_induction hskip hstep h
  rw [hcompile]
  exact hgrounded.congr rfl rfl

theorem supply (h : Grounded r) (document : Option Json) : Grounded (r.supply uri document) := by
  cases document with
  | some document =>
      refine ⟨h.store.add uri document, fun u hu => ?_⟩
      exact (h.handled u hu).imp (Store.contains_add uri document) (Store.contains_add uri document)
  | none =>
      rw [Registry.supply]
      split
      · exact h
      · refine ⟨h.store.mark uri, fun u hu => ?_⟩
        have hsame := (r.store.sameDocuments_markMissing uri).contains
        dsimp only
        rw [hsame, hsame]
        exact h.handled u hu

theorem obey (h : Grounded r) (command : Command) : Grounded (r.obey command) := by
  cases command with
  | schema uri document name =>
      rw [Registry.obey, addSchema]
      split
      · next r' hadd =>
        split at hadd
        · cases hadd
        · obtain rfl := Except.ok.inj hadd
          exact (h.supply document).congr rfl rfl
      · exact h
  | format name refusal? => exact h.congr rfl rfl
  | compilation => exact h.compile

theorem obeyAll (h : Grounded r) (commands : List Command) : Grounded (r.obeyAll commands) := by
  induction commands generalizing r with
  | nil => exact h
  | cons command rest ih => exact ih (h.obey command)

end Grounded

theorem hash_not_mem_of_missing (hstore : r.store.Reached) (h : base ∈ r.missingDocuments) :
    '#' ∉ base.toList := by
  rcases (mem_missingDocuments.1 h).1 with ⟨u, -, rfl⟩ | hmissing
  · exact SchemaUri.hash_not_mem_base u
  · obtain ⟨⟨l, hl, hbase⟩, -⟩ := Store.mem_missing_iff.1 hmissing
    exact hstore.bare l hl base hbase

/-- Whether a part of a document has been compiled that stands in the store by itself. -/
def CompiledInPart (r : Registry) (base : String) : Prop :=
  ∃ u ∈ r.handled, SchemaUri.base u = base ∧ r.store.contains (SchemaUri.normalize u) = true

/-- Of a document that is not there, only parts can have been compiled. -/
theorem Grounded.handlesBase_iff_compiledInPart (h : Grounded r)
    (habsent : r.store.contains base = false) :
    r.handlesBase base = true ↔ r.CompiledInPart base := by
  rw [handlesBase_iff]
  constructor
  · rintro ⟨u, hu, rfl⟩
    refine ⟨u, hu, rfl, (h.handled u hu).resolve_right ?_⟩
    rw [habsent]
    exact Bool.false_ne_true
  · rintro ⟨u, hu, hbase, -⟩
    exact ⟨u, hu, hbase⟩

/-- A document that is missing is accepted, and no longer missing then, unless a part of it has been
compiled; in that case it is refused. -/
theorem addSchema_of_missing {store : Store} {options : Options} {commands : List Command}
    (hstore : store.Reached)
    (hmissing : base ∈ ((ofStore store options).obeyAll commands).missingDocuments)
    (document : Json) (name : Option String) :
    (∃ r', ((ofStore store options).obeyAll commands).addSchema base (some document) name = .ok r'
        ∧ base ∉ r'.missingDocuments)
      ↔ ¬((ofStore store options).obeyAll commands).CompiledInPart base := by
  have hgrounded : Grounded ((ofStore store options).obeyAll commands) :=
    Grounded.obeyAll ⟨hstore, fun _ hu => absurd hu List.not_mem_nil⟩ commands
  generalize (ofStore store options).obeyAll commands = r at hmissing hgrounded ⊢
  have hhash := hash_not_mem_of_missing hgrounded.store hmissing
  rw [← hgrounded.handlesBase_iff_compiledInPart (mem_missingDocuments.1 hmissing).2, addSchema,
    SchemaUri.normalize_of_no_hash hhash, SchemaUri.base_of_no_hash hhash, Option.isSome_some,
    Bool.true_and]
  split
  · next hrefused =>
    refine iff_of_false ?_ (not_not_intro hrefused)
    rintro ⟨r', hadd, -⟩
    cases hadd
  · next haccepted =>
    refine iff_of_true ⟨_, rfl, fun hmem => ?_⟩ haccepted
    have habsent := (mem_missingDocuments.1 hmem).2
    have hfind := r.store.find?_add_self base document
    rw [SchemaUri.normalize_of_no_hash hhash] at hfind
    rw [Store.contains] at habsent
    simp [enrol, supply, hfind] at habsent

/-- A schema that refers to another document, of which nothing has come. -/
def unanswered : List Command :=
  [.schema "a" (some (.object [("$ref", .string "b#two")])) none, .compilation]

theorem addSchema_of_missing_unanswered :
    "b" ∈ ((empty .standard).obeyAll unanswered).missingDocuments
      ∧ ∃ r', ((empty .standard).obeyAll unanswered).addSchema "b" (some (.object [])) none = .ok r'
        ∧ "b" ∉ r'.missingDocuments := by
  have hmissing : "b" ∈ ((empty .standard).obeyAll unanswered).missingDocuments := by
    decide +kernel
  have hhandled : ((empty .standard).obeyAll unanswered).handled = [] := by
    decide +kernel
  refine ⟨hmissing, (addSchema_of_missing .empty hmissing _ none).2 ?_⟩
  rintro ⟨u, hu, -⟩
  have hnone : u ∈ ((empty .standard).obeyAll unanswered).handled := hu
  rw [hhandled] at hnone
  cases hnone

/-! ### Documents that are refused although they are asked for -/

theorem Compiles.mem_missing_of_mem {error : Option PatternError} {waits : Bool}
    (h : Compiles r uri r' error waits) (hmissing : base ∈ r.store.missing) :
    base ∈ r'.store.missing := by
  rw [Store.mem_missing_iff, Store.layers] at hmissing ⊢
  rw [h.sameDocuments.contains, h.sameDocuments.below]
  obtain ⟨⟨l, hl, hbase⟩, habsent⟩ := hmissing
  refine ⟨?_, habsent⟩
  rcases List.mem_cons.1 hl with rfl | hl
  · exact ⟨_, List.mem_cons_self, h.mem_store_missing.2 (.inr hbase)⟩
  · exact ⟨l, List.mem_cons_of_mem _ hl, hbase⟩

theorem mem_missing_compile (h : base ∈ r.store.missing) : base ∈ r.compile.1.store.missing := by
  have hskip : ∀ (r' : Registry) u rest (waiting : List String) (failure : Option PatternError),
      r'.queue = u :: rest → u ∈ r'.handled → base ∈ r'.store.missing →
        base ∈ ({ r' with queue := rest } : Registry).store.missing :=
    fun _ _ _ _ _ _ _ hmissing => hmissing
  have hstep : ∀ (r' : Registry) u rest (waiting : List String) (failure : Option PatternError)
      r'' error waits, r'.queue = u :: rest → u ∉ r'.handled → base ∈ r'.store.missing →
        Compiles { r' with queue := rest } u r'' error waits → base ∈ r''.store.missing :=
    fun _ _ _ _ _ _ _ _ _ _ hmissing hcompiles => hcompiles.mem_missing_of_mem hmissing
  obtain ⟨r', waiting, failure, hmissing, -, hcompile⟩ := compile_induction hskip hstep h
  rw [hcompile]
  exact hmissing

theorem Sound.handled_compile {log : List Reading} (h : Sound r log) (hknown : Known r [] uri)
    (hsettled : r.store.Settled uri) : uri ∈ r.compile.1.handled := by
  obtain ⟨hadvances, hwaiting⟩ := advances_compile h.tidy h.single h.fresh
  exact handled_of_settled hwaiting (hadvances.kept uri hknown) hsettled

/-- A part of a document, and a schema that refers to another part of it. -/
def parted : List Command :=
  [.schema "b#one" (some (.object [("type", .string "string")])) none,
    .schema "a" (some (.object [("$ref", .string "b#two")])) none]

/-- Once the part is compiled, the document is asked for and refused. -/
theorem parted_refused :
    "b" ∈ ((empty .standard).obeyAll (parted ++ [.compilation])).missingDocuments
      ∧ ((empty .standard).obeyAll (parted ++ [.compilation])).addSchema "b"
        (some (.object [])) none = .error ⟨"b"⟩ := by
  have htidy : ∀ command ∈ parted, command.Tidy := by
    rw [parted, List.forall_mem_cons, List.forall_mem_singleton]
    refine ⟨⟨by decide, fun d hd => ?_⟩, by decide, fun d hd => ?_⟩
    · rw [← Option.some.inj hd]
      decide +kernel
    · rw [← Option.some.inj hd]
      decide +kernel
  have hsound := (Sound.init Store.empty .standard Store.tidy_empty).obeyAll htidy
  rw [← empty] at hsound
  have hmissing : "b" ∈ ((empty .standard).obeyAll parted).store.missing := by decide +kernel
  have hqueued : "b#one" ∈ ((empty .standard).obeyAll parted).queue := by decide +kernel
  have hsettled : ((empty .standard).obeyAll parted).store.Settled "b#one" := by decide +kernel
  rw [obeyAll_append]
  generalize (empty .standard).obeyAll parted = r at hsound hmissing hqueued hsettled ⊢
  have hhandled := hsound.handled_compile (.inr (.inl hqueued)) hsettled
  have hlater := mem_missing_compile hmissing
  have hbase : r.compile.1.handlesBase "b" = true :=
    handlesBase_iff.2 ⟨_, hhandled, by decide +kernel⟩
  refine ⟨mem_missingDocuments.2 ⟨.inr hlater, (Store.mem_missing_iff.1 hlater).2⟩, ?_⟩
  have hnormalize : SchemaUri.normalize "b" = "b" := by decide +kernel
  have hwhole : SchemaUri.base "b" = "b" := by decide +kernel
  rw [obeyAll, List.foldl_cons, List.foldl_nil, obey, addSchema, hnormalize, hwhole, hbase]
  rfl

end Registry

end HyperSchema
