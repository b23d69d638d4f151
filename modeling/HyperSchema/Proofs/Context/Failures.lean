import HyperSchema.Model.Errors
import HyperSchema.Proofs.Context.Rounds
import HyperSchema.Proofs.Registry.Lookups

/-!
# Failures on record

A document that the fetch could not get is put on record with the error, and null takes its place
unless another try is worth it. When the fetch gets it later, it is taken from the record. Nothing
else takes it from there but cleaning: neither registering the document, nor a schema in another
document that has its URI for an id. So what is on record is true as long as no document comes in
these ways for which there is an error, and no fetch fails for a document that is there by then.
-/

namespace HyperSchema

namespace Registry

variable {r r' : Registry} {uri u : String} {document : Json} {name : Option String}

theorem handlesBase_of_addSchema (h : r.addSchema uri (some document) name = .ok r') :
    r.handlesBase (SchemaUri.base uri) = false := by
  rw [addSchema, SchemaUri.base_normalize, Option.isSome_some, Bool.true_and] at h
  split at h
  · cases h
  · next hfree => exact Bool.eq_false_iff.2 hfree

theorem find?_addSchema (h : r.addSchema uri (some document) name = .ok r')
    (hu : u ∉ r.store.arrivals (SchemaUri.normalize uri) document) :
    r'.store.find? u = r.store.find? u := by
  rw [addSchema_eq_ok h]
  exact Store.find?_add_of_not_mem hu

/-- Registering a URI alone brings no document. -/
theorem sameDocuments_addSchema (h : r.addSchema uri none name = .ok r') :
    Store.SameDocuments r.store r'.store := by
  obtain rfl := Except.ok.inj h
  show Store.SameDocuments r.store (r.supply (SchemaUri.normalize uri) none).store
  rw [supply]
  split
  · exact .rfl
  · exact r.store.sameDocuments_markMissing _

end Registry

namespace Context

variable {c c' : Context} {base u : String} {a : Answer} {e : TransportError}

/-- A document is not there, or null has taken its place because no other try is worth it. -/
def Lacks (c : Context) (base : String) (e : TransportError) : Prop :=
  c.registry.store.find? base = none
    ∨ e.isTransient = false ∧ c.registry.store.find? base = some .null

/-- What is on record cannot be had. -/
def Truthful (c : Context) : Prop :=
  ∀ base e, Table.get? c.fetchErrors base = some e → c.Lacks base e

/-- None of these documents is on record. -/
def Unrecorded (c : Context) (bases : List String) : Prop :=
  ∀ base ∈ bases, Table.get? c.fetchErrors base = none

instance (c : Context) (bases : List String) : Decidable (c.Unrecorded bases) :=
  inferInstanceAs (Decidable (∀ base ∈ bases, _))

theorem Lacks.of_find? (h : c.Lacks base e)
    (hfind : c'.registry.store.find? base = c.registry.store.find? base) : c'.Lacks base e := by
  rwa [Lacks, hfind]

theorem Truthful.of_sameDocuments (h : c.Truthful) (herrors : c'.fetchErrors = c.fetchErrors)
    (hsame : Store.SameDocuments c.registry.store c'.registry.store) : c'.Truthful :=
  fun base e he => (h base e (herrors ▸ he)).of_find? (hsame.find? base)

theorem Truthful.recompile (h : c.Truthful) : c.recompile.1.Truthful :=
  h.of_sameDocuments rfl (Registry.sameDocuments_compile c.registry)

theorem Truthful.look (h : c.Truthful) {tried : List String}
    (hfetching : c.fetching = .looking tried) : (c.look tried).Truthful := by
  rw [look_eq hfetching]
  split
  all_goals exact h

/-! ### Registering -/

theorem Truthful.addSchema {uri : String} {document : Option Json} (h : c.Truthful)
    (hunrecorded : ∀ d, document = some d → c.registry.handlesBase (SchemaUri.base uri) = false →
      c.Unrecorded (c.registry.store.arrivals (SchemaUri.normalize uri) d)) (name : Option String) :
    (c.addSchema uri document name).1.Truthful := by
  rw [Context.addSchema]
  cases hadd : c.registry.addSchema uri document name with
  | error late => exact h
  | ok r =>
      have htaken : ({ c with registry := r } : Context).Truthful := by
        cases document with
        | none => exact h.of_sameDocuments rfl (Registry.sameDocuments_addSchema hadd)
        | some d =>
            have hnew := hunrecorded d rfl (Registry.handlesBase_of_addSchema hadd)
            intro base e he
            refine (h base e he).of_find? (Registry.find?_addSchema hadd fun hmem => ?_)
            exact Option.some_ne_none e (he.symm.trans (hnew base hmem))
      exact htaken.recompile

/-! ### Answers -/

theorem fetchErrors_takeAnswer (c : Context) (base : String) (a : Answer) :
    (c.takeAnswer base a).fetchErrors = match a with
      | .ok _ => Table.erase c.fetchErrors base
      | .error e => Table.insert c.fetchErrors base e := by
  unfold takeAnswer
  dsimp only
  split
  · split <;> rfl
  · split
    · rfl
    · split <;> rfl

theorem find?_takeAnswer (hhash : '#' ∉ base.toList)
    (hu : ∀ document, documentOf? a = some document →
      c.registry.handlesBase base = false → u ∉ c.registry.store.arrivals base document) :
    (c.takeAnswer base a).registry.store.find? u = c.registry.store.find? u := by
  rw [registry_takeAnswer]
  split
  · next document hdocument =>
    rw [Registry.obey]
    split
    · next r hadd =>
      have hfree := Registry.handlesBase_of_addSchema hadd
      rw [SchemaUri.base_of_no_hash hhash] at hfree
      refine Registry.find?_addSchema hadd ?_
      rw [SchemaUri.normalize_of_no_hash hhash]
      exact hu document hdocument hfree
    · rfl
  · rfl

/-- What could not be had is lacking then, if it was not there before. -/
theorem lacks_takeAnswer (hhash : '#' ∉ base.toList)
    (hnone : c.registry.store.find? base = none) (e : TransportError) :
    (c.takeAnswer base (.error e)).Lacks base e := by
  have hregistry := c.registry_takeAnswer base (.error e)
  rw [documentOf?] at hregistry
  rw [Lacks, hregistry]
  by_cases htransient : e.isTransient = true
  · rw [if_pos htransient]
    exact .inl hnone
  · rw [if_neg htransient]
    dsimp only
    rw [Registry.obey]
    split
    · next r hadd =>
      have hfind := c.registry.store.find?_add_self base .null
      rw [SchemaUri.normalize_of_no_hash hhash] at hfind
      rw [Registry.addSchema_eq_ok hadd, SchemaUri.normalize_of_no_hash hhash]
      exact .inr ⟨Bool.eq_false_iff.2 htransient, hfind⟩
    · exact .inl hnone

end Context

/-- An answer that is taken in belies no error that is on record after its round: its document
brings none that is, and what could not be had is not there. -/
def Taking.Fits (after : Context) : Taking → Prop
  | ⟨c, base, .ok document⟩ => c.registry.handlesBase base = false →
      after.Unrecorded (c.registry.store.arrivals base document)
  | ⟨c, base, .error _⟩ => c.registry.store.contains base = false

instance (after : Context) : (k : Taking) → Decidable (k.Fits after)
  | ⟨_, _, .ok _⟩ => inferInstanceAs (Decidable (_ = false → Context.Unrecorded _ _))
  | ⟨_, _, .error _⟩ => inferInstanceAs (Decidable (_ = false))

namespace Context

variable {c after : Context} {base : String}

/-- Of what is on record, what still is afterwards cannot be had. -/
def TruthfulTo (c after : Context) : Prop :=
  ∀ base e, Table.get? c.fetchErrors base = some e →
    Table.get? after.fetchErrors base = some e → c.Lacks base e

theorem TruthfulTo.takeAnswer {a : Answer} (h : c.TruthfulTo after) (hhash : '#' ∉ base.toList)
    (hfits : Taking.Fits after ⟨c, base, a⟩) : (c.takeAnswer base a).TruthfulTo after := by
  intro u e he hafter
  rw [fetchErrors_takeAnswer] at he
  cases a with
  | ok document =>
      obtain rfl | hne := eq_or_ne u base
      · rw [Table.get?_erase_self] at he
        cases he
      · rw [Table.get?_erase_of_ne _ hne.symm] at he
        refine (h u e he hafter).of_find? (find?_takeAnswer hhash fun d hd hfree hmem => ?_)
        obtain rfl := Option.some.inj hd
        exact Option.some_ne_none e (hafter.symm.trans (hfits hfree u hmem))
  | error e' =>
      rw [Table.get?_insert] at he
      split at he
      · next heq =>
        obtain rfl := Option.some.inj he
        subst heq
        exact lacks_takeAnswer hhash (Option.isNone_iff_eq_none.1
          (Option.isSome_eq_false_iff.1 hfits)) _
      · next hne =>
        refine (h u e he hafter).of_find? (find?_takeAnswer hhash fun d hd _ hmem => ?_)
        rw [documentOf?] at hd
        split at hd
        · cases hd
        · -- null has no ids in it, so it comes under its own URI alone
          obtain rfl := Option.some.inj hd
          rw [Store.arrivals, SchemaUri.normalize_of_no_hash hhash] at hmem
          exact hne (List.mem_singleton.1 hmem)

theorem TruthfulTo.takings {answers : List (String × Answer)} (h : c.TruthfulTo after)
    (hhash : ∀ a ∈ answers, '#' ∉ a.1.toList) (hfits : ∀ k ∈ c.takings answers, k.Fits after) :
    (answers.foldl (fun c a => c.takeAnswer a.1 a.2) c).TruthfulTo after := by
  -- a later answer may take from the record what an earlier one belies, so `after` stays fixed
  induction answers generalizing c with
  | nil => exact h
  | cons a rest ih =>
      obtain ⟨base, a⟩ := a
      rw [List.forall_mem_cons] at hhash
      rw [Context.takings, List.forall_mem_cons] at hfits
      exact ih (h.takeAnswer hhash.1 hfits.1) hhash.2 hfits.2

theorem Truthful.collect {calls : List Call} (h : c.Truthful)
    (hhash : ∀ k ∈ calls, '#' ∉ k.base.toList) (tried : List String)
    (hfits : ∀ k ∈ c.takings (c.requests.answersTo calls), k.Fits (c.collect tried calls)) :
    (c.collect tried calls).Truthful := by
  have hstart : c.TruthfulTo (c.collect tried calls) := fun base e he _ => h base e he
  have htaken := hstart.takings (fun a ha => ?_) hfits
  · have htruthful : Truthful _ := fun base e he => htaken base e he he
    exact htruthful.recompile
  · obtain ⟨k, hk, heq⟩ := List.mem_filterMap.1 ha
    obtain ⟨answer, -, rfl⟩ := Option.map_eq_some_iff.1 heq
    exact hhash k hk

end Context

namespace Tasks

variable {t : Tasks} {e : Event}

/-- An event that belies no error: no document comes that is on record, and none that the fetch
could not get is there. -/
def Heeds (t : Tasks) : Event → Prop
  | .addSchema uri (some document) _ =>
      t.context.registry.handlesBase (SchemaUri.base uri) = false → t.context.Unrecorded
        (t.context.registry.store.arrivals (SchemaUri.normalize uri) document)
  | .finish => (∀ k ∈ t.suspended, k.own = false) →
      ∀ k ∈ t.context.takings (t.requests.answersTo t.context.calls),
        k.Fits (t.step .finish).context
  | _ => True

instance (t : Tasks) : (e : Event) → Decidable (t.Heeds e)
  | .addSchema _ (some _) _ => inferInstanceAs (Decidable (_ = false → Context.Unrecorded _ _))
  | .finish => inferInstanceAs (Decidable ((∀ k ∈ _, _) → ∀ k ∈ _, Taking.Fits _ k))
  | .addSchema _ none _ | .registerFormat .. | .wait .. | .clean | .call _ | .answer ..
  | .resume _ | .start | .look => .isTrue trivial

/-- Tasks whose context has come about, which call for documents, and whose record is true. -/
structure Informed (t : Tasks) : Prop where
  built : t.context.Built
  bases : ∀ k ∈ t.context.calls, '#' ∉ k.base.toList
  truthful : t.context.Truthful

theorem Informed.bases_look (h : t.Informed) {tried : List String}
    (hfetching : t.context.fetching = .looking tried) :
    ∀ k ∈ (t.context.look tried).calls, '#' ∉ k.base.toList := by
  rw [Context.calls_look hfetching]
  intro k hk
  have hbase := List.mem_map_of_mem (f := Call.base) hk
  rw [Requests.map_base_callAll] at hbase
  exact Registry.hash_not_mem_of_missing h.built.registry.store
    ((Context.mem_wanted_iff hfetching).1 hbase).1

theorem Informed.step (h : t.Informed) (hheeds : t.Heeds e) : (t.step e).Informed := by
  have hbuilt := built_step h.built e
  cases e with
  | addSchema uri document name =>
      refine ⟨hbuilt, ?_, h.truthful.addSchema (fun d hd => ?_) name⟩
      · exact (t.context.calls_addSchema uri document name).symm ▸ h.bases
      · subst hd
        exact hheeds
  | wait w background =>
      exact ⟨hbuilt, (t.context.calls_wait w background).symm ▸ h.bases, h.truthful⟩
  | clean => exact ⟨hbuilt, h.bases, fun _ _ he => nomatch he⟩
  | answer request a =>
      by_cases hopen : t.requests.isOpen request = true
      · have hstep : t.step (.answer request a) = _ := if_pos hopen
        rw [hstep] at hbuilt ⊢
        exact ⟨hbuilt, h.bases, h.truthful⟩
      · have hstep : t.step (.answer request a) = t := if_neg hopen
        rwa [hstep]
  | resume k =>
      by_cases hmay : t.MayResume k
      · have hstep : t.step (.resume k) = _ := if_pos hmay
        rw [hstep] at hbuilt ⊢
        exact ⟨hbuilt, h.bases, h.truthful⟩
      · have hstep : t.step (.resume k) = t := if_neg hmay
        rwa [hstep]
  | start =>
      refine ⟨hbuilt, t.context.calls_start.symm ▸ h.bases, ?_⟩
      show t.context.start.Truthful
      rw [Context.start]
      split
      all_goals exact h.truthful
  | look =>
      by_cases hlooking : ∃ tried, t.context.fetching = .looking tried
      · obtain ⟨tried, hfetching⟩ := hlooking
        rw [step_look hfetching] at hbuilt ⊢
        exact ⟨hbuilt, h.bases_look hfetching, h.truthful.look hfetching⟩
      · rwa [step_look_of_ne fun tried hfetching => hlooking ⟨tried, hfetching⟩]
  | finish =>
      rcases t.step_finish with hsame | ⟨tried, hnone, hstep⟩
      · rwa [hsame]
      · have hfits := hheeds fun k hk => Bool.eq_false_iff.2 (hnone k hk)
        rw [hstep] at hbuilt hfits ⊢
        exact ⟨hbuilt, fun _ hk => absurd hk List.not_mem_nil,
          h.truthful.collect h.bases tried hfits⟩
  | _ => exact ⟨hbuilt, h.bases, h.truthful⟩

theorem Informed.run {es : List Event} (h : t.Informed) (hheeds : Throughout Heeds t es) :
    (t.run es).Informed := by
  induction es generalizing t with
  | nil => exact h
  | cons e es ih => exact ih (h.step hheeds.1) hheeds.2

theorem informed_new {parent : Option Store} (hparent : ∀ s, parent = some s → s.Reached)
    (options : Options) : (new parent options).Informed :=
  ⟨built_new hparent options, fun _ hk => absurd hk List.not_mem_nil, fun _ _ he => nomatch he⟩

end Tasks

/-! ### What models report -/

namespace Model

variable {m : Model} {fetchError? : String → Option TransportError} {v : ValidationError}
  {url message : String}

theorem recorded_of_mem_schemaFailures (hv : v ∈ m.schemaFailures fetchError?)
    (hcause : v.cause = .schemaFetchFailed url message) :
    ∃ schema e, fetchError? schema = some e ∧ SchemaUri.base schema = url := by
  obtain ⟨⟨path, schemas⟩, -, hv⟩ := List.mem_flatMap.1 hv
  obtain ⟨schema, -, hfailure⟩ := List.mem_filterMap.1 hv
  obtain ⟨e, he, rfl⟩ := Option.map_eq_some_iff.1 hfailure
  exact ⟨schema, e, he, (Violation.schemaFetchFailed.inj hcause).1⟩

theorem recorded_of_mem_missingFailures (hv : v ∈ m.missingFailures fetchError?)
    (hcause : v.cause = .schemaFetchFailed url message) :
    ∃ schema e, fetchError? schema = some e ∧ SchemaUri.base schema = url := by
  obtain ⟨⟨path, schemas⟩, -, hv⟩ := List.mem_flatMap.1 hv
  obtain ⟨schema, -, rfl⟩ := List.mem_map.1 hv
  cases he : fetchError? schema with
  | some e =>
      rw [he] at hcause
      exact ⟨schema, e, he, (Violation.schemaFetchFailed.inj hcause).1⟩
  | none =>
      rw [he] at hcause
      cases hcause

/-- Besides what its schemas found, a model reports a failed fetch only for a schema on record. -/
theorem recorded_of_mem_errorsAt {path : String} {f : ErrorFilter}
    (hv : v ∈ m.errorsAt fetchError? path f) (hfetch : v ∉ m.errors)
    (hcause : v.cause = .schemaFetchFailed url message) :
    ∃ schema e, fetchError? schema = some e ∧ SchemaUri.base schema = url := by
  have hall := (List.mem_append.1 (List.mem_filter.1 hv).1).resolve_left hfetch
  split at hall
  · rcases List.mem_append.1 hall with hall | hmissing
    · rcases List.mem_append.1 hall with hdocument | hschema
      · rw [documentFailures] at hdocument
        split at hdocument
        · rw [List.mem_singleton.1 hdocument] at hcause
          cases hcause
        · cases hdocument
      · exact recorded_of_mem_schemaFailures hschema hcause
    · exact recorded_of_mem_missingFailures hmissing hcause
  · cases hall

end Model

namespace Tasks

/-- However the tasks take their turns, an error is on record only for a document that is not there
or that null stands in for, and no model reports a failed fetch for any other; as long as no
document comes that is on record, except by the fetch, and no fetch fails for one that is there. -/
theorem lacks_of_failed {parent : Option Store} {options : Options} {es : List Event}
    (hparent : ∀ s, parent = some s → s.Reached)
    (hheeds : Throughout Heeds (new parent options) es) :
    let c := ((new parent options).run es).context
    (∀ uri e, c.fetchError? uri = some e → c.Lacks (SchemaUri.base uri) e)
      ∧ ∀ (m : Model) (path : String) (f : ErrorFilter),
        ∀ v ∈ m.errorsAt c.fetchError? path f, v ∉ m.errors →
          ∀ url message, v.cause = .schemaFetchFailed url message →
            c.registry.store.find? url = none ∨ c.registry.store.find? url = some .null := by
  have htruthful := ((informed_new hparent options).run hheeds).truthful
  refine ⟨fun uri e he => htruthful _ e he, fun m path f v hv hfetch url message hcause => ?_⟩
  obtain ⟨schema, e, he, rfl⟩ := Model.recorded_of_mem_errorsAt hv hfetch hcause
  exact (htruthful _ e he).imp id And.right

/-! ### Runs -/

instance decidableThroughout {P : Tasks → Event → Prop} [∀ t e, Decidable (P t e)] :
    (es : List Event) → (t : Tasks) → Decidable (Throughout P t es)
  | [], _ => .isTrue trivial
  | e :: es, t =>
      have := decidableThroughout (P := P) es (t.step e)
      inferInstanceAs (Decidable (P t e ∧ Throughout P (t.step e) es))

/-- The fetch gets one of three documents; of the others, one is worth another try. -/
def rationing : List Event :=
  [.addSchema "a" none none, .addSchema "b" none none, .addSchema "c" none none,
    .wait (.settle 0) true, .start, .look, .answer 0 (.ok (.bool true)),
    .answer 1 (.error (.badStatus "b" 503)), .answer 2 (.error (.notFound "c")),
    .resume ⟨⟨"a", 0⟩, true⟩, .resume ⟨⟨"b", 1⟩, true⟩, .resume ⟨⟨"c", 2⟩, true⟩, .finish,
    .addSchema "d" (some (.bool true)) none]

def rationed : Context := ((new none .standard).run rationing).context

theorem heeds_rationing : decide (Throughout Heeds (new none .standard) rationing) = true := by
  cbv

theorem fetchErrors_rationed :
    rationed.fetchErrors = [("b", .badStatus "b" 503), ("c", .notFound "c")] := by cbv

theorem lacks_of_failed_rationing :
    (∀ s, (none : Option Store) = some s → s.Reached)
      ∧ Throughout Heeds (new none .standard) rationing
      ∧ rationed.fetchError? "b" = some (.badStatus "b" 503)
      ∧ rationed.Lacks (SchemaUri.base "b") (.badStatus "b" 503)
      ∧ rationed.fetchError? "c" = some (.notFound "c")
      ∧ rationed.Lacks (SchemaUri.base "c") (.notFound "c") := by
  have hparent : ∀ s, (none : Option Store) = some s → s.Reached := fun _ hs => nomatch hs
  have hheeds : Throughout Heeds (new none .standard) rationing := of_decide_eq_true heeds_rationing
  have hb : rationed.fetchError? "b" = some (.badStatus "b" 503) := by
    rw [Context.fetchError?, fetchErrors_rationed]
    rfl
  have hc : rationed.fetchError? "c" = some (.notFound "c") := by
    rw [Context.fetchError?, fetchErrors_rationed]
    rfl
  have hlacks := (lacks_of_failed hparent hheeds).1
  exact ⟨hparent, hheeds, hb, hlacks "b" _ hb, hc, hlacks "c" _ hc⟩

/-- The document of a schema cannot be had for the time being; then it is registered. -/
def overtaking : List Event :=
  [.addSchema "s" none none, .wait (.settle 0) true, .start, .look,
    .answer 0 (.error (.badStatus "s" 503)), .resume ⟨⟨"s", 0⟩, true⟩, .finish,
    .addSchema "s" (some (.bool true)) none]

def overtaken : Context := ((new none .standard).run overtaking).context

theorem fetchErrors_overtaken : overtaken.fetchErrors = [("s", .badStatus "s" 503)] := by cbv

theorem contains_overtaken :
    overtaken.registry.store.contains (SchemaUri.base "s") = true := by cbv

/-- Registering a document leaves the error on record that the fetch had put there. -/
theorem not_lacks_of_registered :
    ¬∀ (options : Options) (es : List Event), let c := ((new none options).run es).context
      ∀ uri e, c.fetchError? uri = some e → c.Lacks (SchemaUri.base uri) e := by
  intro h
  have hfailed : overtaken.fetchError? "s" = some (.badStatus "s" 503) := by
    rw [Context.fetchError?, fetchErrors_overtaken]
    rfl
  have hlacks : overtaken.Lacks (SchemaUri.base "s") _ := h .standard overtaking "s" _ hfailed
  have hthere := contains_overtaken
  rcases hlacks with hnone | ⟨hlasting, -⟩
  · rw [Store.contains, hnone] at hthere
    cases hthere
  · cases hlasting

end Tasks

end HyperSchema
