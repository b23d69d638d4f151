import HyperSchema.Proofs.NameSet
import HyperSchema.Proofs.Registry.Arrival
import HyperSchema.Proofs.Store.Ids

/-!
# The order of arrival does not matter

Documents arrive in some order, and what is there is compiled at any moments between them. When
all have arrived and the rest has been compiled, the outcome is described by the documents alone:
what is asked for and leads somewhere has been compiled, and what is missing is what is needed and
not there. So the answers of a network may come in any order.
-/

namespace HyperSchema

namespace Snapshot

/-- Snapshots with the same schemas and aliases validate alike, whatever order these stand in. -/
theorem validate_congr {s s' : Snapshot} (hoptions : s'.options = s.options)
    (hentries : ∀ uri, Table.get? s'.entries uri = Table.get? s.entries uri)
    (haliases : ∀ uri, Table.get? s'.aliases uri = Table.get? s.aliases uri)
    (hentriesLength : s'.entries.length = s.entries.length)
    (haliasesLength : s'.aliases.length = s.aliases.length) (uri : String) (v : Json) :
    s'.validate uri v = s.validate uri v := by
  have hwithin : ∀ steps uri, s'.targetWithin steps uri = s.targetWithin steps uri := by
    intro steps
    induction steps with
    | zero => exact fun _ => rfl
    | succ steps ih =>
        intro uri
        rw [targetWithin, targetWithin, hentries, haliases]
        simp only [ih]
  have hcall : ∀ depth active target v path,
      s'.call depth active target v path = s.call depth active target v path := by
    intro depth
    induction depth with
    | zero => exact fun _ _ _ _ => rfl
    | succ depth ih =>
        intro active target v path
        have henv : ∀ active, s'.call depth active = s.call depth active := by
          intro active
          funext target v path
          exact ih active target v path
        rw [call, call, target?, target?, hwithin, haliasesLength, hoptions]
        simp only [henv]
  have hfindings : s'.findings uri v "" = s.findings uri v "" := by
    rw [findings, findings, depthBound, depthBound, hcall, hentriesLength]
  rw [validate, validateAll, runAll, List.foldl_cons, List.foldl_nil, run, hfindings, hoptions]
  rfl

end Snapshot

namespace Registry

variable {start r r' : Registry} {docs docs' : Corpus} {uri : String}

/-! ### The outcome -/

theorem Tracks.handled_iff (h : Tracks start docs r []) (hwaits : ∀ u ∈ r.queue, Waits r u) :
    uri ∈ r.handled ↔ Demanded r uri ∧ r.store.Settled uri := by
  have hdone : ∀ {u}, Known r [] u → r.store.Settled u → u ∈ r.handled := by
    intro u h hsettled
    rcases h with hu | hu | hu
    · exact hu
    · exact absurd hsettled (hwaits u hu).unsettled
    · cases hu
  refine ⟨fun hu => ⟨h.demanded uri (.inl hu), h.settled uri hu⟩, ?_⟩
  intro h
  obtain ⟨hdemanded, hsettled⟩ := h
  induction hdemanded with
  | root hroot => exact hdone (h.rooted _ hroot) hsettled
  | led _ hleads ih => exact hdone (h.closed _ (ih (settled_of_leads hleads)) _ hleads) hsettled

/-- What is asked for and leads nowhere is left in the queue. -/
theorem Tracks.mem_queue (h : Tracks start docs r []) (hwaits : ∀ u ∈ r.queue, Waits r u)
    (hdemanded : Demanded r uri) (hunsettled : ¬r.store.Settled uri) : uri ∈ r.queue := by
  have hknown : Known r [] uri := by
    cases hdemanded with
    | root hroot => exact h.rooted _ hroot
    | led hdemanded hleads =>
        exact h.closed _ ((h.handled_iff hwaits).2 ⟨hdemanded, settled_of_leads hleads⟩) _ hleads
  rcases hknown with hu | hu | hu
  · exact absurd (h.settled uri hu) hunsettled
  · exact hu
  · cases hu

/-- The documents that are missing are those which are not there, and are needed by a reference or
by a URI that is asked for and leads nowhere. -/
theorem Tracks.mem_missingDocuments {base : String} (h : Tracks start docs r [])
    (hwaits : ∀ u ∈ r.queue, Waits r u) : base ∈ r.missingDocuments
      ↔ base ∉ Table.keys docs ∧ (Needs docs r base
        ∨ ∃ u, Demanded r u ∧ ¬r.store.Settled u ∧ base = SchemaUri.base u) := by
  rw [Registry.mem_missingDocuments, h.fills.mem_missing_iff, ← Bool.not_eq_true,
    h.fills.contains_iff]
  constructor
  · rintro ⟨⟨u, hu, rfl⟩ | ⟨hbase, -⟩, habsent⟩
    · refine ⟨habsent, .inr ⟨u, ?_, ?_, rfl⟩⟩
      · exact h.demanded u (h.missing u hu).2
      · intro hsettled
        refine (h.missing u hu).1 ((h.handled_iff hwaits).2 ⟨?_, hsettled⟩)
        exact h.demanded u (h.missing u hu).2
    · exact ⟨habsent, .inl ((h.recorded base hbase).resolve_left habsent)⟩
  · intro h
    obtain ⟨habsent, (⟨target, htarget, rfl⟩ | ⟨u, hdemanded, hresolution⟩)
      | ⟨u, hdemanded, hunsettled, rfl⟩⟩ := h
    · exact ⟨.inr ⟨(h.noted target htarget).resolve_left habsent, habsent⟩, habsent⟩
    · have hqueue := h.mem_queue hwaits hdemanded
        (Store.not_settled_of_documentAbsent hresolution)
      exact ⟨.inr ⟨(hwaits u hqueue).document base hresolution, habsent⟩, habsent⟩
    · have hqueue := h.mem_queue hwaits hdemanded hunsettled
      exact ⟨.inl ⟨u, (hwaits u hqueue).noted, rfl⟩, habsent⟩

theorem sortedLT_missingDocuments (r : Registry) : List.SortedLT r.missingDocuments := by
  rw [missingDocuments]
  have hnil : List.SortedLT ([] : NameSet) := List.Pairwise.nil.sortedLT
  exact ((NameSet.sortedLT_insertAll (NameSet.sortedLT_insertAll hnil)).pairwise.filter _).sortedLT

/-- Two registries that make the same of all URIs, and miss the same documents. -/
structure SameOutcome (r r' : Registry) : Prop where
  entries : ∀ uri, Table.get? r'.entries uri = Table.get? r.entries uri
  aliases : ∀ uri, Table.get? r'.aliases uri = Table.get? r.aliases uri
  verdicts : ∀ uri v, r'.snapshot.validate uri v = r.snapshot.validate uri v
  missing : r'.missingDocuments = r.missingDocuments

theorem Tracks.sameOutcome (hdocs : docs.Separate) (hperm : docs.Perm docs')
    (h : Tracks start docs r []) (hwaits : ∀ u ∈ r.queue, Waits r u)
    (h' : Tracks start docs' r' []) (hwaits' : ∀ u ∈ r'.queue, Waits r' u) :
    SameOutcome r r' := by
  have hground : ∀ u, SameGround r r' u := fun u =>
    ⟨h.fills.resolution_eq h'.fills hdocs hperm _, h'.formats.trans h.formats.symm,
      h'.names.trans h.names.symm⟩
  have hkeys : ∀ u, u ∈ Table.keys docs' ↔ u ∈ Table.keys docs :=
    fun u => (hperm.map Prod.fst).mem_iff.symm
  have hroots : ∀ u, u ∈ r'.roots ↔ u ∈ r.roots := fun u => by rw [h.roots, h'.roots, hkeys]
  have hdemanded : ∀ u, Demanded r' u ↔ Demanded r u := fun u =>
    ⟨fun hu => hu.mono (fun t ht => (hroots t).1 ht) (fun t _ => (hground t).symm),
      fun hu => hu.mono (fun t ht => (hroots t).2 ht) (fun t _ => hground t)⟩
  have hhandled : ∀ u, u ∈ r'.handled ↔ u ∈ r.handled := fun u => by
    rw [h.handled_iff hwaits, h'.handled_iff hwaits', hdemanded, (hground u).settled_iff]
  have hmade : ∀ u, Table.get? r'.entries u = Table.get? r.entries u
      ∧ Table.get? r'.aliases u = Table.get? r.aliases u := by
    intro u
    by_cases hu : u ∈ r.handled
    · rw [(h.compiled u hu).1, (h.compiled u hu).2, ← (hground u).entryOf, ← (hground u).aliasOf]
      exact h'.compiled u ((hhandled u).2 hu)
    · rw [(h.fresh u hu).1, (h.fresh u hu).2]
      exact h'.fresh u (fun hu' => hu ((hhandled u).1 hu'))
  have htargets : ∀ target, target ∈ docs'.targets ↔ target ∈ docs.targets :=
    fun target => (hperm.flatMap_right _).mem_iff.symm
  refine ⟨fun u => (hmade u).1, fun u => (hmade u).2, fun uri v => ?_, ?_⟩
  · refine Snapshot.validate_congr (h'.options.trans h.options.symm) (fun u => (hmade u).1)
      (fun u => (hmade u).2) ?_ ?_ uri v
    · exact Table.length_eq_of_get?_eq h'.distinct.1 h.distinct.1 (fun u => (hmade u).1)
    · exact Table.length_eq_of_get?_eq h'.distinct.2 h.distinct.2 (fun u => (hmade u).2)
  · apply r'.sortedLT_missingDocuments.eq_of_mem_iff r.sortedLT_missingDocuments
    intro base
    rw [h.mem_missingDocuments hwaits, h'.mem_missingDocuments hwaits', hkeys, Needs, Needs]
    simp only [htargets, hdemanded, (hground _).settled_iff, (hground _).resolution]

/-! ### Runs of arrivals -/

/-- What happens while documents arrive. -/
inductive Arrival where
  | document (d : String × Json)
  | compilation

/-- The documents among what happens. -/
def Arrival.documents : List Arrival → Corpus
  | [] => []
  | .document d :: rest => d :: documents rest
  | .compilation :: rest => documents rest

/-- A run of arrivals on a registry, up to the first document that is refused. -/
def arrive : Registry → List Arrival → Except AlreadyCompiled Registry
  | r, [] => .ok r
  | r, .document d :: rest =>
    match r.addSchema d.1 (some d.2) none with
    | .error e => .error e
    | .ok r => arrive r rest
  | r, .compilation :: rest => arrive r.compile.1 rest

def withFormats (options : Options) (formats : Table Format) : Registry :=
  { empty options with formats := formats }

theorem tracks_withFormats (options : Options) (formats : Table Format) :
    Tracks (withFormats options formats) [] (withFormats options formats) [] where
  options := rfl
  formats := rfl
  names := rfl
  fills := ⟨rfl, rfl⟩
  roots := fun _ => Iff.rfl
  rooted := fun _ hu => nomatch hu
  demanded := by
    intro u h
    rcases h with hu | hu | hu
    all_goals cases hu
  closed := fun _ hu => nomatch hu
  settled := fun _ hu => nomatch hu
  compiled := fun _ hu => nomatch hu
  fresh := fun _ _ => ⟨rfl, rfl⟩
  distinct := ⟨List.nodup_nil, List.nodup_nil⟩
  waits := fun _ hu => nomatch hu
  missing := fun _ hu => nomatch hu
  noted := fun _ ht => nomatch ht
  recorded := fun _ hbase => nomatch hbase

/-- No document is refused, since what has been compiled begins in other documents. -/
theorem Tracks.addSchema {d : String × Json} (h : Tracks start docs r [])
    (hdocs : (docs ++ [d]).Separate) :
    ∃ r', r.addSchema d.1 (some d.2) none = .ok r' ∧ Tracks start (docs ++ [d]) r' [] := by
  refine ⟨_, ?_, h.add hdocs⟩
  rw [Registry.addSchema, SchemaUri.normalize_of_no_hash (Corpus.hash_not_mem hdocs),
    h.accepts hdocs, Bool.and_false, if_neg Bool.false_ne_true]

theorem Tracks.arrive {arrivals : List Arrival} (h : Tracks start docs r [])
    (hdocs : (docs ++ Arrival.documents arrivals).Separate) :
    ∃ r', r.arrive arrivals = .ok r'
      ∧ Tracks start (docs ++ Arrival.documents arrivals) r' [] := by
  induction arrivals generalizing r docs with
  | nil =>
      rw [Arrival.documents, List.append_nil]
      exact ⟨r, rfl, h⟩
  | cons arrival rest ih =>
      cases arrival with
      | compilation => exact ih h.compile.1 hdocs
      | document d =>
          have hcons : docs ++ d :: Arrival.documents rest
              = docs ++ [d] ++ Arrival.documents rest := by
            rw [List.append_assoc, List.singleton_append]
          rw [Arrival.documents, hcons] at hdocs ⊢
          have hfirst : (docs ++ [d]).Separate :=
            hdocs.of_sublist (List.sublist_append_left _ _)
          obtain ⟨r', hadd, htracks⟩ := h.addSchema hfirst
          rw [Registry.arrive, hadd]
          exact ih htracks hdocs

theorem arrive_append_compilation {arrivals : List Arrival} (h : r.arrive arrivals = .ok r') :
    r.arrive (arrivals ++ [.compilation]) = .ok r'.compile.1 := by
  induction arrivals generalizing r with
  | nil =>
      obtain rfl := Except.ok.inj h
      rfl
  | cons arrival rest ih =>
      rw [List.cons_append]
      cases arrival with
      | compilation => exact ih h
      | document d =>
          rw [arrive] at h ⊢
          split at h
          · cases h
          · exact ih h

/-- Documents without ids under distinct URIs without fragments may arrive in any order, with
compilations at any moments. None is refused, and when the rest has been compiled at the end, the
outcome is the same. -/
theorem arrive_confluent (options : Options) (formats : Table Format) {docs : Corpus}
    {arrivals arrivals' : List Arrival} (hdistinct : Table.Distinct docs)
    (hplain : ∀ d ∈ docs, '#' ∉ d.1.toList) (hids : ∀ d ∈ docs, d.2.ids = [])
    (h : (Arrival.documents arrivals).Perm docs) (h' : (Arrival.documents arrivals').Perm docs) :
    ∃ r r', (withFormats options formats).arrive (arrivals ++ [.compilation]) = .ok r
      ∧ (withFormats options formats).arrive (arrivals' ++ [.compilation]) = .ok r'
      ∧ SameOutcome r r' := by
  have hdocs : docs.Separate := ⟨hdistinct, hplain, fun d hd => d.2.named_scan d.1 (hids d hd)⟩
  have hstart := tracks_withFormats options formats
  have hseparate := hdocs.of_perm h.symm
  obtain ⟨r, hr, htracks⟩ := hstart.arrive hseparate
  obtain ⟨r', hr', htracks'⟩ := hstart.arrive (hdocs.of_perm h'.symm)
  refine ⟨_, _, arrive_append_compilation hr, arrive_append_compilation hr', ?_⟩
  exact Tracks.sameOutcome hseparate (h.trans h'.symm) htracks.compile.1 htracks.compile.2
    htracks'.compile.1 htracks'.compile.2

def referring : Corpus :=
  [("a", .object [("$ref", .string "b")]), ("b", .object [("type", .string "string")])]

/-- A document may come before the one it refers to, even with a compilation in between, or after
it. -/
theorem arrive_confluent_referring :
    ∃ r r', (withFormats Options.standard []).arrive
        ([.document ("a", .object [("$ref", .string "b")]), .compilation,
          .document ("b", .object [("type", .string "string")])] ++ [.compilation]) = .ok r
      ∧ (withFormats Options.standard []).arrive
        ([.document ("b", .object [("type", .string "string")]),
          .document ("a", .object [("$ref", .string "b")])] ++ [.compilation]) = .ok r'
      ∧ SameOutcome r r' := by
  have hdistinct : Table.Distinct referring := by
    rw [Table.Distinct]
    decide
  have hplain : ∀ d ∈ referring, '#' ∉ d.1.toList := by
    rw [referring, List.forall_mem_cons, List.forall_mem_singleton]
    decide +kernel
  have hids : ∀ d ∈ referring, d.2.ids = [] := by
    rw [referring, List.forall_mem_cons, List.forall_mem_singleton]
    exact ⟨rfl, rfl⟩
  exact arrive_confluent Options.standard [] hdistinct hplain hids (.refl _) (.swap _ _ _)

end Registry

end HyperSchema
