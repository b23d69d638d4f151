import HyperSchema.Proofs.Registry.Demand
import HyperSchema.Proofs.Store.Corpus

/-!
# Documents that arrive one after the other

Documents are added to an empty registry, and what is there is compiled now and then. At any time
the URIs that are done or will be looked at again are among those asked for; they include the roots
and all that those which are done lead to. So when only URIs that lead nowhere are left, what is
done is just what is asked for and leads somewhere.
-/

namespace HyperSchema.Registry

variable {start r r' : Registry} {docs : Corpus} {waiting waiting' rest queue : List String}
  {uri : String}

theorem mem_missingDocuments {base : String} : base ∈ r.missingDocuments
    ↔ ((∃ u ∈ r.missing, SchemaUri.base u = base) ∨ base ∈ r.store.missing)
      ∧ r.store.contains base = false := by
  rw [missingDocuments, List.mem_filter, NameSet.mem_insertAll, NameSet.mem_insertAll, List.mem_map,
    Bool.not_eq_true']
  simp

theorem handlesBase_iff {base : String} :
    r.handlesBase base = true ↔ ∃ u ∈ r.handled, SchemaUri.base u = base := by
  rw [handlesBase, List.any_eq_true]
  simp only [beq_iff_eq]

/-- Whether a URI is done or will be looked at again. -/
def Known (r : Registry) (waiting : List String) (uri : String) : Prop :=
  uri ∈ r.handled ∨ uri ∈ r.queue ∨ uri ∈ waiting

/-- Whether a URI leads nowhere, and is noted as missing with its document. -/
structure Waits (r : Registry) (uri : String) : Prop where
  unsettled : ¬r.store.Settled uri
  noted : uri ∈ r.missing
  document : ∀ base, r.store.resolution (SchemaUri.normalize uri) = .documentAbsent base →
    base ∈ r.store.top.missing

/-- Whether a reference that has been read or a URI that is asked for needs a document. -/
def Needs (docs : Corpus) (r : Registry) (base : String) : Prop :=
  (∃ target ∈ docs.targets, base = SchemaUri.base target)
    ∨ ∃ uri, Demanded r uri
      ∧ r.store.resolution (SchemaUri.normalize uri) = .documentAbsent base

/-- What is known of a registry after some documents have been added to a fresh one, while its queue
is worked through. -/
structure Tracks (start : Registry) (docs : Corpus) (r : Registry) (waiting : List String) :
    Prop where
  options : r.options = start.options
  formats : r.formats = start.formats
  names : r.names = start.names
  fills : docs.Fills r.store
  roots : ∀ u, u ∈ r.roots ↔ u ∈ Table.keys docs
  rooted : ∀ u ∈ r.roots, Known r waiting u
  demanded : ∀ u, Known r waiting u → Demanded r u
  closed : ∀ u ∈ r.handled, ∀ t, Leads r u t → Known r waiting t
  settled : ∀ u ∈ r.handled, r.store.Settled u
  compiled : ∀ u ∈ r.handled,
    Table.get? r.entries u = r.entryOf u ∧ Table.get? r.aliases u = r.aliasOf u
  fresh : ∀ u, u ∉ r.handled → Table.get? r.entries u = none ∧ Table.get? r.aliases u = none
  distinct : Table.Distinct r.entries ∧ Table.Distinct r.aliases
  waits : ∀ u ∈ waiting, Waits r u
  missing : ∀ u ∈ r.missing, u ∉ r.handled ∧ Known r waiting u
  noted : ∀ target ∈ docs.targets, SchemaUri.base target ∈ Table.keys docs
    ∨ SchemaUri.base target ∈ r.store.top.missing
  recorded : ∀ base ∈ r.store.top.missing, base ∈ Table.keys docs ∨ Needs docs r base

theorem sameGround_queue (r : Registry) (queue : List String) (u : String) :
    SameGround r { r with queue := queue } u := ⟨rfl, rfl, rfl⟩

theorem Needs.mono {base : String} (hroots : ∀ u ∈ r.roots, u ∈ r'.roots)
    (hground : ∀ u, SameGround r r' u) (h : Needs docs r base) : Needs docs r' base := by
  rcases h with hread | ⟨u, hdemanded, habsent⟩
  · exact .inl hread
  · exact .inr ⟨u, hdemanded.mono hroots (fun u _ => hground u),
      (hground u).resolution.trans habsent⟩

theorem roots_queue (r : Registry) (queue : List String) :
    ∀ u ∈ r.roots, u ∈ ({ r with queue := queue } : Registry).roots := fun _ hroot => hroot

theorem known_tail (hqueue : r.queue = uri :: rest) (hdone : uri ∈ r.handled) {u : String} :
    Known { r with queue := rest } waiting u ↔ Known r waiting u := by
  rw [Known, Known, hqueue, List.mem_cons]
  constructor
  · intro h
    rcases h with hu | hu | hu
    · exact .inl hu
    · exact .inr (.inl (.inr hu))
    · exact .inr (.inr hu)
  · intro h
    rcases h with hu | (rfl | hu) | hu
    · exact .inl hu
    · exact .inl hdone
    · exact .inr (.inl hu)
    · exact .inr (.inr hu)

theorem known_refill (hempty : r.queue = []) {u : String} :
    Known { r with queue := waiting } [] u ↔ Known r waiting u := by
  rw [Known, Known, hempty]
  simp

namespace Tracks

theorem requeue (h : Tracks start docs r waiting)
    (hknown : ∀ u, Known { r with queue := queue } waiting' u ↔ Known r waiting u)
    (hwaits : ∀ u ∈ waiting', u ∈ waiting) :
    Tracks start docs { r with queue := queue } waiting' where
  options := h.options
  formats := h.formats
  names := h.names
  fills := h.fills
  roots := h.roots
  rooted := fun u hu => (hknown u).2 (h.rooted u hu)
  demanded := fun u hu =>
    (h.demanded u ((hknown u).1 hu)).mono (r.roots_queue queue)
      (fun u _ => r.sameGround_queue queue u)
  closed := fun u hu t hleads =>
    (hknown t).2 (h.closed u hu t ((r.sameGround_queue queue u).symm.leads hleads))
  settled := h.settled
  compiled := h.compiled
  fresh := h.fresh
  distinct := h.distinct
  waits := fun u hu =>
    have hwaits := h.waits u (hwaits u hu)
    ⟨hwaits.unsettled, hwaits.noted, hwaits.document⟩
  missing := fun u hu => ⟨(h.missing u hu).1, (hknown u).2 (h.missing u hu).2⟩
  noted := h.noted
  recorded := fun base hbase => (h.recorded base hbase).imp_right
    (.mono (r.roots_queue queue) (r.sameGround_queue queue))

theorem skip (h : Tracks start docs r waiting) (hqueue : r.queue = uri :: rest)
    (hdone : uri ∈ r.handled) : Tracks start docs { r with queue := rest } waiting :=
  h.requeue (fun _ => known_tail hqueue hdone) (fun _ hu => hu)

end Tracks

/-- A URI that is taken from the queue is known afterwards, and so is all that was known. What
becomes known is what it leads to. -/
theorem Compiles.known {error : Option PatternError} {waits : Bool} (hqueue : r.queue = uri :: rest)
    (h : Compiles { r with queue := rest } uri r' error waits) (u : String) :
    (Known r waiting u → Known r' (if waits then waiting ++ [uri] else waiting) u)
      ∧ (Known r' (if waits then waiting ++ [uri] else waiting) u →
        Known r waiting u ∨ Leads r uri u) := by
  rw [Known, Known, hqueue, List.mem_cons]
  rcases h.queue with ⟨rfl, hsame, hhandled⟩ | ⟨rfl, hhandled, ⟨added, hmore, -, hadded⟩, -⟩
  · rw [hsame, hhandled, if_pos rfl, List.mem_append, List.mem_singleton]
    dsimp only
    constructor
    · intro h
      rcases h with hu | (hu | hu) | hu
      · exact .inl hu
      · exact .inr (.inr (.inr hu))
      · exact .inr (.inl hu)
      · exact .inr (.inr (.inl hu))
    · intro h
      rcases h with hu | hu | hu | hu
      · exact .inl (.inl hu)
      · exact .inl (.inr (.inl (.inr hu)))
      · exact .inl (.inr (.inr hu))
      · exact .inl (.inr (.inl (.inl hu)))
  · rw [hhandled, hmore, if_neg Bool.false_ne_true, List.mem_append]
    dsimp only
    constructor
    · intro h
      rcases h with hu | (hu | hu) | hu
      · exact .inl (.inr hu)
      · exact .inl (.inl hu)
      · exact .inr (.inl (.inl hu))
      · exact .inr (.inr hu)
    · intro h
      rcases h with (hu | hu) | (hu | hu) | hu
      · exact .inl (.inr (.inl (.inl hu)))
      · exact .inl (.inl hu)
      · exact .inl (.inr (.inl (.inr hu)))
      · exact .inr ((sameGround_queue r rest uri).symm.leads (hadded u hu))
      · exact .inl (.inr (.inr hu))

namespace Tracks

section

variable {error : Option PatternError} {waits : Bool} (h : Tracks start docs r waiting)
  (hqueue : r.queue = uri :: rest) (hfresh : uri ∉ r.handled)
  (hcompiles : Compiles { r with queue := rest } uri r' error waits)

include h hqueue in
theorem demanded_head : Demanded r uri := by
  apply h.demanded uri
  rw [Known, hqueue]
  exact .inr (.inl List.mem_cons_self)

include hcompiles in
theorem ground_step (u : String) : SameGround r r' u :=
  ⟨(hcompiles.sameGround u).resolution, hcompiles.formats, hcompiles.names⟩

include hcompiles in
theorem roots_step (u : String) (hu : u ∈ r.roots) : u ∈ r'.roots := by
  rw [hcompiles.roots]
  exact hu

include h hqueue hcompiles in
theorem demanded_step {u : String}
    (hu : Known r' (if waits then waiting ++ [uri] else waiting) u) : Demanded r' u := by
  have hbefore : Demanded r u := by
    rcases (hcompiles.known hqueue u).2 hu with hu | hu
    · exact h.demanded u hu
    · exact (h.demanded_head hqueue).led hu
  exact hbefore.mono (roots_step hcompiles) (fun u _ => ground_step hcompiles u)

include h hqueue hcompiles in
theorem closed_step {u t : String} (hu : u ∈ r'.handled) (hleads : Leads r' u t) :
    Known r' (if waits then waiting ++ [uri] else waiting) t := by
  rcases hcompiles.mem_handled.1 hu with hu | ⟨rfl, rfl⟩
  · have hbefore := h.closed u hu t ((ground_step hcompiles u).symm.leads hleads)
    exact (hcompiles.known hqueue t).1 hbefore
  · rcases hcompiles.queue with ⟨hwaits, -⟩ | ⟨-, -, -, hall⟩
    · cases hwaits
    · exact (hall t ((hcompiles.sameGround u).symm.leads hleads)).imp_right .inl

include h hcompiles in
theorem settled_step {u : String} (hu : u ∈ r'.handled) : r'.store.Settled u := by
  rw [(ground_step hcompiles u).settled_iff]
  rcases hcompiles.mem_handled.1 hu with hu | ⟨rfl, hwaits⟩
  · exact h.settled u hu
  · exact hcompiles.waits_iff.1 hwaits

include h hfresh hcompiles in
theorem compiled_step {u : String} (hu : u ∈ r'.handled) :
    Table.get? r'.entries u = r'.entryOf u ∧ Table.get? r'.aliases u = r'.aliasOf u := by
  rw [(ground_step hcompiles u).entryOf, (ground_step hcompiles u).aliasOf]
  rcases hcompiles.mem_handled.1 hu with hu | ⟨rfl, -⟩
  · have hne : u ≠ uri := fun heq => hfresh (heq ▸ hu)
    obtain ⟨hentries, haliases⟩ := hcompiles.sameAt hne
    rw [hentries, haliases]
    exact h.compiled u hu
  · exact hcompiles.outcome (h.fresh u hfresh).1 (h.fresh u hfresh).2

include h hfresh hcompiles in
theorem fresh_step {u : String} (hu : u ∉ r'.handled) :
    Table.get? r'.entries u = none ∧ Table.get? r'.aliases u = none :=
  hcompiles.fresh hfresh h.fresh hu

include hcompiles in
/-- What has just been found to lead nowhere waits. -/
theorem waits_self (hwaits : waits = true) : Waits r' uri where
  unsettled := fun hsettled => by
    have hdone := hcompiles.waits_iff.2 ((ground_step hcompiles uri).settled_iff.1 hsettled)
    rw [hwaits] at hdone
    cases hdone
  noted := hcompiles.mem_missing.2 (.inl ⟨rfl, hwaits⟩)
  document := fun base habsent => by
    refine hcompiles.mem_store_missing.2 (.inl ?_)
    rw [← habsent]
    exact (ground_step hcompiles uri).resolution.symm

include hcompiles in
/-- What waits goes on waiting, since what has just been finished leads somewhere. -/
theorem waits_other {u : String} (hwaiting : Waits r u) (hnot : ¬(u = uri ∧ waits = true)) :
    Waits r' u where
  unsettled := fun hsettled =>
    hwaiting.unsettled ((ground_step hcompiles u).settled_iff.1 hsettled)
  noted := by
    have hne : u ≠ uri := by
      intro heq
      subst heq
      apply hwaiting.unsettled (hcompiles.waits_iff.1 _)
      exact Bool.eq_false_iff.2 (fun hwaits => hnot ⟨rfl, hwaits⟩)
    exact hcompiles.mem_missing.2 (.inr ⟨hne, hwaiting.noted⟩)
  document := fun base habsent => by
    rw [(ground_step hcompiles u).resolution] at habsent
    exact hcompiles.mem_store_missing.2 (.inr (hwaiting.document base habsent))

include h hcompiles in
theorem waits_step {u : String} (hu : u ∈ (if waits then waiting ++ [uri] else waiting)) :
    Waits r' u := by
  by_cases heq : u = uri ∧ waits = true
  · obtain ⟨rfl, hwaits⟩ := heq
    exact waits_self hcompiles hwaits
  · have hwaiting : u ∈ waiting := by
      split at hu
      · next hwaits =>
        rcases List.mem_append.1 hu with hu | hu
        · exact hu
        · exact absurd ⟨List.mem_singleton.1 hu, hwaits⟩ heq
      · exact hu
    exact waits_other hcompiles (h.waits u hwaiting) heq

include h hqueue hfresh hcompiles in
theorem missing_step {u : String} (hu : u ∈ r'.missing) :
    u ∉ r'.handled ∧ Known r' (if waits then waiting ++ [uri] else waiting) u := by
  rw [hcompiles.mem_handled]
  rcases hcompiles.mem_missing.1 hu with ⟨rfl, rfl⟩ | ⟨hne, hu⟩
  · have hhead : Known r waiting u := .inr (.inl (hqueue ▸ List.mem_cons_self))
    refine ⟨?_, (hcompiles.known hqueue u).1 hhead⟩
    intro hu
    rcases hu with hu | hu
    · exact hfresh hu
    · exact nomatch hu.2
  · obtain ⟨hopen, hknown⟩ := h.missing u hu
    refine ⟨?_, (hcompiles.known hqueue u).1 hknown⟩
    intro hu
    rcases hu with hu | hu
    · exact hopen hu
    · exact hne hu.1

include h hqueue hcompiles in
theorem recorded_step {base : String} (hbase : base ∈ r'.store.top.missing) :
    base ∈ Table.keys docs ∨ Needs docs r' base := by
  have hmono : Needs docs r base → Needs docs r' base :=
    .mono (roots_step hcompiles) (ground_step hcompiles)
  rcases hcompiles.mem_store_missing.1 hbase with habsent | hbase
  · exact .inr (hmono (.inr ⟨uri, h.demanded_head hqueue, habsent⟩))
  · exact (h.recorded base hbase).imp_right hmono

include h hqueue hfresh hcompiles in
theorem step : Tracks start docs r' (if waits then waiting ++ [uri] else waiting) where
  options := hcompiles.options.trans h.options
  formats := hcompiles.formats.trans h.formats
  names := hcompiles.names.trans h.names
  fills := ⟨hcompiles.sameDocuments.schemas.trans h.fills.schemas,
    hcompiles.sameDocuments.below.trans h.fills.below⟩
  roots := fun u => by
    rw [hcompiles.roots]
    exact h.roots u
  rooted := fun u hu => (hcompiles.known hqueue u).1 (h.rooted u (hcompiles.roots ▸ hu))
  demanded := fun _ hu => h.demanded_step hqueue hcompiles hu
  closed := fun _ hu _ hleads => h.closed_step hqueue hcompiles hu hleads
  settled := fun _ hu => h.settled_step hcompiles hu
  compiled := fun _ hu => h.compiled_step hfresh hcompiles hu
  fresh := fun _ hu => h.fresh_step hfresh hcompiles hu
  distinct := hcompiles.distinct h.distinct.1 h.distinct.2
  waits := fun _ hu => h.waits_step hcompiles hu
  missing := fun _ hu => h.missing_step hqueue hfresh hcompiles hu
  noted := fun target htarget =>
    (h.noted target htarget).imp_right (fun hbase => hcompiles.mem_store_missing.2 (.inr hbase))
  recorded := fun _ hbase => h.recorded_step hqueue hcompiles hbase

end

/-- Compiling keeps track. What is queued afterwards leads nowhere. -/
theorem compile (h : Tracks start docs r []) :
    Tracks start docs r.compile.1 [] ∧ ∀ u ∈ r.compile.1.queue, Waits r.compile.1 u := by
  obtain ⟨r', waiting, failure, htracks, hempty, hcompile⟩ :=
    compile_induction (P := fun r' waiting _ => Tracks start docs r' waiting)
      (fun _ _ _ _ _ hqueue hdone htracks => htracks.skip hqueue hdone)
      (fun _ _ _ _ _ _ _ _ hqueue hfresh htracks hcompiles => htracks.step hqueue hfresh hcompiles)
      h
  rw [hcompile]
  refine ⟨htracks.requeue (fun _ => known_refill hempty) (fun u hu => nomatch hu), fun u hu => ?_⟩
  have hwaits := htracks.waits u hu
  exact ⟨hwaits.unsettled, hwaits.noted, hwaits.document⟩

/-! ### A document arrives -/

end Tracks

theorem mem_enrol_roots {name : Option String} {u : String} :
    u ∈ (r.enrol uri name).roots ↔ u ∈ r.roots ∨ u = uri := by
  show u ∈ (if r.roots.contains uri = true then r.roots else r.roots ++ [uri]) ↔ _
  split
  · next hthere =>
    refine ⟨.inl, fun hu => ?_⟩
    rcases hu with hu | rfl
    · exact hu
    · exact List.contains_iff_mem.1 hthere
  · rw [List.mem_append, List.mem_singleton]

theorem mem_enrol_queue {name : Option String} {u : String} :
    u ∈ (r.enrol uri name).queue ↔ u ∈ r.queue ∨ u = uri ∧ uri ∉ r.handled := by
  show u ∈ (if r.handled.contains uri = true then r.queue else r.queue ++ [uri]) ↔ _
  split
  · next hdone =>
    exact ⟨.inl, fun hu => hu.elim id (fun hu => absurd (List.contains_iff_mem.1 hdone) hu.2)⟩
  · next hdone =>
    rw [List.mem_append, List.mem_singleton]
    exact or_congr_right
      ⟨fun hu => ⟨hu, fun hmem => hdone (List.contains_iff_mem.2 hmem)⟩, And.left⟩

theorem known_add {document : Json} {u : String} :
    Known ((r.supply uri (some document)).enrol uri none) [] u ↔ Known r [] u ∨ u = uri := by
  rw [Known, Known, mem_enrol_queue]
  constructor
  · intro h
    rcases h with hu | (hu | hu) | hu
    · exact .inl (.inl hu)
    · exact .inl (.inr (.inl hu))
    · exact .inr hu.1
    · exact .inl (.inr (.inr hu))
  · intro h
    rcases h with (hu | hu | hu) | rfl
    · exact .inl hu
    · exact .inr (.inl (.inl hu))
    · exact .inr (.inr hu)
    · by_cases hdone : u ∈ r.handled
      · exact .inl hdone
      · exact .inr (.inl (.inr ⟨rfl, hdone⟩))

namespace Tracks

theorem accepts {d : String × Json} (h : Tracks start docs r []) (hdocs : (docs ++ [d]).Separate) :
    r.handlesBase (SchemaUri.base d.1) = false := by
  rw [← Bool.not_eq_true, handlesBase_iff]
  rintro ⟨u, hu, heq⟩
  have hcontains := h.fills.contains_base_of_settled hdocs.of_append.1 (h.settled u hu)
  rw [h.fills.contains_iff, heq,
    SchemaUri.base_of_no_hash (Corpus.hash_not_mem hdocs)] at hcontains
  exact hdocs.of_append.2 hcontains

section

variable {d : String × Json} (h : Tracks start docs r []) (hdocs : (docs ++ [d]).Separate)

include h hdocs

/-- Documents that are added to others change nothing for what leads somewhere. -/
theorem ground_add {u : String} (hsettled : r.store.Settled u) :
    SameGround r ((r.supply d.1 (some d.2)).enrol d.1 none) u :=
  ⟨Store.resolution_eq_of_settled (h.fills.grows hdocs) hsettled, rfl, rfl⟩

theorem demanded_add {u : String} (hu : Demanded r u) :
    Demanded ((r.supply d.1 (some d.2)).enrol d.1 none) u := by
  have hroots : ∀ t ∈ r.roots, t ∈ ((r.supply d.1 (some d.2)).enrol d.1 none).roots :=
    fun _ ht => mem_enrol_roots.2 (.inl ht)
  exact hu.mono hroots (fun _ => h.ground_add hdocs)

theorem noted_add {target : String} (htarget : target ∈ Corpus.targets (docs ++ [d])) :
    SchemaUri.base target ∈ Table.keys (docs ++ [d])
      ∨ SchemaUri.base target ∈ (r.store.add d.1 d.2).top.missing := by
  by_cases hkey : SchemaUri.base target ∈ Table.keys (docs ++ [d])
  · exact .inl hkey
  · right
    rw [Corpus.mem_missing_add hdocs h.fills]
    rcases Corpus.mem_targets_append.1 htarget with htarget | htarget
    · rw [Corpus.mem_keys_append, not_or] at hkey
      have hbase := (h.noted target htarget).resolve_left hkey.1
      exact .inl ⟨hbase, hkey.2⟩
    · exact .inr ⟨hkey, target, htarget, rfl⟩

/-- What was needed before is needed still, unless it is the document that has come. -/
theorem needs_add {base : String} (hneeds : Needs docs r base)
    (hkey : base ∉ Table.keys (docs ++ [d])) :
    Needs (docs ++ [d]) ((r.supply d.1 (some d.2)).enrol d.1 none) base := by
  rcases hneeds with ⟨target, htarget, rfl⟩ | ⟨u, hu, habsent⟩
  · exact .inl ⟨target, Corpus.mem_targets_append.2 (.inl htarget), rfl⟩
  · refine .inr ⟨u, h.demanded_add hdocs hu, ?_⟩
    rw [← habsent]
    apply Store.resolution_eq_of_grows (h.fills.grows hdocs)
    rw [habsent]
    exact (h.fills.add hdocs).find?_eq_none_iff.2 hkey

theorem recorded_add {base : String} (hbase : base ∈ (r.store.add d.1 d.2).top.missing) :
    base ∈ Table.keys (docs ++ [d])
      ∨ Needs (docs ++ [d]) ((r.supply d.1 (some d.2)).enrol d.1 none) base := by
  by_cases hkey : base ∈ Table.keys (docs ++ [d])
  · exact .inl hkey
  · right
    rcases (Corpus.mem_missing_add hdocs h.fills).1 hbase with
      ⟨hbase, -⟩ | ⟨-, target, htarget, rfl⟩
    · have hold : base ∉ Table.keys docs := fun hold => hkey (Corpus.mem_keys_append.2 (.inl hold))
      have hneeds := (h.recorded base hbase).resolve_left hold
      exact h.needs_add hdocs hneeds hkey
    · exact .inl ⟨target, Corpus.mem_targets_append.2 (.inr htarget), rfl⟩

/-- Adding a document keeps track. What has been compiled stays what the documents make of it. -/
theorem add : Tracks start (docs ++ [d]) ((r.supply d.1 (some d.2)).enrol d.1 none) [] where
  options := h.options
  formats := h.formats
  names := h.names
  fills := h.fills.add hdocs
  roots := fun u => by
    rw [mem_enrol_roots, Corpus.mem_keys_append, ← h.roots]
    rfl
  rooted := fun u hu => known_add.2 ((mem_enrol_roots.1 hu).imp_left (h.rooted u))
  demanded := fun u hu => by
    rcases known_add.1 hu with hu | rfl
    · exact h.demanded_add hdocs (h.demanded u hu)
    · exact .root (mem_enrol_roots.2 (.inr rfl))
  closed := fun u hu t hleads => by
    have hbefore := (h.ground_add hdocs (h.settled u hu)).symm.leads hleads
    exact known_add.2 (.inl (h.closed u hu t hbefore))
  settled := fun u hu => (h.settled u hu).grows (h.fills.grows hdocs)
  compiled := fun u hu => by
    have hground := h.ground_add hdocs (h.settled u hu)
    rw [hground.entryOf, hground.aliasOf]
    exact h.compiled u hu
  fresh := h.fresh
  distinct := h.distinct
  waits := fun _ hu => absurd hu List.not_mem_nil
  missing := fun u hu => by
    obtain ⟨hdone, hu⟩ := h.missing u (List.mem_filter.1 hu).1
    exact ⟨hdone, known_add.2 (.inl hu)⟩
  noted := fun _ htarget => h.noted_add hdocs htarget
  recorded := fun _ hbase => h.recorded_add hdocs hbase

end

end Tracks

end HyperSchema.Registry
