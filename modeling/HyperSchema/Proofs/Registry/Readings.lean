import HyperSchema.Proofs.Registry.Arrival
import HyperSchema.Proofs.Store.Tidy

/-!
# What is read, and what becomes of it

While everything that is queued is compiled, the documents stay as they are. So a URI that is
finished becomes what the documents made of it from the start: an entry, an alias, or a reading that
failed. All that it leads to is known, and known URIs are finished or lead nowhere. The readings are
those of different URIs, none of which was finished before.
-/

namespace HyperSchema.Registry

open SchemaUri (Single)

/-- A schema was read under a URI, or what kept it from being read. -/
structure Reading where
  uri : String
  error? : Option PatternError
  deriving DecidableEq

def readingOf (r : Registry) (uri : String) : Option Reading :=
  match r.store.resolution (SchemaUri.normalize uri) with
  | .found target v =>
    if target = uri then
      match r.readSchema uri v with
      | .ok _ => some ⟨uri, none⟩
      | .error e => some ⟨uri, some e⟩
    else none
  | _ => none

def readingsOf (visited : List (Registry × String)) : List Reading :=
  visited.filterMap (fun visit => visit.1.readingOf visit.2)

def compileReadings (r : Registry) : List Reading := readingsOf (r.visits r.drainBound)

variable {start r r' : Registry} {uri u t target : String} {v : Json} {rest waiting : List String}
  {error : Option PatternError} {waits : Bool} {visited : List (Registry × String)}
  {reading : Reading}

theorem readingsOf_concat (visited : List (Registry × String)) (visit : Registry × String) :
    readingsOf (visited ++ [visit])
      = readingsOf visited ++ (visit.1.readingOf visit.2).toList := by
  rw [readingsOf, List.filterMap_append, ← readingsOf, List.filterMap_cons, List.filterMap_nil]
  cases visit.1.readingOf visit.2 <;> rfl

theorem readingOf_own (h : r.store.resolution (SchemaUri.normalize uri) = .found uri v) :
    r.readingOf uri = some (match r.readSchema uri v with
      | .ok _ => ⟨uri, none⟩
      | .error e => ⟨uri, some e⟩) := by
  rw [readingOf, h]
  dsimp only
  rw [if_pos rfl]
  cases r.readSchema uri v <;> rfl

theorem readingOf_eq_some (h : r.readingOf uri = some reading) :
    reading.uri = uri ∧ r.store.Settled uri := by
  cases hresolution : r.store.resolution (SchemaUri.normalize uri) with
  | found target v =>
      refine ⟨?_, .inl ⟨target, v, hresolution⟩⟩
      rw [readingOf, hresolution] at h
      dsimp only at h
      split at h
      · split at h <;> rw [← Option.some.inj h]
      · cases h
  | _ =>
      rw [readingOf, hresolution] at h
      cases h

theorem SameGround.readingOf (h : SameGround r r' uri) : r'.readingOf uri = r.readingOf uri := by
  rw [Registry.readingOf, Registry.readingOf, h.resolution]
  simp only [h.readSchema]

/-! ### Errors -/

theorem Compiles.error_eq (h : Compiles r uri r' error waits) :
    error = (r.readingOf uri).bind Reading.error? := by
  cases h with
  | circular hcircle => rw [readingOf, hcircle, Option.bind_none]
  | documentAbsent habsent => rw [readingOf, habsent, Option.bind_none]
  | nodeAbsent habsent => rw [readingOf, habsent, Option.bind_none]
  | renamed hfound hne =>
      rw [readingOf, hfound]
      dsimp only
      rw [if_neg hne, Option.bind_none]
  | schema hfound hread => rw [readingOf_own hfound, hread, Option.bind_some]
  | invalid hfound hread => rw [readingOf_own hfound, hread, Option.bind_some]

theorem compile_error (r : Registry) :
    r.compile.2 = r.compileReadings.findSome? Reading.error? := by
  obtain ⟨r', waiting, failure, hfailure, -, hcompile⟩ :=
    compile_visits_induction (r := r)
      (P := fun _ _ failure visited => failure = (readingsOf visited).findSome? Reading.error?)
      (fun _ _ _ _ _ _ _ _ hP => hP)
      (fun r uri rest waiting failure visited r' error waits _ _ hP hcompiles => by
        rw [readingsOf_concat, List.findSome?_append, ← hP, hcompiles.error_eq]
        cases readingOf { r with queue := rest } uri with
        | none => rfl
        | some reading => rw [Option.bind_some, Option.toList_some, List.findSome?_singleton])
      rfl
  rw [hcompile]
  exact hfailure

/-! ### One compilation -/

/-- What the documents made of a URI from the start, it has become. -/
structure Made (start r : Registry) (waiting : List String) (visited : List (Registry × String))
    (u : String) : Prop where
  settled : start.store.Settled u
  entry : Table.get? r.entries u = start.entryOf u
  renamed : Table.get? r.aliases u = start.aliasOf u
  leads : ∀ t, Leads start u t → Known r waiting t
  reading : ∀ reading, start.readingOf u = some reading → reading ∈ readingsOf visited

/-- What is known of a registry while its queue is worked through. -/
structure Advances (start r : Registry) (waiting : List String)
    (visited : List (Registry × String)) : Prop where
  documents : Store.SameDocuments start.store r.store
  ground : ∀ u, SameGround start r u
  old : ∀ u ∈ start.handled, u ∈ r.handled
  kept : ∀ u, Known start [] u → Known r waiting u
  single : ∀ u, Known r waiting u → Single u
  fresh : ∀ u, u ∉ r.handled → Table.get? r.entries u = none ∧ Table.get? r.aliases u = none
  made : ∀ u ∈ r.handled, u ∉ start.handled → Made start r waiting visited u
  waits : ∀ u ∈ waiting, ¬start.store.Settled u
  read : ∀ reading ∈ readingsOf visited, reading.uri ∈ r.handled ∧ reading.uri ∉ start.handled
  once : ((readingsOf visited).map Reading.uri).Nodup

namespace Advances

theorem refl (hsingle : ∀ u, Known r [] u → Single u)
    (hfresh : ∀ u, u ∉ r.handled → Table.get? r.entries u = none ∧ Table.get? r.aliases u = none) :
    Advances r r [] [] where
  documents := .rfl
  ground := fun _ => ⟨rfl, rfl, rfl⟩
  old := fun _ hu => hu
  kept := fun _ hu => hu
  single := hsingle
  fresh := hfresh
  made := fun _ hu hnot => absurd hu hnot
  waits := fun _ hu => absurd hu List.not_mem_nil
  read := fun _ hreading => absurd hreading List.not_mem_nil
  once := List.nodup_nil

theorem requeue {queue waiting' : List String} (h : Advances start r waiting visited)
    (hknown : ∀ u, Known { r with queue := queue } waiting' u ↔ Known r waiting u)
    (hwaits : ∀ u ∈ waiting', u ∈ waiting) :
    Advances start { r with queue := queue } waiting' visited where
  documents := h.documents
  ground := fun u => ⟨(h.ground u).resolution, (h.ground u).formats, (h.ground u).names⟩
  old := h.old
  kept := fun u hu => (hknown u).2 (h.kept u hu)
  single := fun u hu => h.single u ((hknown u).1 hu)
  fresh := h.fresh
  made := fun u hu hnot =>
    have hmade := h.made u hu hnot
    ⟨hmade.settled, hmade.entry, hmade.renamed,
      fun t hleads => (hknown t).2 (hmade.leads t hleads), hmade.reading⟩
  waits := fun u hu => h.waits u (hwaits u hu)
  read := h.read
  once := h.once

section

variable (h : Advances start r waiting visited) (hqueue : r.queue = uri :: rest)
  (hfresh : uri ∉ r.handled) (hcompiles : Compiles { r with queue := rest } uri r' error waits)

include h in
theorem ground_queue (u : String) : SameGround start { r with queue := rest } u :=
  ⟨(h.ground u).resolution, (h.ground u).formats, (h.ground u).names⟩

include h hcompiles in
theorem ground_step (u : String) : SameGround start r' u where
  resolution := (hcompiles.sameGround u).resolution.trans (h.ground u).resolution
  formats := hcompiles.formats.trans (h.ground u).formats
  names := hcompiles.names.trans (h.ground u).names

include h hcompiles in
/-- A URI waits if it leads nowhere. -/
theorem waits_iff_settled : waits = false ↔ start.store.Settled uri :=
  hcompiles.waits_iff.trans (h.ground uri).settled_iff

include h hqueue hcompiles in
theorem single_step (htidy : start.store.Tidy)
    (hu : Known r' (if waits then waiting ++ [uri] else waiting) u) : Single u := by
  rcases (hcompiles.known hqueue u).2 hu with hu | hu
  · exact h.single u hu
  · have huri := h.single uri (.inr (.inl (hqueue ▸ List.mem_cons_self)))
    rcases eq_or_mem_references_of_leads hu with rfl | hmem
    · exact huri.normalize
    · exact (htidy.congr h.documents).single_of_mem hmem

include h hfresh hcompiles in
theorem fresh_step (hu : u ∉ r'.handled) :
    Table.get? r'.entries u = none ∧ Table.get? r'.aliases u = none :=
  hcompiles.fresh hfresh h.fresh hu

include h hqueue hfresh hcompiles in
/-- What has been made of a URI stays, since another one is compiled. -/
theorem made_other (hu : u ∈ r.handled) (hnot : u ∉ start.handled) :
    Made start r' (if waits then waiting ++ [uri] else waiting)
      (visited ++ [({ r with queue := rest }, uri)]) u := by
  have hmade := h.made u hu hnot
  obtain ⟨hentries, haliases⟩ := hcompiles.sameAt (fun heq => hfresh (heq ▸ hu))
  refine ⟨hmade.settled, hentries.trans hmade.entry, haliases.trans hmade.renamed,
    fun t hleads => (hcompiles.known hqueue t).1 (hmade.leads t hleads), fun reading hreading => ?_⟩
  rw [readingsOf_concat]
  exact List.mem_append_left _ (hmade.reading reading hreading)

include h hfresh hcompiles in
theorem made_self (hwaits : waits = false) :
    Made start r' (if waits then waiting ++ [uri] else waiting)
      (visited ++ [({ r with queue := rest }, uri)]) uri := by
  have hground : SameGround start { r with queue := rest } uri := h.ground_queue uri
  obtain ⟨hentries, haliases⟩ := hcompiles.outcome (h.fresh uri hfresh).1 (h.fresh uri hfresh).2
  refine ⟨(h.waits_iff_settled hcompiles).1 hwaits, hentries.trans hground.entryOf,
    haliases.trans hground.aliasOf, fun t hleads => ?_, fun reading hreading => ?_⟩
  · rcases hcompiles.queue with ⟨hwaiting, -⟩ | ⟨-, -, -, hall⟩
    · rw [hwaits] at hwaiting
      cases hwaiting
    · exact (hall t (hground.leads hleads)).imp_right .inl
  · rw [readingsOf_concat, hground.readingOf, hreading]
    exact List.mem_append_right _ (List.mem_singleton_self _)

include h hcompiles in
theorem waits_step (hu : u ∈ (if waits then waiting ++ [uri] else waiting)) :
    ¬start.store.Settled u := by
  split at hu
  · next hwaits =>
    rcases List.mem_append.1 hu with hu | hu
    · exact h.waits u hu
    · obtain rfl := List.mem_singleton.1 hu
      rw [← h.waits_iff_settled hcompiles, hwaits]
      exact Bool.noConfusion
  · exact h.waits u hu

include h hcompiles in
theorem read_step (hold : uri ∉ start.handled)
    (hreading : reading ∈ readingsOf (visited ++ [({ r with queue := rest }, uri)])) :
    reading.uri ∈ r'.handled ∧ reading.uri ∉ start.handled := by
  rw [readingsOf_concat, List.mem_append, Option.mem_toList] at hreading
  rcases hreading with hreading | hreading
  · obtain ⟨hdone, hnot⟩ := h.read reading hreading
    exact ⟨hcompiles.handled_of_handled hdone, hnot⟩
  · obtain ⟨huri, hsettled⟩ := readingOf_eq_some hreading
    rw [huri]
    exact ⟨hcompiles.mem_handled.2 (.inr ⟨rfl, hcompiles.waits_iff.2 hsettled⟩), hold⟩

include h hfresh in
theorem once_step :
    ((readingsOf (visited ++ [({ r with queue := rest }, uri)])).map Reading.uri).Nodup := by
  rw [readingsOf_concat, List.map_append]
  refine List.nodup_append.2 ⟨h.once, ?_, fun a ha b hb heq => ?_⟩
  · cases readingOf { r with queue := rest } uri with
    | none => exact List.nodup_nil
    | some reading => exact List.nodup_singleton _
  · obtain ⟨before, hbefore, rfl⟩ := List.mem_map.1 ha
    obtain ⟨now, hnow, rfl⟩ := List.mem_map.1 hb
    have huri : before.uri = uri := heq.trans (readingOf_eq_some (Option.mem_toList.1 hnow)).1
    exact hfresh (huri ▸ (h.read before hbefore).1)

include h hqueue hfresh hcompiles in
theorem step (htidy : start.store.Tidy) :
    Advances start r' (if waits then waiting ++ [uri] else waiting)
      (visited ++ [({ r with queue := rest }, uri)]) where
  documents := h.documents.trans hcompiles.sameDocuments
  ground := h.ground_step hcompiles
  old := fun u hu => hcompiles.handled_of_handled (h.old u hu)
  kept := fun u hu => (hcompiles.known hqueue u).1 (h.kept u hu)
  single := fun _ hu => h.single_step hqueue hcompiles htidy hu
  fresh := fun _ hu => h.fresh_step hfresh hcompiles hu
  made := fun u hu hnot => by
    rcases hcompiles.mem_handled.1 hu with hu | ⟨rfl, hwaits⟩
    · exact h.made_other hqueue hfresh hcompiles hu hnot
    · exact h.made_self hfresh hcompiles hwaits
  waits := fun _ hu => h.waits_step hcompiles hu
  read := fun _ hreading => h.read_step hcompiles (fun hold => hfresh (h.old uri hold)) hreading
  once := h.once_step hfresh

end

end Advances

/-- Compiling makes of the URIs what the documents make of them. What is queued afterwards leads
nowhere. -/
theorem advances_compile (htidy : r.store.Tidy) (hsingle : ∀ u, Known r [] u → Single u)
    (hfresh : ∀ u, u ∉ r.handled → Table.get? r.entries u = none ∧ Table.get? r.aliases u = none) :
    Advances r r.compile.1 [] (r.visits r.drainBound)
      ∧ ∀ u ∈ r.compile.1.queue, ¬r.store.Settled u := by
  obtain ⟨r', waiting, failure, hadvances, hempty, hcompile⟩ :=
    compile_visits_induction (P := fun r' waiting _ visited => Advances r r' waiting visited)
      (fun _ _ _ _ _ _ hqueue hdone h =>
        h.requeue (fun _ => known_tail hqueue hdone) (fun _ hu => hu))
      (fun _ _ _ _ _ _ _ _ _ hqueue hopen h hcompiles => h.step hqueue hopen hcompiles htidy)
      (.refl hsingle hfresh)
  rw [hcompile]
  exact ⟨hadvances.requeue (fun _ => known_refill hempty) (fun _ hu => absurd hu List.not_mem_nil),
    hadvances.waits⟩

end HyperSchema.Registry
