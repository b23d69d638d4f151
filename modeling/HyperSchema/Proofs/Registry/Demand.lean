import HyperSchema.Proofs.Registry.Entries
import HyperSchema.Proofs.Store.Growth

/-!
# What is asked for, and what is made of it

The roots of a registry ask for the URIs that they lead to, and these for others in turn. What can
be made of a URI is decided by the documents: an entry if a schema is read under it or its
references go in circles, an alias if it is renamed, and nothing yet if it leads nowhere. None of
this depends on the order in which URIs are compiled.
-/

namespace HyperSchema

namespace Registry

variable {r r' : Registry} {uri target : String} {error : Option PatternError} {waits : Bool}

/-- The entry that the documents of a registry make for a URI. -/
def entryOf (r : Registry) (uri : String) : Option Entry :=
  match r.store.resolution (SchemaUri.normalize uri) with
  | .circular chain => some (.circular chain)
  | .found target v => if target = uri then (r.readSchema uri v).toOption.map .compiled else none
  | _ => none

/-- The URI that the documents of a registry make a URI an alias of. -/
def aliasOf (r : Registry) (uri : String) : Option String :=
  match r.store.resolution (SchemaUri.normalize uri) with
  | .found target _ => if target = uri then none else some target
  | _ => none

/-- The URIs that the roots lead to. -/
inductive Demanded (r : Registry) : String → Prop where
  | root {uri : String} (h : uri ∈ r.roots) : Demanded r uri
  | led {uri target : String} (h : Demanded r uri) (hleads : Leads r uri target) :
      Demanded r target

/-! ### The same ground -/

/-- Two registries that read the same schema under a URI. -/
structure SameGround (r r' : Registry) (uri : String) : Prop where
  resolution : r'.store.resolution (SchemaUri.normalize uri)
    = r.store.resolution (SchemaUri.normalize uri)
  formats : r'.formats = r.formats
  names : r'.names = r.names

namespace SameGround

theorem symm (h : SameGround r r' uri) : SameGround r' r uri :=
  ⟨h.resolution.symm, h.formats.symm, h.names.symm⟩

theorem trans {r'' : Registry} (h : SameGround r r' uri) (h' : SameGround r' r'' uri) :
    SameGround r r'' uri :=
  ⟨h'.resolution.trans h.resolution, h'.formats.trans h.formats, h'.names.trans h.names⟩

theorem readSchema (h : SameGround r r' uri) (v : Json) :
    r'.readSchema uri v = r.readSchema uri v := by
  rw [Registry.readSchema, Registry.readSchema, h.formats, h.names]

theorem settled_iff (h : SameGround r r' uri) : r'.store.Settled uri ↔ r.store.Settled uri := by
  rw [Store.Settled, Store.Settled, h.resolution]

theorem entryOf (h : SameGround r r' uri) : r'.entryOf uri = r.entryOf uri := by
  rw [Registry.entryOf, Registry.entryOf, h.resolution]
  simp only [h.readSchema]

theorem aliasOf (h : SameGround r r' uri) : r'.aliasOf uri = r.aliasOf uri := by
  rw [Registry.aliasOf, Registry.aliasOf, h.resolution]

theorem leads (h : SameGround r r' uri) (hleads : Leads r uri target) : Leads r' uri target := by
  cases hleads with
  | renamed hfound hne => exact .renamed (h.resolution.trans hfound) hne
  | schema hfound hread hmem =>
      exact .schema (h.resolution.trans hfound) ((h.readSchema _).trans hread) hmem

end SameGround

theorem settled_of_leads (h : Leads r uri target) : r.store.Settled uri := by
  cases h with
  | renamed hfound _ => exact .inl ⟨_, _, hfound⟩
  | schema hfound _ _ => exact .inl ⟨_, _, hfound⟩

theorem Demanded.mono (hroots : ∀ u ∈ r.roots, u ∈ r'.roots)
    (hground : ∀ u, r.store.Settled u → SameGround r r' u) (h : Demanded r uri) :
    Demanded r' uri := by
  induction h with
  | root hroot => exact .root (hroots _ hroot)
  | led _ hleads ih => exact ih.led ((hground _ (settled_of_leads hleads)).leads hleads)

theorem entryOf_of_not_settled (h : ¬r.store.Settled uri) :
    r.entryOf uri = none ∧ r.aliasOf uri = none := by
  rw [entryOf, aliasOf]
  cases hresolution : r.store.resolution (SchemaUri.normalize uri) with
  | found target v => exact absurd (.inl ⟨_, _, hresolution⟩) h
  | circular chain => exact absurd (.inr ⟨_, hresolution⟩) h
  | documentAbsent base => exact ⟨rfl, rfl⟩
  | nodeAbsent => exact ⟨rfl, rfl⟩

/-! ### One step -/

namespace Compiles

variable (h : Compiles r uri r' error waits)

include h

theorem roots : r'.roots = r.roots := by
  cases h with
  | renamed => exact (sameBut_enqueue _ _).roots
  | schema => exact (sameBut_enqueueAll _ _).roots
  | _ => rfl

theorem options : r'.options = r.options := by
  cases h with
  | renamed => exact (sameBut_enqueue _ _).options
  | schema => exact (sameBut_enqueueAll _ _).options
  | _ => rfl

theorem formats : r'.formats = r.formats := by
  cases h with
  | renamed => exact (sameBut_enqueue _ _).formats
  | schema => exact (sameBut_enqueueAll _ _).formats
  | _ => rfl

theorem names : r'.names = r.names := by
  cases h with
  | renamed => exact (sameBut_enqueue _ _).names
  | schema => exact (sameBut_enqueueAll _ _).names
  | _ => rfl

theorem sameDocuments : Store.SameDocuments r.store r'.store := by
  cases h with
  | documentAbsent => exact r.store.sameDocuments_recordMissing _
  | renamed =>
      dsimp only
      rw [(sameBut_enqueue _ _).store]
      exact .rfl
  | schema =>
      dsimp only
      rw [(sameBut_enqueueAll _ _).store]
      exact .rfl
  | _ => exact .rfl

theorem sameGround (u : String) : SameGround r r' u :=
  ⟨h.sameDocuments.resolution _, h.formats, h.names⟩

theorem waits_iff : waits = false ↔ r.store.Settled uri := by
  cases h with
  | circular hcircle => exact iff_of_true rfl (.inr ⟨_, hcircle⟩)
  | documentAbsent habsent =>
      exact iff_of_false (by simp) (Store.not_settled_of_documentAbsent habsent)
  | nodeAbsent habsent =>
      exact iff_of_false (by simp) (Store.not_settled_of_nodeAbsent habsent)
  | renamed hfound _ => exact iff_of_true rfl (.inl ⟨_, _, hfound⟩)
  | schema hfound _ => exact iff_of_true rfl (.inl ⟨_, _, hfound⟩)
  | invalid hfound _ => exact iff_of_true rfl (.inl ⟨_, _, hfound⟩)

/-- What is compiled is done, unless it waits. -/
theorem mem_handled {u : String} :
    u ∈ r'.handled ↔ u ∈ r.handled ∨ u = uri ∧ waits = false := by
  rcases h.queue with ⟨rfl, -, hsame⟩ | ⟨rfl, hmore, -⟩
  · rw [hsame]
    exact ⟨.inl, fun hu => hu.elim id (fun hwaits => nomatch hwaits.2)⟩
  · rw [hmore, or_comm]
    exact or_congr_right ⟨fun hu => ⟨hu, rfl⟩, And.left⟩

theorem outcome (hentry : Table.get? r.entries uri = none)
    (halias : Table.get? r.aliases uri = none) :
    Table.get? r'.entries uri = r.entryOf uri ∧ Table.get? r'.aliases uri = r.aliasOf uri := by
  rw [entryOf, aliasOf]
  cases h with
  | circular hcircle =>
      rw [hcircle]
      exact ⟨Table.get?_insert_self _ _ _, halias⟩
  | documentAbsent habsent =>
      rw [habsent]
      exact ⟨hentry, halias⟩
  | nodeAbsent habsent =>
      rw [habsent]
      exact ⟨hentry, halias⟩
  | renamed hfound hne =>
      rw [hfound]
      dsimp only
      rw [if_neg hne, if_neg hne, (sameBut_enqueue _ _).entries]
      exact ⟨hentry, Table.get?_insert_self _ _ _⟩
  | schema hfound hread =>
      rw [hfound]
      dsimp only
      rw [if_pos rfl, if_pos rfl, hread, (sameBut_enqueueAll _ _).aliases]
      exact ⟨Table.get?_insert_self _ _ _, halias⟩
  | invalid hfound hread =>
      rw [hfound]
      dsimp only
      rw [if_pos rfl, if_pos rfl, hread]
      exact ⟨hentry, halias⟩

theorem fresh {u : String} (hfresh : uri ∉ r.handled)
    (hnone : ∀ u, u ∉ r.handled →
      Table.get? r.entries u = none ∧ Table.get? r.aliases u = none)
    (hu : u ∉ r'.handled) : Table.get? r'.entries u = none ∧ Table.get? r'.aliases u = none := by
  rw [h.mem_handled, not_or] at hu
  by_cases heq : u = uri
  · subst heq
    have hunsettled : ¬r.store.Settled u := fun hsettled => hu.2 ⟨rfl, h.waits_iff.2 hsettled⟩
    have hnothing := entryOf_of_not_settled hunsettled
    rw [← hnothing.1, ← hnothing.2]
    exact h.outcome (hnone u hfresh).1 (hnone u hfresh).2
  · obtain ⟨hentries, haliases⟩ := h.sameAt heq
    rw [hentries, haliases]
    exact hnone u hu.1

theorem distinct (hentries : Table.Distinct r.entries) (haliases : Table.Distinct r.aliases) :
    Table.Distinct r'.entries ∧ Table.Distinct r'.aliases := by
  cases h with
  | circular => exact ⟨hentries.insert _ _, haliases⟩
  | documentAbsent => exact ⟨hentries, haliases⟩
  | nodeAbsent => exact ⟨hentries, haliases⟩
  | renamed =>
      dsimp only
      rw [(sameBut_enqueue _ _).entries]
      exact ⟨hentries, haliases.insert _ _⟩
  | schema =>
      dsimp only
      rw [(sameBut_enqueueAll _ _).aliases]
      exact ⟨hentries.insert _ _, haliases⟩
  | invalid => exact ⟨hentries, haliases⟩

theorem mem_missing {u : String} :
    u ∈ r'.missing ↔ u = uri ∧ waits = true ∨ u ≠ uri ∧ u ∈ r.missing := by
  have hwaiting : u ∈ r.missing.insert uri
      ↔ u = uri ∧ true = true ∨ u ≠ uri ∧ u ∈ r.missing := by
    rw [NameSet.mem_insert]
    by_cases hu : u = uri <;> simp [hu]
  have hfinished : u ∈ (r.finish uri).missing
      ↔ u = uri ∧ false = true ∨ u ≠ uri ∧ u ∈ r.missing := by
    rw [finish_missing, NameSet.mem_erase]
    by_cases hu : u = uri <;> simp [hu]
  cases h with
  | documentAbsent => exact hwaiting
  | nodeAbsent => exact hwaiting
  | renamed =>
      dsimp only
      rw [(sameBut_enqueue _ _).missing]
      exact hfinished
  | schema =>
      dsimp only
      rw [(sameBut_enqueueAll _ _).missing]
      exact hfinished
  | circular => exact hfinished
  | invalid => exact hfinished

theorem mem_store_missing {base : String} : base ∈ r'.store.top.missing
    ↔ r.store.resolution (SchemaUri.normalize uri) = .documentAbsent base
      ∨ base ∈ r.store.top.missing := by
  cases h with
  | documentAbsent habsent =>
      rw [habsent, Resolution.documentAbsent.injEq, eq_comm]
      exact NameSet.mem_insert
  | nodeAbsent habsent => simp [habsent]
  | circular hcircle => simp [hcircle]
  | renamed hfound _ => simp [hfound, (sameBut_enqueue _ _).store]
  | schema hfound _ => simp [hfound, (sameBut_enqueueAll _ _).store]
  | invalid hfound _ => simp [hfound]

end Compiles

end Registry

end HyperSchema
