import HyperSchema.Proofs.Registry.Supply
import HyperSchema.Proofs.Store.References

/-!
# Documents that can be asked for

All documents that a registry can come to miss are known beforehand: those that it misses, those of
the URIs in its queue, and those of the references in its store. Compiling adds none to them, and a
document that is taken in adds those of its own references. A document that is there stays.
-/

namespace HyperSchema.Registry

variable {r r' : Registry} {bases : List String} {uri base : String} {document : Json}

/-- Documents that include all that are missing and all that can come to be. -/
structure Within (bases : List String) (r : Registry) : Prop where
  missing : ∀ base ∈ r.missingDocuments, base ∈ bases
  queue : ∀ u ∈ r.queue, SchemaUri.base u ∈ bases
  references : ∀ target ∈ r.store.references, SchemaUri.base target ∈ bases

/-- The documents that a document can make a registry ask for, when it is taken in under a URI. -/
def asked (uri : String) (document : Json) : List String :=
  (document.scan uri).value.references.map SchemaUri.base

theorem length_asked (uri : String) (document : Json) :
    (asked uri document).length = document.references.length := by
  rw [asked, List.length_map]
  exact (Scan.counted_value true uri document).length

namespace Within

theorem compiles {error : Option PatternError} {waits : Bool} (h : Within bases r)
    (huri : SchemaUri.base uri ∈ bases) (hcompiles : Compiles r uri r' error waits) :
    Within bases r' where
  missing := fun base hbase => by
    obtain ⟨hnoted, habsent⟩ := mem_missingDocuments.1 hbase
    rw [hcompiles.sameDocuments.contains] at habsent
    rcases hnoted with ⟨u, hu, rfl⟩ | hstore
    · rcases hcompiles.mem_missing.1 hu with ⟨rfl, -⟩ | ⟨-, hu⟩
      · exact huri
      · exact h.missing _ (mem_missingDocuments.2 ⟨.inl ⟨u, hu, rfl⟩, habsent⟩)
    · have hold : (∃ l ∈ r.store.layers, base ∈ l.missing) → base ∈ bases := fun hl =>
        h.missing base
          (mem_missingDocuments.2 ⟨.inr (Store.mem_missing_iff.2 ⟨hl, habsent⟩), habsent⟩)
      obtain ⟨⟨l, hl, hmissing⟩, -⟩ := Store.mem_missing_iff.1 hstore
      rcases List.mem_cons.1 hl with rfl | hl
      · rcases hcompiles.mem_store_missing.1 hmissing with habsent | htop
        · rcases Store.base_of_documentAbsent habsent with rfl | ⟨target, htarget, rfl⟩
          · rwa [SchemaUri.base_normalize]
          · exact h.references target htarget
        · exact hold ⟨r.store.top, List.mem_cons_self, htop⟩
      · rw [hcompiles.sameDocuments.below] at hl
        exact hold ⟨l, List.mem_cons_of_mem _ hl, hmissing⟩
  queue := by
    rcases hcompiles.queue with ⟨-, hqueue, -⟩ | ⟨-, -, ⟨added, hqueue, -, hadded⟩, -⟩
    · rw [hqueue]
      exact h.queue
    · rw [hqueue, List.forall_mem_append]
      refine ⟨h.queue, fun u hu => ?_⟩
      rcases eq_or_mem_references_of_leads (hadded u hu) with rfl | hmem
      · rwa [SchemaUri.base_normalize]
      · exact h.references u hmem
  references := by
    rw [hcompiles.references]
    exact h.references

theorem compile (h : Within bases r) : Within bases r.compile.1 := by
  have hrest : ∀ (r' : Registry) u rest, r'.queue = u :: rest → Within bases r' →
      SchemaUri.base u ∈ bases ∧ Within bases { r' with queue := rest } := by
    intro r' u rest hqueue hwithin
    refine ⟨hwithin.queue u (hqueue ▸ List.mem_cons_self), hwithin.missing, fun u' hu' => ?_,
      hwithin.references⟩
    exact hwithin.queue u' (hqueue ▸ List.mem_cons_of_mem _ hu')
  have hskip : ∀ (r' : Registry) u rest (waiting : List String) (failure : Option PatternError),
      r'.queue = u :: rest → u ∈ r'.handled →
        (Within bases r' ∧ ∀ u ∈ waiting, SchemaUri.base u ∈ bases) →
        Within bases { r' with queue := rest } ∧ ∀ u ∈ waiting, SchemaUri.base u ∈ bases :=
    fun r' u rest _ _ hqueue _ hboth => ⟨(hrest r' u rest hqueue hboth.1).2, hboth.2⟩
  have hstep : ∀ (r' : Registry) u rest (waiting : List String) (failure : Option PatternError)
      r'' error waits, r'.queue = u :: rest → u ∉ r'.handled →
        (Within bases r' ∧ ∀ u ∈ waiting, SchemaUri.base u ∈ bases) →
        Compiles { r' with queue := rest } u r'' error waits →
          Within bases r'' ∧ ∀ v ∈ (if waits then waiting ++ [u] else waiting),
            SchemaUri.base v ∈ bases := by
    intro r' u rest waiting _ r'' _ waits hqueue _ hboth hcompiles
    obtain ⟨hu, hwithin⟩ := hrest r' u rest hqueue hboth.1
    refine ⟨hwithin.compiles hu hcompiles, ?_⟩
    cases waits with
    | false => exact hboth.2
    | true =>
        refine List.forall_mem_append.2 ⟨hboth.2, ?_⟩
        rwa [List.forall_mem_singleton]
  have hnone : ∀ u ∈ ([] : List String), SchemaUri.base u ∈ bases :=
    fun _ hu => absurd hu List.not_mem_nil
  obtain ⟨r', waiting, failure, ⟨hwithin, hwaiting⟩, -, hcompile⟩ :=
    compile_induction hskip hstep ⟨h, hnone⟩
  rw [hcompile]
  exact ⟨hwithin.missing, hwaiting, hwithin.references⟩

theorem supply (h : Within bases r)
    (hasked : ∀ base ∈ asked (SchemaUri.normalize uri) document, base ∈ bases) :
    Within bases (r.supply uri (some document)) where
  missing := fun base hbase => by
    obtain ⟨hnoted, habsent⟩ := mem_missingDocuments.1 hbase
    have hbefore : r.store.contains base = false := by
      rw [Bool.eq_false_iff]
      intro hthere
      rw [show (r.supply uri (some document)).store.contains base = true from
        Store.contains_add uri document hthere] at habsent
      cases habsent
    rcases hnoted with ⟨u, hu, rfl⟩ | hstore
    · exact h.missing _ (mem_missingDocuments.2 ⟨.inl ⟨u, (List.mem_filter.1 hu).1, rfl⟩, hbefore⟩)
    · have hold : (∃ l ∈ r.store.layers, base ∈ l.missing) → base ∈ bases := fun hl =>
        h.missing base
          (mem_missingDocuments.2 ⟨.inr (Store.mem_missing_iff.2 ⟨hl, hbefore⟩), hbefore⟩)
      obtain ⟨⟨l, hl, hmissing⟩, -⟩ := Store.mem_missing_iff.1 hstore
      rcases List.mem_cons.1 hl with rfl | hl
      · rcases Store.mem_missing_add.1 hmissing with ⟨htop, -⟩ | ⟨target, htarget, -, -, rfl⟩
        · exact hold ⟨r.store.top, List.mem_cons_self, htop⟩
        · exact hasked _ (List.mem_map_of_mem
            ((Scan.counted_value true (SchemaUri.normalize uri) document).targets htarget))
      · rw [show (r.supply uri (some document)).store.below = r.store.below from
          Store.below_add _ _ _] at hl
        exact hold ⟨l, List.mem_cons_of_mem _ hl, hmissing⟩
  queue := h.queue
  references := fun target htarget => by
    rcases Store.mem_references_add htarget with hold | hnew
    · exact h.references target hold
    · exact hasked _ (List.mem_map_of_mem hnew)

theorem enrol (h : Within bases r) (huri : SchemaUri.base uri ∈ bases) (name : Option String) :
    Within bases (r.enrol uri name) where
  missing := h.missing
  queue := fun u hu => by
    have hqueue : u ∈ (if r.handled.contains uri then r.queue else r.queue ++ [uri]) := hu
    split at hqueue
    · exact h.queue u hqueue
    · rcases List.mem_append.1 hqueue with hold | hnew
      · exact h.queue u hold
      · rwa [List.mem_singleton.1 hnew]
  references := h.references

end Within

/-! ### What is there stays -/

theorem contains_compile (r : Registry) (u : String) :
    r.compile.1.store.contains u = r.store.contains u := by
  have hskip : ∀ (r' : Registry) v rest (waiting : List String) (failure : Option PatternError),
      r'.queue = v :: rest → v ∈ r'.handled → r'.store.contains u = r.store.contains u →
        ({ r' with queue := rest } : Registry).store.contains u = r.store.contains u :=
    fun _ _ _ _ _ _ _ hsame => hsame
  have hstep : ∀ (r' : Registry) v rest (waiting : List String) (failure : Option PatternError)
      r'' error waits, r'.queue = v :: rest → v ∉ r'.handled →
        r'.store.contains u = r.store.contains u →
        Compiles { r' with queue := rest } v r'' error waits →
          r''.store.contains u = r.store.contains u :=
    fun _ _ _ _ _ _ _ _ _ _ hsame hcompiles => (hcompiles.sameDocuments.contains u).trans hsame
  obtain ⟨r', waiting, failure, hsame, -, hcompile⟩ := compile_induction hskip hstep rfl
  rw [hcompile]
  exact hsame

theorem addSchema_eq_ok {name : Option String}
    (h : r.addSchema uri (some document) name = .ok r') :
    r' = (r.supply (SchemaUri.normalize uri) (some document)).enrol (SchemaUri.normalize uri)
      name := by
  rw [addSchema] at h
  split at h
  · cases h
  · exact (Except.ok.inj h).symm

theorem contains_addSchema {name : Option String} {u : String}
    (h : r.addSchema uri (some document) name = .ok r') (hthere : r.store.contains u = true) :
    r'.store.contains u = true := by
  rw [addSchema_eq_ok h]
  exact Store.contains_add _ document hthere

theorem contains_of_addSchema {name : Option String} (hbase : '#' ∉ base.toList)
    (h : r.addSchema base (some document) name = .ok r') : r'.store.contains base = true := by
  have hfind := r.store.find?_add_self base document
  rw [SchemaUri.normalize_of_no_hash hbase] at hfind
  rw [addSchema_eq_ok h, SchemaUri.normalize_of_no_hash hbase]
  show (r.store.add base document).contains base = true
  rw [Store.contains, hfind]
  rfl

end HyperSchema.Registry
