import HyperSchema.Proofs.Outstanding
import HyperSchema.Proofs.Registry.Drain
import HyperSchema.Proofs.Schema.Reading
import HyperSchema.Proofs.SchemaUri
import HyperSchema.Proofs.Store.Targets

/-!
# Compiling comes to an end

All URIs that can be queued are known beforehand: those in the queue, the targets of the references
in the store, and the canonical forms of all these. Each step either takes a URI off the queue or
finishes one of them, and one that is finished queues each of the others at most once.
-/

namespace HyperSchema.Registry

variable {r r' : Registry} {uri : String} {uris : List String}

/-- URIs that include those queued and all that these can lead to. -/
structure Covers (uris : List String) (r : Registry) : Prop where
  references : ∀ target ∈ r.store.references, target ∈ uris
  queue : ∀ u ∈ r.queue, u ∈ uris
  closed : ∀ u ∈ uris, SchemaUri.normalize u ∈ uris

theorem references_schemaOf_subset (v : Json) : (schemaOf v).references ⊆ v.references := by
  unfold schemaOf
  split
  · exact List.Subset.refl _
  · exact List.Subset.refl _
  · exact List.nil_subset _

/-- What a URI leads to is its canonical form, or the target of a reference. -/
theorem eq_or_mem_references_of_leads {target : String} (h : Leads r uri target) :
    target = SchemaUri.normalize uri ∨ target ∈ r.store.references := by
  cases h with
  | renamed hfound _ => exact (Store.of_resolution_eq_found hfound).1
  | @schema v schema _ hfound hread hmem =>
      have hnode := (eq_of_readSchema hread).2
      have htarget := Node.mem_references_of_refersTo ⟨uri, schema.node, hnode, hmem⟩
      exact .inr ((Store.of_resolution_eq_found hfound).2 (references_schemaOf_subset v htarget))

theorem Covers.leads {target : String} (h : Covers uris r) (huri : uri ∈ uris)
    (hleads : Leads r uri target) : target ∈ uris := by
  rcases eq_or_mem_references_of_leads hleads with rfl | hmem
  · exact h.closed uri huri
  · exact h.references target hmem

theorem Compiles.references {error : Option PatternError} {waits : Bool}
    (h : Compiles r uri r' error waits) : r'.store.references = r.store.references := by
  cases h with
  | circular => rfl
  | documentAbsent => rfl
  | nodeAbsent => rfl
  | renamed => rw [(sameBut_enqueue _ _).store]; rfl
  | schema => rw [(sameBut_enqueueAll _ _).store]; rfl
  | invalid => rfl

theorem Covers.compiles {error : Option PatternError} {waits : Bool} (h : Covers uris r)
    (huri : uri ∈ uris) (hcompiles : Compiles r uri r' error waits) : Covers uris r' where
  references := by
    rw [hcompiles.references]
    exact h.references
  queue := by
    rcases hcompiles.queue with ⟨-, hqueue, -⟩ | ⟨-, -, ⟨added, hqueue, -, hadded⟩, -⟩
    · rw [hqueue]
      exact h.queue
    · rw [hqueue, List.forall_mem_append]
      exact ⟨h.queue, fun u hu => h.leads huri (hadded u hu)⟩
  closed := h.closed

theorem Covers.tail {rest : List String} (h : Covers uris r) (hqueue : r.queue = uri :: rest) :
    Covers uris { r with queue := rest } :=
  ⟨h.references, fun u hu => h.queue u (hqueue ▸ List.mem_cons_of_mem _ hu), h.closed⟩

/-- What is left to do: every URI not done may queue all the others. -/
def work (uris : List String) (r : Registry) : Nat :=
  r.queue.length + outstanding uris r.handled * (uris.length + 1)

theorem work_tail_lt (uris : List String) {rest : List String} (hqueue : r.queue = uri :: rest) :
    work uris { r with queue := rest } < work uris r := by
  rw [work, work, hqueue]
  exact Nat.add_lt_add_right (Nat.lt_succ_self _) _

theorem Covers.work_lt {rest : List String} {error : Option PatternError} {waits : Bool}
    (h : Covers uris r) (hqueue : r.queue = uri :: rest) (hfresh : uri ∉ r.handled)
    (hcompiles : Compiles { r with queue := rest } uri r' error waits) :
    work uris r' < work uris r := by
  have huri : uri ∈ uris := h.queue uri (hqueue ▸ List.mem_cons_self)
  have hrest := h.tail hqueue
  rw [work, work, hqueue, List.length_cons]
  rcases hcompiles.queue with
    ⟨-, hsame, hhandled⟩ | ⟨-, hhandled, ⟨added, hmore, hnodup, hadded⟩, -⟩
  · rw [hsame, hhandled]
    exact Nat.add_lt_add_right (Nat.lt_succ_self _) _
  · have hadded' : added.length ≤ uris.length :=
      hnodup.length_le_of_subset (fun u hu => hrest.leads huri (hadded u hu))
    have hless : outstanding uris r'.handled < outstanding uris r.handled :=
      outstanding_lt (fun u hu => (hhandled u).2 (.inr hu)) huri hfresh
        ((hhandled uri).2 (.inl rfl))
    have hmul := Nat.mul_le_mul_right (uris.length + 1) hless
    rw [Nat.succ_mul] at hmul
    have hqueue' : r'.queue.length = rest.length + added.length := by
      rw [hmore, List.length_append]
    omega

/-- The references, the queue, and all their canonical forms. -/
def reachable (r : Registry) : List String :=
  (r.store.references ++ r.queue).flatMap (fun uri => SchemaUri.forms uri.length uri)

theorem covers_reachable (r : Registry) : Covers r.reachable r where
  references := fun target htarget => List.mem_flatMap.2
    ⟨target, List.mem_append_left _ htarget, SchemaUri.mem_forms_self _ _⟩
  queue := fun u hu => List.mem_flatMap.2
    ⟨u, List.mem_append_right _ hu, SchemaUri.mem_forms_self _ _⟩
  closed := by
    intro u hu
    obtain ⟨uri, huri, hform⟩ := List.mem_flatMap.1 hu
    exact List.mem_flatMap.2 ⟨uri, huri, SchemaUri.normalize_mem_forms (Nat.le_refl _) hform⟩

theorem foldl_add_length (n : Nat) (l : List String) :
    l.foldl (fun n uri => n + uri.length + 1) n
      = n + (l.flatMap (fun uri => SchemaUri.forms uri.length uri)).length := by
  induction l generalizing n with
  | nil => rfl
  | cons uri rest ih =>
      rw [List.foldl_cons, ih, List.flatMap_cons, List.length_append, SchemaUri.length_forms]
      omega

theorem work_reachable_lt (r : Registry) : work r.reachable r < r.drainBound := by
  have hall := outstanding_le r.reachable r.handled
  have hlength := foldl_add_length 0 (r.store.references ++ r.queue)
  rw [Nat.zero_add] at hlength
  rw [drainBound, hlength, work]
  have hmul := Nat.mul_le_mul_right (r.reachable.length + 1) hall
  exact Nat.lt_succ_of_le (Nat.add_le_add_left hmul _)

/-- What every step keeps, with the visits made so far, holds when everything that is queued has
been worked through. -/
theorem compile_visits_induction
    {P : Registry → List String → Option PatternError → List (Registry × String) → Prop}
    (hskip : ∀ r uri rest waiting failure visited, r.queue = uri :: rest → uri ∈ r.handled →
      P r waiting failure visited → P { r with queue := rest } waiting failure visited)
    (hstep : ∀ r uri rest waiting failure visited r' error waits, r.queue = uri :: rest →
      uri ∉ r.handled → P r waiting failure visited →
        Compiles { r with queue := rest } uri r' error waits →
          P r' (if waits then waiting ++ [uri] else waiting) (failure.or error)
            (visited ++ [({ r with queue := rest }, uri)]))
    (h : P r [] none []) :
    ∃ r' waiting failure, P r' waiting failure (r.visits r.drainBound) ∧ r'.queue = []
      ∧ r.compile = ({ r' with queue := waiting }, failure) := by
  have hskip' : ∀ r' uri rest waiting failure visited, r'.queue = uri :: rest → uri ∈ r'.handled →
      Covers r.reachable r' ∧ P r' waiting failure visited →
        (Covers r.reachable { r' with queue := rest }
            ∧ P { r' with queue := rest } waiting failure visited)
          ∧ work r.reachable { r' with queue := rest } < work r.reachable r' := by
    intro r' uri rest waiting failure visited hqueue hdone h
    obtain ⟨hcovers, hP⟩ := h
    exact ⟨⟨hcovers.tail hqueue, hskip r' uri rest waiting failure visited hqueue hdone hP⟩,
      work_tail_lt r.reachable hqueue⟩
  have hstep' : ∀ r' uri rest waiting failure visited r'' error waits, r'.queue = uri :: rest →
      uri ∉ r'.handled → Covers r.reachable r' ∧ P r' waiting failure visited →
        Compiles { r' with queue := rest } uri r'' error waits →
          (Covers r.reachable r'' ∧
            P r'' (if waits then waiting ++ [uri] else waiting) (failure.or error)
              (visited ++ [({ r' with queue := rest }, uri)]))
            ∧ work r.reachable r'' < work r.reachable r' := by
    intro r' uri rest waiting failure visited r'' error waits hqueue hfresh h hcompiles
    obtain ⟨hcovers, hP⟩ := h
    have huri : uri ∈ r.reachable := hcovers.queue uri (hqueue ▸ List.mem_cons_self)
    exact ⟨⟨(hcovers.tail hqueue).compiles huri hcompiles,
      hstep r' uri rest waiting failure visited r'' error waits hqueue hfresh hP hcompiles⟩,
      hcovers.work_lt hqueue hfresh hcompiles⟩
  have hstart : Covers r.reachable r ∧ P r [] none [] := ⟨r.covers_reachable, h⟩
  obtain ⟨r', waiting, failure, ⟨-, hP⟩, hempty, hdrain⟩ :=
    drain_visits_induction hskip' hstep' hstart r.work_reachable_lt
  exact ⟨r', waiting, failure, hP, hempty, hdrain⟩

/-- What every step keeps holds when everything that is queued has been worked through. -/
theorem compile_induction {P : Registry → List String → Option PatternError → Prop}
    (hskip : ∀ r uri rest waiting failure, r.queue = uri :: rest → uri ∈ r.handled →
      P r waiting failure → P { r with queue := rest } waiting failure)
    (hstep : ∀ r uri rest waiting failure r' error waits, r.queue = uri :: rest →
      uri ∉ r.handled → P r waiting failure →
        Compiles { r with queue := rest } uri r' error waits →
          P r' (if waits then waiting ++ [uri] else waiting) (failure.or error))
    (h : P r [] none) :
    ∃ r' waiting failure, P r' waiting failure ∧ r'.queue = []
      ∧ r.compile = ({ r' with queue := waiting }, failure) :=
  compile_visits_induction (fun r uri rest waiting failure _ => hskip r uri rest waiting failure)
    (fun r uri rest waiting failure _ => hstep r uri rest waiting failure) h

end HyperSchema.Registry
