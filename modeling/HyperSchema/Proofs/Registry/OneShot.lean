import HyperSchema.Proofs.Registry.Bound
import HyperSchema.Proofs.Schema.Agreement
import HyperSchema.Proofs.Store.Unreferenced
import HyperSchema.Proofs.Validation.Aliases

/-!
# A schema by itself

One document without references is compiled under its URI. The URI of a schema that is compiled is
in canonical form; one that is not is an alias of its canonical form, which is compiled next. So the
hash signs at the end of the URI are taken off one at a time, and the schema found at the end judges
the value. If nothing is found on the way, nothing judges it.
-/

namespace HyperSchema

/-- The schema at the end of the renamings that start at a URI. -/
inductive Store.EndsAt (s : Store) : String → Json → Prop where
  | here {uri : String} {v : Json}
      (h : s.resolution (SchemaUri.normalize uri) = .found uri v) : EndsAt s uri v
  | next {uri next : String} {v w : Json}
      (h : s.resolution (SchemaUri.normalize uri) = .found next v) (hne : next ≠ uri)
      (rest : EndsAt s next w) : EndsAt s uri w

theorem Store.EndsAt.of_renamed {s : Store} {uri next : String} {v w : Json}
    (hfound : s.resolution (SchemaUri.normalize uri) = .found next v) (hne : next ≠ uri)
    (h : s.EndsAt uri w) : s.EndsAt next w := by
  cases h with
  | here h =>
      rw [h] at hfound
      exact absurd (Resolution.found.inj hfound).1.symm hne
  | next h _ rest =>
      rw [h] at hfound
      rwa [← (Resolution.found.inj hfound).1]

namespace Registry

variable {r r' : Registry} {s : Store} {start uri : String} {options : Options}

/-- The renamings so far lead from the start to the only URI in the queue. -/
structure Pending (s : Store) (options : Options) (start uri : String) (r : Registry) : Prop where
  store : r.store = s
  options : r.options = options
  formats : r.formats = []
  queue : r.queue = [uri]
  entries : r.entries = []
  chain : Snapshot.Chain r.aliases start uri r.aliases.length
  longer : ∀ u ∈ r.handled, uri.length < u.length
  done : ∀ u, Table.get? r.aliases u ≠ none → u ∈ r.handled
  ends : ∀ w, s.EndsAt uri w ↔ s.EndsAt start w

/-- The start leads to a schema that was read from the end of the renamings. -/
structure Finished (s : Store) (options : Options) (start : String) (w : Json)
    (schema : CompiledSchema) (r : Registry) : Prop where
  queue : r.queue = []
  options : r.options = options
  target : r.snapshot.target? start = some (.compiled schema)
  read : Node.ofSchema [] schema.uri (schemaOf w) = .ok schema.node
  ends : s.EndsAt start w

/-- How far the only document of a store has got. -/
inductive Progress (s : Store) (options : Options) (start : String) (r : Registry) :
    List String → Option PatternError → Prop where
  | pending {uri : String} (h : Pending s options start uri r) : Progress s options start r [] none
  | waits {waiting : List String} (hqueue : r.queue = [])
      (htarget : r.snapshot.target? start = none) (hends : ∀ w, ¬s.EndsAt start w) :
      Progress s options start r waiting none
  | finished {waiting : List String} {w : Json} {schema : CompiledSchema}
      (h : Finished s options start w schema r) : Progress s options start r waiting none
  | failed {waiting : List String} {e : PatternError} (hqueue : r.queue = []) :
      Progress s options start r waiting (some e)

namespace Pending

theorem get?_aliases (h : Pending s options start uri r) : Table.get? r.aliases uri = none := by
  by_contra hsome
  exact Nat.lt_irrefl _ (h.longer uri (h.done uri hsome))

theorem waits (h : Pending s options start uri r)
    (hnone : ∀ next v, s.resolution (SchemaUri.normalize uri) ≠ .found next v) :
    r.snapshot.target? start = none ∧ ∀ w, ¬s.EndsAt start w := by
  constructor
  · rw [Snapshot.target?_of_chain h.chain _ h.get?_aliases, snapshot, h.entries, Table.get?_nil]
    intro u hu
    rw [snapshot, h.entries] at hu
    exact absurd rfl hu
  · intro w hw
    cases (h.ends w).2 hw with
    | here hfound => exact hnone _ _ hfound
    | next hfound _ _ => exact hnone _ _ hfound

theorem finished {w : Json} {schema : CompiledSchema} (h : Pending s options start uri r)
    (hfound : s.resolution (SchemaUri.normalize uri) = .found uri w)
    (hread : Node.ofSchema [] schema.uri (schemaOf w) = .ok schema.node) :
    Finished s options start w schema
      { r.finish uri with
        queue := []
        entries := Table.insert r.entries uri (.compiled schema) } where
  queue := rfl
  options := h.options
  target := by
    rw [Snapshot.target?_of_chain h.chain _ h.get?_aliases]
    · exact Table.get?_insert_self _ _ _
    · intro u hu
      rw [snapshot, h.entries, Table.get?_insert] at hu
      split at hu
      · next heq =>
        rw [heq]
        exact h.get?_aliases
      · exact absurd rfl hu
  read := hread
  ends := (h.ends w).1 (.here hfound)

theorem renamed {next : String} {v : Json} (h : Pending s options start uri r)
    (hfound : s.resolution (SchemaUri.normalize uri) = .found next v)
    (hshorter : next.length < uri.length) :
    Pending s options start next
      { ({ r with queue := [] }.finish uri).enqueue next with
        aliases := Table.insert r.aliases uri next } := by
  have hlonger : ∀ u ∈ ({ r with queue := [] }.finish uri).handled, next.length < u.length := by
    intro u hu
    rcases mem_finish_handled.1 hu with rfl | hu
    · exact hshorter
    · exact Nat.lt_trans hshorter (h.longer u hu)
  have hqueue : ({ r with queue := [] }.finish uri).enqueue next
      = { { r with queue := [] }.finish uri with queue := [next] } := by
    rcases ({ r with queue := [] }.finish uri).enqueue_cases next with ⟨hthere, -⟩ | ⟨-, -, hnew⟩
    · rcases hthere with hthere | hthere
      · exact absurd (hlonger next hthere) (Nat.lt_irrefl _)
      · cases hthere
    · exact hnew
  have hne : next ≠ uri := by
    intro heq
    subst heq
    exact Nat.lt_irrefl _ hshorter
  rw [hqueue]
  refine ⟨h.store, h.options, h.formats, rfl, h.entries, ?_, hlonger, ?_, ?_⟩
  · dsimp only
    rw [Table.insert_of_fresh h.get?_aliases, List.length_append,
      ← Table.insert_of_fresh h.get?_aliases]
    exact (h.chain.insert h.get?_aliases).step (Table.get?_insert_self _ _ _)
  · intro u hu
    rw [mem_finish_handled]
    dsimp only at hu
    rw [Table.get?_insert] at hu
    split at hu
    · next heq => exact .inl heq
    · exact .inr (h.done u hu)
  · intro w
    rw [← h.ends w]
    exact ⟨fun hrest => .next hfound hne hrest, fun hends => hends.of_renamed hfound hne⟩

end Pending

theorem read_of_no_references {schema : CompiledSchema} {w : Json}
    (hread : r.readSchema uri w = .ok schema) (hw : w.references = []) :
    schema.node.targets = []
      ∧ Node.ofSchema r.formats schema.uri (schemaOf w) = .ok schema.node := by
  obtain ⟨huri, hnode⟩ := eq_of_readSchema hread
  rw [huri]
  refine ⟨List.eq_nil_iff_forall_not_mem.2 fun target htarget => ?_, hnode⟩
  have hmem := references_schemaOf_subset w
    (Node.mem_references_of_refersTo ⟨uri, schema.node, hnode, htarget⟩)
  rw [hw] at hmem
  cases hmem

theorem Pending.step {error : Option PatternError} {waits : Bool} (hs : s.references = [])
    (h : Pending s options start uri r)
    (hcompiles : Compiles { r with queue := [] } uri r' error waits) :
    Progress s options start r' (if waits then [uri] else []) error := by
  have hresolution := Store.resolution_of_no_references hs (SchemaUri.normalize uri)
  cases hcompiles with
  | circular hcircle =>
      rw [h.store] at hcircle
      rw [hcircle] at hresolution
      rcases hresolution with ⟨w, h⟩ | ⟨base, h⟩ | h <;> cases h
  | documentAbsent habsent =>
      rw [h.store] at habsent
      obtain ⟨htarget, hends⟩ := h.waits (fun _ _ hfound => by rw [habsent] at hfound; cases hfound)
      exact .waits rfl htarget hends
  | nodeAbsent habsent =>
      rw [h.store] at habsent
      obtain ⟨htarget, hends⟩ := h.waits (fun _ _ hfound => by rw [habsent] at hfound; cases hfound)
      exact .waits rfl htarget hends
  | invalid => exact .failed rfl
  | schema hfound hread =>
      rw [h.store] at hfound
      obtain ⟨htargets, hnode⟩ := read_of_no_references hread
        (List.subset_nil.1 (hs ▸ (Store.of_resolution_eq_found hfound).2))
      rw [htargets, List.foldl_nil]
      exact .finished (h.finished hfound (h.formats ▸ hnode))
  | renamed hfound hne =>
      rw [h.store] at hfound
      refine .pending (h.renamed hfound ?_)
      rcases (Store.of_resolution_eq_found hfound).1 with rfl | hmem
      · exact SchemaUri.length_normalize_lt hne
      · rw [hs] at hmem
        cases hmem

/-- Only what is still on its way has something queued. -/
theorem Progress.pending_of_queue {waiting : List String} {failure : Option PatternError}
    {rest : List String} (hqueue : r.queue = uri :: rest)
    (h : Progress s options start r waiting failure) :
    rest = [] ∧ waiting = [] ∧ failure = none ∧ Pending s options start uri r := by
  cases h with
  | pending h =>
      rw [h.queue] at hqueue
      obtain ⟨rfl, rfl⟩ := List.cons.inj hqueue
      exact ⟨rfl, rfl, rfl, h⟩
  | waits hempty =>
      rw [hempty] at hqueue
      cases hqueue
  | finished h =>
      rw [h.queue] at hqueue
      cases hqueue
  | failed hempty =>
      rw [hempty] at hqueue
      cases hqueue

/-- Compiling the only document of a store leads to the end of the renamings, or to an error, or
leaves the start without a schema. -/
theorem progress_compile (hs : s.references = []) (h : Pending s options start uri r) :
    ∃ waiting, Progress s options start { r.compile.1 with queue := [] } waiting r.compile.2 := by
  have hskip : ∀ (r : Registry) u rest waiting failure, r.queue = u :: rest → u ∈ r.handled →
      Progress s options start r waiting failure →
        Progress s options start { r with queue := rest } waiting failure := by
    intro r u rest waiting failure hqueue hdone hprogress
    obtain ⟨-, -, -, h⟩ := hprogress.pending_of_queue hqueue
    exact absurd (h.longer _ hdone) (Nat.lt_irrefl _)
  have hstep : ∀ (r : Registry) u rest waiting failure r' error waits, r.queue = u :: rest →
      u ∉ r.handled → Progress s options start r waiting failure →
        Compiles { r with queue := rest } u r' error waits →
          Progress s options start r' (if waits then waiting ++ [u] else waiting)
            (failure.or error) := by
    intro r u rest waiting failure r' error waits hqueue _ hprogress hcompiles
    obtain ⟨rfl, rfl, rfl, h⟩ := hprogress.pending_of_queue hqueue
    exact h.step hs hcompiles
  obtain ⟨r', waiting, failure, hprogress, hempty, hcompile⟩ :=
    compile_induction hskip hstep (.pending h)
  rw [hcompile]
  refine ⟨waiting, ?_⟩
  have hsame : { r' with queue := [] } = r' := by rw [← hempty]
  dsimp only
  rwa [hsame]

end Registry

end HyperSchema
