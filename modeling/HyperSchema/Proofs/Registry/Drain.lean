import HyperSchema.Registry

/-!
# Working through the queue

What compiling one URI can do to a registry is said once, case by case. Everything else known about
working through the queue goes through these cases: a property that each of them keeps holds when
the queue is empty, and something that each of them makes less bounds the number of steps.
-/

namespace HyperSchema.Registry

variable {r : Registry} {uri target : String}

/-! ### Finishing and queueing touch little -/

@[simp] theorem finish_store : (r.finish uri).store = r.store := rfl
@[simp] theorem finish_options : (r.finish uri).options = r.options := rfl
@[simp] theorem finish_formats : (r.finish uri).formats = r.formats := rfl
@[simp] theorem finish_names : (r.finish uri).names = r.names := rfl
@[simp] theorem finish_aliases : (r.finish uri).aliases = r.aliases := rfl
@[simp] theorem finish_queue : (r.finish uri).queue = r.queue := rfl
@[simp] theorem finish_roots : (r.finish uri).roots = r.roots := rfl
@[simp] theorem finish_entries : (r.finish uri).entries = r.entries := rfl
@[simp] theorem finish_missing : (r.finish uri).missing = NameSet.erase r.missing uri := rfl

@[simp] theorem mem_finish_handled {u : String} :
    u ∈ (r.finish uri).handled ↔ u = uri ∨ u ∈ r.handled := by
  rw [finish]
  dsimp only
  split
  · next h =>
    refine ⟨.inr, ?_⟩
    intro h
    rcases h with rfl | hu
    · exact List.contains_iff_mem.1 h
    · exact hu
  · rw [List.mem_append, List.mem_singleton]
    exact or_comm

theorem enqueue_cases (r : Registry) (uri : String) :
    (uri ∈ r.handled ∨ uri ∈ r.queue) ∧ r.enqueue uri = r
      ∨ uri ∉ r.handled ∧ uri ∉ r.queue
        ∧ r.enqueue uri = { r with queue := r.queue ++ [uri] } := by
  rw [enqueue]
  split
  · next h =>
    rw [Bool.or_eq_true, List.contains_iff_mem, List.contains_iff_mem] at h
    exact .inl ⟨h, rfl⟩
  · next h =>
    rw [Bool.or_eq_true, List.contains_iff_mem, List.contains_iff_mem, not_or] at h
    exact .inr ⟨h.1, h.2, rfl⟩

/-- What queueing leaves as it is. -/
structure SameBut (r r' : Registry) : Prop where
  store : r'.store = r.store
  options : r'.options = r.options
  formats : r'.formats = r.formats
  names : r'.names = r.names
  aliases : r'.aliases = r.aliases
  missing : r'.missing = r.missing
  handled : r'.handled = r.handled
  entries : r'.entries = r.entries
  roots : r'.roots = r.roots

theorem SameBut.trans {r' r'' : Registry} (h : SameBut r r') (h' : SameBut r' r'') :
    SameBut r r'' where
  store := h'.store.trans h.store
  options := h'.options.trans h.options
  formats := h'.formats.trans h.formats
  names := h'.names.trans h.names
  aliases := h'.aliases.trans h.aliases
  missing := h'.missing.trans h.missing
  handled := h'.handled.trans h.handled
  entries := h'.entries.trans h.entries
  roots := h'.roots.trans h.roots

theorem sameBut_enqueue (r : Registry) (uri : String) : SameBut r (r.enqueue uri) := by
  rcases r.enqueue_cases uri with ⟨-, h⟩ | ⟨-, -, h⟩
  · rw [h]
    exact ⟨rfl, rfl, rfl, rfl, rfl, rfl, rfl, rfl, rfl⟩
  · rw [h]
    exact ⟨rfl, rfl, rfl, rfl, rfl, rfl, rfl, rfl, rfl⟩

theorem sameBut_enqueueAll (r : Registry) (targets : List String) :
    SameBut r (targets.foldl enqueue r) := by
  induction targets generalizing r with
  | nil => exact ⟨rfl, rfl, rfl, rfl, rfl, rfl, rfl, rfl, rfl⟩
  | cons target rest ih => exact (r.sameBut_enqueue target).trans (ih (r.enqueue target))

theorem exists_queue_enqueueAll (r : Registry) (targets : List String) :
    ∃ added : List String, (targets.foldl enqueue r).queue = r.queue ++ added ∧ added.Nodup
      ∧ (∀ u ∈ added, u ∈ targets ∧ u ∉ r.handled ∧ u ∉ r.queue)
      ∧ ∀ u ∈ targets, u ∈ r.handled ∨ u ∈ r.queue ∨ u ∈ added := by
  induction targets generalizing r with
  | nil =>
      refine ⟨[], (List.append_nil _).symm, List.nodup_nil, ?_, ?_⟩
      · exact fun u hu => absurd hu List.not_mem_nil
      · exact fun u hu => absurd hu List.not_mem_nil
  | cons target rest ih =>
      rw [List.foldl_cons]
      obtain ⟨added, hqueue, hnodup, hadded, hrest⟩ := ih (r.enqueue target)
      rcases r.enqueue_cases target with ⟨hthere, hsame⟩ | ⟨hdone, hqueued, hnew⟩
      · rw [hsame] at hqueue hadded hrest ⊢
        refine ⟨added, hqueue, hnodup, ?_, ?_⟩
        · intro u hu
          obtain ⟨htarget, hfresh⟩ := hadded u hu
          exact ⟨List.mem_cons_of_mem _ htarget, hfresh⟩
        · rw [List.forall_mem_cons]
          refine ⟨?_, hrest⟩
          rcases hthere with h | h
          · exact .inl h
          · exact .inr (.inl h)
      · rw [hnew] at hqueue hadded hrest ⊢
        have hfresh : ∀ u ∈ added, u ∈ rest ∧ u ∉ r.handled ∧ u ∉ r.queue ∧ u ≠ target := by
          intro u hu
          obtain ⟨htarget, hdone', hqueued'⟩ := hadded u hu
          rw [List.mem_append, List.mem_singleton, not_or] at hqueued'
          exact ⟨htarget, hdone', hqueued'⟩
        refine ⟨target :: added, ?_, ?_, ?_, ?_⟩
        · rw [hqueue, List.append_assoc, List.singleton_append]
        · exact List.nodup_cons.2 ⟨fun hmem => (hfresh target hmem).2.2.2 rfl, hnodup⟩
        · rw [List.forall_mem_cons]
          refine ⟨⟨List.mem_cons_self, hdone, hqueued⟩, fun u hu => ?_⟩
          obtain ⟨htarget, hdone', hqueued', -⟩ := hfresh u hu
          exact ⟨List.mem_cons_of_mem _ htarget, hdone', hqueued'⟩
        · rw [List.forall_mem_cons]
          refine ⟨.inr (.inr List.mem_cons_self), fun u hu => ?_⟩
          rcases hrest u hu with h | h | h
          · exact .inl h
          · rw [List.mem_append, List.mem_singleton] at h
            rcases h with h | rfl
            · exact .inr (.inl h)
            · exact .inr (.inr List.mem_cons_self)
          · exact .inr (.inr (List.mem_cons_of_mem _ h))

/-! ### Compiling one URI -/

theorem readSchema_of_ofSchema {v : Json} {node : Node}
    (h : Node.ofSchema r.formats uri (schemaOf v) = .ok node) :
    r.readSchema uri v = .ok ⟨uri, Table.get? r.names uri, node⟩ := by
  rw [readSchema, h]
  rfl

theorem eq_of_readSchema {v : Json} {schema : CompiledSchema}
    (h : r.readSchema uri v = .ok schema) :
    schema.uri = uri ∧ Node.ofSchema r.formats uri (schemaOf v) = .ok schema.node := by
  rw [readSchema] at h
  cases hnode : Node.ofSchema r.formats uri (schemaOf v) with
  | error e =>
      rw [hnode] at h
      cases h
  | ok node =>
      rw [hnode] at h
      obtain rfl := Except.ok.inj h
      exact ⟨rfl, rfl⟩

/-- What compiling a URI makes of a registry, with the error if there is one, and whether the URI
has to wait. -/
inductive Compiles (r : Registry) (uri : String) :
    Registry → Option PatternError → Bool → Prop where
  | circular {chain : List String}
      (h : r.store.resolution (SchemaUri.normalize uri) = .circular chain) :
      Compiles r uri
        { r.finish uri with entries := Table.insert r.entries uri (.circular chain) } none false
  | documentAbsent {base : String}
      (h : r.store.resolution (SchemaUri.normalize uri) = .documentAbsent base) :
      Compiles r uri
        { r with store := r.store.recordMissing base, missing := r.missing.insert uri } none true
  | nodeAbsent (h : r.store.resolution (SchemaUri.normalize uri) = .nodeAbsent) :
      Compiles r uri { r with missing := r.missing.insert uri } none true
  | renamed {target : String} {v : Json}
      (h : r.store.resolution (SchemaUri.normalize uri) = .found target v) (hne : target ≠ uri) :
      Compiles r uri
        { (r.finish uri).enqueue target with aliases := Table.insert r.aliases uri target }
        none false
  | schema {v : Json} {schema : CompiledSchema}
      (h : r.store.resolution (SchemaUri.normalize uri) = .found uri v)
      (hread : r.readSchema uri v = .ok schema) :
      Compiles r uri
        { schema.node.targets.foldl enqueue (r.finish uri) with
          entries := Table.insert r.entries uri (.compiled schema) } none false
  | invalid {v : Json} {e : PatternError}
      (h : r.store.resolution (SchemaUri.normalize uri) = .found uri v)
      (hread : r.readSchema uri v = .error e) :
      Compiles r uri (r.finish uri) (some e) false

theorem compiles_compileUri (r : Registry) (uri : String) :
    Compiles r uri (r.compileUri uri).1 (r.compileUri uri).2.1 (r.compileUri uri).2.2 := by
  cases h : r.store.resolution (SchemaUri.normalize uri) with
  | circular chain =>
      rw [compileUri, Store.resolve?, h]
      exact .circular h
  | documentAbsent base =>
      rw [compileUri, Store.resolve?, h]
      exact .documentAbsent h
  | nodeAbsent =>
      rw [compileUri, Store.resolve?, h]
      exact .nodeAbsent h
  | found target v =>
      rw [compileUri, Store.resolve?, h]
      dsimp only
      by_cases hsame : target = uri
      · subst hsame
        rw [if_pos rfl]
        cases hread : r.readSchema target v with
        | ok schema =>
            have hentries := (sameBut_enqueueAll (r.finish target) schema.node.targets).entries
            dsimp only
            rw [hentries, finish_entries]
            exact .schema h hread
        | error e => exact .invalid h hread
      · rw [if_neg hsame]
        have haliases := (sameBut_enqueue (r.finish uri) target).aliases
        dsimp only
        rw [haliases, finish_aliases]
        exact .renamed h hsame

/-- The URIs that compiling a URI leads to: what it is renamed to, or what its schema refers to. -/
inductive Leads (r : Registry) (uri : String) : String → Prop where
  | renamed {target : String} {v : Json}
      (h : r.store.resolution (SchemaUri.normalize uri) = .found target v) (hne : target ≠ uri) :
      Leads r uri target
  | schema {v : Json} {schema : CompiledSchema} {target : String}
      (h : r.store.resolution (SchemaUri.normalize uri) = .found uri v)
      (hread : r.readSchema uri v = .ok schema) (hmem : target ∈ schema.node.targets) :
      Leads r uri target

section

variable {u target : String} {v : Json} {chain : List String} {schema : CompiledSchema}
  {e : PatternError}

theorem leads_circular_iff
    (h : r.store.resolution (SchemaUri.normalize uri) = .circular chain) :
    Leads r uri u ↔ u ∈ ([] : List String) := by
  refine iff_of_false ?_ List.not_mem_nil
  intro hleads
  cases hleads with
  | renamed hfound _ =>
      rw [h] at hfound
      cases hfound
  | schema hfound _ _ =>
      rw [h] at hfound
      cases hfound

theorem leads_renamed_iff
    (h : r.store.resolution (SchemaUri.normalize uri) = .found target v) (hne : target ≠ uri) :
    Leads r uri u ↔ u ∈ [target] := by
  rw [List.mem_singleton]
  constructor
  · intro hleads
    cases hleads with
    | renamed hfound _ =>
        rw [h] at hfound
        exact (Resolution.found.inj hfound).1.symm
    | schema hfound _ _ =>
        rw [h] at hfound
        exact absurd (Resolution.found.inj hfound).1 hne
  · intro heq
    subst heq
    exact .renamed h hne

theorem leads_schema_iff
    (h : r.store.resolution (SchemaUri.normalize uri) = .found uri v)
    (hread : r.readSchema uri v = .ok schema) : Leads r uri u ↔ u ∈ schema.node.targets := by
  constructor
  · intro hleads
    cases hleads with
    | renamed hfound hne =>
        rw [h] at hfound
        exact absurd (Resolution.found.inj hfound).1.symm hne
    | schema hfound hread' hmem =>
        rw [h] at hfound
        rw [← (Resolution.found.inj hfound).2, hread] at hread'
        rwa [Except.ok.inj hread']
  · exact .schema h hread

theorem leads_invalid_iff
    (h : r.store.resolution (SchemaUri.normalize uri) = .found uri v)
    (hread : r.readSchema uri v = .error e) : Leads r uri u ↔ u ∈ ([] : List String) := by
  refine iff_of_false ?_ List.not_mem_nil
  intro hleads
  cases hleads with
  | renamed hfound hne =>
      rw [h] at hfound
      exact absurd (Resolution.found.inj hfound).1.symm hne
  | schema hfound hread' _ =>
      rw [h] at hfound
      rw [← (Resolution.found.inj hfound).2, hread] at hread'
      cases hread'

end

/-- Who finishes a URI and queues all that it leads to has done or queued all of that, each URI at
most once. -/
theorem queue_of_leads_iff {r' : Registry} {targets : List String}
    (hleads : ∀ u, Leads r uri u ↔ u ∈ targets)
    (hqueue : r'.queue = (targets.foldl enqueue (r.finish uri)).queue)
    (hhandled : r'.handled = (targets.foldl enqueue (r.finish uri)).handled) :
    (∀ u, u ∈ r'.handled ↔ u = uri ∨ u ∈ r.handled)
      ∧ (∃ added : List String, r'.queue = r.queue ++ added ∧ added.Nodup
        ∧ ∀ u ∈ added, Leads r uri u)
      ∧ ∀ u, Leads r uri u → u ∈ r'.handled ∨ u ∈ r'.queue := by
  obtain ⟨added, hmore, hnodup, hadded, hall⟩ := (r.finish uri).exists_queue_enqueueAll targets
  rw [((r.finish uri).sameBut_enqueueAll targets).handled] at hhandled
  rw [hmore] at hqueue
  refine ⟨fun u => ?_, ⟨added, hqueue, hnodup, fun u hu => ?_⟩, fun u hu => ?_⟩
  · rw [hhandled, mem_finish_handled]
  · exact (hleads u).2 (hadded u hu).1
  · rw [hhandled, hqueue, List.mem_append]
    exact hall u ((hleads u).1 hu)

/-- A URI that waits changes neither the queue nor what is done. Any other is done afterwards, and
what it leads to is queued, each URI at most once. -/
theorem Compiles.queue {r' : Registry} {error : Option PatternError} {waits : Bool}
    (h : Compiles r uri r' error waits) :
    waits = true ∧ r'.queue = r.queue ∧ r'.handled = r.handled
      ∨ waits = false ∧ (∀ u, u ∈ r'.handled ↔ u = uri ∨ u ∈ r.handled)
        ∧ (∃ added : List String, r'.queue = r.queue ++ added ∧ added.Nodup
          ∧ ∀ u ∈ added, Leads r uri u)
        ∧ ∀ u, Leads r uri u → u ∈ r'.handled ∨ u ∈ r'.queue := by
  cases h with
  | documentAbsent => exact .inl ⟨rfl, rfl, rfl⟩
  | nodeAbsent => exact .inl ⟨rfl, rfl, rfl⟩
  | circular h =>
      exact .inr ⟨rfl, queue_of_leads_iff (fun _ => leads_circular_iff h) rfl rfl⟩
  | renamed h hne =>
      exact .inr ⟨rfl, queue_of_leads_iff (fun _ => leads_renamed_iff h hne) rfl rfl⟩
  | schema h hread =>
      exact .inr ⟨rfl, queue_of_leads_iff (fun _ => leads_schema_iff h hread) rfl rfl⟩
  | invalid h hread =>
      exact .inr ⟨rfl, queue_of_leads_iff (fun _ => leads_invalid_iff h hread) rfl rfl⟩

/-! ### The loop -/

/-- The URIs that working through the queue compiles, each with the registry it is compiled in. -/
def visits : Nat → Registry → List (Registry × String)
  | 0, _ => []
  | steps + 1, r =>
    match r.queue with
    | [] => []
    | uri :: rest =>
      let r := { r with queue := rest }
      if r.handled.contains uri then visits steps r
      else (r, uri) :: visits steps (r.compileUri uri).1

/-- What every step keeps, with the visits made so far, holds when the queue is empty, and the queue
is empty in time if every step makes less of something. -/
theorem drain_visits_induction
    {P : Registry → List String → Option PatternError → List (Registry × String) → Prop}
    {work : Registry → Nat}
    (hskip : ∀ r uri rest waiting failure visited, r.queue = uri :: rest → uri ∈ r.handled →
      P r waiting failure visited →
        P { r with queue := rest } waiting failure visited ∧ work { r with queue := rest } < work r)
    (hstep : ∀ r uri rest waiting failure visited r' error waits, r.queue = uri :: rest →
      uri ∉ r.handled → P r waiting failure visited →
        Compiles { r with queue := rest } uri r' error waits →
          P r' (if waits then waiting ++ [uri] else waiting) (failure.or error)
              (visited ++ [({ r with queue := rest }, uri)])
            ∧ work r' < work r)
    {steps : Nat} {waiting : List String} {failure : Option PatternError}
    {visited : List (Registry × String)} (h : P r waiting failure visited)
    (hsteps : work r < steps) :
    ∃ r' waiting' failure', P r' waiting' failure' (visited ++ r.visits steps) ∧ r'.queue = []
      ∧ drain steps r waiting failure = ({ r' with queue := waiting' }, failure') := by
  induction steps generalizing r waiting failure visited with
  | zero => exact absurd hsteps (Nat.not_lt_zero _)
  | succ steps ih =>
      rw [drain, visits]
      cases hqueue : r.queue with
      | nil =>
          refine ⟨r, waiting, failure, ?_, hqueue, rfl⟩
          rwa [List.append_nil]
      | cons uri rest =>
          dsimp only
          by_cases hdone : uri ∈ r.handled
          · rw [if_pos (List.contains_iff_mem.2 hdone), if_pos (List.contains_iff_mem.2 hdone)]
            obtain ⟨hnext, hless⟩ := hskip r uri rest waiting failure visited hqueue hdone h
            exact ih hnext (by omega)
          · rw [if_neg (fun hmem => hdone (List.contains_iff_mem.1 hmem)),
              if_neg (fun hmem => hdone (List.contains_iff_mem.1 hmem))]
            obtain ⟨hnext, hless⟩ := hstep r uri rest waiting failure visited _ _ _ hqueue hdone h
              (compiles_compileUri { r with queue := rest } uri)
            have hlater := ih hnext (by omega)
            rwa [List.append_assoc, List.singleton_append] at hlater

end HyperSchema.Registry
