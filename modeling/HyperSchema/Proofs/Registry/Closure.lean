import HyperSchema.Proofs.Registry.Readings
import HyperSchema.Proofs.Validation.Aliases
import HyperSchema.Proofs.Validation.Occurrences

/-!
# Only what is absent is left out

Schemas are added, formats are registered, and what is there is compiled, in any order. A URI that
is finished ends, over aliases, at an entry or at a reading that failed; a target of a compiled
schema is finished or queued, and after a compilation only URIs that lead nowhere are queued. So a
target that is not found leads nowhere, or its schema could not be read.

The way from a URI over aliases ends because the canonical form of what is found is found under
itself; this takes a tidy store.
-/

namespace HyperSchema.Registry

open SchemaUri (Single)

/-- What a registry can be asked to do. -/
inductive Command where
  | schema (uri : String) (document : Option Json) (name : Option String)
  | format (name : String) (refusal? : Json → Option String)
  | compilation

/-- A command whose URI, references and ids have one hash sign at most. -/
def Command.Tidy : Command → Prop
  | .schema uri document _ => Single uri ∧ ∀ d, document = some d →
      (∀ target ∈ d.references, Single target) ∧ ∀ id ∈ d.ids, Single id
  | _ => True

/-- What a command makes of a registry; a schema that is refused changes nothing. -/
def obey (r : Registry) : Command → Registry
  | .schema uri document name =>
    match r.addSchema uri document name with
    | .ok r => r
    | .error _ => r
  | .format name refusal? => r.registerFormat name refusal?
  | .compilation => r.compile.1

def obeyAll (r : Registry) (commands : List Command) : Registry := commands.foldl obey r

/-- The schemas read while commands are obeyed. -/
def readings (r : Registry) : List Command → List Reading
  | [] => []
  | .compilation :: rest => r.compileReadings ++ readings (r.obey .compilation) rest
  | command :: rest => readings (r.obey command) rest

/-- Over aliases, a URI ends at an entry or at a reading that failed. -/
def Ends (r : Registry) (log : List Reading) (uri : String) : Prop :=
  ∃ last n, Snapshot.Chain r.aliases uri last n
    ∧ (Table.get? r.entries last ≠ none ∨ ∃ e, ⟨last, some e⟩ ∈ log)

/-- A reference at any depth of a compiled schema finds nothing only if it leads nowhere in the
store, or over aliases to a URI whose schema could not be read. No URI has both an entry and an
alias, and no URI is read twice. -/
structure Complete (r : Registry) (log : List Reading) : Prop where
  absent : ∀ uri schema target, Table.get? r.snapshot.entries uri = some (.compiled schema) →
    schema.node.Within (.reference target) → r.snapshot.target? target = none →
      (r.store.resolve? target).1 = .ok none
        ∨ ∃ last n e, Snapshot.Chain r.snapshot.aliases target last n ∧ ⟨last, some e⟩ ∈ log
  apart : ∀ uri, Table.get? r.snapshot.entries uri = none ∨ Table.get? r.snapshot.aliases uri = none
  once : (log.map Reading.uri).Nodup

/-- What is known of a registry between commands, with all that has been read. -/
structure Sound (r : Registry) (log : List Reading) : Prop where
  tidy : r.store.Tidy
  single : ∀ u, Known r [] u → Single u
  fresh : ∀ u, u ∉ r.handled → Table.get? r.entries u = none ∧ Table.get? r.aliases u = none
  apart : ∀ u, Table.get? r.entries u = none ∨ Table.get? r.aliases u = none
  closed : ∀ u schema t, Table.get? r.entries u = some (.compiled schema) →
    t ∈ schema.node.targets → Known r [] t
  ends : ∀ u ∈ r.handled, Ends r log u
  read : ∀ reading ∈ log, reading.uri ∈ r.handled
  once : (log.map Reading.uri).Nodup

variable {start r r' : Registry} {log : List Reading} {uri u target next : String} {v : Json}
  {visited : List (Registry × String)}

theorem Ends.of_entry {entry : Entry} (h : Table.get? r.entries u = some entry) : Ends r log u :=
  ⟨u, 0, .start, .inl (h ▸ Option.some_ne_none entry)⟩

theorem Ends.of_alias (hget : Table.get? r.aliases u = some next) (h : Ends r log next) :
    Ends r log u := by
  obtain ⟨last, n, hchain, hend⟩ := h
  exact ⟨last, n + 1, .cons hget hchain, hend⟩

/-- A URI that has been made something of has an entry or an alias, not both. -/
theorem entryOf_or_aliasOf (r : Registry) (uri : String) :
    r.entryOf uri = none ∨ r.aliasOf uri = none := by
  rw [entryOf, aliasOf]
  cases r.store.resolution (SchemaUri.normalize uri) with
  | found target v =>
      dsimp only
      by_cases hsame : target = uri
      · rw [if_pos hsame, if_pos hsame]
        exact .inr rfl
      · rw [if_neg hsame]
        exact .inl rfl
  | circular chain => exact .inr rfl
  | documentAbsent base => exact .inl rfl
  | nodeAbsent => exact .inl rfl

theorem leads_of_entryOf {schema : CompiledSchema}
    (h : r.entryOf uri = some (.compiled schema)) (hmem : target ∈ schema.node.targets) :
    Leads r uri target := by
  cases hresolution : r.store.resolution (SchemaUri.normalize uri) with
  | found found v =>
      rw [entryOf, hresolution] at h
      dsimp only at h
      split at h
      · next hsame =>
        subst hsame
        cases hread : r.readSchema found v with
        | ok read =>
            rw [hread] at h
            obtain rfl := Entry.compiled.inj (Option.some.inj h)
            exact .schema hresolution hread hmem
        | error e =>
            rw [hread] at h
            cases h
      · cases h
  | circular chain =>
      rw [entryOf, hresolution] at h
      cases Option.some.inj h
  | documentAbsent base =>
      rw [entryOf, hresolution] at h
      cases h
  | nodeAbsent =>
      rw [entryOf, hresolution] at h
      cases h

/-! ### After a compilation -/

theorem handled_of_settled (hwaiting : ∀ u ∈ r.queue, ¬start.store.Settled u)
    (hu : Known r [] u) (hsettled : start.store.Settled u) : u ∈ r.handled := by
  rcases hu with hu | hu | hu
  · exact hu
  · exact absurd hsettled (hwaiting u hu)
  · cases hu

section

variable (h : Advances start r [] visited) (hwaiting : ∀ u ∈ r.queue, ¬start.store.Settled u)
  (hlog : readingsOf visited ⊆ log) (hold : ∀ u ∈ start.handled, Ends r log u)
  (htidy : start.store.Tidy)

include h hlog hold in
theorem ends_of_own (hu : u ∈ r.handled)
    (hfound : start.store.resolution (SchemaUri.normalize u) = .found u v) : Ends r log u := by
  by_cases hbefore : u ∈ start.handled
  · exact hold u hbefore
  · have hmade := h.made u hu hbefore
    have hreading := readingOf_own hfound
    have hentry := hmade.entry
    rw [entryOf, hfound] at hentry
    dsimp only at hentry
    rw [if_pos rfl] at hentry
    cases hread : start.readSchema u v with
    | ok schema =>
        rw [hread] at hentry
        exact .of_entry hentry
    | error e =>
        rw [hread] at hreading
        exact ⟨u, 0, .start, .inr ⟨e, hlog (hmade.reading _ hreading)⟩⟩

include h hwaiting hold in
theorem ends_of_renamed (hu : u ∈ r.handled)
    (hfound : start.store.resolution (SchemaUri.normalize u) = .found next v) (hne : next ≠ u)
    (hsettled : start.store.Settled next) (hnext : next ∈ r.handled → Ends r log next) :
    Ends r log u := by
  by_cases hbefore : u ∈ start.handled
  · exact hold u hbefore
  · have hmade := h.made u hu hbefore
    have hknown := hmade.leads next (.renamed hfound hne)
    have halias := hmade.renamed
    rw [aliasOf, hfound] at halias
    dsimp only at halias
    rw [if_neg hne] at halias
    exact .of_alias halias (hnext (handled_of_settled hwaiting hknown hsettled))

include h hwaiting hlog hold htidy in
/-- What is found is an alias of its canonical form at most. -/
theorem ends_of_found (hu : u ∈ r.handled) (hfound : start.store.resolution uri = .found u v) :
    Ends r log u := by
  have hsingle := h.single u (.inl hu)
  have hcanonical := htidy.resolution_normalize hsingle hfound
  have hagain : start.store.resolution (SchemaUri.normalize (SchemaUri.normalize u))
      = .found (SchemaUri.normalize u) v := by
    rwa [hsingle.normalize_normalize]
  by_cases hsame : SchemaUri.normalize u = u
  · rw [hsame] at hagain
    exact ends_of_own h hlog hold hu hagain
  · exact ends_of_renamed h hwaiting hold hu hcanonical hsame (.inl ⟨_, _, hagain⟩)
      (fun hnext => ends_of_own h hlog hold hnext hagain)

include h hwaiting hlog hold htidy in
theorem ends_of_handled (hu : u ∈ r.handled) : Ends r log u := by
  by_cases hbefore : u ∈ start.handled
  · exact hold u hbefore
  · have hmade := h.made u hu hbefore
    rcases hmade.settled with ⟨next, v, hfound⟩ | ⟨chain, hcircle⟩
    · by_cases hsame : next = u
      · exact ends_of_own h hlog hold hu (hsame ▸ hfound)
      · have hknown := hmade.leads next (.renamed hfound hsame)
        have hsettled : start.store.Settled next :=
          .inl ⟨_, _, htidy.resolution_normalize (h.single next hknown) hfound⟩
        exact ends_of_renamed h hwaiting hold hu hfound hsame hsettled
          (fun hnext => ends_of_found h hwaiting hlog hold htidy hnext hfound)
    · have hentry := hmade.entry
      rw [entryOf, hcircle] at hentry
      exact .of_entry hentry

end

namespace Sound

theorem init (store : Store) (options : Options) (htidy : store.Tidy) :
    Sound (ofStore store options) [] where
  tidy := htidy
  single := fun u hu => by simp [Known, ofStore] at hu
  fresh := fun _ _ => ⟨rfl, rfl⟩
  apart := fun _ => .inl rfl
  closed := fun _ _ _ hget => nomatch hget
  ends := fun _ hu => absurd hu List.not_mem_nil
  read := fun _ hreading => absurd hreading List.not_mem_nil
  once := List.nodup_nil

section

variable (h : Sound start log) (hadvances : Advances start r [] visited)
  (hsame : ∀ u ∈ start.handled, SameAt start r u)

include h hsame in
theorem ends_old {log' : List Reading} (hlog : log ⊆ log') (hu : u ∈ start.handled) :
    Ends r log' u := by
  obtain ⟨last, n, hchain, hend⟩ := h.ends u hu
  refine ⟨last, n, hchain.mono fun w next hget => ?_, ?_⟩
  · have hdone : w ∈ start.handled := by
      by_contra hnot
      rw [(h.fresh w hnot).2] at hget
      cases hget
    rw [(hsame w hdone).2, hget]
  · rcases hend with hentry | ⟨e, hread⟩
    · have hdone : last ∈ start.handled := by
        by_contra hnot
        exact hentry (h.fresh last hnot).1
      rw [(hsame last hdone).1]
      exact .inl hentry
    · exact .inr ⟨e, hlog hread⟩

include h hadvances hsame

theorem apart_advance (u : String) :
    Table.get? r.entries u = none ∨ Table.get? r.aliases u = none := by
  by_cases hu : u ∈ r.handled
  · by_cases hbefore : u ∈ start.handled
    · rw [(hsame u hbefore).1, (hsame u hbefore).2]
      exact h.apart u
    · have hmade := hadvances.made u hu hbefore
      rw [hmade.entry, hmade.renamed]
      exact start.entryOf_or_aliasOf u
  · exact .inl (hadvances.fresh u hu).1

theorem closed_advance {schema : CompiledSchema}
    (hget : Table.get? r.entries u = some (.compiled schema))
    (hmem : target ∈ schema.node.targets) : Known r [] target := by
  have hu : u ∈ r.handled := by
    by_contra hnot
    rw [(hadvances.fresh u hnot).1] at hget
    cases hget
  by_cases hbefore : u ∈ start.handled
  · rw [(hsame u hbefore).1] at hget
    exact hadvances.kept target (h.closed u schema target hget hmem)
  · have hmade := hadvances.made u hu hbefore
    rw [hmade.entry] at hget
    exact hmade.leads target (leads_of_entryOf hget hmem)

omit hsame in
theorem once_advance : ((log ++ readingsOf visited).map Reading.uri).Nodup := by
  rw [List.map_append]
  refine List.nodup_append.2 ⟨h.once, hadvances.once, fun a ha b hb heq => ?_⟩
  obtain ⟨before, hbefore, rfl⟩ := List.mem_map.1 ha
  obtain ⟨now, hnow, rfl⟩ := List.mem_map.1 hb
  exact (hadvances.read now hnow).2 (heq ▸ h.read before hbefore)

end

theorem compile (h : Sound r log) : Sound r.compile.1 (log ++ r.compileReadings)
    ∧ ∀ u ∈ r.compile.1.queue, ¬r.compile.1.store.Settled u := by
  obtain ⟨hadvances, hwaiting⟩ := advances_compile h.tidy h.single h.fresh
  have hsame : ∀ u ∈ r.handled, SameAt r r.compile.1 u := fun u hu => (compile_of_handled hu).2
  have hold : ∀ u ∈ r.handled, Ends r.compile.1 (log ++ r.compileReadings) u :=
    fun u hu => h.ends_old hsame (List.subset_append_left _ _) hu
  refine ⟨?_, fun u hu => ?_⟩
  · exact {
      tidy := h.tidy.congr hadvances.documents
      single := hadvances.single
      fresh := hadvances.fresh
      apart := h.apart_advance hadvances hsame
      closed := fun u schema t hget hmem => h.closed_advance hadvances hsame hget hmem
      ends := fun u hu => ends_of_handled hadvances hwaiting (List.subset_append_right _ _) hold
        h.tidy hu
      read := List.forall_mem_append.2
        ⟨fun reading hreading => hadvances.old _ (h.read reading hreading),
          fun reading hreading => (hadvances.read reading hreading).1⟩
      once := h.once_advance hadvances }
  · rw [(hadvances.ground u).settled_iff]
    exact hwaiting u hu

/-- Only what is known and what is stored counts. -/
theorem register (h : Sound r log) (htidy : r'.store.Tidy) (hhandled : r'.handled = r.handled)
    (hentries : r'.entries = r.entries) (haliases : r'.aliases = r.aliases)
    (hqueue : ∀ u ∈ r'.queue, Single u) (hkept : r.queue ⊆ r'.queue) : Sound r' log where
  tidy := htidy
  single := fun u hu => by
    rcases hu with hu | hu | hu
    · exact h.single u (.inl (hhandled ▸ hu))
    · exact hqueue u hu
    · cases hu
  fresh := fun u hu => by
    rw [hentries, haliases]
    exact h.fresh u (hhandled ▸ hu)
  apart := fun u => by
    rw [hentries, haliases]
    exact h.apart u
  closed := fun u schema t hget hmem => by
    rw [hentries] at hget
    rcases h.closed u schema t hget hmem with ht | ht | ht
    · exact .inl (hhandled ▸ ht)
    · exact .inr (.inl (hkept ht))
    · cases ht
  ends := fun u hu => by
    obtain ⟨last, n, hchain, hend⟩ := h.ends u (hhandled ▸ hu)
    exact ⟨last, n, haliases ▸ hchain, hentries ▸ hend⟩
  read := fun reading hreading => hhandled ▸ h.read reading hreading
  once := h.once

theorem addSchema {document : Option Json} {name : Option String} (h : Sound r log)
    (htidy : (Command.schema uri document name).Tidy)
    (hadd : r.addSchema uri document name = .ok r') : Sound r' log := by
  obtain ⟨huri, hdocument⟩ := htidy
  rw [Registry.addSchema] at hadd
  split at hadd
  · cases hadd
  · obtain rfl := Except.ok.inj hadd
    have hstore : (r.supply (SchemaUri.normalize uri) document).store.Tidy := by
      cases document with
      | some d => exact h.tidy.add huri.normalize (hdocument d rfl).1 (hdocument d rfl).2
      | none =>
          rw [supply]
          split
          · exact h.tidy
          · exact h.tidy.congr (r.store.sameDocuments_markMissing _)
    have hsame : (r.supply (SchemaUri.normalize uri) document).handled = r.handled
        ∧ (r.supply (SchemaUri.normalize uri) document).entries = r.entries
        ∧ (r.supply (SchemaUri.normalize uri) document).aliases = r.aliases
        ∧ (r.supply (SchemaUri.normalize uri) document).queue = r.queue := by
      cases document with
      | some d => exact ⟨rfl, rfl, rfl, rfl⟩
      | none =>
          rw [supply]
          split <;> exact ⟨rfl, rfl, rfl, rfl⟩
    obtain ⟨hhandled, hentries, haliases, hqueue⟩ := hsame
    refine h.register hstore hhandled hentries haliases (fun u hu => ?_) (fun u hu => ?_)
    · rcases mem_enrol_queue.1 hu with hu | ⟨rfl, -⟩
      · exact h.single u (.inr (.inl (hqueue ▸ hu)))
      · exact huri.normalize
    · exact mem_enrol_queue.2 (.inl (hqueue ▸ hu))

theorem obeyAll {commands : List Command} (h : Sound r log)
    (htidy : ∀ command ∈ commands, command.Tidy) :
    Sound (r.obeyAll commands) (log ++ r.readings commands) := by
  induction commands generalizing r log with
  | nil =>
      rw [readings, List.append_nil]
      exact h
  | cons command rest ih =>
      rw [List.forall_mem_cons] at htidy
      cases command with
      | schema uri document name =>
          refine ih ?_ htidy.2
          rw [obey]
          cases hadd : r.addSchema uri document name with
          | ok r' => exact h.addSchema htidy.1 hadd
          | error e => exact h
      | format name refusal? => exact ih (h.register h.tidy rfl rfl rfl
          (fun u hu => h.single u (.inr (.inl hu))) (fun _ hu => hu)) htidy.2
      | compilation =>
          rw [readings, ← List.append_assoc]
          exact ih h.compile.1 htidy.2

/-- A target that is not found does not end at an entry, so it ends at a reading that failed. -/
theorem exists_failed_of_target?_eq_none (h : Sound r log) (hhandled : target ∈ r.handled)
    (hnone : r.snapshot.target? target = none) :
    ∃ last n e, Snapshot.Chain r.aliases target last n ∧ ⟨last, some e⟩ ∈ log := by
  obtain ⟨last, n, hchain, hend⟩ := h.ends target hhandled
  rcases hend with hentry | ⟨e, hread⟩
  · have hapart : ∀ u, Table.get? r.entries u ≠ none → Table.get? r.aliases u = none :=
      fun u hu => (h.apart u).resolve_left hu
    have htarget := Snapshot.target?_of_chain (s := r.snapshot) hchain hapart (hapart last hentry)
    rw [hnone] at htarget
    exact absurd htarget.symm hentry
  · exact ⟨last, n, e, hchain, hread⟩

end Sound

theorem obeyAll_append (r : Registry) (commands more : List Command) :
    r.obeyAll (commands ++ more) = (r.obeyAll commands).obeyAll more := List.foldl_append

theorem readings_append (r : Registry) (commands more : List Command) :
    r.readings (commands ++ more) = r.readings commands ++ (r.obeyAll commands).readings more := by
  induction commands generalizing r with
  | nil => rfl
  | cons command rest ih =>
      cases command with
      | compilation =>
          rw [List.cons_append, readings, readings, ih, List.append_assoc]
          rfl
      | schema => exact ih _
      | format => exact ih _

theorem resolve?_of_not_settled {s : Store} (h : ¬s.Settled uri) :
    (s.resolve? uri).1 = .ok none := by
  rw [Store.resolve?]
  cases hresolution : s.resolution (SchemaUri.normalize uri) with
  | found target v => exact absurd (.inl ⟨_, _, hresolution⟩) h
  | circular chain => exact absurd (.inr ⟨_, hresolution⟩) h
  | documentAbsent base => rfl
  | nodeAbsent => rfl

/-- After every compilation, only what is absent has been left out. -/
theorem complete_of_compilation {store : Store} (options : Options) {commands : List Command}
    (hstore : store.Tidy) (hcommands : ∀ command ∈ commands, command.Tidy) :
    Complete ((ofStore store options).obeyAll (commands ++ [.compilation]))
      ((ofStore store options).readings (commands ++ [.compilation])) := by
  have hbefore := (Sound.init store options hstore).obeyAll hcommands
  obtain ⟨hsound, hwaiting⟩ := hbefore.compile
  rw [List.nil_append] at hsound
  rw [obeyAll_append, readings_append, readings, readings, List.append_nil]
  refine ⟨fun uri schema target hget hwithin hnone => ?_, hsound.apart, hsound.once⟩
  have hknown := hsound.closed uri schema target hget (Node.mem_targets_of_within hwithin)
  rcases hknown with hhandled | hqueued | hwaits
  · exact .inr (hsound.exists_failed_of_target?_eq_none hhandled hnone)
  · exact .inl (resolve?_of_not_settled (hwaiting target hqueued))
  · cases hwaits

/-- A schema that refers to one whose document never comes and to one that cannot be read. -/
def unfulfilled : List Command :=
  [.schema "a" (some (.object [("allOf", .array
      [.object [("$ref", .string "gone")], .object [("$ref", .string "b")]])])) none,
    .compilation,
    .schema "b" (some (.object [("pattern", .string "(")])) none]

theorem complete_of_compilation_unfulfilled :
    Complete ((ofStore Store.empty Options.standard).obeyAll (unfulfilled ++ [.compilation]))
      ((ofStore Store.empty Options.standard).readings (unfulfilled ++ [.compilation])) := by
  have htidy : ∀ command ∈ unfulfilled, command.Tidy := by
    rw [unfulfilled, List.forall_mem_cons, List.forall_mem_cons, List.forall_mem_singleton]
    refine ⟨⟨by decide, fun d hd => ?_⟩, trivial, by decide, fun d hd => ?_⟩
    · rw [← Option.some.inj hd]
      decide +kernel
    · rw [← Option.some.inj hd]
      decide +kernel
  exact complete_of_compilation Options.standard Store.tidy_empty htidy

end HyperSchema.Registry
