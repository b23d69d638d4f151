import HyperSchema.Proofs.Context.Rounds
import HyperSchema.Proofs.Outstanding
import HyperSchema.Proofs.Session.Waiting

/-!
# A fetch from its start to its end

The documents in memory answer every request for a document in the same way. A round of the fetch
calls for documents that are missing and have not been tried, and takes in what they are answered
with. All that can come to be missing is known from the start, so there are only so many rounds; at
the end all that is missing has been tried, and what has been taken in is there.
-/

namespace HyperSchema

namespace Response

def document? (r : Response) : Option Json :=
  match r.body with
  | .json v => some v
  | .text t => Json.parse? t

theorem document?_of_document {r : Response} {url : String} {document : Json}
    (h : r.document url = .ok document) : r.document? = some document := by
  rw [Response.document] at h
  rw [document?]
  split at h
  · cases h
  · cases hbody : r.body with
    | json v =>
        rw [hbody] at h
        exact congrArg some (Except.ok.inj h)
    | text t =>
        rw [hbody] at h
        dsimp only at h
        cases hparse : Json.parse? t with
        | some v =>
            rw [hparse] at h
            exact hparse.trans (congrArg some (Except.ok.inj h))
        | none =>
            rw [hparse] at h
            cases h

end Response

/-! ### Sessions -/

namespace Session

variable {f : String → Answer} {s : Session} {all tried : List String} {calls : List Call}
  {steps : Nat}

def answerOf (s : Session) (base : String) : Answer :=
  (s.transport.respond (Request.get base)).bind (fun r => r.document base)

def sought : Nat → Session → List String
  | 0, _ => []
  | steps + 1, s => s.context.calls.map Call.base ++ sought steps s.fetchStep

def taken : Nat → Session → List Taking
  | 0, _ => []
  | steps + 1, s =>
    (s.answerFor s.context.calls).context.takenFor s.context.calls ++ taken steps s.fetchStep

/-! #### Answers -/

/-- A session in which some requests that were open have been answered. -/
structure Answered (s s' : Session) (opened : List Call) : Prop where
  context : s'.context = s.context.withRequests s'.context.requests
  answerOf : s'.answerOf = s.answerOf
  faithful : s'.context.requests.Faithful s.answerOf
  due : ∀ c, s.context.requests.Due s.answerOf c → s'.context.requests.Due s.answerOf c
  unanswered : ∀ o ∈ s'.context.requests.unanswered,
    o ∈ s.context.requests.unanswered ∧ ∀ k ∈ opened, o.request ≠ k.request

theorem answered_foldl {opened : List Call} (h : s.context.requests.Faithful s.answerOf)
    (hopen : ∀ o ∈ opened, o ∈ s.context.requests.unanswered)
    (hdistinct : (opened.map Call.request).Nodup) :
    Answered s (opened.foldl answerCall s) opened := by
  induction opened generalizing s with
  | nil =>
      exact ⟨rfl, rfl, h, fun _ hdue => hdue,
        fun _ ho => ⟨ho, fun _ hk => absurd hk List.not_mem_nil⟩⟩
  | cons o rest ih =>
      rw [List.forall_mem_cons] at hopen
      rw [List.map_cons, List.nodup_cons] at hdistinct
      have hrest : ∀ k ∈ rest, k ∈ (s.answerCall o).context.requests.unanswered := fun k hk =>
        List.mem_filter.2 ⟨hopen.2 k hk, decide_eq_true fun heq =>
          hdistinct.1 (heq ▸ List.mem_map_of_mem hk)⟩
      have hmore : Answered (s.answerCall o) (rest.foldl answerCall (s.answerCall o)) rest :=
        ih (h.answer hopen.1) hrest hdistinct.2
      refine ⟨hmore.context, hmore.answerOf, hmore.faithful,
        fun c hdue => hmore.due c (h.due_answer hopen.1 hdue), fun o' ho' => ?_⟩
      obtain ⟨hleft, hapart⟩ := hmore.unanswered o' ho'
      obtain ⟨hold, hne⟩ := List.mem_filter.1 hleft
      exact ⟨hold, List.forall_mem_cons.2 ⟨of_decide_eq_true hne, hapart⟩⟩

theorem answered_answerFor (h : s.context.requests.Faithful s.answerOf) (calls : List Call) :
    Answered s (s.answerFor calls) (s.context.requests.unanswered.filter
      (fun o => (calls.map Call.request).contains o.request)) :=
  answered_foldl h (fun _ ho => (List.mem_filter.1 ho).1)
    (h.distinct.sublist (List.filter_sublist.map Call.request))

theorem answerTo?_answerFor (h : s.context.requests.Faithful s.answerOf)
    (hdue : ∀ k ∈ calls, s.context.requests.Due s.answerOf k) :
    ∀ k ∈ calls, (s.answerFor calls).context.requests.answerTo? k = some (s.answerOf k.base) := by
  intro k hk
  have hanswered := answered_answerFor h calls
  refine (hanswered.due k (hdue k hk)).resolve_left (fun hleft => ?_)
  obtain ⟨hopen, hapart⟩ := hanswered.unanswered k hleft
  have hcalled : (calls.map Call.request).contains k.request = true :=
    List.contains_iff_mem.2 (List.mem_map_of_mem hk)
  exact hapart k (List.mem_filter.2 ⟨hopen, hcalled⟩) rfl

theorem exists_collect (h : s.context.fetching = .awaiting tried calls)
    (hfaithful : s.context.requests.Faithful s.answerOf)
    (hdue : ∀ k ∈ calls, s.context.requests.Due s.answerOf k) :
    ∃ r : Requests, r.Faithful s.answerOf ∧ s.fetchStep.answerOf = s.answerOf
      ∧ s.fetchStep.context = (s.context.withRequests r).collect tried calls
      ∧ Context.SameLine s.context s.fetchStep.context
      ∧ (∀ k ∈ calls, r.answerTo? k = some (s.answerOf k.base))
      ∧ (s.answerFor calls).context.takenFor calls
        = (s.context.withRequests r).takings
          ((calls.map Call.base).map (fun base => (base, s.answerOf base))) := by
  have hanswered := answered_answerFor hfaithful calls
  have hthere := answerTo?_answerFor hfaithful hdue
  have hkept : ∀ k, ((s.answerFor calls).context.requests.releaseAll calls).answerTo? k
      = (s.answerFor calls).context.requests.answerTo? k := fun k => by
    rw [Requests.answerTo?, Requests.answers_releaseAll, Requests.answerTo?]
  refine ⟨(s.answerFor calls).context.requests.releaseAll calls,
    hanswered.faithful.releaseAll calls, ?_, ?_, ?_, fun k hk => (hkept k).trans (hthere k hk),
    ?_⟩
  · rw [fetchStep, h]
    exact hanswered.answerOf
  · rw [fetchStep, h]
    dsimp only
    rw [Context.finishRound_eq, hanswered.context]
    rfl
  · rw [fetchStep, h]
    exact (s.quiet_answerFor calls).context.trans (Context.sameLine_finishRound _ tried calls)
  · rw [← Context.answersTo_eq hthere, Context.takenFor, Requests.takeAll_eq, hanswered.context]
    rfl

/-! #### Rounds -/

structure Underway (f : String → Answer) (all : List String) (s : Session) (tried : List String) :
    Prop where
  looking : s.context.fetching = .looking tried
  answers : s.answerOf = f
  faithful : s.context.requests.Faithful f
  built : s.context.Built
  within : Registry.Within all s.context.registry

structure Round (f : String → Answer) (c : Context) (s : Session) : Prop where
  registry : c.registry = s.context.registry
  calls : s.fetchStep.context.calls.map Call.base = s.context.wanted
  taken : (s.fetchStep.answerFor s.fetchStep.context.calls).context.takenFor
      s.fetchStep.context.calls
    = c.takings (s.context.wanted.map (fun base => (base, f base)))
  collected : s.fetchStep.fetchStep.context.registry
    = (c.takeAll f s.context.wanted).registry.compile.1
  line : Context.SameLine s.context s.fetchStep.fetchStep.context

/-- Everything that is asked for because of a document is in the list already. -/
def Closed (f : String → Answer) (all : List String) : Prop :=
  ∀ base, '#' ∉ base.toList → ∀ document, Context.documentOf? (f base) = some document →
    ∀ b ∈ Registry.asked base document, b ∈ all

namespace Underway

variable (h : Underway f all s tried)

include h

theorem mem_wanted_iff {base : String} :
    base ∈ s.context.wanted ↔ base ∈ s.context.missing ∧ base ∉ tried :=
  Context.mem_wanted_iff h.looking

theorem wanted_plain {base : String} (hbase : base ∈ s.context.wanted) :
    base ∈ all ∧ '#' ∉ base.toList :=
  have hmissing := (h.mem_wanted_iff.1 hbase).1
  ⟨h.within.missing base hmissing,
    Registry.hash_not_mem_of_missing h.built.registry.store hmissing⟩

theorem fetchStep_of_done (hnone : s.context.wanted = []) :
    s.fetchStep.context = s.context.endFetch := by
  rw [fetchStep, h.looking]
  dsimp only
  rw [Context.look_eq h.looking, if_pos hnone]

theorem fetchStep_of_wanted (hsome : s.context.wanted ≠ []) :
    s.fetchStep.context = { s.context with
      requests := (s.context.requests.callAll s.context.wanted).2
      fetching := .awaiting tried (s.context.requests.callAll s.context.wanted).1 } := by
  rw [fetchStep, h.looking]
  dsimp only
  rw [Context.look_eq h.looking, if_neg hsome]

theorem answerOf_fetchStep : s.fetchStep.answerOf = f := by
  rw [fetchStep, h.looking]
  exact h.answers

theorem exists_round (hsome : s.context.wanted ≠ []) (hall : Closed f all) :
    ∃ c, Round f c s ∧ Underway f all s.fetchStep.fetchStep (tried ++ s.context.wanted) := by
  have hlook := h.fetchStep_of_wanted hsome
  have hanswers := h.answerOf_fetchStep
  obtain ⟨calls, requests, hcallAll⟩ :
      ∃ calls requests, s.context.requests.callAll s.context.wanted = (calls, requests) :=
    ⟨_, _, rfl⟩
  have hbases := Requests.map_base_callAll s.context.requests s.context.wanted
  have hrequests := h.faithful.callAll s.context.wanted
  have hdue : ∀ k ∈ (s.context.requests.callAll s.context.wanted).1,
      (s.context.requests.callAll s.context.wanted).2.Due f k :=
    fun k hk => h.faithful.due_of_mem_callAll hk
  rw [hcallAll] at hlook hbases hrequests hdue
  have hfetching : s.fetchStep.context.fetching = .awaiting tried calls := by rw [hlook]
  have hcalls : s.fetchStep.context.calls = calls := by rw [Context.calls, hfetching]
  have hopen : s.fetchStep.context.requests = requests := by rw [hlook]
  obtain ⟨r, hr, hsame, hcontext, hline, hthere, htaken⟩ := exists_collect hfetching
    (by rwa [hopen, hanswers]) (by rwa [hopen, hanswers])
  rw [hanswers] at hr hsame hthere htaken
  have hregistry : (s.fetchStep.context.withRequests r).registry = s.context.registry := by
    rw [hlook]
    rfl
  have hparent : (s.fetchStep.context.withRequests r).parent = s.context.parent := by
    rw [hlook]
    rfl
  have hcollect := hcontext.trans (Context.collect_eq hthere tried)
  rw [hbases] at hcollect htaken
  have hwithin : Registry.Within all
      ((s.fetchStep.context.withRequests r).takeAll f s.context.wanted).registry :=
    Context.within_takeAll (hregistry ▸ h.within) (fun _ => h.wanted_plain)
      (fun base hbase => hall base (h.wanted_plain hbase).2)
  refine ⟨s.fetchStep.context.withRequests r, ⟨hregistry, hcalls ▸ hbases, hcalls ▸ htaken, ?_, ?_⟩,
    ⟨?_, hsame, ?_, ?_, ?_⟩⟩
  · rw [hcollect]
    rfl
  · refine Context.SameLine.trans ?_ hline
    rw [hlook]
    exact ⟨rfl, rfl, fun _ => rfl⟩
  · rw [hcollect]
  · rw [hcontext, Context.requests_collect]
    exact hr
  · rw [hcontext]
    exact Context.Built.collect ⟨hparent ▸ h.built.parent, hregistry ▸ h.built.registry⟩ _ _
  · rw [hcollect]
    exact hwithin.compile

end Underway

/-! #### The whole fetch -/

/-- A fetch that comes to its end in a number of steps, after some documents have been tried. -/
structure Ends (f : String → Answer) (s : Session) (tried : List String) (steps : Nat) : Prop where
  idle : (fetchOn steps s).context.fetching = .idle
  waiters : (fetchOn steps s).context.waiters = []
  batches : (fetchOn steps s).context.batches
    = s.context.batches ++ [s.context.waiters.map Errand.release]
  once : (s.sought steps).Nodup
  fresh : ∀ base ∈ s.sought steps, base ∉ tried
  missing : ∀ base ∈ (fetchOn steps s).context.missing, base ∈ tried ++ s.sought steps
  answers : (s.taken steps).map (fun t => (t.base, t.answer))
    = (s.sought steps).map (fun base => (base, f base))
  accepted : ∀ t ∈ s.taken steps, ∀ document, Context.documentOf? t.answer = some document →
    ∀ r, t.context.registry.addSchema t.base (some document) none = .ok r →
      (fetchOn steps s).context.registry.store.contains t.base = true
  kept : ∀ u, s.context.registry.store.contains u = true →
    (fetchOn steps s).context.registry.store.contains u = true

theorem fetchOn_succ (h : s.context.isFetching = true) (steps : Nat) :
    fetchOn (steps + 1) s = fetchOn steps s.fetchStep := by
  rw [fetchOn, if_pos h]

theorem sought_succ (h : s.context.calls = []) (steps : Nat) :
    s.sought (steps + 1) = s.fetchStep.sought steps := by
  rw [sought, h, List.map_nil, List.nil_append]

theorem taken_succ (h : s.context.calls = []) (steps : Nat) :
    s.taken (steps + 1) = s.fetchStep.taken steps := by
  rw [taken, h]
  rfl

theorem fetchOn_of_idle (h : s.context.fetching = .idle) (steps : Nat) : fetchOn steps s = s := by
  cases steps with
  | zero => rfl
  | succ n => rw [fetchOn, Context.isFetching, h, if_neg Bool.false_ne_true]

theorem fetchStep_of_idle (h : s.context.fetching = .idle) : s.fetchStep = s := by
  rw [fetchStep, h]

theorem sought_of_idle (h : s.context.fetching = .idle) (steps : Nat) : s.sought steps = [] := by
  induction steps with
  | zero => rfl
  | succ n ih =>
      rw [sought, fetchStep_of_idle h, ih, Context.calls, h, List.map_nil, List.nil_append]

theorem taken_of_idle (h : s.context.fetching = .idle) (steps : Nat) : s.taken steps = [] := by
  induction steps with
  | zero => rfl
  | succ n ih =>
      rw [taken, fetchStep_of_idle h, ih, Context.calls, h, List.append_nil]
      rfl

namespace Underway

variable (h : Underway f all s tried)

include h

theorem isFetching : s.context.isFetching = true := by rw [Context.isFetching, h.looking]

theorem isFetching_fetchStep (hsome : s.context.wanted ≠ []) :
    s.fetchStep.context.isFetching = true := by
  rw [h.fetchStep_of_wanted hsome, Context.isFetching]

theorem calls_eq_nil : s.context.calls = [] := by rw [Context.calls, h.looking]

theorem ends_of_done (hnone : s.context.wanted = []) (steps : Nat) :
    Ends f s tried (steps + 1) := by
  have hdone := h.fetchStep_of_done hnone
  have hidle : s.fetchStep.context.fetching = .idle := by rw [hdone]; rfl
  have hregistry : s.fetchStep.context.registry = s.context.registry := by rw [hdone]; rfl
  have hend : fetchOn (steps + 1) s = s.fetchStep :=
    (fetchOn_succ h.isFetching steps).trans (fetchOn_of_idle hidle steps)
  have hsought : s.sought (steps + 1) = [] :=
    (sought_succ h.calls_eq_nil steps).trans (sought_of_idle hidle steps)
  have htaken : s.taken (steps + 1) = [] :=
    (taken_succ h.calls_eq_nil steps).trans (taken_of_idle hidle steps)
  constructor
  · rwa [hend]
  · rw [hend, hdone]
    rfl
  · rw [hend, hdone]
    rfl
  · rw [hsought]
    exact List.nodup_nil
  · rw [hsought]
    exact fun _ hbase => absurd hbase List.not_mem_nil
  · rw [hend, hsought, List.append_nil, Context.missing, hregistry]
    intro base hbase
    by_contra hnew
    have hwanted := h.mem_wanted_iff.2 ⟨hbase, hnew⟩
    rw [hnone] at hwanted
    cases hwanted
  · rw [htaken, hsought]
    rfl
  · rw [htaken]
    exact fun _ ht => absurd ht List.not_mem_nil
  · rw [hend, hregistry]
    exact fun _ hthere => hthere

theorem ends_of_round {c : Context} (hsome : s.context.wanted ≠ []) (hround : Round f c s)
    (hrest : Ends f s.fetchStep.fetchStep (tried ++ s.context.wanted) steps) :
    Ends f s tried (steps + 2) := by
  have hend : fetchOn (steps + 2) s = fetchOn steps s.fetchStep.fetchStep := by
    rw [fetchOn_succ h.isFetching, fetchOn_succ (h.isFetching_fetchStep hsome)]
  have hsought : s.sought (steps + 2)
      = s.context.wanted ++ s.fetchStep.fetchStep.sought steps := by
    rw [sought_succ h.calls_eq_nil, sought, hround.calls]
  have htaken : s.taken (steps + 2)
      = c.takings (s.context.wanted.map (fun base => (base, f base)))
        ++ s.fetchStep.fetchStep.taken steps := by
    rw [taken_succ h.calls_eq_nil, taken, hround.taken]
  have hthere : ∀ u, (c.takeAll f s.context.wanted).registry.store.contains u = true →
      (fetchOn (steps + 2) s).context.registry.store.contains u = true := by
    intro u hu
    rw [hend]
    refine hrest.kept u ?_
    rwa [hround.collected, Registry.contains_compile]
  constructor
  · rw [hend]
    exact hrest.idle
  · rw [hend]
    exact hrest.waiters
  · rw [hend, hrest.batches, hround.line.batches, hround.line.waiters]
  · rw [hsought, List.nodup_append]
    refine ⟨?_, hrest.once, fun base hbase other hother heq => ?_⟩
    · rw [Context.wanted, h.looking]
      exact s.context.nodup_missing.filter _
    · exact hrest.fresh other hother (List.mem_append_right _ (heq ▸ hbase))
  · rw [hsought, List.forall_mem_append]
    exact ⟨fun base hbase => (h.mem_wanted_iff.1 hbase).2,
      fun base hbase htried => hrest.fresh base hbase (List.mem_append_left _ htried)⟩
  · rw [hend, hsought, ← List.append_assoc]
    exact hrest.missing
  · rw [htaken, hsought, List.map_append, List.map_append, Context.map_takings, hrest.answers]
  · rw [htaken, List.forall_mem_append]
    refine ⟨fun t ht document hdocument r hadd => ?_, fun t ht document hdocument r hadd => ?_⟩
    · exact hthere t.base (Context.contains_of_mem_takings
        (fun base hbase => (h.wanted_plain hbase).2) ht hdocument hadd)
    · rw [hend]
      exact hrest.accepted t ht document hdocument r hadd
  · intro u hu
    exact hthere u (Context.contains_takeAll _ (hround.registry ▸ hu))

end Underway

/-- Every round tries a document that has not been tried before, and there are only so many. -/
theorem Underway.ends (h : Underway f all s tried) (hall : Closed f all)
    (hsteps : 2 * outstanding all tried < steps) : Ends f s tried steps := by
  induction steps using Nat.strong_induction_on generalizing s tried with
  | _ steps ih =>
      obtain ⟨steps, rfl⟩ := Nat.exists_eq_add_one.2 (Nat.zero_lt_of_lt hsteps)
      by_cases hnone : s.context.wanted = []
      · exact h.ends_of_done hnone steps
      · obtain ⟨base, hbase⟩ := List.exists_mem_of_ne_nil _ hnone
        have hless : outstanding all (tried ++ s.context.wanted) < outstanding all tried :=
          outstanding_lt (fun _ htried => List.mem_append_left _ htried) (h.wanted_plain hbase).1
            (h.mem_wanted_iff.1 hbase).2 (List.mem_append_right _ hbase)
        obtain ⟨c, hround, hnext⟩ := h.exists_round hnone hall
        obtain ⟨steps, rfl⟩ : ∃ n, steps = n + 1 := Nat.exists_eq_add_one.2 (by omega)
        exact h.ends_of_round hnone hround (ih steps (by omega) hnext (by omega))

/-! #### Everything that can be asked for -/

theorem referencesIn_eq (r : Response) :
    referencesIn r = (r.document?.map Json.references).getD [] := by
  rw [referencesIn, Response.document?]
  cases r.body <;> rfl

/-- All documents that a fetch can come to call for. -/
def candidates (s : Session) : List String :=
  s.context.missing ++ s.context.registry.queue.map SchemaUri.base
    ++ s.context.registry.store.references.map SchemaUri.base
    ++ s.transport.documents.flatMap (fun d =>
      (d.2.document?.map (Registry.asked d.1)).getD [])

theorem length_candidates_le (s : Session) : s.candidates.length ≤ s.roundBound := by
  have hdocument : ∀ d : String × Response,
      ((d.2.document?.map (Registry.asked d.1)).getD []).length = (referencesIn d.2).length := by
    intro d
    rw [referencesIn_eq]
    cases d.2.document? with
    | none => rfl
    | some document => exact Registry.length_asked d.1 document
  have hdocuments : (s.transport.documents.flatMap (fun d =>
      (d.2.document?.map (Registry.asked d.1)).getD [])).length
      = (s.transport.documents.flatMap (fun d => referencesIn d.2)).length := by
    rw [List.length_flatMap, List.length_flatMap]
    exact congrArg List.sum (List.map_congr_left fun d _ => hdocument d)
  rw [candidates, List.length_append, List.length_append, List.length_append, List.length_map,
    List.length_map, hdocuments, roundBound]
  omega

theorem within_candidates (s : Session) : Registry.Within s.candidates s.context.registry where
  missing := fun base hbase => by
    rw [candidates, List.append_assoc, List.append_assoc]
    exact List.mem_append_left _ hbase
  queue := fun u hu => by
    rw [candidates, List.append_assoc, List.append_assoc]
    exact List.mem_append_right _ (List.mem_append_left _ (List.mem_map_of_mem hu))
  references := fun target htarget => by
    rw [candidates, List.append_assoc]
    exact List.mem_append_right _ (List.mem_append_left _ (List.mem_map_of_mem htarget))

theorem exists_document_of_answerOf {base : String} {document : Json} (hbase : '#' ∉ base.toList)
    (h : s.answerOf base = .ok document) :
    ∃ response, (base, response) ∈ s.transport.documents ∧ response.document? = some document := by
  rw [answerOf, MemoryTransport.respond] at h
  have hget : (Request.get base).refusal? = none :=
    if_pos (show Text.sameIgnoringCase "GET" "GET" = true by decide)
  rw [hget, show (Request.get base).url = base from rfl, SchemaUri.base_of_no_hash hbase] at h
  dsimp only at h
  cases hresponse : Table.get? s.transport.documents base with
  | none =>
      rw [hresponse] at h
      cases h
  | some response =>
      rw [hresponse] at h
      exact ⟨response, Table.mem_of_get? hresponse, Response.document?_of_document h⟩

/-- The documents in memory ask for nothing that is not a candidate. -/
theorem closed_candidates (s : Session) : Closed s.answerOf s.candidates := by
  intro base hbase document hdocument b hb
  cases hanswer : s.answerOf base with
  | error e =>
      rw [hanswer, Context.documentOf?] at hdocument
      split at hdocument
      · cases hdocument
      · rw [← Option.some.inj hdocument] at hb
        cases hb
  | ok v =>
      obtain ⟨response, hmem, hv⟩ := exists_document_of_answerOf hbase hanswer
      rw [hanswer] at hdocument
      rw [candidates]
      refine List.mem_append_right _ (List.mem_flatMap.2 ⟨_, hmem, ?_⟩)
      dsimp only
      rw [hv, Option.some.inj hdocument]
      exact hb

/-- What becomes of a fetch of what is missing: it ends and releases those who wait. It has called
for no document twice, and for all that are still missing; the documents in memory have answered it,
and what has been accepted of their answers is missing no more. -/
structure Completes (s : Session) (steps : Nat) : Prop where
  idle : (fetchOn steps s).context.fetching = .idle
  waiters : (fetchOn steps s).context.waiters = []
  batches : (fetchOn steps s).context.batches
    = s.context.batches ++ [s.context.waiters.map Errand.release]
  once : (s.sought steps).Nodup
  tried : ∀ base ∈ (fetchOn steps s).context.missing, base ∈ s.sought steps
  answers : (s.taken steps).map (fun t => (t.base, t.answer))
    = (s.sought steps).map (fun base => (base, s.answerOf base))
  accepted : ∀ t ∈ s.taken steps, ∀ document, Context.documentOf? t.answer = some document →
    ∀ r, t.context.registry.addSchema t.base (some document) none = .ok r →
      t.base ∉ (fetchOn steps s).context.missing

theorem fetchStep_of_starting (h : s.context.fetching = .starting) :
    s.fetchStep = { s with context := { s.context with fetching := .looking [] } } := by
  rw [fetchStep, h]

theorem underway_of_starting (h : s.context.fetching = .starting) (hbuilt : s.context.Built)
    (hfaithful : s.context.requests.Faithful s.answerOf) :
    Underway s.answerOf s.candidates s.fetchStep [] := by
  rw [fetchStep_of_starting h]
  exact ⟨rfl, rfl, hfaithful, ⟨hbuilt.parent, hbuilt.registry⟩, s.within_candidates⟩

/-- Whatever tasks have done with a context, a fetch that starts comes to its end within the steps
that the background gives it. -/
theorem completes_of_starting {parent : Option Store} {options : Options} {es : List Event}
    (hparent : ∀ store, parent = some store → store.Reached)
    (hcontext : s.context = ((Tasks.new parent options).run es).context)
    (hanswers : Tasks.Throughout (Tasks.AnswersBy s.answerOf) (Tasks.new parent options) es)
    (hstarting : s.context.fetching = .starting) (hsteps : 2 * s.roundBound + 2 ≤ steps) :
    s.Completes steps := by
  have hbuilt : s.context.Built := hcontext ▸ Tasks.built_run (Tasks.built_new hparent options) es
  have hfaithful : s.context.requests.Faithful s.answerOf := by
    rw [hcontext]
    exact Tasks.faithful_run (Tasks.faithful_new parent options) hanswers
  have hbound := (outstanding_le s.candidates []).trans s.length_candidates_le
  obtain ⟨steps, rfl⟩ : ∃ n, steps = n + 1 := Nat.exists_eq_add_one.2 (by omega)
  have hends : Ends s.answerOf s.fetchStep [] steps :=
    (underway_of_starting hstarting hbuilt hfaithful).ends s.closed_candidates (by omega)
  have hfetching : s.context.isFetching = true := by rw [Context.isFetching, hstarting]
  have hcalls : s.context.calls = [] := by rw [Context.calls, hstarting]
  have hfetch := fetchOn_succ hfetching steps
  have hsought := sought_succ hcalls steps
  have htaken := taken_succ hcalls steps
  constructor
  · rw [hfetch]
    exact hends.idle
  · rw [hfetch]
    exact hends.waiters
  · rw [hfetch, hends.batches, fetchStep_of_starting hstarting]
  · rw [hsought]
    exact hends.once
  · rw [hfetch, hsought]
    exact hends.missing
  · rw [htaken, hsought]
    exact hends.answers
  · rw [hfetch, htaken]
    exact fun t ht document hdocument r hadd =>
      Context.not_mem_missing (hends.accepted t ht document hdocument r hadd)

/-- Two schemas are asked for, and someone waits for them. -/
def asking : List Event :=
  [.addSchema "s" none none, .addSchema "t" none none, .wait (.callback (.fire "w")) true]

def patchy : MemoryTransport :=
  (MemoryTransport.empty.insert "s" (.ofJson (.bool false))).insert "t" ⟨some 503, [], .text ""⟩

def patchySession : Session :=
  Session.new ((Tasks.new none .standard).run asking).context patchy 0 true false

theorem completes_of_starting_patchy :
    Tasks.Throughout (Tasks.AnswersBy patchySession.answerOf) (Tasks.new none .standard) asking
      ∧ patchySession.context.fetching = .starting
      ∧ patchySession.sought 4 = ["s", "t"]
      ∧ patchySession.Completes (2 * patchySession.roundBound + 2) := by
  have hanswers :
      Tasks.Throughout (Tasks.AnswersBy patchySession.answerOf) (Tasks.new none .standard) asking :=
    ⟨trivial, trivial, trivial, trivial⟩
  have hparent : ∀ store, (none : Option Store) = some store → store.Reached :=
    fun _ hnone => nomatch hnone
  exact ⟨hanswers, rfl, rfl,
    completes_of_starting hparent rfl hanswers rfl (le_refl _)⟩

end Session

end HyperSchema
