import HyperSchema.Proofs.Model.Expiry
import HyperSchema.Proofs.Registry.Absent
import HyperSchema.Proofs.Session.Operations
import HyperSchema.Session.Opening

/-!
# How long a model stays cached

A lease is what the uses of a URL come to, told without entries and timers: the model that was put
in, and when it was last used. Opening and poking begin its time anew, looking and creating do not;
taking it out ends it, and so does the lapse of its time. Whatever is done with a session that has a
background, a model is cached exactly while it has a lease that has not run out, and as long as it
is, everything that asks for the URL gets this model.
-/

namespace HyperSchema

/-- The model leased under a URL, and the time of its last use. -/
structure Lease where
  model : Nat
  since : Nat
  deriving DecidableEq

namespace Lease

def Runs (ttl now : Nat) (l : Lease) : Bool := decide (now < l.since + ttl)

theorem runs_iff {ttl now : Nat} {l : Lease} : l.Runs ttl now = true ↔ now < l.since + ttl :=
  decide_eq_true_iff

def entry (ttl : Nat) (l : Lease) : CacheEntry := ⟨l.model, l.since + ttl⟩

end Lease

namespace Session

/-- What is done with the cache of a session; between such uses anything else may be done. -/
inductive Use where
  | openModel (url : String)
  | create (url : Option String) (value : Json) (schemas : List String)
  | look (url : String)
  | poke (url : String)
  | evict (url : String)
  | advance (milliseconds : Nat)
  | other (op : Operation)

def use (s : Session) : Use → Session
  | .openModel url => (s.openModel url).2
  | .create url value schemas => (s.createModel url value schemas).2
  | .look _ => s
  | .poke url => (s.poke url).2
  | .evict url => (s.evict url).2
  | .advance milliseconds => s.advance milliseconds
  | .other op => s.perform op

def useAll (s : Session) (uses : List Use) : Session := uses.foldl use s

/-- The model that is answered, by opening or creating one. -/
def obtained? (s : Session) : Use → Option Nat
  | .openModel url => (s.openModel url).1.toOption
  | .create url value schemas => (s.createModel url value schemas).1.toOption
  | _ => none

/-- A use, with its time and with the model that was answered. -/
structure Visit where
  time : Nat
  use : Use
  model? : Option Nat

def visits : Session → List Use → List Visit
  | _, [] => []
  | s, u :: rest => ⟨s.cache.now, u, s.obtained? u⟩ :: visits (s.use u) rest

/-- What a visit makes of the lease of a URL. -/
def Visit.renew (ttl : Nat) (url : String) (lease : Option Lease) (v : Visit) : Option Lease :=
  let running := lease.filter (Lease.Runs ttl v.time)
  match v.use, v.model? with
  | .openModel other, some i =>
    if other = url then some ⟨(running.map Lease.model).getD i, v.time⟩ else lease
  | .create (some other) _ _, some i =>
    if other = url then some (running.getD ⟨i, v.time⟩) else lease
  | .poke other, _ => if other = url then running.map (fun l => ⟨l.model, v.time⟩) else lease
  | .evict other, _ => if other = url then none else lease
  | _, _ => lease

/-- The lease of a URL after all visits so far. -/
def leaseOf (ttl : Nat) (url : String) (past : List Visit) : Option Lease :=
  past.foldl (Visit.renew ttl url) none

variable {s s' : Session} {ttl : Nat} {past : List Visit} {url : String} {i : Nat}

/-! ### What the cache has no part in -/

/-- A change that leaves the cache alone and takes no model away. -/
structure OffCache (s s' : Session) : Prop where
  cache : s'.cache = s.cache
  background : s'.background = s.background
  length : s.models.length ≤ s'.models.length

theorem OffCache.refl (s : Session) : OffCache s s := ⟨rfl, rfl, le_rfl⟩

theorem OffCache.trans {s'' : Session} (h : OffCache s s') (h' : OffCache s' s'') :
    OffCache s s'' :=
  ⟨h'.cache.trans h.cache, h'.background.trans h.background, h.length.trans h'.length⟩

theorem offCache_context (s : Session) (c : Context) : OffCache s { s with context := c } :=
  ⟨rfl, rfl, le_rfl⟩

theorem offCache_setModel (s : Session) (i : Nat) (m : Model) : OffCache s (s.setModel i m) :=
  ⟨rfl, rfl, List.length_set.ge⟩

theorem offCache_deliver (depth : Nat) (s : Session) (i : Nat) (notices : List Notice) :
    OffCache s (deliver depth s i notices) :=
  relates_deliver OffCache.refl OffCache.trans (fun _ _ => ⟨rfl, rfl, le_rfl⟩)
    (fun _ _ => ⟨rfl, rfl, le_rfl⟩) (fun _ _ => offCache_setModel _ i _) depth s notices

theorem offCache_addSchema (s : Session) (i : Nat) (uri : String) (document : Option Json) :
    OffCache s (s.addSchema i uri document).1 := by
  have htold : ∀ (c : Context) (m : Model) (notices : List Notice),
      OffCache s ((({ s with context := c } : Session).setModel i m).deliverAll i notices) :=
    fun c m notices => (s.offCache_context c).trans
      ((offCache_setModel _ i m).trans (offCache_deliver _ _ i notices))
  rw [addSchema]
  dsimp only
  split
  · exact s.offCache_context _
  · split
    · exact s.offCache_context _
    · split
      · exact (htold _ _ _).trans (offCache_context _ _)
      · exact htold _ _ _

theorem offCache_addSchemas (s : Session) (i : Nat) (schemas : List String) :
    OffCache s (s.addSchemas i schemas).1 := by
  induction schemas generalizing s with
  | nil => exact .refl s
  | cons uri rest ih =>
      have hfirst := s.offCache_addSchema i uri none
      rw [addSchemas]
      split
      · next s₁ e heq =>
        rw [heq] at hfirst
        exact hfirst
      · next s₁ heq =>
        rw [heq] at hfirst
        exact hfirst.trans (ih s₁)

theorem offCache_runCallbacks (s : Session) (cs : List Callback) :
    OffCache s (s.runCallbacks cs) :=
  relates_foldl OffCache.refl OffCache.trans
    (fun _ c => by cases c <;> exact ⟨rfl, rfl, le_rfl⟩) cs s

theorem offCache_runErrand (s : Session) (e : Errand) : OffCache s (s.runErrand e).2 := by
  have hruns := s.runs_runErrand e
  generalize (s.runErrand e).1 = more at hruns
  generalize (s.runErrand e).2 = s' at hruns ⊢
  cases hruns with
  | callback c => exact offCache_runCallbacks s [c]
  | ready i c => exact offCache_runCallbacks s [c]
  | nobody hm => exact .refl s
  | settle hm => exact (offCache_setModel s _ _).trans (offCache_deliver _ _ _ _)

theorem offCache_answerCall (s : Session) (c : Call) : OffCache s (s.answerCall c) :=
  ⟨rfl, rfl, le_rfl⟩

theorem offCache_fetchStep (s : Session) : OffCache s s.fetchStep := by
  rw [fetchStep]
  split
  · exact .refl s
  · exact ⟨rfl, rfl, le_rfl⟩
  · exact ⟨rfl, rfl, le_rfl⟩
  · next tried calls _ =>
    have hanswered := relates_answerFor OffCache.refl OffCache.trans offCache_answerCall s calls
    exact hanswered.trans ⟨rfl, rfl, le_rfl⟩

theorem offCache_write (s : Session) (i : Nat) (path : String) (x : Json) :
    OffCache s (s.write i path x).2 := by
  rw [write]
  split
  · exact .refl s
  · split
    · exact (offCache_setModel s i _).trans (offCache_deliver _ _ i _)
    · exact .refl s

theorem offCache_perform (s : Session) (op : Operation) : OffCache s (s.perform op) := by
  cases op with
  | create value url failure =>
      refine ⟨rfl, rfl, ?_⟩
      rw [perform, addModel, List.length_append]
      exact Nat.le_add_right _ _
  | addSchema i uri document => exact s.offCache_addSchema i uri document
  | write i path x => exact s.offCache_write i path x
  | whenReady i c =>
      rw [perform, whenReady]
      split
      · exact .refl s
      · exact (offCache_setModel s i _).trans (offCache_runCallbacks _ _)
  | handle i path =>
      rw [perform]
      split
      · exact offCache_setModel s i _
      · exact .refl s
  | subscribe i path label answer =>
      rw [perform]
      split
      · exact (offCache_setModel s i _).trans ⟨rfl, rfl, le_rfl⟩
      · exact .refl s
  | unsubscribe i path number =>
      rw [perform, unsubscribe]
      split
      · exact offCache_setModel s i _
      · exact .refl s
  | fetchSchemas urls =>
      exact relates_fetchUndisturbed OffCache.refl OffCache.trans offCache_answerCall
        (fun s _ => s.offCache_context _) s urls
  | fetchStep => exact s.offCache_fetchStep
  | runNext n =>
      rw [perform, runNext]
      split
      · exact .refl s
      · next e rest _ => exact (s.offCache_runErrand e).trans (offCache_context _ _)
  | register uri document name => exact ⟨rfl, rfl, le_rfl⟩
  | registerFormat name refusal? => exact ⟨rfl, rfl, le_rfl⟩
  | whenFetched c => exact ⟨rfl, rfl, le_rfl⟩
  | clean => exact ⟨rfl, rfl, le_rfl⟩
  | serve transport => exact ⟨rfl, rfl, le_rfl⟩

theorem offCache_performAll (s : Session) (ops : List Operation) : OffCache s (s.performAll ops) :=
  relates_foldl OffCache.refl OffCache.trans offCache_perform ops s

theorem offCache_turn (s : Session) : OffCache s s.turn := by
  obtain ⟨ops, hops⟩ := s.exists_turn_eq
  rw [hops]
  exact s.offCache_performAll ops

/-- The background does nothing with the cache but let its timers look at the clock. -/
theorem exists_runBackground (s : Session) :
    ∃ s', OffCache s s' ∧ s.runBackground = { s' with cache := s.cache.tick } := by
  obtain ⟨ops, hops⟩ := s.exists_runBackground_eq
  have hoff := s.offCache_performAll ops
  exact ⟨_, hoff, hops.trans (by rw [hoff.cache])⟩

/-! ### Making models -/

/-- What comes of making a model for a URL: it is put into the cache, or its schemas cannot be
compiled. -/
inductive Makes (s : Session) (url : String) : Except CompileError Nat × Session → Prop where
  | cached {s' : Session} {i : Nat} (hoff : OffCache s s') (hi : i < s'.models.length) :
      Makes s url (.ok (s'.cacheModel url i).1, (s'.cacheModel url i).2)
  | refused {s' : Session} (hoff : OffCache s s') (e : CompileError) : Makes s url (.error e, s')

theorem offCache_addModel (s : Session) (m : Model) :
    OffCache s (s.addModel m).2 ∧ (s.addModel m).1 < (s.addModel m).2.models.length := by
  have hlength : (s.addModel m).2.models.length = s.models.length + 1 := List.length_append
  exact ⟨⟨rfl, rfl, hlength ▸ Nat.le_succ _⟩, hlength ▸ Nat.lt_succ_self _⟩

/-- A model with its schemas goes into the cache. -/
theorem makes_of_addSchemas (hoff : OffCache s s') (url : String) (m : Model)
    (schemas : List String) :
    Makes s url
      (match (s'.addModel m).2.addSchemas (s'.addModel m).1 schemas with
        | (s, some e) => (.error e, s)
        | (s, none) =>
          (.ok (s.cacheModel url (s'.addModel m).1).1,
            (s.cacheModel url (s'.addModel m).1).2)) := by
  obtain ⟨hadded, hi⟩ := s'.offCache_addModel m
  have hschemas := (s'.addModel m).2.offCache_addSchemas (s'.addModel m).1 schemas
  split
  · next s₁ e heq =>
    rw [heq] at hschemas
    exact .refused (hoff.trans (hadded.trans hschemas)) e
  · next s₁ heq =>
    rw [heq] at hschemas
    exact .cached (hoff.trans (hadded.trans hschemas)) (hi.trans_le hschemas.length)

theorem openModel_of_cached (h : s.cache.get? url = some i) :
    s.openModel url = (.ok i, { s with cache := s.cache.touch url }) := by
  rw [openModel, h]

theorem makes_openModel (h : s.cache.get? url = none) : Makes s url (s.openModel url) := by
  have hturn : OffCache s (if s.overlapping then s.turn else s) := by
    split
    · exact s.offCache_turn
    · exact .refl s
  have hfetch : OffCache s ((if s.overlapping then s.turn else s).fetchDocument url).2 :=
    hturn.trans ⟨rfl, rfl, le_rfl⟩
  rw [openModel, h]
  dsimp only
  split
  · next e _ =>
    obtain ⟨hadded, hi⟩ := offCache_addModel _
      { Model.new .null (some url) with documentError := some e }
    exact .cached (hfetch.trans hadded) hi
  · next response v _ => exact makes_of_addSchemas hfetch url _ _

theorem makes_createModel (s : Session) (url : String) (v : Json) (schemas : List String) :
    Makes s url (s.createModel (some url) v schemas) :=
  makes_of_addSchemas (.refl s) url (Model.new v (some url)) _

theorem offCache_createModel (s : Session) (v : Json) (schemas : List String) :
    OffCache s (s.createModel none v schemas).2 := by
  obtain ⟨hadded, -⟩ := s.offCache_addModel (Model.new v none)
  have hschemas := (s.addModel (Model.new v none)).2.offCache_addSchemas
    (s.addModel (Model.new v none)).1 (schemas.map SchemaUri.normalize)
  rw [createModel]
  dsimp only
  split
  · next s₁ e heq =>
    rw [heq] at hschemas
    exact hadded.trans hschemas
  · next s₁ heq =>
    rw [heq] at hschemas
    exact hadded.trans hschemas

/-! ### The cache keeps to the leases -/

/-- The cache has an entry for every lease that has not run out, and no other. -/
structure Leased (ttl : Nat) (past : List Visit) (s : Session) : Prop where
  duration : s.cache.ttl = ttl
  background : s.background = true
  watched : s.cache.Watched
  entries : ∀ url, Table.get? s.cache.entries url
    = ((leaseOf ttl url past).filter (Lease.Runs ttl s.cache.now)).map (Lease.entry ttl)
  models : ∀ url e, Table.get? s.cache.entries url = some e → e.model < s.models.length
  soon : ∀ url e, Table.get? s.cache.entries url = some e → e.expires ≤ s.cache.now + ttl

theorem leaseOf_concat (ttl : Nat) (url : String) (past : List Visit) (v : Visit) :
    leaseOf ttl url (past ++ [v]) = v.renew ttl url (leaseOf ttl url past) := by
  rw [leaseOf, List.foldl_append]
  rfl

theorem renew_openModel (lease : Option Lease) (now i : Nat) (url other : String) :
    Visit.renew ttl other lease ⟨now, .openModel url, some i⟩
      = if url = other then
          some ⟨((lease.filter (Lease.Runs ttl now)).map Lease.model).getD i, now⟩
        else lease :=
  rfl

theorem renew_create (lease : Option Lease) (now i : Nat) (url other : String) (value : Json)
    (schemas : List String) :
    Visit.renew ttl other lease ⟨now, .create (some url) value schemas, some i⟩
      = if url = other then some ((lease.filter (Lease.Runs ttl now)).getD ⟨i, now⟩)
        else lease :=
  rfl

theorem leased_new (context : Context) (transport : MemoryTransport) (ttl : Nat)
    (overlapping : Bool) : Leased ttl [] (new context transport ttl true overlapping) := by
  have hempty : ∀ url e, Table.get? (Cache.empty ttl).entries url ≠ some e :=
    fun _ _ hget => nomatch (hget : (none : Option CacheEntry) = some _)
  exact ⟨rfl, rfl, Cache.watched_empty ttl, fun _ => rfl,
    fun url e hget => (hempty url e hget).elim, fun url e hget => (hempty url e hget).elim⟩

namespace Leased

theorem offCache (h : Leased ttl past s) (hoff : OffCache s s') : Leased ttl past s' where
  duration := hoff.cache ▸ h.duration
  background := hoff.background.trans h.background
  watched := hoff.cache ▸ h.watched
  entries := hoff.cache ▸ h.entries
  models := fun url e hget => (h.models url e (hoff.cache ▸ hget)).trans_le hoff.length
  soon := hoff.cache ▸ h.soon

theorem visit {v : Visit} (h : Leased ttl past s)
    (hsame : ∀ url, (v.renew ttl url (leaseOf ttl url past)).filter (Lease.Runs ttl s.cache.now)
      = (leaseOf ttl url past).filter (Lease.Runs ttl s.cache.now)) :
    Leased ttl (past ++ [v]) s :=
  { h with entries := fun url => by rw [leaseOf_concat, hsame, h.entries] }

theorem get?_eq_some_iff (h : Leased ttl past s) :
    s.cache.get? url = some i ↔ ∃ l, leaseOf ttl url past = some l ∧ l.model = i
      ∧ s.cache.now < l.since + ttl := by
  rw [Cache.get?, h.entries, Option.map_map, Option.map_eq_some_iff]
  refine exists_congr fun l => ?_
  rw [Option.filter_eq_some_iff, Lease.runs_iff]
  exact ⟨fun hl => ⟨hl.1.1, hl.2, hl.1.2⟩, fun hl => ⟨⟨hl.1, hl.2.2⟩, hl.2.1⟩⟩

theorem advance (h : Leased ttl past s) (milliseconds : Nat) :
    Leased ttl past (s.advance milliseconds) := by
  obtain ⟨s', hoff, hrun⟩ := s.exists_runBackground
  have hwatched := h.watched.tick
  have hcache : (s.advance milliseconds).cache = s.cache.tick.advance milliseconds := by
    rw [Session.advance, hrun]
  have hget : ∀ url, Table.get? (s.advance milliseconds).cache.entries url
      = (Table.get? s.cache.entries url).filter (Cache.Lasts (s.cache.now + milliseconds)) := by
    intro url
    rw [hcache, hwatched.get?_advance, h.watched.get?_tick, h.watched.now_tick,
      Option.filter_filter]
    refine congrArg (Option.filter · _) (funext fun e => ?_)
    rw [Cache.Lasts, Cache.Lasts, ← Bool.decide_and, decide_eq_decide]
    omega
  have hnow : (s.advance milliseconds).cache.now = s.cache.now + milliseconds := by
    rw [hcache, hwatched.now_advance, h.watched.now_tick]
  constructor
  · rw [hcache, hwatched.ttl_advance, h.watched.ttl_tick, h.duration]
  · rw [Session.advance, hrun]
    exact hoff.background.trans h.background
  · rw [hcache]
    exact hwatched.advance milliseconds
  · intro url
    rw [hget, h.entries, hnow, Option.filter_map, Option.filter_filter]
    refine congrArg (fun p => Option.map _ (Option.filter p _)) (funext fun l => ?_)
    rw [Function.comp_apply, Cache.Lasts, Lease.Runs, Lease.Runs, Lease.entry, ← Bool.decide_and,
      decide_eq_decide]
    dsimp only
    omega
  · intro url e hthere
    rw [hget] at hthere
    have hmodel := h.models url e (Option.filter_eq_some_iff.1 hthere).1
    rw [Session.advance, hrun]
    exact hmodel.trans_le hoff.length
  · intro url e hthere
    rw [hget] at hthere
    have hsoon := h.soon url e (Option.filter_eq_some_iff.1 hthere).1
    rw [hnow]
    omega

theorem change {v : Visit} {c : Cache} {lease? : Option Lease} (h : Leased ttl past s)
    (httl : 0 < ttl) (hnow : c.now = s.cache.now) (hduration : c.ttl = s.cache.ttl)
    (hwatched : c.Watched)
    (hget : ∀ other, Table.get? c.entries other
      = if other = url then lease?.map (Lease.entry ttl) else Table.get? s.cache.entries other)
    (hrenew : ∀ other, v.renew ttl other (leaseOf ttl other past)
      = if url = other then lease? else leaseOf ttl other past)
    (hbegins : ∀ l, lease? = some l → l.since = s.cache.now ∧ l.model < s.models.length) :
    Leased ttl (past ++ [v]) { s with cache := c } := by
  have hruns : lease?.filter (Lease.Runs ttl s.cache.now) = lease? := by
    cases lease? with
    | none => rfl
    | some l =>
        rw [Option.filter_some_pos]
        rw [Lease.runs_iff, (hbegins l rfl).1]
        exact Nat.lt_add_of_pos_right httl
  have hentry : ∀ e, lease?.map (Lease.entry ttl) = some e →
      e.model < s.models.length ∧ e.expires ≤ s.cache.now + ttl := by
    intro e he
    obtain ⟨l, hl, rfl⟩ := Option.map_eq_some_iff.1 he
    exact ⟨(hbegins l hl).2, (congrArg (· + ttl) (hbegins l hl).1).le⟩
  constructor
  · exact hduration.trans h.duration
  · exact h.background
  · exact hwatched
  · intro other
    dsimp only
    rw [leaseOf_concat, hrenew, hget, hnow]
    split
    · next heq => rw [if_pos heq.symm, hruns]
    · next hne => rw [if_neg (Ne.symm hne), h.entries]
  · intro other e hthere
    rw [hget] at hthere
    split at hthere
    · exact (hentry e hthere).1
    · exact h.models other e hthere
  · intro other e hthere
    rw [hget] at hthere
    dsimp only
    rw [hnow]
    split at hthere
    · exact (hentry e hthere).2
    · exact h.soon other e hthere

/-- The running lease of a URL is what the cache knows of it. -/
theorem get?_cache (h : Leased ttl past s) (url : String) :
    s.cache.get? url
      = ((leaseOf ttl url past).filter (Lease.Runs ttl s.cache.now)).map Lease.model := by
  rw [Cache.get?, h.entries, Option.map_map]
  rfl

theorem touched {v : Visit} (h : Leased ttl past s) (httl : 0 < ttl)
    (hrenew : ∀ other, v.renew ttl other (leaseOf ttl other past)
      = if url = other then (s.cache.get? url).map (Lease.mk · s.cache.now)
        else leaseOf ttl other past) :
    Leased ttl (past ++ [v]) { s with cache := s.cache.touch url } := by
  have hduration := h.duration
  refine h.change httl (Cache.now_touch _ _) (Cache.ttl_touch _ _)
    (h.watched.touch (hduration ▸ h.soon url)) (fun other => ?_) hrenew ?_
  · rw [Cache.get?_touch, Cache.get?, Option.map_map, Option.map_map, hduration]
    rfl
  · intro l hl
    obtain ⟨i, hi, rfl⟩ := Option.map_eq_some_iff.1 hl
    obtain ⟨e, he, rfl⟩ := Option.map_eq_some_iff.1 hi
    exact ⟨rfl, h.models url e he⟩

theorem poke (h : Leased ttl past s) (httl : 0 < ttl) (url : String) :
    Leased ttl (past ++ [⟨s.cache.now, .poke url, none⟩]) (s.poke url).2 :=
  h.touched httl (fun other => by
    rw [h.get?_cache, Option.map_map, Visit.renew]
    dsimp only
    split
    · next heq => rw [heq]; rfl
    · rfl)

theorem evict (h : Leased ttl past s) (httl : 0 < ttl) (url : String) :
    Leased ttl (past ++ [⟨s.cache.now, .evict url, none⟩]) (s.evict url).2 := by
  have hget : ∀ other, Table.get? (s.cache.evict url).entries other
      = if other = url then Option.map (Lease.entry ttl) none
        else Table.get? s.cache.entries other := Cache.get?_evict _ url
  exact h.change httl rfl rfl (h.watched.evict url) hget (fun _ => rfl) (fun _ hl => nomatch hl)

theorem inserted {v : Visit} (h : Leased ttl past s) (httl : 0 < ttl)
    (hnone : s.cache.get? url = none) (hi : i < s.models.length)
    (hrenew : ∀ other, v.renew ttl other (leaseOf ttl other past)
      = if url = other then some ⟨i, s.cache.now⟩ else leaseOf ttl other past) :
    Leased ttl (past ++ [v]) (s.cacheModel url i).2 := by
  have hempty := Option.map_eq_none_iff.1 hnone
  have hinsert := Cache.insert_of_none i hempty
  have hwatched := h.watched.insert i hempty
  have hcached : (s.cacheModel url i).2 = { s with cache := (s.cache.insert url i true).2 } := by
    rw [cacheModel, h.background]
  rw [hcached]
  refine h.change httl ?_ ?_ hwatched (fun other => ?_) hrenew ?_
  · rw [hinsert]
  · rw [hinsert]
  · rw [hinsert]
    dsimp only
    rw [Table.get?_insert, h.duration]
    rfl
  · rintro l ⟨⟩
    exact ⟨rfl, hi⟩

end Leased

theorem cacheModel_of_cached {j : Nat} (h : s.cache.get? url = some j) (i : Nat) :
    s.cacheModel url i = (j, s) := by
  obtain ⟨e, he, rfl⟩ := Option.map_eq_some_iff.1 h
  rw [cacheModel, Cache.insert_of_get? i s.background he]

theorem cacheModel_of_none (h : s.cache.get? url = none) (i : Nat) :
    (s.cacheModel url i).1 = i := by
  rw [cacheModel, Cache.insert, Option.map_eq_none_iff.1 h]

namespace Leased

theorem openModel (h : Leased ttl past s) (httl : 0 < ttl) (url : String) :
    Leased ttl (past ++ [⟨s.cache.now, .openModel url, (s.openModel url).1.toOption⟩])
      (s.openModel url).2 := by
  have hrenew : ∀ i other, Visit.renew ttl other (leaseOf ttl other past)
        ⟨s.cache.now, .openModel url, some i⟩
      = if url = other then some ⟨(s.cache.get? url).getD i, s.cache.now⟩
        else leaseOf ttl other past := by
    intro i other
    rw [renew_openModel]
    split
    · next heq => rw [h.get?_cache, heq]
    · rfl
  cases hget : s.cache.get? url with
  | some i =>
      rw [openModel_of_cached hget]
      refine h.touched httl (fun other => (hrenew i other).trans ?_)
      rw [hget, Option.getD_some, Option.map_some]
  | none =>
      have hmakes := makes_openModel hget
      generalize s.openModel url = made at hmakes
      cases hmakes with
      | refused hoff e => exact (h.offCache hoff).visit (fun _ => rfl)
      | cached hoff hi =>
          next s' i =>
          have hnone : s'.cache.get? url = none := hoff.cache ▸ hget
          rw [cacheModel_of_none hnone]
          refine (h.offCache hoff).inserted httl hnone hi (fun other => (hrenew i other).trans ?_)
          rw [hget, Option.getD_none, hoff.cache]

theorem createModel (h : Leased ttl past s) (httl : 0 < ttl) (url : Option String) (value : Json)
    (schemas : List String) :
    Leased ttl
      (past ++ [⟨s.cache.now, .create url value schemas,
        (s.createModel url value schemas).1.toOption⟩])
      (s.createModel url value schemas).2 := by
  cases url with
  | none => exact (h.offCache (s.offCache_createModel value schemas)).visit (fun _ => rfl)
  | some url =>
      have hrenew : ∀ i other, Visit.renew ttl other (leaseOf ttl other past)
            ⟨s.cache.now, .create (some url) value schemas, some i⟩
          = if url = other then
              some (((leaseOf ttl url past).filter (Lease.Runs ttl s.cache.now)).getD
                ⟨i, s.cache.now⟩)
            else leaseOf ttl other past := by
        intro i other
        rw [renew_create]
        split
        · next heq => rw [heq]
        · rfl
      have hmakes := s.makes_createModel url value schemas
      generalize s.createModel (some url) value schemas = made at hmakes
      cases hmakes with
      | refused hoff e => exact (h.offCache hoff).visit (fun _ => rfl)
      | cached hoff hi =>
          next s' i =>
          have hleased := h.offCache hoff
          cases hget : s'.cache.get? url with
          | none =>
              rw [cacheModel_of_none hget]
              refine hleased.inserted httl hget hi (fun other => (hrenew i other).trans ?_)
              rw [hleased.get?_cache, Option.map_eq_none_iff] at hget
              rw [← hoff.cache, hget, Option.getD_none]
          | some j =>
              rw [cacheModel_of_cached hget]
              refine hleased.visit (fun other => ?_)
              rw [hleased.get?_cache, Option.map_eq_some_iff] at hget
              obtain ⟨l, hl, -⟩ := hget
              rw [Except.toOption, hrenew, ← hoff.cache, hl]
              split
              · next heq => 
                rw [← heq, hl, Option.getD_some, Option.filter_some_pos]
                exact (Option.filter_eq_some_iff.1 hl).2
              · rfl

/-- Each use makes of the leases what its visit says. -/
theorem use (h : Leased ttl past s) (httl : 0 < ttl) (u : Use) :
    Leased ttl (past ++ [⟨s.cache.now, u, s.obtained? u⟩]) (s.use u) := by
  cases u with
  | openModel url => exact h.openModel httl url
  | create url value schemas => exact h.createModel httl url value schemas
  | look url => exact h.visit (fun _ => rfl)
  | poke url => exact h.poke httl url
  | evict url => exact h.evict httl url
  | advance milliseconds => exact (h.advance milliseconds).visit (fun _ => rfl)
  | other op => exact (h.offCache (s.offCache_perform op)).visit (fun _ => rfl)

theorem useAll (h : Leased ttl past s) (httl : 0 < ttl) (uses : List Use) :
    Leased ttl (past ++ visits s uses) (s.useAll uses) := by
  induction uses generalizing past s with
  | nil => exact (List.append_nil past).symm ▸ h
  | cons u rest ih =>
      have hrest := ih (h.use httl u)
      rwa [List.append_assoc] at hrest

end Leased

/-! ### What is answered while a model is cached -/

/-- What is wrong with the schemas that a new model is given, if anything is. -/
def refusal? (s : Session) (url : String) (value : Json) (schemas : List String) :
    Option CompileError :=
  ((s.addModel (Model.new value (some url))).2.addSchemas s.models.length
    (schemas.map (SchemaUri.resolve url))).2

theorem createModel_of_cached (h : s.cache.get? url = some i) (value : Json)
    (schemas : List String) :
    (s.createModel (some url) value schemas).1
      = match s.refusal? url value schemas with
        | some e => .error e
        | none => .ok i := by
  have hadded := (s.offCache_addModel (Model.new value (some url))).1
  have hschemas := (s.addModel (Model.new value (some url))).2.offCache_addSchemas
    s.models.length (schemas.map (SchemaUri.resolve url))
  have hcached := (hadded.trans hschemas).cache ▸ h
  rw [createModel, refusal?]
  dsimp only
  rw [show (s.addModel (Model.new value (some url))).1 = s.models.length from rfl]
  generalize (s.addModel (Model.new value (some url))).2.addSchemas s.models.length
    (schemas.map (SchemaUri.resolve url)) = added at hcached
  obtain ⟨s', _ | e⟩ := added
  · dsimp only
    rw [cacheModel_of_cached hcached]
  · rfl

/-- A model is cached exactly while it has a lease that has not run out. While it is cached, it is
the answer to opening and looking, and to creating unless a schema cannot be compiled. -/
theorem cached_iff_leased (httl : 0 < ttl) (context : Context) (transport : MemoryTransport)
    (overlapping : Bool) (uses : List Use) (url : String) (i : Nat) :
    let start := new context transport ttl true overlapping
    let s := start.useAll uses
    (s.cache.get? url = some i
        ↔ ∃ l, leaseOf ttl url (visits start uses) = some l ∧ l.model = i
          ∧ s.cache.now < l.since + ttl)
      ∧ (s.cache.get? url = some i →
        (∃ m, s.model? i = some m ∧ s.cachedModel? url = some m)
          ∧ (s.openModel url).1 = .ok i
          ∧ ∀ value schemas, (s.createModel (some url) value schemas).1
            = match s.refusal? url value schemas with
              | some e => .error e
              | none => .ok i) := by
  intro start s
  have hleased : Leased ttl (visits start uses) s :=
    (leased_new context transport ttl overlapping).useAll httl uses
  refine ⟨hleased.get?_eq_some_iff, fun hcached => ⟨?_, ?_, createModel_of_cached hcached⟩⟩
  · obtain ⟨e, he, rfl⟩ := Option.map_eq_some_iff.1 hcached
    refine ⟨_, List.getElem?_eq_getElem (hleased.models url e he), ?_⟩
    rw [cachedModel?, hcached, Option.bind_some]
    exact List.getElem?_eq_getElem (hleased.models url e he)
  · rw [openModel_of_cached hcached]

/-- A model is used for a while, taken out, made anew and used again. -/
def renewals : List Use :=
  [.create (some "u") .null [], .advance 6, .poke "u", .advance 6, .evict "u",
    .create (some "u") (.bool true) [], .advance 5, .openModel "u", .look "u", .advance 9]

theorem cached_iff_leased_renewals :
    let start := new (Context.new none .standard) MemoryTransport.empty 10 true false
    let s := start.useAll renewals
    0 < 10 ∧ leaseOf 10 "u" (visits start renewals) = some ⟨1, 17⟩ ∧ s.cache.now = 26
      ∧ s.cache.timers.length = 2 ∧ s.cache.get? "u" = some 1
      ∧ (s.openModel "u").1 = .ok 1 := by
  intro start s
  have hlease : leaseOf 10 "u" (visits start renewals) = some ⟨1, 17⟩ := by decide +kernel
  have hnow : s.cache.now = 26 := by decide +kernel
  have htimers : s.cache.timers.length = 2 := by decide +kernel
  have httl : 0 < 10 := by decide
  have hcached := cached_iff_leased httl (Context.new none .standard) MemoryTransport.empty false
    renewals "u" 1
  have hget : s.cache.get? "u" = some 1 := hcached.1.2 ⟨⟨1, 17⟩, hlease, rfl, by decide⟩
  exact ⟨httl, hlease, hnow, htimers, hget, (hcached.2 hget).2.1⟩

/-! ### A schema that cannot be compiled -/

def unreadable : Json := .object [("type", .string "string"), ("pattern", .string "(")]

theorem ofSchema_unreadable : Node.ofSchema [] "s" unreadable = .error ⟨"s", "("⟩ := by
  have hpattern : Pattern.compile? "(" = none := by decide +kernel
  have hstring : Node.stringAssertions "s" [("type", .string "string"), ("pattern", .string "(")]
      = .error ⟨"s", "("⟩ := by
    rw [Node.stringAssertions, show Node.text? _ "pattern" = some "(" from rfl]
    dsimp only
    rw [Node.pattern, hpattern]
    rfl
  have hchecks : Node.checks [] "s" [("type", .string "string"), ("pattern", .string "(")] false
      .string = .error ⟨"s", "("⟩ := by
    rw [Node.checks, hstring]
    rfl
  rw [unreadable, Node.ofSchema, show Node.text? _ "$ref" = none from rfl]
  dsimp only
  rw [show (Node.head [] "s" _).allowed = [.string] from rfl, Node.kindChecks,
    show Node.integersOnly _ = false from rfl, hchecks]
  rfl

/-- A context over a store that has this schema. -/
def overUnreadable : Context := Context.new (some (Store.empty.add "s" unreadable)) .standard

def queueing : Registry := { overUnreadable.registry with queue := ["s"], roots := ["s"] }

theorem compile_queueing : queueing.compile.2 = some ⟨"s", "("⟩ := by
  have hfound : queueing.store.resolution (SchemaUri.normalize "s") = .found "s" unreadable := rfl
  have hread : ({ queueing with queue := [] } : Registry).readSchema "s" unreadable
      = .error ⟨"s", "("⟩ := by
    rw [Registry.readSchema, show Registry.schemaOf unreadable = unreadable from rfl]
    exact congrArg (Except.map _) ofSchema_unreadable
  rw [Registry.compile, Registry.drainBound,
    Registry.drain_cons (show queueing.queue = ["s"] from rfl) (by decide)
      (Registry.compileUri_of_refused (r := { queueing with queue := [] }) hfound hread)]
  rfl

theorem addSchema_overUnreadable :
    (overUnreadable.addSchema "s" none none).2 = some (.invalidPattern ⟨"s", "("⟩) := by
  have hadd : overUnreadable.registry.addSchema "s" none none = .ok queueing := rfl
  rw [Context.addSchema, hadd]
  dsimp only
  rw [Context.recompile, Option.map_eq_some_iff]
  exact ⟨_, compile_queueing, rfl⟩

theorem refusal?_overUnreadable (h : s.context = overUnreadable) (value : Json) :
    s.refusal? "u" value ["s"] = some (.invalidPattern ⟨"s", "("⟩) := by
  have hcontext : (overUnreadable.addSchema "s" none none).2
      = some (.invalidPattern ⟨"s", "("⟩) := addSchema_overUnreadable
  have hadd : ((s.addModel (Model.new value (some "u"))).2.addSchema s.models.length "s" none).2
      = some (.invalidPattern ⟨"s", "("⟩) := by
    have hnormal : SchemaUri.normalize "s" = "s" := rfl
    have hsame : (s.addModel (Model.new value (some "u"))).2.context = overUnreadable := h
    rw [addSchema, hnormal, hsame]
    generalize overUnreadable.addSchema "s" none none = added at hcontext
    obtain ⟨c, _ | e⟩ := added
    · cases hcontext
    · exact hcontext
  rw [refusal?, show ["s"].map (SchemaUri.resolve "u") = ["s"] by decide +kernel, addSchemas]
  generalize (s.addModel (Model.new value (some "u"))).2.addSchema s.models.length "s" none = added
    at hadd
  obtain ⟨s', _ | e⟩ := added
  · cases hadd
  · exact hadd

/-- A model is cached, and creating one for its URL fails nevertheless. -/
theorem not_created_of_cached :
    ¬ ∀ (ttl : Nat) (context : Context) (uses : List Use) (url : String) (i : Nat) (value : Json)
        (schemas : List String),
      let s := (new context MemoryTransport.empty ttl true false).useAll uses
      0 < ttl → s.cache.get? url = some i → (s.createModel (some url) value schemas).1 = .ok i := by
  intro hall
  have hcached : ((new overUnreadable MemoryTransport.empty 10 true false).useAll
      [.create (some "u") .null []]).cache.get? "u" = some 0 := by decide +kernel
  have hok := hall 10 overUnreadable [.create (some "u") .null []] "u" 0 .null ["s"] (by decide)
    hcached
  rw [createModel_of_cached hcached, refusal?_overUnreadable rfl] at hok
  cases hok

end Session

end HyperSchema
