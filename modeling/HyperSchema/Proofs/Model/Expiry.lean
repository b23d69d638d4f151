import HyperSchema.Model.Cache
import HyperSchema.Proofs.Table

/-!
# The timers of a cache

An entry that has been used since waits longer than its timer does, and a URL whose entry was taken
out and put in again has more than one timer. What is kept is that some timer of each entry is due
no later than the entry. So when every timer has looked at the clock, the entries whose time is up
are gone, and nothing else has changed.
-/

namespace HyperSchema.Cache

variable {c : Cache} {url : String} {e : CacheEntry} {t : Timer} {timers : List Timer} {n : Nat}

/-- A timer that looks at an entry before its time is up, or just then. -/
structure Watches (t : Timer) (url : String) (e : CacheEntry) : Prop where
  url : t.url = url
  early : ∀ deadline, t.deadline = some deadline → deadline ≤ e.expires

/-- Every entry has a timer that looks at it in time. -/
def Watched (c : Cache) : Prop :=
  ∀ url e, Table.get? c.entries url = some e → ∃ t ∈ c.timers, Watches t url e

/-- An entry whose time is not up. -/
def Lasts (now : Nat) (e : CacheEntry) : Bool := decide (now < e.expires)

theorem lasts_iff {now : Nat} : Lasts now e = true ↔ now < e.expires := decide_eq_true_iff

theorem watched_empty (ttl : Nat) : (empty ttl).Watched :=
  fun _ _ hget => nomatch (hget : (none : Option CacheEntry) = some _)

/-! ### Entries that come, stay longer and go -/

theorem get?_evict (c : Cache) (url other : String) :
    Table.get? (c.evict url).entries other
      = if other = url then none else Table.get? c.entries other := by
  rw [evict]
  split
  · next h => rw [h, Table.get?_erase_self]
  · next h => exact Table.get?_erase_of_ne _ (Ne.symm h)

theorem Watched.evict (h : c.Watched) (url : String) : (c.evict url).Watched := by
  intro other e hget
  rw [get?_evict] at hget
  split at hget
  · cases hget
  · exact h other e hget

theorem now_touch (c : Cache) (url : String) : (c.touch url).now = c.now := by
  rw [touch]
  split <;> rfl

theorem ttl_touch (c : Cache) (url : String) : (c.touch url).ttl = c.ttl := by
  rw [touch]
  split <;> rfl

theorem timers_touch (c : Cache) (url : String) : (c.touch url).timers = c.timers := by
  rw [touch]
  split <;> rfl

theorem get?_touch (c : Cache) (url other : String) :
    Table.get? (c.touch url).entries other
      = if other = url then
          (Table.get? c.entries url).map (fun e => { e with expires := c.now + c.ttl })
        else Table.get? c.entries other := by
  rw [touch]
  split
  · next e hget => rw [hget, Table.get?_insert, Option.map_some]
  · next hnone =>
    split
    · next heq => rw [heq, hnone, Option.map_none]
    · rfl

theorem Watched.touch (h : c.Watched)
    (hlater : ∀ e, Table.get? c.entries url = some e → e.expires ≤ c.now + c.ttl) :
    (c.touch url).Watched := by
  intro other e hget
  rw [timers_touch]
  rw [get?_touch] at hget
  split at hget
  · next heq =>
    obtain ⟨e₀, hget₀, rfl⟩ := Option.map_eq_some_iff.1 hget
    obtain ⟨t, ht, hwatches⟩ := h url e₀ hget₀
    exact ⟨t, ht, heq ▸ hwatches.url,
      fun deadline hdeadline => (hwatches.early deadline hdeadline).trans (hlater e₀ hget₀)⟩
  · exact h other e hget

theorem insert_of_get? (model : Nat) (timed : Bool) (hget : Table.get? c.entries url = some e) :
    c.insert url model timed = (e.model, c) := by
  rw [insert, hget]

theorem insert_of_none (model : Nat) (hget : Table.get? c.entries url = none) :
    c.insert url model true
      = (model,
        { c with
          entries := Table.insert c.entries url ⟨model, c.now + c.ttl⟩
          timers := c.timers ++ [⟨url, none⟩] }) := by
  rw [insert, hget]
  rfl

/-- A timer that has not begun to wait watches any entry. -/
theorem Watched.insert (h : c.Watched) (model : Nat) (hget : Table.get? c.entries url = none) :
    (c.insert url model true).2.Watched := by
  rw [insert_of_none model hget]
  intro other e hget'
  dsimp only at hget' ⊢
  rw [Table.get?_insert] at hget'
  split at hget'
  · next heq =>
    exact ⟨⟨url, none⟩, List.mem_append_right _ (List.mem_singleton_self _), heq.symm,
      fun _ hdeadline => nomatch hdeadline⟩
  · obtain ⟨t, ht, hwatches⟩ := h other e hget'
    exact ⟨t, List.mem_append_left _ ht, hwatches⟩

/-! ### Looking at the clock -/

/-- While some timers have looked and others have not: every entry has a timer among them, those
that have looked wait for a later time, and only entries whose time is up are gone. -/
structure Ticking (start : Cache) (timers : List Timer) (c : Cache) : Prop where
  now : c.now = start.now
  ttl : c.ttl = start.ttl
  watched : ∀ url e, Table.get? c.entries url = some e → ∃ t ∈ c.timers ++ timers, Watches t url e
  later : ∀ t ∈ c.timers, ∃ deadline, t.deadline = some deadline ∧ start.now < deadline
  kept : ∀ url e, Table.get? c.entries url = some e → Table.get? start.entries url = some e
  lasting : ∀ url e, Table.get? start.entries url = some e → start.now < e.expires →
    Table.get? c.entries url = some e

theorem poll_of_not_due (h : isDue c.now t = false) :
    c.poll t = { c with timers := c.timers ++ [t] } := by
  rw [poll, h]
  rfl

theorem poll_of_none (h : isDue c.now t = true) (hget : Table.get? c.entries t.url = none) :
    c.poll t = c := by
  rw [poll, h, if_pos rfl, hget]

theorem poll_of_expired (h : isDue c.now t = true) (hget : Table.get? c.entries t.url = some e)
    (hexpired : e.expires ≤ c.now) : c.poll t = c.evict t.url := by
  rw [poll, h, if_pos rfl, hget]
  exact if_pos hexpired

theorem poll_of_lasting (h : isDue c.now t = true) (hget : Table.get? c.entries t.url = some e)
    (hlasts : c.now < e.expires) :
    c.poll t = { c with timers := c.timers ++ [⟨t.url, some e.expires⟩] } := by
  rw [poll, h, if_pos rfl, hget]
  exact if_neg (Nat.not_le.2 hlasts)

section

variable {start : Cache}

/-- A timer that waits for a later time joins those that have looked, in the place of one that has
just done so and watches nothing that it does not. -/
theorem Ticking.wait {t' : Timer} {deadline : Nat} (h : Ticking start (t :: timers) c)
    (hdeadline : t'.deadline = some deadline) (hlater : start.now < deadline)
    (hwatches : ∀ url e, Table.get? c.entries url = some e → Watches t url e → Watches t' url e) :
    Ticking start timers { c with timers := c.timers ++ [t'] } where
  now := h.now
  ttl := h.ttl
  watched := fun url e hget => by
    obtain ⟨t₀, ht₀, hwatches₀⟩ := h.watched url e hget
    rcases List.mem_append.1 ht₀ with ht₀ | ht₀
    · exact ⟨t₀, List.mem_append_left _ (List.mem_append_left _ ht₀), hwatches₀⟩
    · rcases List.mem_cons.1 ht₀ with rfl | ht₀
      · exact ⟨t', List.mem_append_left _ (List.mem_append_right _ (List.mem_singleton_self _)),
          hwatches url e hget hwatches₀⟩
      · exact ⟨t₀, List.mem_append_right _ ht₀, hwatches₀⟩
  later := fun t₀ ht₀ => by
    rcases List.mem_append.1 ht₀ with ht₀ | ht₀
    · exact h.later t₀ ht₀
    · rw [List.mem_singleton.1 ht₀]
      exact ⟨deadline, hdeadline, hlater⟩
  kept := h.kept
  lasting := h.lasting

/-- A timer may go when nothing is left under its URL. -/
theorem Ticking.leave {c' : Cache} (h : Ticking start (t :: timers) c) (hnow : c'.now = c.now)
    (httl : c'.ttl = c.ttl) (htimers : c'.timers = c.timers)
    (hnone : Table.get? c'.entries t.url = none)
    (hothers : ∀ url, url ≠ t.url → Table.get? c'.entries url = Table.get? c.entries url)
    (hgone : ∀ e, Table.get? c.entries t.url = some e → e.expires ≤ start.now) :
    Ticking start timers c' where
  now := hnow.trans h.now
  ttl := httl.trans h.ttl
  watched := fun url e hget => by
    have hne : url ≠ t.url := by
      rintro rfl
      rw [hnone] at hget
      cases hget
    rw [hothers url hne] at hget
    obtain ⟨t₀, ht₀, hwatches⟩ := h.watched url e hget
    refine ⟨t₀, ?_, hwatches⟩
    rw [htimers]
    rcases List.mem_append.1 ht₀ with ht₀ | ht₀
    · exact List.mem_append_left _ ht₀
    · rcases List.mem_cons.1 ht₀ with rfl | ht₀
      · exact absurd hwatches.url (Ne.symm hne)
      · exact List.mem_append_right _ ht₀
  later := fun t₀ ht₀ => h.later t₀ (htimers ▸ ht₀)
  kept := fun url e hget => by
    by_cases hurl : url = t.url
    · rw [hurl, hnone] at hget
      cases hget
    · exact h.kept url e (hothers url hurl ▸ hget)
  lasting := fun url e hget hlasts => by
    have hthere := h.lasting url e hget hlasts
    by_cases hurl : url = t.url
    · subst hurl
      exact absurd (hgone e hthere) (Nat.not_le.2 hlasts)
    · rwa [hothers url hurl]

/-- A timer looks at the clock. -/
theorem Ticking.poll (h : Ticking start (t :: timers) c) : Ticking start timers (c.poll t) := by
  cases hdue : isDue c.now t with
  | false =>
      rw [isDue] at hdue
      rw [poll_of_not_due hdue]
      cases hdeadline : t.deadline with
      | none =>
          rw [hdeadline] at hdue
          cases hdue
      | some deadline =>
          rw [hdeadline] at hdue
          have hlater := Nat.not_le.1 (of_decide_eq_false hdue)
          exact h.wait hdeadline (h.now ▸ hlater) (fun _ _ _ hwatches => hwatches)
  | true =>
      cases hget : Table.get? c.entries t.url with
      | none =>
          rw [poll_of_none hdue hget]
          exact h.leave rfl rfl rfl hget (fun _ _ => rfl) (fun e hthere => by
            rw [hget] at hthere
            cases hthere)
      | some e =>
          rcases Nat.lt_or_ge c.now e.expires with hlasts | hexpired
          · rw [poll_of_lasting hdue hget hlasts]
            refine h.wait rfl (h.now ▸ hlasts) (fun url e' hget' hwatches => ⟨hwatches.url, ?_⟩)
            rw [← hwatches.url, hget] at hget'
            obtain rfl := Option.some.inj hget'
            exact fun deadline hdeadline => (Option.some.inj hdeadline).ge
          · rw [poll_of_expired hdue hget hexpired]
            refine h.leave rfl rfl rfl ?_ (fun url hne => ?_) (fun e' hthere => ?_)
            · rw [get?_evict, if_pos rfl]
            · rw [get?_evict, if_neg hne]
            · rw [hget] at hthere
              obtain rfl := Option.some.inj hthere
              exact h.now ▸ hexpired

theorem Ticking.pollAll (h : Ticking start timers c) :
    Ticking start [] (timers.foldl Cache.poll c) := by
  induction timers generalizing c with
  | nil => exact h
  | cons t timers ih => exact ih h.poll

end

theorem Watched.ticking (h : c.Watched) : Ticking c [] c.tick :=
  Ticking.pollAll (c := { c with timers := [] })
    ⟨rfl, rfl, h, fun _ ht => absurd ht List.not_mem_nil, fun _ _ hget => hget,
      fun _ _ hget _ => hget⟩

theorem Watched.tick (h : c.Watched) : c.tick.Watched := fun url e hget => by
  obtain ⟨t, ht, hwatches⟩ := h.ticking.watched url e hget
  exact ⟨t, List.append_nil c.tick.timers ▸ ht, hwatches⟩

/-- When all timers have looked at the clock, what is left are the entries whose time is not up. -/
theorem Watched.get?_tick (h : c.Watched) (url : String) :
    Table.get? c.tick.entries url = (Table.get? c.entries url).filter (Lasts c.now) := by
  have hticking := h.ticking
  apply Option.ext
  intro e
  rw [Option.filter_eq_some_iff, lasts_iff]
  refine ⟨fun hget => ⟨hticking.kept url e hget, ?_⟩, fun hget =>
    hticking.lasting url e hget.1 hget.2⟩
  obtain ⟨t, ht, hwatches⟩ := hticking.watched url e hget
  obtain ⟨deadline, hdeadline, hlater⟩ := hticking.later t (List.append_nil c.tick.timers ▸ ht)
  exact hlater.trans_le (hwatches.early deadline hdeadline)

theorem Watched.advance (h : c.Watched) (milliseconds : Nat) : (c.advance milliseconds).Watched :=
  Watched.tick (c := { c.tick with now := c.now + milliseconds }) h.tick

theorem Watched.now_tick (h : c.Watched) : c.tick.now = c.now := h.ticking.now

theorem Watched.ttl_tick (h : c.Watched) : c.tick.ttl = c.ttl := h.ticking.ttl

theorem Watched.now_advance (h : c.Watched) (milliseconds : Nat) :
    (c.advance milliseconds).now = c.now + milliseconds :=
  Watched.now_tick (c := { c.tick with now := c.now + milliseconds }) h.tick

theorem Watched.ttl_advance (h : c.Watched) (milliseconds : Nat) :
    (c.advance milliseconds).ttl = c.ttl :=
  (Watched.ttl_tick (c := { c.tick with now := c.now + milliseconds }) h.tick).trans h.ttl_tick

/-- The clock moves past the time of some entries, and they go. -/
theorem Watched.get?_advance (h : c.Watched) (milliseconds : Nat) (url : String) :
    Table.get? (c.advance milliseconds).entries url
      = (Table.get? c.entries url).filter (Lasts (c.now + milliseconds)) := by
  have htick := Watched.get?_tick (c := { c.tick with now := c.now + milliseconds }) h.tick url
  rw [Cache.advance, htick]
  dsimp only
  rw [h.get?_tick, Option.filter_filter]
  refine congrArg (Option.filter · _) (funext fun e => ?_)
  rw [Lasts, Lasts, ← Bool.decide_and, decide_eq_decide]
  omega

end HyperSchema.Cache
