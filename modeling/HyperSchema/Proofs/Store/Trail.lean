import HyperSchema.Proofs.SchemaUri
import HyperSchema.Proofs.Store.Targets
import Mathlib.Data.List.Nodup
import Mathlib.Data.List.Perm.Subperm

/-!
# The trail of references

Following references without remembering them goes step by step: down the way to the next reference
on it, and on from where that one leads. The references met are the trail, each with what is left of
the way behind it. What comes behind a waypoint is decided by the waypoint alone, so a trail that
ends at a schema never comes to a waypoint twice.

The walk over the store follows the same trail, a stride for each reference, and remembers the
references without the rest of the way. It arrives where the trail ends if no reference stands twice
on the trail, and reports a circle otherwise. The bound it is given never cuts it short.
-/

namespace HyperSchema

namespace Store

/-- A reference that is followed, and what is left of the way behind it. -/
@[ext]
structure Waypoint where
  target : String
  rest : List String
  deriving DecidableEq

/-- Where a reference leads: the URI, the value and the way to go on with. At the end of the way it
is what the reference names, on the way what it stands for. -/
def follow? (s : Store) (uri target : String) : List String → Option (String × Json × List String)
  | [] => (s.entrance? target).map (fun next => (target, next))
  | token :: rest => (s.shortcut? target).map (fun next => (uri, next, token :: rest))

/-- The end of a walk at a reference that leads nowhere. -/
def astray (target : String) : List String → Resolution
  | [] => .documentAbsent (SchemaUri.base target)
  | _ :: _ => .nodeAbsent

/-- Where a walk stands: the URI and the value it has come to, the rest of the way, and the
references it has met. -/
structure Standing where
  uri : String
  value : Json
  tokens : List String
  visited : List String

/-- Goes to the next reference on the way and on to where it leads, or comes to an end. -/
def stride (s : Store) (p : Standing) : Resolution ⊕ Standing :=
  match advance? p.value p.tokens with
  | none => .inl .nodeAbsent
  | some (w, rest) =>
    match w.reference? with
    | none => .inl (.found p.uri w)
    | some target =>
      if target ∈ p.visited then .inl (.circular (p.visited ++ [target]))
      else
        match s.follow? p.uri target rest with
        | some (uri, next, tokens) => .inr ⟨uri, next, tokens, p.visited ++ [target]⟩
        | none => .inl (astray target rest)

/-- What a stride can come to. -/
inductive Strides (s : Store) (p : Standing) : Resolution ⊕ Standing → Prop where
  | lost (hadvance : advance? p.value p.tokens = none) : Strides s p (.inl .nodeAbsent)
  | here {w rest} (hadvance : advance? p.value p.tokens = some (w, rest))
      (hend : w.reference? = none) : Strides s p (.inl (.found p.uri w))
  | again {w rest target} (hadvance : advance? p.value p.tokens = some (w, rest))
      (href : w.reference? = some target) (hmet : target ∈ p.visited) :
      Strides s p (.inl (.circular (p.visited ++ [target])))
  | nowhere {w rest target} (hadvance : advance? p.value p.tokens = some (w, rest))
      (href : w.reference? = some target) (hfresh : target ∉ p.visited)
      (hfollow : s.follow? p.uri target rest = none) : Strides s p (.inl (astray target rest))
  | onward {w rest target uri next tokens} (hadvance : advance? p.value p.tokens = some (w, rest))
      (href : w.reference? = some target) (hfresh : target ∉ p.visited)
      (hfollow : s.follow? p.uri target rest = some (uri, next, tokens)) :
      Strides s p (.inr ⟨uri, next, tokens, p.visited ++ [target]⟩)

/-- Following every reference, however often it was met before, ends at a schema. -/
inductive Arrives (s : Store) :
    String → Json → List String → List Waypoint → String → Json → Prop where
  | here {uri v tokens rest x} : advance? v tokens = some (x, rest) → x.reference? = none →
      Arrives s uri v tokens [] uri x
  | onward {uri v tokens w rest target uri' v' tokens' trail found x} :
      advance? v tokens = some (w, rest) → w.reference? = some target →
      s.follow? uri target rest = some (uri', v', tokens') →
      Arrives s uri' v' tokens' trail found x →
      Arrives s uri v tokens (⟨target, rest⟩ :: trail) found x

/-- Following every reference from a canonical URI ends at a schema. -/
def Leads (s : Store) (uri : String) (trail : List Waypoint) (found : String) (x : Json) : Prop :=
  ∃ v tokens, s.entrance? uri = some (v, tokens) ∧ s.Arrives uri v tokens trail found x

variable {s : Store} {v w x next : Json} {uri uri' target found : String}
  {tokens tokens' rest visited : List String} {trail : List Waypoint} {bound : Nat}

/-! ### One step of the walk -/

theorem eq_base_of_astray {base : String} (h : astray target rest = .documentAbsent base) :
    base = SchemaUri.base target := by
  cases rest with
  | nil => exact (Resolution.documentAbsent.inj h).symm
  | cons token rest => cases h

theorem astray_ne_found (target : String) (rest : List String) :
    astray target rest ≠ .found found x := by
  cases rest <;> exact fun h => by cases h

theorem walk_lost (hadvance : advance? v tokens = none) :
    s.walk (bound + 1) uri v tokens visited = some .nodeAbsent := by
  rw [walk, hadvance]

theorem walk_here (hadvance : advance? v tokens = some (w, rest)) (hend : w.reference? = none) :
    s.walk (bound + 1) uri v tokens visited = some (.found uri w) := by
  rw [walk, hadvance]
  dsimp only
  rw [hend]

section

variable (hadvance : advance? v tokens = some (w, rest)) (href : w.reference? = some target)

include hadvance href

theorem walk_again (hvisited : target ∈ visited) :
    s.walk (bound + 1) uri v tokens visited = some (.circular (visited ++ [target])) := by
  rw [walk, hadvance]
  dsimp only
  rw [href]
  dsimp only
  rw [if_pos hvisited]

theorem walk_onward (hfresh : target ∉ visited)
    (hfollow : s.follow? uri target rest = some (uri', next, tokens')) :
    s.walk (bound + 1) uri v tokens visited
      = s.walk bound uri' next tokens' (visited ++ [target]) := by
  rw [walk, hadvance]
  dsimp only
  rw [href]
  dsimp only
  rw [if_neg hfresh]
  cases rest with
  | nil =>
      obtain ⟨there, hentrance, heq⟩ := Option.map_eq_some_iff.1 hfollow
      obtain ⟨rfl, rfl⟩ := Prod.mk.inj heq
      rw [hentrance]
  | cons token rest =>
      obtain ⟨there, hshortcut, heq⟩ := Option.map_eq_some_iff.1 hfollow
      obtain ⟨rfl, hrest⟩ := Prod.mk.inj heq
      obtain ⟨rfl, rfl⟩ := Prod.mk.inj hrest
      dsimp only
      rw [hshortcut]

theorem walk_astray (bound : Nat) (hfresh : target ∉ visited)
    (hfollow : s.follow? uri target rest = none) :
    s.walk (bound + 1) uri v tokens visited = some (astray target rest) := by
  rw [walk, hadvance]
  dsimp only
  rw [href]
  dsimp only
  rw [if_neg hfresh]
  cases rest with
  | nil =>
      rw [Option.map_eq_none_iff.1 hfollow]
      rfl
  | cons token rest =>
      dsimp only
      rw [Option.map_eq_none_iff.1 hfollow]
      rfl

end

theorem strides_stride (s : Store) (p : Standing) : Strides s p (s.stride p) := by
  rw [stride]
  cases hadvance : advance? p.value p.tokens with
  | none => exact .lost hadvance
  | some there =>
      obtain ⟨w, rest⟩ := there
      dsimp only
      cases href : w.reference? with
      | none => exact .here hadvance href
      | some target =>
          dsimp only
          by_cases hmet : target ∈ p.visited
          · rw [if_pos hmet]
            exact .again hadvance href hmet
          · rw [if_neg hmet]
            cases hfollow : s.follow? p.uri target rest with
            | some onward => exact .onward hadvance href hmet hfollow
            | none => exact .nowhere hadvance href hmet hfollow

theorem walk_succ (s : Store) (bound : Nat) (p : Standing) :
    s.walk (bound + 1) p.uri p.value p.tokens p.visited
      = (s.stride p).elim some (fun q => s.walk bound q.uri q.value q.tokens q.visited) := by
  have hstrides := s.strides_stride p
  generalize s.stride p = next at hstrides ⊢
  cases hstrides with
  | lost hadvance => exact walk_lost hadvance
  | here hadvance hend => exact walk_here hadvance hend
  | again hadvance href hmet => exact walk_again hadvance href hmet
  | nowhere hadvance href hfresh hfollow => exact walk_astray hadvance href bound hfresh hfollow
  | onward hadvance href hfresh hfollow => exact walk_onward hadvance href hfresh hfollow

theorem exists_strides_of_walk {outcome : Option Resolution}
    (h : s.walk (bound + 1) uri v tokens visited = outcome) :
    ∃ next, Strides s ⟨uri, v, tokens, visited⟩ next
      ∧ outcome = next.elim some (fun q => s.walk bound q.uri q.value q.tokens q.visited) :=
  ⟨_, s.strides_stride _, h.symm.trans (s.walk_succ bound ⟨uri, v, tokens, visited⟩)⟩

theorem references_subset_of_follow? (h : s.follow? uri target rest = some (uri', next, tokens')) :
    next.references ⊆ s.references := by
  cases rest with
  | nil =>
      obtain ⟨⟨there, way⟩, hentrance, heq⟩ := Option.map_eq_some_iff.1 h
      obtain ⟨-, hpair⟩ := Prod.mk.inj heq
      obtain ⟨rfl, -⟩ := Prod.mk.inj hpair
      exact references_subset_of_entrance? hentrance
  | cons token rest =>
      obtain ⟨there, hshortcut, heq⟩ := Option.map_eq_some_iff.1 h
      obtain ⟨-, hpair⟩ := Prod.mk.inj heq
      obtain ⟨rfl, -⟩ := Prod.mk.inj hpair
      exact references_subset_of_shortcut? hshortcut

/-- A walk misses nothing but documents of references. -/
theorem exists_reference_of_walk {base : String} (hv : v.references ⊆ s.references)
    (h : s.walk bound uri v tokens visited = some (.documentAbsent base)) :
    ∃ target ∈ s.references, base = SchemaUri.base target := by
  induction bound generalizing uri v tokens visited with
  | zero => cases h
  | succ bound ih =>
      obtain ⟨next, hstrides, houtcome⟩ := exists_strides_of_walk h
      cases hstrides with
      | lost => cases houtcome
      | here => cases houtcome
      | again => cases houtcome
      | nowhere hadvance href =>
          have hw := List.Subset.trans (references_subset_of_advance? hadvance) hv
          exact ⟨_, hw (Json.mem_references_of_reference? href),
            eq_base_of_astray (Option.some.inj houtcome).symm⟩
      | onward _ _ _ hfollow => exact ih (references_subset_of_follow? hfollow) houtcome.symm

theorem base_of_documentAbsent {base : String} (h : s.resolution uri = .documentAbsent base) :
    base = SchemaUri.base uri ∨ ∃ target ∈ s.references, base = SchemaUri.base target := by
  rw [resolution] at h
  cases hentrance : s.entrance? uri with
  | none =>
      rw [hentrance] at h
      exact .inl (Resolution.documentAbsent.inj h).symm
  | some start =>
      obtain ⟨v, tokens⟩ := start
      rw [hentrance] at h
      dsimp only at h
      cases hwalk : s.walk (s.references.length + 2) uri v tokens [] with
      | none =>
          rw [hwalk] at h
          cases h
      | some outcome =>
          rw [hwalk, Option.getD_some] at h
          subst h
          exact .inr (exists_reference_of_walk (references_subset_of_entrance? hentrance) hwalk)

theorem hash_not_mem_of_documentAbsent {base : String}
    (h : s.resolution uri = .documentAbsent base) : '#' ∉ base.toList := by
  rcases base_of_documentAbsent h with rfl | ⟨target, -, rfl⟩
  · exact SchemaUri.hash_not_mem_base uri
  · exact SchemaUri.hash_not_mem_base target

/-- A walk that remembers what it followed comes to an end within the number of references. -/
theorem walk_ne_none (hnodup : visited.Nodup) (hvisited : visited ⊆ s.references)
    (hv : v.references ⊆ s.references) (hbound : s.references.length < bound + visited.length) :
    s.walk bound uri v tokens visited ≠ none := by
  induction bound generalizing uri v tokens visited with
  | zero =>
      have hle := (hnodup.subperm hvisited).length_le
      omega
  | succ bound ih =>
      intro hnone
      obtain ⟨next, hstrides, houtcome⟩ := exists_strides_of_walk hnone
      cases hstrides with
      | lost => cases houtcome
      | here => cases houtcome
      | again => cases houtcome
      | nowhere => cases houtcome
      | onward hadvance href hfresh hfollow =>
          have hw := List.Subset.trans (references_subset_of_advance? hadvance) hv
          have hmem := hw (Json.mem_references_of_reference? href)
          refine ih ?_ ?_ (references_subset_of_follow? hfollow) ?_ houtcome.symm
          · exact List.concat_eq_append ▸ hnodup.concat hfresh
          · exact List.append_subset.2 ⟨hvisited, by simpa using hmem⟩
          · rw [List.length_append, List.length_singleton]
            dsimp only
            omega

/-! ### The walk follows the trail -/

/-- What the walk makes of a trail: its end, unless a reference stands twice on it. -/
theorem Arrives.outcome (h : s.Arrives uri v tokens trail found x) (hvisited : visited.Nodup)
    {outcome : Resolution} (hwalk : s.walk bound uri v tokens visited = some outcome) :
    (visited ++ trail.map Waypoint.target).Nodup ∧ outcome = .found found x
      ∨ ¬(visited ++ trail.map Waypoint.target).Nodup ∧ ∃ chain, outcome = .circular chain := by
  induction h generalizing bound visited with
  | here hadvance hend =>
      cases bound with
      | zero => cases hwalk
      | succ bound =>
          rw [walk_here hadvance hend] at hwalk
          refine .inl ⟨?_, (Option.some.inj hwalk).symm⟩
          rwa [List.map_nil, List.append_nil]
  | @onward _ _ _ w rest target _ _ _ trail _ _ hadvance href hfollow _ ih =>
      cases bound with
      | zero => cases hwalk
      | succ bound =>
          by_cases hmet : target ∈ visited
          · rw [walk_again hadvance href hmet] at hwalk
            refine .inr ⟨fun hnodup => ?_, _, (Option.some.inj hwalk).symm⟩
            exact (List.nodup_append.1 hnodup).2.2 target hmet target List.mem_cons_self rfl
          · rw [walk_onward hadvance href hmet hfollow] at hwalk
            have hnext : (visited ++ [target]).Nodup :=
              List.concat_eq_append ▸ hvisited.concat hmet
            have hrest := ih hnext hwalk
            rwa [List.append_assoc, List.singleton_append] at hrest

theorem arrives_of_walk (h : s.walk bound uri v tokens visited = some (.found found x)) :
    ∃ trail, s.Arrives uri v tokens trail found x := by
  induction bound generalizing uri v tokens visited with
  | zero => cases h
  | succ bound ih =>
      obtain ⟨next, hstrides, houtcome⟩ := exists_strides_of_walk h
      cases hstrides with
      | lost => cases houtcome
      | here hadvance hend =>
          obtain ⟨rfl, rfl⟩ := Resolution.found.inj (Option.some.inj houtcome)
          exact ⟨[], .here hadvance hend⟩
      | again => cases houtcome
      | nowhere => exact absurd (Option.some.inj houtcome).symm (astray_ne_found _ _)
      | onward hadvance href _ hfollow =>
          obtain ⟨trail, harrives⟩ := ih houtcome.symm
          exact ⟨_, .onward hadvance href hfollow harrives⟩

theorem resolution_eq_of_entrance? (hentrance : s.entrance? uri = some (v, tokens)) :
    s.walk (s.references.length + 2) uri v tokens [] = some (s.resolution uri) := by
  rw [resolution, hentrance]
  dsimp only
  cases hwalk : s.walk (s.references.length + 2) uri v tokens [] with
  | none =>
      refine absurd hwalk (walk_ne_none List.nodup_nil (List.nil_subset _)
        (references_subset_of_entrance? hentrance) ?_)
      rw [List.length_nil]
      omega
  | some outcome => rfl

theorem Leads.resolution_cases (h : s.Leads uri trail found x) :
    (trail.map Waypoint.target).Nodup ∧ s.resolution uri = .found found x
      ∨ ¬(trail.map Waypoint.target).Nodup ∧ ∃ chain, s.resolution uri = .circular chain := by
  obtain ⟨v, tokens, hentrance, harrives⟩ := h
  exact harrives.outcome List.nodup_nil (resolution_eq_of_entrance? hentrance)

theorem resolution_eq_found_iff : s.resolution uri = .found found x
    ↔ ∃ trail, s.Leads uri trail found x ∧ (trail.map Waypoint.target).Nodup := by
  constructor
  · intro h
    cases hentrance : s.entrance? uri with
    | none =>
        rw [resolution, hentrance] at h
        cases h
    | some start =>
        obtain ⟨v, tokens⟩ := start
        have hwalk := resolution_eq_of_entrance? hentrance
        rw [h] at hwalk
        obtain ⟨trail, harrives⟩ := arrives_of_walk hwalk
        have hleads : s.Leads uri trail found x := ⟨v, tokens, hentrance, harrives⟩
        rcases hleads.resolution_cases with ⟨hnodup, -⟩ | ⟨-, chain, hcircle⟩
        · exact ⟨trail, hleads, hnodup⟩
        · rw [h] at hcircle
          cases hcircle
  · intro h
    obtain ⟨trail, hleads, hnodup⟩ := h
    rcases hleads.resolution_cases with ⟨-, hfound⟩ | ⟨hrepeat, -⟩
    · exact hfound
    · exact absurd hnodup hrepeat

/-! ### Waypoints do not come back -/

/-- The URI has no part in where a reference leads. -/
theorem follow?_of_uri (uri₂ : String)
    (h : s.follow? uri target rest = some (uri', next, tokens')) :
    ∃ uri₂', s.follow? uri₂ target rest = some (uri₂', next, tokens') := by
  cases rest with
  | nil => exact ⟨uri', h⟩
  | cons token rest =>
      obtain ⟨there, hshortcut, heq⟩ := Option.map_eq_some_iff.1 h
      obtain ⟨rfl, hpair⟩ := Prod.mk.inj heq
      refine ⟨uri₂, ?_⟩
      rw [follow?, hshortcut, Option.map_some, hpair]

/-- The trail is decided by where it begins, under whatever URI it is followed. -/
theorem Arrives.trail_unique {trail' : List Waypoint} {found' : String} {x' : Json}
    (h : s.Arrives uri v tokens trail found x) (h' : s.Arrives uri' v tokens trail' found' x') :
    trail' = trail := by
  induction h generalizing uri' trail' found' x' with
  | here hadvance hend =>
      cases h' with
      | here => rfl
      | onward hadvance' href' =>
          obtain ⟨rfl, -⟩ := Prod.mk.inj (Option.some.inj (hadvance.symm.trans hadvance'))
          rw [hend] at href'
          cases href'
  | onward hadvance href hfollow _ ih =>
      cases h' with
      | here hadvance' hend' =>
          obtain ⟨rfl, -⟩ := Prod.mk.inj (Option.some.inj (hadvance.symm.trans hadvance'))
          rw [href] at hend'
          cases hend'
      | onward hadvance' href' hfollow' harrives' =>
          obtain ⟨rfl, rfl⟩ := Prod.mk.inj (Option.some.inj (hadvance.symm.trans hadvance'))
          obtain rfl := Option.some.inj (href.symm.trans href')
          obtain ⟨_, hsame⟩ := follow?_of_uri uri' hfollow
          obtain ⟨-, hpair⟩ := Prod.mk.inj (Option.some.inj (hsame.symm.trans hfollow'))
          obtain ⟨rfl, rfl⟩ := Prod.mk.inj hpair
          rw [ih harrives']

/-- What comes behind a waypoint is the trail from where its reference leads. -/
theorem Arrives.behind {front back : List Waypoint} {stop : Waypoint}
    (h : s.Arrives uri v tokens (front ++ stop :: back) found x) :
    ∃ u uri' v' tokens', s.follow? u stop.target stop.rest = some (uri', v', tokens')
      ∧ s.Arrives uri' v' tokens' back found x := by
  induction front generalizing uri v tokens with
  | nil =>
      cases h with
      | onward _ _ hfollow harrives => exact ⟨_, _, _, _, hfollow, harrives⟩
  | cons first front ih =>
      cases h with
      | onward _ _ _ harrives => exact ih harrives

/-- A trail that ends never comes to a waypoint twice, since it would go round for ever. -/
theorem Arrives.nodup (h : s.Arrives uri v tokens trail found x) : trail.Nodup := by
  induction h with
  | here => exact List.nodup_nil
  | @onward _ _ _ _ rest target _ _ _ trail _ _ _ _ hfollow harrives ih =>
      refine List.nodup_cons.2 ⟨fun hmem => ?_, ih⟩
      obtain ⟨front, back, hsplit⟩ := List.append_of_mem hmem
      rw [hsplit] at harrives
      obtain ⟨u, uri', v', tokens', hfollow', hback⟩ := harrives.behind
      obtain ⟨_, hsame⟩ := follow?_of_uri u hfollow
      obtain ⟨-, hpair⟩ := Prod.mk.inj (Option.some.inj (hsame.symm.trans hfollow'))
      obtain ⟨rfl, rfl⟩ := Prod.mk.inj hpair
      have hlength := congrArg List.length (hback.trail_unique harrives)
      rw [List.length_append, List.length_cons] at hlength
      omega

/-- So a reference stands twice on a trail only with different rests of the way. -/
theorem Arrives.repeats_iff (h : s.Arrives uri v tokens trail found x) :
    ¬(trail.map Waypoint.target).Nodup
      ↔ ∃ a ∈ trail, ∃ b ∈ trail, a.target = b.target ∧ a.rest ≠ b.rest := by
  rw [List.nodup_map_iff_inj_on h.nodup]
  constructor
  · intro hnot
    by_contra hnone
    refine hnot fun a ha b hb htarget => ?_
    rw [Waypoint.ext_iff]
    refine ⟨htarget, ?_⟩
    by_contra hrest
    exact hnone ⟨a, ha, b, hb, htarget, hrest⟩
  · intro hrepeat hinjective
    obtain ⟨a, ha, b, hb, htarget, hrest⟩ := hrepeat
    exact hrest (congrArg Waypoint.rest (hinjective a ha b hb htarget))

/-! ### From where a schema is found -/

/-- A trail changes its URI to what it finds in the end, if at all, at a place that is the entrance
of that URI. -/
theorem Arrives.from_found (h : s.Arrives uri v tokens trail found x) : found = uri
    ∨ ∃ v' tokens' trail', s.entrance? found = some (v', tokens')
      ∧ s.Arrives found v' tokens' trail' found x ∧ trail' <:+ trail := by
  induction h with
  | here => exact .inl rfl
  | @onward _ _ _ _ rest target uri' v' tokens' trail found _ _ _ hfollow harrives ih =>
      rcases ih with rfl | ⟨v'', tokens'', trail'', hentrance, hback, hsuffix⟩
      · cases rest with
        | nil =>
            obtain ⟨next, hentrance, heq⟩ := Option.map_eq_some_iff.1 hfollow
            obtain ⟨rfl, rfl⟩ := Prod.mk.inj heq
            exact .inr ⟨v', tokens', trail, hentrance, harrives, List.suffix_cons _ _⟩
        | cons token rest =>
            obtain ⟨next, -, heq⟩ := Option.map_eq_some_iff.1 hfollow
            exact .inl (Prod.mk.inj heq).1.symm
      · exact .inr ⟨v'', tokens'', trail'', hentrance, hback, hsuffix.trans (List.suffix_cons _ _)⟩

theorem Leads.from_found (h : s.Leads uri trail found x) :
    ∃ trail', s.Leads found trail' found x ∧ trail' <:+ trail := by
  obtain ⟨v, tokens, hentrance, harrives⟩ := h
  rcases harrives.from_found with rfl | ⟨v', tokens', trail', hentrance', harrives', hsuffix⟩
  · exact ⟨trail, ⟨v, tokens, hentrance, harrives⟩, List.suffix_refl _⟩
  · exact ⟨trail', ⟨v', tokens', hentrance', harrives'⟩, hsuffix⟩

theorem resolution_found (h : s.resolution uri = .found found x) :
    s.resolution found = .found found x := by
  obtain ⟨trail, hleads, hnodup⟩ := resolution_eq_found_iff.1 h
  obtain ⟨trail', hleads', hsuffix⟩ := hleads.from_found
  refine resolution_eq_found_iff.2 ⟨trail', hleads', ?_⟩
  exact List.Nodup.sublist (hsuffix.sublist.map Waypoint.target) hnodup

/-- Where a document as a whole is found under its URI, no reference was followed: one would have
led back to the document, and from there on again. -/
theorem Leads.trail_eq_nil (h : s.Leads found trail found x)
    (hentrance : s.entrance? found = some (v, [])) : trail = [] := by
  obtain ⟨v', tokens, hsame, harrives⟩ := h
  obtain ⟨rfl, rfl⟩ := Prod.mk.inj (Option.some.inj (hentrance.symm.trans hsame))
  cases harrives with
  | here => rfl
  | @onward _ _ _ _ _ target uri' v' tokens' trail' _ _ hadvance href hfollow harrives' =>
      exfalso
      obtain ⟨rfl, rfl⟩ := Prod.mk.inj (Option.some.inj hadvance)
      obtain ⟨next, htarget, heq⟩ := Option.map_eq_some_iff.1 hfollow
      obtain ⟨rfl, rfl⟩ := Prod.mk.inj heq
      have hleads : s.Leads target trail' found x := ⟨v', tokens', htarget, harrives'⟩
      obtain ⟨trail'', ⟨v'', tokens'', hback, harrives''⟩, hsuffix⟩ := hleads.from_found
      obtain ⟨rfl, rfl⟩ := Prod.mk.inj (Option.some.inj (hentrance.symm.trans hback))
      have hlength := congrArg List.length
        (harrives''.trail_unique (.onward hadvance href hfollow harrives'))
      have hle := hsuffix.length_le
      rw [List.length_cons] at hlength
      omega

end Store

end HyperSchema
