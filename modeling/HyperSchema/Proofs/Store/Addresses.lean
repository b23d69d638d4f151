import HyperSchema.Proofs.Schema.Segments
import HyperSchema.Proofs.Store.Additions
import HyperSchema.Proofs.Store.Local
import HyperSchema.Proofs.Store.Substitution

/-!
# Addresses of subschemas

The URI of a subschema is that of its schema with the way down as the end of the fragment. A lookup
takes it apart at the first hash sign and goes the whole way down from the document in front of it.
So it comes to the subschema where the way that the fragment of the schema names leads to the
schema, which it does unless the schema is stored under its URI. An id like `#name` names no way at
all.
-/

namespace HyperSchema

namespace SchemaUri

variable {uri : String} {way : List String}

theorem base_below (uri : String) (way : List String) : base (below uri way) = base uri := by
  cases way with
  | nil => rfl
  | cons segment rest => rw [below, base, split_child]

theorem normalize_below (hway : way ≠ []) (hend : (Pointer.join way).toList.getLast? ≠ some '#') :
    normalize (below uri way) = below uri way := by
  obtain ⟨segment, rest, rfl⟩ := List.exists_cons_of_ne_nil hway
  refine normalize_of_not_concat fun front hfront => hend ?_
  have hjoin : Pointer.joinChars (segment :: rest) ≠ [] := List.cons_ne_nil _ _
  rw [below, toList_child] at hfront
  rw [Pointer.join, String.toList_ofList, ← List.getLast?_append_of_ne_nil _ hjoin, hfront,
    List.getLast?_concat]

end SchemaUri

namespace Store

variable {s : Store} {v w x document part : Json} {uri found : String}
  {tokens rest way : List String} {trail : List Waypoint}

/-! ### Longer ways -/

theorem eq_nil_of_advance? (h : advance? v tokens = some (w, rest)) (hw : w.reference? = none) :
    rest = [] := by
  induction tokens generalizing v with
  | nil => exact (Prod.mk.inj (Option.some.inj h)).2.symm
  | cons token tokens ih =>
      cases href : v.reference? with
      | some target =>
          rw [advance?_of_reference? href] at h
          obtain ⟨rfl, -⟩ := Prod.mk.inj (Option.some.inj h)
          rw [href] at hw
          cases hw
      | none =>
          rw [advance?, href] at h
          obtain ⟨next, -, hrest⟩ := Option.bind_eq_some_iff.1 h
          exact ih hrest

theorem Clear.advance?_eq (h : Clear v way) (hwalk : Pointer.walk? v way = some part) :
    advance? v way = some (part, []) ∧ part.reference? = none := by
  induction way generalizing v with
  | nil =>
      obtain rfl := Option.some.inj hwalk
      exact ⟨rfl, h⟩
  | cons token way ih =>
      obtain ⟨next, hstep, hwalk⟩ := Option.bind_eq_some_iff.1 hwalk
      obtain ⟨hadvance, hpart⟩ := ih (h.2 next hstep) hwalk
      refine ⟨?_, hpart⟩
      rw [advance?, h.reference?_eq_none]
      dsimp only
      rw [step?_of_pointer_step? hstep, Option.bind_some, hadvance]

/-- A waypoint on a longer way. -/
def Waypoint.onto (way : List String) (stop : Waypoint) : Waypoint :=
  ⟨stop.target, stop.rest ++ way⟩

/-- Where references are followed on the way only, the way can be gone on from its end. -/
theorem Arrives.onto (h : s.Arrives uri v tokens trail found x)
    (hway : ∀ stop ∈ trail, stop.rest ≠ []) (hadvance : advance? x way = some (part, []))
    (hpart : part.reference? = none) (uri' : String) :
    s.Arrives uri' v (tokens ++ way) (trail.map (Waypoint.onto way)) uri' part := by
  induction h with
  | @here _ v tokens _ _ hx hend =>
      obtain rfl := eq_nil_of_advance? hx hend
      have hthere : Store.advance? v (tokens ++ way) = some (part, []) := by
        rw [advance?_append hx, List.nil_append, hadvance]
      exact .here hthere hpart
  | @onward _ _ _ w rest target _ next _ _ _ _ hw href hfollow _ ih =>
      rw [List.forall_mem_cons] at hway
      obtain ⟨token, rest, rfl⟩ := List.exists_cons_of_ne_nil hway.1
      obtain ⟨there, hshortcut, heq⟩ := Option.map_eq_some_iff.1 hfollow
      obtain ⟨-, hpair⟩ := Prod.mk.inj heq
      obtain ⟨rfl, rfl⟩ := Prod.mk.inj hpair
      refine .onward ?_ href ?_ (ih hway.2 hadvance)
      · rw [advance?_append hw, advance?_of_reference? href]
      · rw [List.cons_append, follow?, hshortcut]
        rfl

/-! ### Where a document stands -/

/-- The way that the fragment of a URI names leads to a document, from the document of the URI and
with references on the way only. -/
def StandsAt (s : Store) (uri : String) (document : Json) : Prop :=
  ∃ whole trail, s.find? (SchemaUri.base uri) = some whole
    ∧ s.Arrives uri whole (Pointer.tokens (SchemaUri.split uri).2) trail uri document
    ∧ (trail.map Waypoint.target).Nodup ∧ ∀ stop ∈ trail, stop.rest ≠ []

/-- What is found under its own URI is found by references on the way only: one at the end of the
way would change the URI. -/
theorem Leads.rest_ne_nil (h : s.Leads found trail found x) : ∀ stop ∈ trail, stop.rest ≠ [] := by
  obtain ⟨v, tokens, hentrance, harrives⟩ := h
  intro stop hstop hrest
  obtain ⟨front, back, rfl⟩ := List.append_of_mem hstop
  obtain ⟨u, uri', v', tokens', hfollow, hbehind⟩ := harrives.behind
  rw [hrest] at hfollow
  obtain ⟨next, hnext, heq⟩ := Option.map_eq_some_iff.1 hfollow
  obtain ⟨rfl, rfl⟩ := Prod.mk.inj heq
  have hleads : s.Leads stop.target back found x := ⟨v', tokens', hnext, hbehind⟩
  obtain ⟨trail', ⟨v'', tokens'', hback, harrives'⟩, hsuffix⟩ := hleads.from_found
  obtain ⟨rfl, rfl⟩ := Prod.mk.inj (Option.some.inj (hentrance.symm.trans hback))
  have hlength := congrArg List.length (harrives.trail_unique harrives')
  have hle := hsuffix.length_le
  rw [List.length_append, List.length_cons] at hlength
  omega

theorem standsAt_of_resolution (h : s.resolution uri = .found uri document)
    (hown : '#' ∈ uri.toList → s.find? uri = none) : s.StandsAt uri document := by
  obtain ⟨trail, hleads, hnodup⟩ := resolution_eq_found_iff.1 h
  have hway := hleads.rest_ne_nil
  obtain ⟨v, tokens, hentrance, harrives⟩ := hleads
  have hbase : s.find? (SchemaUri.base uri) = some v
      ∧ tokens = Pointer.tokens (SchemaUri.split uri).2 := by
    by_cases hhash : '#' ∈ uri.toList
    · rw [entrance?_of_find?_eq_none (hown hhash)] at hentrance
      obtain ⟨whole, hwhole, heq⟩ := Option.map_eq_some_iff.1 hentrance
      obtain ⟨rfl, rfl⟩ := Prod.mk.inj heq
      exact ⟨hwhole, rfl⟩
    · have hsplit : SchemaUri.split uri = (uri, "") := by
        rw [SchemaUri.split, Text.cutFirst?_eq_none_iff.2 hhash]
      rw [SchemaUri.base, hsplit]
      cases hfind : s.find? uri with
      | none =>
          rw [entrance?_of_find?_eq_none hfind, SchemaUri.base_of_no_hash hhash, hfind] at hentrance
          cases hentrance
      | some whole =>
          rw [entrance?, hfind] at hentrance
          obtain ⟨rfl, rfl⟩ := Prod.mk.inj (Option.some.inj hentrance)
          exact ⟨rfl, rfl⟩
  exact ⟨v, trail, hbase.1, hbase.2 ▸ harrives, hnodup, hway⟩

/-- A place in a document is found under its URI where the document stands under its own, if nothing
else is stored there and no reference is met on the way. -/
theorem StandsAt.resolution_below (h : s.StandsAt uri document) (hclear : Clear document way)
    (hwalk : Pointer.walk? document way = some part)
    (hown : ∀ stored, s.find? (SchemaUri.below uri way) = some stored → stored = part) :
    s.resolution (SchemaUri.below uri way) = .found (SchemaUri.below uri way) part := by
  obtain ⟨whole, trail, hwhole, harrives, hnodup, hway⟩ := h
  obtain ⟨hadvance, hpart⟩ := hclear.advance?_eq hwalk
  cases hfind : s.find? (SchemaUri.below uri way) with
  | some stored =>
      rw [hown stored hfind] at hfind
      exact resolution_self hfind hpart
  | none =>
      have hentrance := entrance?_of_find?_eq_none hfind
      rw [SchemaUri.base_below, SchemaUri.tokens_split_below, hwhole, Option.map_some] at hentrance
      refine resolution_eq_found_iff.2 ⟨trail.map (Waypoint.onto way),
        ⟨whole, _, hentrance, harrives.onto hway hadvance hpart _⟩, ?_⟩
      rwa [List.map_map]

/-- What it takes for the URI of a place further down in a document to lead there: the document
stands under its own URI, even where it is stored under that URI as well; no reference is met on the
way; the way does not end in a hash sign; and nothing else is stored under the URI of the place. -/
structure Addressable (s : Store) (uri : String) (document : Json) (way : List String)
    (part : Json) : Prop where
  stands : '#' ∈ uri.toList → s.contains uri = true → s.StandsAt uri document
  clear : Clear document way
  ending : (Pointer.join way).toList.getLast? ≠ some '#'
  own : ∀ stored, s.find? (SchemaUri.below uri way) = some stored → stored = part

theorem Addressable.lookup? (h : s.Addressable uri document way part) (hway : way ≠ [])
    (hfound : s.resolution uri = .found uri document)
    (hwalk : Pointer.walk? document way = some part) :
    s.lookup? (SchemaUri.below uri way) = .ok (some part) := by
  have hstands : s.StandsAt uri document := by
    by_cases hown : '#' ∈ uri.toList ∧ s.contains uri = true
    · exact h.stands hown.1 hown.2
    · refine standsAt_of_resolution hfound fun hhash => ?_
      have hfree : s.contains uri = false := by simpa [hhash] using hown
      exact contains_eq_false_iff.1 hfree
  rw [Store.lookup?, SchemaUri.normalize_below hway h.ending,
    hstands.resolution_below h.clear hwalk h.own]

/-! ### Parts of stored documents -/

/-- A value that stands somewhere in a stored document. -/
def HasPart (s : Store) (x : Json) : Prop :=
  ∃ uri v place, s.find? uri = some v ∧ Json.PartAt v "" x place

theorem hasPart_of_find? (h : s.find? uri = some v) : s.HasPart v := ⟨uri, v, "", h, .whole⟩

theorem HasPart.step? {token : String} (h : s.HasPart v) (hstep : step? v token = some w) :
    s.HasPart w := by
  obtain ⟨uri, document, place, hfind, hpart⟩ := h
  cases v with
  | object members => exact ⟨uri, document, _, hfind, hpart.member (Table.mem_of_get? hstep)⟩
  | array items =>
      obtain ⟨i, -, hi⟩ := Option.bind_eq_some_iff.1 hstep
      exact ⟨uri, document, _, hfind, hpart.item hi⟩
  | _ => cases hstep

theorem HasPart.advance? (h : s.HasPart v) (hadvance : advance? v tokens = some (w, rest)) :
    s.HasPart w := by
  induction tokens generalizing v with
  | nil => exact (Prod.mk.inj (Option.some.inj hadvance)).1 ▸ h
  | cons token tokens ih =>
      rw [Store.advance?] at hadvance
      split at hadvance
      · exact (Prod.mk.inj (Option.some.inj hadvance)).1 ▸ h
      · obtain ⟨next, hnext, hrest⟩ := Option.bind_eq_some_iff.1 hadvance
        exact ih (h.step? hnext) hrest

theorem HasPart.walk? (h : s.HasPart v) (hwalk : Pointer.walk? v tokens = some w) :
    s.HasPart w := by
  induction tokens generalizing v with
  | nil => exact Option.some.inj hwalk ▸ h
  | cons token tokens ih =>
      obtain ⟨next, hnext, hrest⟩ := Option.bind_eq_some_iff.1 hwalk
      exact ih (h.step? (step?_of_pointer_step? hnext)) hrest

theorem hasPart_of_entrance? (h : s.entrance? uri = some (v, tokens)) : s.HasPart v := by
  cases hfind : s.find? uri with
  | some w =>
      rw [entrance?, hfind] at h
      exact (Prod.mk.inj (Option.some.inj h)).1 ▸ hasPart_of_find? hfind
  | none =>
      rw [entrance?_of_find?_eq_none hfind] at h
      obtain ⟨w, hw, heq⟩ := Option.map_eq_some_iff.1 h
      exact (Prod.mk.inj heq).1 ▸ hasPart_of_find? hw

theorem hasPart_of_shortcut? (h : s.shortcut? uri = some v) : s.HasPart v := by
  cases hfind : s.find? uri with
  | some w =>
      rw [shortcut?, hfind] at h
      exact Option.some.inj h ▸ hasPart_of_find? hfind
  | none =>
      rw [shortcut?_of_find?_eq_none hfind] at h
      obtain ⟨w, hw, hv⟩ := Option.bind_eq_some_iff.1 h
      exact (hasPart_of_find? hw).walk? hv

theorem Arrives.hasPart (h : s.Arrives uri v tokens trail found x) (hv : s.HasPart v) :
    s.HasPart x := by
  induction h with
  | here hadvance => exact hv.advance? hadvance
  | @onward _ _ _ _ rest _ _ _ _ _ _ _ _ _ hfollow _ ih =>
      cases rest with
      | nil =>
          obtain ⟨⟨next, way⟩, hentrance, heq⟩ := Option.map_eq_some_iff.1 hfollow
          obtain ⟨-, hpair⟩ := Prod.mk.inj heq
          exact ih ((Prod.mk.inj hpair).1 ▸ hasPart_of_entrance? hentrance)
      | cons token rest =>
          obtain ⟨next, hshortcut, heq⟩ := Option.map_eq_some_iff.1 hfollow
          obtain ⟨-, hpair⟩ := Prod.mk.inj heq
          exact ih ((Prod.mk.inj hpair).1 ▸ hasPart_of_shortcut? hshortcut)

theorem hasPart_of_resolution (h : s.resolution uri = .found found x) : s.HasPart x := by
  obtain ⟨trail, ⟨v, tokens, hentrance, harrives⟩, -⟩ := resolution_eq_found_iff.1 h
  exact harrives.hasPart (hasPart_of_entrance? hentrance)

end Store

end HyperSchema
