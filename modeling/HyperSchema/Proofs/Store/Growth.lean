import HyperSchema.Proofs.Store.Documents
import HyperSchema.Proofs.Store.Termination

/-!
# Stores that grow

A store keeps what is in it when nothing that was found is replaced, and nothing new stands between
a URI and the document it leads into. A store grows by documents whose URIs have no fragment. Where
a URI leads stays the same then, once it has been found to lead somewhere or in circles. That its
document is absent stays the same as long as the document does not come. Only where nothing was
found in a document can something be found later, since a reference on the way may have had no
document.
-/

namespace HyperSchema

/-- What a larger store can no longer change about where a URI leads. -/
def Resolution.Stable (s : Store) : Resolution → Prop
  | .found _ _ => True
  | .circular _ => True
  | .documentAbsent base => s.find? base = none
  | .nodeAbsent => False

namespace Store

variable {s s' : Store} {uri target : String} {v : Json} {tokens : List String}

theorem entrance?_of_find?_eq_none (h : s.find? uri = none) :
    s.entrance? uri = (s.find? (SchemaUri.base uri)).map
      (fun document => (document, Pointer.tokens (SchemaUri.split uri).2)) := by
  rw [entrance?, h]
  rfl

theorem shortcut?_of_find?_eq_none (h : s.find? target = none) :
    s.shortcut? target = (s.find? (SchemaUri.base target)).bind
      (fun document => Pointer.get? document (SchemaUri.split target).2) := by
  rw [shortcut?, h]
  rfl

/-! ### What is there is kept -/

/-- What was found is found, and nothing has come between a URI and the document it leads into. -/
structure Keeps (s s' : Store) : Prop where
  find : ∀ {uri v}, s.find? uri = some v → s'.find? uri = some v
  apart : ∀ {uri v}, s.find? uri = none → s.find? (SchemaUri.base uri) = some v →
    s'.find? uri = none

namespace Keeps

theorem entrance? (h : Keeps s s') (hentrance : s.entrance? uri = some (v, tokens)) :
    s'.entrance? uri = some (v, tokens) := by
  cases hfind : s.find? uri with
  | some w =>
      rw [Store.entrance?, hfind] at hentrance
      rwa [Store.entrance?, h.find hfind]
  | none =>
      rw [entrance?_of_find?_eq_none hfind] at hentrance
      obtain ⟨document, hdocument, heq⟩ := Option.map_eq_some_iff.1 hentrance
      rw [entrance?_of_find?_eq_none (h.apart hfind hdocument), h.find hdocument,
        Option.map_some, heq]

theorem shortcut? (h : Keeps s s') (hshortcut : s.shortcut? target = some v) :
    s'.shortcut? target = some v := by
  cases hfind : s.find? target with
  | some w =>
      rw [Store.shortcut?, hfind] at hshortcut
      rwa [Store.shortcut?, h.find hfind]
  | none =>
      rw [shortcut?_of_find?_eq_none hfind] at hshortcut
      obtain ⟨document, hdocument, heq⟩ := Option.bind_eq_some_iff.1 hshortcut
      rw [shortcut?_of_find?_eq_none (h.apart hfind hdocument), h.find hdocument,
        Option.bind_some, heq]

theorem follow? {rest : List String} {there : String × Json × List String} (h : Keeps s s')
    (hfollow : s.follow? uri target rest = some there) :
    s'.follow? uri target rest = some there := by
  cases rest with
  | nil =>
      obtain ⟨next, hentrance, heq⟩ := Option.map_eq_some_iff.1 hfollow
      rw [Store.follow?, h.entrance? hentrance, Option.map_some, heq]
  | cons token rest =>
      obtain ⟨next, hshortcut, heq⟩ := Option.map_eq_some_iff.1 hfollow
      rw [Store.follow?, h.shortcut? hshortcut, Option.map_some, heq]

end Keeps

/-! ### Stores of documents -/

/-- A store with more documents, all under URIs without a fragment. -/
structure Grows (s s' : Store) : Prop where
  find : ∀ {uri v}, s.find? uri = some v → s'.find? uri = some v
  plain : ∀ {uri}, '#' ∈ uri.toList → s'.find? uri = none
  references : s.references.length ≤ s'.references.length

namespace Grows

theorem keeps (h : Grows s s') : Keeps s s' where
  find := h.find
  apart := fun {uri v} hnone hbase => by
    by_cases hhash : '#' ∈ uri.toList
    · exact h.plain hhash
    · rw [SchemaUri.base_of_no_hash hhash, hnone] at hbase
      cases hbase

/-- Without its document, a URI leads into none. -/
theorem entrance?_eq_none (h : Grows s s') (hnone : s'.find? (SchemaUri.base uri) = none) :
    s'.entrance? uri = none := by
  have hfind : s'.find? uri = none := by
    by_cases hhash : '#' ∈ uri.toList
    · exact h.plain hhash
    · rwa [SchemaUri.base_of_no_hash hhash] at hnone
  rw [entrance?_of_find?_eq_none hfind, hnone, Option.map_none]

/-- Where a reference led nowhere for good, it still leads nowhere. -/
theorem follow?_eq_none {rest : List String} (h : Grows s s')
    (hstable : (astray target rest).Stable s') : s'.follow? uri target rest = none := by
  cases rest with
  | nil => rw [follow?, h.entrance?_eq_none hstable, Option.map_none]
  | cons token rest => exact hstable.elim

theorem walk {bound bound' : Nat} {visited : List String} {outcome : Resolution} (h : Grows s s')
    (hbound : bound ≤ bound') (hwalk : s.walk bound uri v tokens visited = some outcome)
    (hstable : outcome.Stable s') : s'.walk bound' uri v tokens visited = some outcome := by
  induction bound generalizing bound' uri v tokens visited with
  | zero => cases hwalk
  | succ bound ih =>
      obtain ⟨bound', rfl⟩ : ∃ n, bound' = n + 1 := ⟨bound' - 1, by omega⟩
      obtain ⟨next, hstrides, houtcome⟩ := exists_strides_of_walk hwalk
      cases hstrides with
      | lost =>
          obtain rfl := Option.some.inj houtcome
          exact hstable.elim
      | here hadvance hend =>
          obtain rfl := Option.some.inj houtcome
          exact walk_here hadvance hend
      | again hadvance href hmet =>
          obtain rfl := Option.some.inj houtcome
          exact walk_again hadvance href hmet
      | nowhere hadvance href hfresh =>
          obtain rfl := Option.some.inj houtcome
          exact walk_astray hadvance href bound' hfresh (h.follow?_eq_none hstable)
      | onward hadvance href hfresh hfollow =>
          rw [walk_onward hadvance href hfresh (h.keeps.follow? hfollow)]
          exact ih (Nat.le_of_succ_le_succ hbound) houtcome.symm

end Grows

/-- Where a URI leads does not change when a store grows, if it is stable. -/
theorem resolution_eq_of_grows (h : Grows s s') (hstable : (s.resolution uri).Stable s') :
    s'.resolution uri = s.resolution uri := by
  rw [resolution] at hstable
  rw [resolution, resolution]
  cases hentrance : s.entrance? uri with
  | none =>
      rw [hentrance] at hstable
      rw [h.entrance?_eq_none hstable]
  | some start =>
      obtain ⟨v, tokens⟩ := start
      rw [hentrance] at hstable
      rw [h.keeps.entrance? hentrance]
      dsimp only at hstable ⊢
      cases hwalk : s.walk (s.references.length + 2) uri v tokens [] with
      | none =>
          rw [hwalk] at hstable
          exact hstable.elim
      | some outcome =>
          rw [hwalk] at hstable
          rw [h.walk (Nat.add_le_add_right h.references 2) hwalk hstable]

/-- Whether a URI leads to a schema or in circles. -/
def Settled (s : Store) (uri : String) : Prop :=
  (∃ target v, s.resolution (SchemaUri.normalize uri) = .found target v)
    ∨ ∃ chain, s.resolution (SchemaUri.normalize uri) = .circular chain

/-- What leads somewhere begins at an entry of its own or in a document. -/
theorem contains_of_settled (h : s.Settled uri) :
    s.contains (SchemaUri.normalize uri) = true ∨ s.contains (SchemaUri.base uri) = true := by
  rw [contains, contains, Option.isSome_iff_ne_none, Option.isSome_iff_ne_none, ← not_and_or]
  rintro ⟨hfind, hbase⟩
  have hentrance : s.entrance? (SchemaUri.normalize uri) = none := by
    rw [entrance?_of_find?_eq_none hfind, SchemaUri.base_normalize, hbase, Option.map_none]
  rw [Settled, resolution, hentrance] at h
  rcases h with ⟨target, v, hfound⟩ | ⟨chain, hcircle⟩
  · cases hfound
  · cases hcircle

theorem resolution_eq_of_settled (h : Grows s s') (hsettled : s.Settled uri) :
    s'.resolution (SchemaUri.normalize uri) = s.resolution (SchemaUri.normalize uri) := by
  apply resolution_eq_of_grows h
  rcases hsettled with ⟨target, v, hfound⟩ | ⟨chain, hcircle⟩
  · rw [hfound]
    exact trivial
  · rw [hcircle]
    exact trivial

theorem Settled.grows (h : Grows s s') (hsettled : s.Settled uri) : s'.Settled uri := by
  rwa [Settled, resolution_eq_of_settled h hsettled]

theorem not_settled_of_documentAbsent {base : String}
    (h : s.resolution (SchemaUri.normalize uri) = .documentAbsent base) : ¬s.Settled uri := by
  simp [Settled, h]

theorem not_settled_of_nodeAbsent
    (h : s.resolution (SchemaUri.normalize uri) = .nodeAbsent) : ¬s.Settled uri := by
  simp [Settled, h]

instance (s : Store) (uri : String) : Decidable (s.Settled uri) :=
  match h : s.resolution (SchemaUri.normalize uri) with
  | .found target v => .isTrue (.inl ⟨target, v, h⟩)
  | .circular chain => .isTrue (.inr ⟨chain, h⟩)
  | .documentAbsent _ => .isFalse (not_settled_of_documentAbsent h)
  | .nodeAbsent => .isFalse (not_settled_of_nodeAbsent h)

theorem SameDocuments.resolution (h : SameDocuments s s') (uri : String) :
    s'.resolution uri = s.resolution uri :=
  resolution_congr h.find? uri

theorem SameDocuments.settled_iff (h : SameDocuments s s') : s'.Settled uri ↔ s.Settled uri := by
  rw [Settled, Settled, h.resolution]

end Store

end HyperSchema
