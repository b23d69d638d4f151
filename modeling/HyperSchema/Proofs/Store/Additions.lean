import HyperSchema.Proofs.Store.Growth
import HyperSchema.Proofs.Store.Trail

/-!
# Adding a new document

A document is stored under its URI, and the schemas in it that have an id of their own under their
ids. What resolved before resolves as before if all these names are new: neither an entry nor the
document of a name was there. An id may also be taken already, by an entry of the top layer, which
then stays.

An id that names a place in another document, or a document of a layer below, is accepted like any
other. The entry under this id hides what was found there.
-/

namespace HyperSchema

namespace Store

variable {s s' : Store} {v x document : Json} {uri uri' target found : String}
  {tokens tokens' rest : List String} {trail : List Waypoint}

/-! ### Trails are kept -/

namespace Keeps

variable (h : Keeps s s')

include h

theorem arrives (harrives : s.Arrives uri v tokens trail found x) :
    s'.Arrives uri v tokens trail found x := by
  induction harrives with
  | here hadvance hend => exact .here hadvance hend
  | onward hadvance href hfollow _ ih => exact .onward hadvance href (h.follow? hfollow) ih

theorem resolution_eq_found (hfound : s.resolution uri = .found found x) :
    s'.resolution uri = .found found x := by
  obtain ⟨trail, ⟨v, tokens, hentrance, harrives⟩, hnodup⟩ := resolution_eq_found_iff.1 hfound
  exact resolution_eq_found_iff.2
    ⟨trail, ⟨v, tokens, h.entrance? hentrance, h.arrives harrives⟩, hnodup⟩

end Keeps

/-! ### Names that are new -/

/-- Nothing is there under a name: neither an entry nor the document that it belongs to. -/
def Vacant (s : Store) (uri : String) : Prop :=
  s.contains uri = false ∧ s.contains (SchemaUri.base uri) = false

instance (s : Store) (uri : String) : Decidable (s.Vacant uri) :=
  inferInstanceAs (Decidable (_ ∧ _))

theorem contains_eq_false_iff : s.contains uri = false ↔ s.find? uri = none := by
  rw [contains, Option.isSome_eq_false_iff, Option.isNone_iff_eq_none]

theorem Vacant.find?_eq_none (h : s.Vacant uri) : s.find? uri = none :=
  contains_eq_false_iff.1 h.1

theorem Vacant.find?_base_eq_none (h : s.Vacant uri) : s.find? (SchemaUri.base uri) = none :=
  contains_eq_false_iff.1 h.2

/-- A document is new in a store if its URI is vacant, and the ids in it are vacant or taken by the
top layer itself. -/
structure New (s : Store) (uri : String) (document : Json) : Prop where
  vacant : s.Vacant (SchemaUri.normalize uri)
  ids : ∀ entry ∈ (document.scan (SchemaUri.normalize uri)).named,
    Table.has s.top.schemas entry.1 = true ∨ s.Vacant entry.1

/-- An entry under an id comes to a URI only where nothing was. -/
theorem New.get?_named (h : s.New uri document) {u : String}
    (hfresh : Table.get? s.top.schemas u = none) (hthere : ¬s.Vacant u) :
    Table.get? (document.scan (SchemaUri.normalize uri)).named u = none := by
  cases hget : Table.get? (document.scan (SchemaUri.normalize uri)).named u with
  | none => rfl
  | some v =>
      rcases h.ids (u, v) (Table.mem_of_get? hget) with htaken | hvacant
      · rw [Table.has, hfresh] at htaken
        cases htaken
      · exact absurd hvacant hthere

theorem New.keeps_add (h : s.New uri document) : Keeps s (s.add uri document) where
  find := fun {u v} hfind => by
    have hne : u ≠ SchemaUri.normalize uri := by
      intro heq
      rw [heq, h.vacant.find?_eq_none] at hfind
      cases hfind
    have hthere : ¬s.Vacant u := by
      intro hvacant
      rw [hvacant.find?_eq_none] at hfind
      cases hfind
    rw [find?_add, if_neg hne]
    cases htop : Table.get? s.top.schemas u with
    | some w => rwa [find?_eq, htop] at hfind
    | none =>
        rw [h.get?_named htop hthere, Option.none_or]
        rwa [find?_eq, htop] at hfind
  apart := fun {u v} hnone hbase => by
    have hne : u ≠ SchemaUri.normalize uri := by
      intro heq
      rw [heq, h.vacant.find?_base_eq_none] at hbase
      cases hbase
    have hthere : ¬s.Vacant u := by
      intro hvacant
      rw [hvacant.find?_base_eq_none] at hbase
      cases hbase
    rw [find?_eq, Option.or_eq_none_iff] at hnone
    rw [find?_add, if_neg hne, hnone.1, hnone.2, h.get?_named hnone.1 hthere]
    rfl

/-- Adding a new document leaves what resolved as it was. -/
theorem resolve?_add_of_new (h : s.New uri document) {u : String} {resolved : Resolved}
    (hresolve : (s.resolve? u).1 = .ok (some resolved)) :
    ((s.add uri document).resolve? u).1 = .ok (some resolved) := by
  cases hresolution : s.resolution (SchemaUri.normalize u) with
  | found found x =>
      rw [resolve?, hresolution] at hresolve
      rw [resolve?, h.keeps_add.resolution_eq_found hresolution]
      exact hresolve
  | documentAbsent base =>
      rw [resolve?, hresolution] at hresolve
      cases hresolve
  | nodeAbsent =>
      rw [resolve?, hresolution] at hresolve
      cases hresolve
  | circular chain =>
      rw [resolve?, hresolution] at hresolve
      cases hresolve

def overlaid : Store :=
  let lower := empty.add "b" (.object
    [("x", .object [("type", .string "string")]), ("y", .object [("$ref", .string "#/x")])])
  lower.layered.add "c" (.object [("id", .string "#c")])

def labelled : Json := .object [("p", .object [("id", .string "#part")])]

theorem resolve?_add_of_new_overlaid :
    overlaid.New "a" labelled
      ∧ (overlaid.resolve? "b#/y").1 = .ok (some ⟨"b#/x", .object [("type", .string "string")]⟩)
      ∧ ((overlaid.add "a" labelled).resolve? "b#/y").1
        = .ok (some ⟨"b#/x", .object [("type", .string "string")]⟩) := by
  have hnew : overlaid.New "a" labelled := by
    refine ⟨by decide +kernel, fun entry hentry => ?_⟩
    obtain rfl := List.mem_singleton.1 hentry
    exact .inr (by decide +kernel)
  have hresolve : (overlaid.resolve? "b#/y").1
      = .ok (some ⟨"b#/x", .object [("type", .string "string")]⟩) := rfl
  exact ⟨hnew, hresolve, resolve?_add_of_new hnew hresolve⟩

def intruding : Json :=
  .object [("p", .object [("id", .string "a/b#/x"), ("type", .string "number")])]

theorem scan_intruding :
    intruding.scan "a" = ⟨intruding, [],
      [("a/b#/x", .object [("id", .string "a/b#/x"), ("type", .string "number")])]⟩ := by
  have hown : Scan.ownId? "a" [("id", .string "a/b#/x"), ("type", .string "number")]
      = some "a/b#/x" := by decide +kernel
  have hroot : Scan.ownId? "a"
      [("p", .object [("id", .string "a/b#/x"), ("type", .string "number")])] = none := rfl
  simp [intruding, Json.scan, Scan.value, Scan.members, Scan.scopeOf, Scan.naming, Scan.target?,
    Scan.isData, hroot, hown]

def invaded : Store := empty.add "a/b" (.object [("x", .object [("type", .string "string")])])

/-- The URI of the new document is vacant, yet at a place of another document another schema is
found afterwards. -/
theorem intruding_hides :
    invaded.Vacant "a"
      ∧ (invaded.resolve? "a/b#/x").1
        = .ok (some ⟨"a/b#/x", .object [("type", .string "string")]⟩)
      ∧ ((invaded.add "a" intruding).resolve? "a/b#/x").1
        = .ok (some ⟨"a/b#/x",
          .object [("id", .string "a/b#/x"), ("type", .string "number")]⟩) := by
  refine ⟨by decide +kernel, rfl, ?_⟩
  have hnormalize : SchemaUri.normalize "a" = "a" := by decide +kernel
  rw [add, hnormalize, scan_intruding]
  rfl

end Store

end HyperSchema
