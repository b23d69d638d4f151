import HyperSchema.Proofs.Pointer.Tokens
import HyperSchema.Proofs.Store.Growth
import HyperSchema.Proofs.Store.Ids
import HyperSchema.Proofs.Store.Rewriting
import HyperSchema.Proofs.Store.Trail

/-!
# Local references

A reference that is only a fragment means a place in its own document. It is resolved against the
innermost id around it, and leads back into the document if this id is the URI under which the
document is stored, or differs from it in the fragment only.

A document is stored under the URI it was added with. An id of its root that lies beneath this URI
is taken as the scope of the references in the document. Yet nothing is stored under that id, unlike
under the ids further down.
-/

namespace HyperSchema

open Json (Step)

namespace Text

variable {cs : List Char}

def stem (cs : List Char) : List Char := (before? ['#'] cs).getD cs

theorem stem_concat (cs : List Char) : stem (cs ++ ['#']) = cs := by
  rw [stem, before?_eq_some_iff.2 rfl, Option.getD_some]

theorem stem_of_getLast? (h : cs.getLast? ≠ some '#') : stem cs = cs := by
  rw [stem]
  cases hfront : before? ['#'] cs with
  | none => rfl
  | some front =>
      rw [before?_eq_some_iff] at hfront
      rw [hfront, List.getLast?_concat] at h
      exact absurd rfl h

theorem stem_subset (cs : List Char) : stem cs ⊆ cs := by
  rw [stem]
  cases hfront : before? ['#'] cs with
  | none => exact List.Subset.refl _
  | some front =>
      rw [before?_eq_some_iff] at hfront
      rw [hfront]
      exact List.subset_append_left _ _

/-- The end of a text decides. -/
theorem stem_append (front : List Char) (hcs : cs ≠ []) :
    stem (front ++ cs) = front ++ stem cs := by
  by_cases hend : cs.getLast? = some '#'
  · obtain ⟨back, rfl⟩ := List.getLast?_eq_some_iff.1 hend
    rw [← List.append_assoc, stem_concat, stem_concat]
  · rw [stem_of_getLast? hend, stem_of_getLast?]
    rwa [List.getLast?_append_of_ne_nil _ hcs]

end Text

namespace SchemaUri

variable {uri p : String}

theorem toList_fragment (uri p : String) :
    (uri ++ ("#" ++ p)).toList = uri.toList ++ '#' :: p.toList := by
  rw [String.toList_append, String.toList_append]
  rfl

theorem append_fragment_ne (huri : '#' ∉ uri.toList) : uri ++ ("#" ++ p) ≠ uri := by
  intro heq
  refine huri (heq ▸ ?_)
  rw [toList_fragment]
  exact List.mem_append_right _ List.mem_cons_self

theorem split_fragment (huri : '#' ∉ uri.toList) : split (uri ++ ("#" ++ p)) = (uri, p) := by
  rw [split, toList_fragment, Text.cutFirst?_append huri]
  dsimp only
  rw [String.ofList_toList, String.ofList_toList]

theorem toList_normalize (uri : String) : (normalize uri).toList = Text.stem uri.toList := by
  rw [normalize, Text.stem]
  cases Text.before? ['#'] uri.toList with
  | none => rfl
  | some front => exact String.toList_ofList

theorem normalize_empty_fragment (uri : String) : normalize (uri ++ ("#" ++ "")) = uri := by
  apply String.toList_injective
  rw [toList_normalize, toList_fragment]
  exact Text.stem_concat uri.toList

theorem normalize_fragment (uri : String) (hp : p ≠ "") :
    normalize (uri ++ ("#" ++ p)) = uri ++ ("#" ++ String.ofList (Text.stem p.toList)) := by
  have hchars : p.toList ≠ [] := fun hnil => hp (String.toList_injective hnil)
  apply String.toList_injective
  rw [toList_normalize, toList_fragment, toList_fragment, String.toList_ofList, List.append_cons,
    Text.stem_append _ hchars, ← List.append_cons]

theorem normalize_fragment_self (uri : String) (hp : p ≠ "") (hend : p.toList.getLast? ≠ some '#') :
    normalize (uri ++ ("#" ++ p)) = uri ++ ("#" ++ p) := by
  rw [normalize_fragment uri hp, Text.stem_of_getLast? hend, String.ofList_toList]

theorem resolve_fragment (scope p : String) :
    resolve scope ("#" ++ p) = normalize (base scope ++ ("#" ++ p)) := by
  have hchars : ("#" ++ p).toList = '#' :: p.toList := by
    rw [String.toList_append]
    rfl
  rw [resolve, hchars]
  rfl

end SchemaUri

def Pointer.isPadded (token : String) : Bool :=
  match token.toList with
  | '0' :: _ :: _ => true
  | _ => false

namespace Scan

variable {v v' w : Json} {token p : String} {tokens : List String}

/-- What becomes of a part of a document when it is stored: data stays as it is, and everything else
is scanned. -/
def Image (v v' : Json) : Prop := v' = v ∨ ∃ root scope, v' = (value root scope v).value

theorem Image.reference?_eq_none (h : Image v v') (hv : v.reference? = none) :
    v'.reference? = none := by
  rcases h with rfl | ⟨root, scope, rfl⟩
  · exact hv
  · rw [reference?_value, hv, Option.map_none]

/-- A step that a token names leads from image to image, unless it leads to a text. -/
theorem Image.step? (h : Image v v') (hstep : Pointer.step? v token = some w)
    (hw : ∀ s, w ≠ .string s) : ∃ w', Pointer.step? v' token = some w' ∧ Image w w' := by
  rcases h with rfl | ⟨root, scope, rfl⟩
  · exact ⟨w, hstep, .inl rfl⟩
  · cases v with
    | object ms =>
        rw [Pointer.step?] at hstep
        rw [value_object, Pointer.step?, Table.get?_map, hstep, Option.map_some]
        refine ⟨_, rfl, ?_⟩
        rw [rewritten, target?_of_ne_string hw]
        dsimp only
        split
        · exact .inl rfl
        · exact .inr ⟨false, _, rfl⟩
    | array items =>
        obtain ⟨i, hindex, hi⟩ := Option.bind_eq_some_iff.1 hstep
        refine ⟨_, ?_, .inr ⟨false, scope, rfl⟩⟩
        rw [value_array, Pointer.step?, List.length_map, hindex, Option.bind_some,
          List.getElem?_map, hi, Option.map_some]
    | _ => cases hstep

end Scan

namespace Store

variable {v v' w document : Json} {uri p token target : String} {tokens : List String}
  {place : List Step} {members : Table Json}

/-- The store and a pointer read a position as the same number, except that a needless zero in
front of it is refused by the pointer alone. -/
theorem pointer_step?_array (items : List Json) (token : String) :
    Pointer.step? (.array items) token
      = if Pointer.isPadded token = true then none else step? (.array items) token := by
  rw [Pointer.step?, step?, Pointer.index?, Pointer.isPadded]
  split
  · next hdash =>
    -- a dash stands for the position behind the last item, and is no count
    rw [hdash, Option.bind_some, List.getElem?_eq_none (Nat.le_refl _)]
    rfl
  · next hzero =>
    rw [hzero]
    rfl
  · next hother =>
    split
    · next c rest hzero => exact absurd hzero (hother c rest)
    · rfl

theorem step?_of_pointer_step? (h : Pointer.step? v token = some w) : step? v token = some w := by
  cases v with
  | array items =>
      rw [pointer_step?_array] at h
      exact (Option.ite_none_left_eq_some.1 h).2
  | _ => exact h

/-- No reference is met on a way down, nor at its end. -/
def Clear : Json → List String → Prop
  | v, [] => v.reference? = none
  | v, token :: rest =>
    v.reference? = none ∧ ∀ next, Pointer.step? v token = some next → Clear next rest

theorem Clear.reference?_eq_none (h : Clear v tokens) : v.reference? = none := by
  cases tokens with
  | nil => exact h
  | cons => exact h.1

/-- A clear way to an object leads to its image in the stored document, for a pointer and for the
store. -/
theorem exists_image_advance? (hclear : Clear v tokens)
    (hwalk : Pointer.walk? v tokens = some (.object members)) (himage : Scan.Image v v') :
    ∃ node, Pointer.walk? v' tokens = some node ∧ advance? v' tokens = some (node, [])
      ∧ node.reference? = none ∧ Scan.Image (.object members) node := by
  induction tokens generalizing v v' with
  | nil =>
      obtain rfl := Option.some.inj hwalk
      exact ⟨v', rfl, rfl, himage.reference?_eq_none hclear.reference?_eq_none, himage⟩
  | cons token tokens ih =>
      obtain ⟨w, hstep, hrest⟩ := Option.bind_eq_some_iff.1 hwalk
      have hw : ∀ s, w ≠ .string s := by
        rintro s rfl
        cases tokens with
        | nil => cases hrest
        | cons => cases hrest
      obtain ⟨w', hstep', himage'⟩ := himage.step? hstep hw
      obtain ⟨node, hnode, hadvance, hend⟩ := ih (hclear.2 w hstep) hrest himage'
      refine ⟨node, ?_, ?_, hend⟩
      · rw [Pointer.walk?, hstep', Option.bind_some, hnode]
      · rw [advance?, himage.reference?_eq_none hclear.reference?_eq_none]
        dsimp only
        rw [step?_of_pointer_step? hstep', Option.bind_some, hadvance]

theorem exists_advance?_image (hclear : Clear v tokens)
    (hwalk : Pointer.walk? v tokens = some (.object members)) (himage : Scan.Image v v') :
    ∃ node, Pointer.walk? v' tokens = some node ∧ advance? v' tokens = some (node, [])
      ∧ node.reference? = none := by
  obtain ⟨node, hnode, hadvance, hend, -⟩ := exists_image_advance? hclear hwalk himage
  exact ⟨node, hnode, hadvance, hend⟩

theorem resolution_self {s : Store} (hstored : s.find? uri = some v) (hv : v.reference? = none) :
    s.resolution uri = .found uri v := by
  rw [resolution, entrance?, hstored]
  dsimp only
  rw [walk_here rfl hv]
  rfl

/-- A document is entered by a fragment when nothing has the URI with the fragment for its own. -/
theorem entrance?_fragment {s : Store} (huri : '#' ∉ uri.toList)
    (hstored : s.find? uri = some document) (hnone : s.find? (uri ++ ("#" ++ p)) = none) :
    s.entrance? (uri ++ ("#" ++ p)) = some (document, Pointer.tokens p) := by
  rw [entrance?_of_find?_eq_none hnone, SchemaUri.base, SchemaUri.split_fragment huri, hstored,
    Option.map_some]

/-- What is entered on a clear way is found at its end, and recorded nowhere. -/
theorem resolve?_of_entrance? {s : Store} (hcanonical : SchemaUri.normalize target = target)
    (hentrance : s.entrance? target = some (v, tokens))
    (hadvance : advance? v tokens = some (w, [])) (hend : w.reference? = none) :
    s.resolve? target = (.ok (some ⟨target, w⟩), s) := by
  have hfound : s.resolution target = .found target w := by
    rw [resolution, hentrance]
    dsimp only
    rw [walk_here hadvance hend]
    rfl
  rw [resolve?, hcanonical, hfound]

theorem add_normalize (s : Store) (document : Json) (h : '#' ∉ (SchemaUri.normalize uri).toList) :
    s.add (SchemaUri.normalize uri) document = s.add uri document := by
  rw [add, SchemaUri.normalize_of_no_hash h, add]

theorem find?_add_of_no_hash (s : Store) (document : Json) (huri : '#' ∉ uri.toList) :
    (s.add uri document).find? uri = some (document.scan uri).value := by
  have hstored := find?_add_self s uri document
  rwa [SchemaUri.normalize_of_no_hash huri] at hstored

section

variable (huri : '#' ∉ uri.toList)
  (hids : ∀ named, Table.get? (document.scan uri).named (uri ++ ("#" ++ p)) = some named →
    Pointer.get? (document.scan uri).value p = some named)
  (hnode : Pointer.get? (document.scan uri).value p = some v)
  (hadvance : advance? (document.scan uri).value (Pointer.tokens p) = some (v, []))

include huri hids hnode hadvance

/-- A place in the only document of a store is entered through the document, or by an id that is
the same as its URI. -/
theorem exists_entrance?_place :
    ∃ w tokens, (empty.add uri document).entrance? (uri ++ ("#" ++ p)) = some (w, tokens)
      ∧ advance? w tokens = some (v, []) := by
  have hfind := find?_add empty uri document (uri ++ ("#" ++ p))
  rw [SchemaUri.normalize_of_no_hash huri, if_neg (SchemaUri.append_fragment_ne huri)] at hfind
  cases hnamed : Table.get? (document.scan uri).named (uri ++ ("#" ++ p)) with
  | none =>
      rw [hnamed] at hfind
      exact ⟨_, _, entrance?_fragment huri (find?_add_of_no_hash empty document huri) hfind,
        hadvance⟩
  | some named =>
      rw [hnamed] at hfind
      obtain rfl := Option.some.inj (hnode.symm.trans (hids named hnamed))
      refine ⟨v, [], ?_, rfl⟩
      rw [entrance?, hfind]
      rfl

/-- What stands at a place is found under the URI of the document with the place as its fragment. -/
theorem resolve?_place (hend : p.toList.getLast? ≠ some '#') (hv : v.reference? = none) :
    (empty.add uri document).resolve? (SchemaUri.normalize (uri ++ ("#" ++ p)))
      = (.ok (some ⟨SchemaUri.normalize (uri ++ ("#" ++ p)), v⟩), empty.add uri document) := by
  by_cases hp : p = ""
  · subst hp
    rw [SchemaUri.normalize_empty_fragment]
    refine resolve?_of_entrance? (SchemaUri.normalize_of_no_hash huri) ?_ hadvance hv
    rw [entrance?, find?_add_of_no_hash empty document huri]
    rfl
  · have hcanonical := SchemaUri.normalize_fragment_self uri hp hend
    obtain ⟨w, tokens, hentrance, hadvance⟩ := exists_entrance?_place huri hids hnode hadvance
    rw [hcanonical]
    exact resolve?_of_entrance? hcanonical hentrance hadvance hv

end

/-- A local reference leads to its place in the stored document, where the document is stored under
the URI that the reference is resolved against. -/
theorem resolve?_of_local_reference (hplain : Scan.Plain place)
    (hat : document.at? place = some w) (href : w.reference? = some ("#" ++ p))
    (hobject : Pointer.get? document p = some (.object members))
    (hclear : Clear document (Pointer.tokens p))
    (hscope : SchemaUri.base (Scan.scopeAt (SchemaUri.normalize uri) document place)
      = SchemaUri.normalize uri)
    (hend : p.toList.getLast? ≠ some '#')
    (hids : ∀ named, Table.get? (document.scan (SchemaUri.normalize uri)).named
        (SchemaUri.normalize uri ++ ("#" ++ p)) = some named →
      Pointer.get? (document.scan (SchemaUri.normalize uri)).value p = some named) :
    ∃ stored w' target node,
      (empty.add uri document).find? (SchemaUri.normalize uri) = some stored
        ∧ stored.at? place = some w' ∧ w'.reference? = some target
        ∧ Pointer.get? stored p = some node
        ∧ (empty.add uri document).resolve? target
          = (.ok (some ⟨target, node⟩), empty.add uri document)
        ∧ SchemaUri.base target ∉ (empty.add uri document).missing := by
  have huri : '#' ∉ (SchemaUri.normalize uri).toList := hscope ▸ SchemaUri.hash_not_mem_base _
  obtain ⟨w', hat', href'⟩ :=
    Scan.exists_reference?_at? true (SchemaUri.normalize uri) hplain hat href
  rw [SchemaUri.resolve_fragment, hscope] at href'
  obtain ⟨node, hnode, hadvance, hnone⟩ :=
    exists_advance?_image hclear hobject (.inr ⟨true, SchemaUri.normalize uri, rfl⟩)
  have hstored := find?_add_self empty uri document
  refine ⟨_, w', _, node, hstored, hat', href', hnode, ?_, ?_⟩
  · rw [← add_normalize empty document huri]
    exact resolve?_place huri hids hnode hadvance hend hnone
  · rw [SchemaUri.base_normalize, SchemaUri.base, SchemaUri.split_fragment huri, mem_missing_iff,
      contains, hstored]
    intro hmissing
    cases hmissing.2

def definition : Table Json := [("type", .string "string")]

def identifying (id target : String) : Table Json :=
  [("id", .string id), ("definitions", .object [("s", .object definition)]),
    ("not", .object [("$ref", .string target)])]

def identified (id : String) : Json := .object (identifying id "#/definitions/s")

theorem clear_identified (id : String) :
    Clear (identified id) (Pointer.tokens "/definitions/s") := by
  rw [show Pointer.tokens "/definitions/s" = ["definitions", "s"] by decide +kernel]
  refine ⟨rfl, fun definitions hdefinitions => ?_⟩
  obtain rfl := Option.some.inj hdefinitions
  refine ⟨rfl, fun s hs => ?_⟩
  obtain rfl := Option.some.inj hs
  rfl

theorem scan_identified {id own t : String}
    (hown : Scan.ownId? uri (identifying id "#/definitions/s") = some own)
    (htarget : SchemaUri.resolve own "#/definitions/s" = t) :
    (identified id).scan uri = ⟨.object (identifying id t), [t], []⟩ := by
  have hnone : ∀ members : Table Json, Table.get? members "id" = none →
      Scan.ownId? own members = none := by
    intro members hnone
    rw [Scan.ownId?, hnone]
    rfl
  rw [identifying, definition] at hown
  simp [identified, identifying, definition, Json.scan, Scan.value, Scan.members, Scan.scopeOf,
    Scan.naming, Scan.target?, Scan.isData, hown, hnone, Table.get?, Json.asString?, htarget]

theorem get?_identified (id : String) :
    Pointer.get? (identified id) "/definitions/s" = some (.object definition) := by
  rw [Pointer.get?, show Pointer.tokens "/definitions/s" = ["definitions", "s"] by decide +kernel]
  rfl

theorem resolve?_of_local_reference_identified :
    Scan.Plain [.member "not"]
      ∧ (identified "#top").at? [.member "not"]
        = some (.object [("$ref", .string "#/definitions/s")])
      ∧ Clear (identified "#top") (Pointer.tokens "/definitions/s")
      ∧ ∃ stored w' target node,
        (empty.add "a" (identified "#top")).find? (SchemaUri.normalize "a") = some stored
          ∧ stored.at? [.member "not"] = some w' ∧ w'.reference? = some target
          ∧ Pointer.get? stored "/definitions/s" = some node
          ∧ (empty.add "a" (identified "#top")).resolve? target
            = (.ok (some ⟨target, node⟩), empty.add "a" (identified "#top"))
          ∧ SchemaUri.base target ∉ (empty.add "a" (identified "#top")).missing := by
  have hplain : Scan.Plain [.member "not"] := by
    intro key hkey
    obtain rfl := Step.member.inj (List.mem_singleton.1 hkey)
    rfl
  have hown : Scan.ownId? "a" (identifying "#top" "#/definitions/s") = some "a#top" := by
    decide +kernel
  have hscan := scan_identified hown (t := "a#/definitions/s") (by decide +kernel)
  have href : (Json.object [("$ref", .string "#/definitions/s")]).reference?
      = some ("#" ++ "/definitions/s") := by decide +kernel
  have hclear := clear_identified "#top"
  refine ⟨hplain, rfl, hclear, resolve?_of_local_reference (p := "/definitions/s") hplain rfl href
    (get?_identified "#top") hclear (by decide +kernel) (by decide +kernel) ?_⟩
  rw [show SchemaUri.normalize "a" = "a" by decide +kernel, hscan]
  intro named hnamed
  cases hnamed

/-- A document that is stored under a directory, while its id names a file in it. -/
def misplaced : Store := empty.add "http://x/dir/" (identified "http://x/dir/a")

/-- The id is the scope of the references in the document, though nothing is stored under it. -/
theorem misplaced_loses_definition :
    (identified "http://x/dir/a").ids = ["http://x/dir/a"]
      ∧ (identified "http://x/dir/a").at? [.member "not"]
        = some (.object [("$ref", .string "#/definitions/s")])
      ∧ Pointer.get? (identified "http://x/dir/a") "/definitions/s" = some (.object definition)
      ∧ Clear (identified "http://x/dir/a") (Pointer.tokens "/definitions/s")
      ∧ (∃ stored, misplaced.find? "http://x/dir/" = some stored ∧ stored.at? [.member "not"]
        = some (.object [("$ref", .string "http://x/dir/a#/definitions/s")]))
      ∧ (misplaced.resolve? "http://x/dir/a#/definitions/s").1 = .ok none
      ∧ misplaced.missing = ["http://x/dir/a"] := by
  have hown : Scan.ownId? "http://x/dir/" (identifying "http://x/dir/a" "#/definitions/s")
      = some "http://x/dir/a" := by decide +kernel
  have hscan := scan_identified hown (t := "http://x/dir/a#/definitions/s") (by decide +kernel)
  have hnormalize : SchemaUri.normalize "http://x/dir/" = "http://x/dir/" := by decide +kernel
  refine ⟨by decide +kernel, rfl, get?_identified _, clear_identified _, ?_⟩
  rw [misplaced, add, hnormalize, hscan]
  refine ⟨⟨_, rfl, rfl⟩, ?_, by decide +kernel⟩
  rw [resolve?, show SchemaUri.normalize "http://x/dir/a#/definitions/s"
    = "http://x/dir/a#/definitions/s" by decide +kernel, resolution,
    entrance?_of_find?_eq_none (by decide +kernel),
    show SchemaUri.base "http://x/dir/a#/definitions/s" = "http://x/dir/a" by decide +kernel]
  rfl

end Store

end HyperSchema
