import HyperSchema.Proofs.Pointer.Resolution
import HyperSchema.Proofs.Store.Local
import HyperSchema.Proofs.Store.Unreferenced

/-!
# Fragments read as pointers

A document without references and ids can be read in two ways: with a pointer, and with the pointer
as the fragment of the URI under which the document is stored. Both take the same tokens, and at
each token they take the same step, for signs, dashes and numbers beyond any count as well. Only a
number with a needless zero in front divides them: the store reads it as the number, while for a
pointer it names nothing.
-/

namespace HyperSchema

namespace Pointer

variable {v w : Json} {token : String} {rest : List String}

/-- No number on the way has a needless zero and is the position of an item all the same. -/
def Unpadded (v : Json) (tokens : List String) : Prop :=
  ∀ front token back items i, tokens = front ++ token :: back →
    walk? v front = some (.array items) → isPadded token = true →
    Text.count? token.toList = some i → items.length ≤ i

theorem unpadded_of_forall_mem {tokens : List String}
    (h : ∀ token ∈ tokens, isPadded token = false) : Unpadded v tokens := by
  intro front token back items i htokens _ hpadded
  rw [h token (htokens ▸ List.mem_append_right front List.mem_cons_self)] at hpadded
  cases hpadded

theorem Unpadded.tail (h : Unpadded v (token :: rest)) (hstep : step? v token = some w) :
    Unpadded w rest := by
  intro front token' back items i hrest hwalk
  refine h (token :: front) token' back items i (by rw [hrest, List.cons_append]) ?_
  rw [walk?, hstep, Option.bind_some, hwalk]

end Pointer

namespace Store

open Pointer (Unpadded)

variable {s : Store} {v w document : Json} {uri target token f : String} {tokens rest : List String}

theorem step?_of_unpadded (h : Unpadded v (token :: rest)) :
    step? v token = Pointer.step? v token := by
  cases v with
  | array items =>
      rw [pointer_step?_array]
      split
      · next hpadded =>
        -- the number is there, but no item at it
        cases hcount : Text.count? token.toList with
        | none => rw [step?, hcount, Option.bind_none]
        | some i =>
            have hbehind : items.length ≤ i := h [] token rest items i rfl rfl hpadded hcount
            rw [step?, hcount, Option.bind_some, List.getElem?_eq_none hbehind]
      · rfl
  | _ => rfl

/-- The two ways down a document without references, one step after the other. -/
theorem advance?_of_unpadded (hrefs : v.references = []) (h : Unpadded v tokens) :
    advance? v tokens = (Pointer.walk? v tokens).map (fun w => (w, [])) := by
  induction tokens generalizing v with
  | nil => rfl
  | cons token rest ih =>
      rw [advance?, reference?_eq_none hrefs, Pointer.walk?]
      dsimp only
      have hsame := step?_of_unpadded h
      cases hstep : Pointer.step? v token with
      | none =>
          rw [hsame, hstep]
          rfl
      | some w =>
          rw [hstep] at hsame
          have hw : w.references = [] :=
            List.subset_nil.1 (hrefs ▸ references_subset_of_step? hsame)
          rw [hsame, Option.bind_some, Option.bind_some]
          exact ih hw (h.tail hstep)

/-- Where the store finds something, the pointer does so exactly if no number on the way is
padded. -/
theorem walk?_eq_some_iff_unpadded (hrefs : v.references = [])
    (hfound : advance? v tokens = some (w, [])) :
    Pointer.walk? v tokens = some w ↔ Unpadded v tokens := by
  constructor
  · rintro hwalk front token back items i rfl hfront hpadded -
    rw [Pointer.walk?_append, hfront, Option.bind_some, Pointer.walk?, pointer_step?_array,
      if_pos hpadded] at hwalk
    cases hwalk
  · intro h
    rw [advance?_of_unpadded hrefs h] at hfound
    obtain ⟨w', hwalk, heq⟩ := Option.map_eq_some_iff.1 hfound
    obtain rfl := (Prod.mk.inj heq).1
    exact hwalk

theorem lookup?_of_entrance? (hcanonical : SchemaUri.normalize uri = target)
    (hentrance : s.entrance? target = some (v, tokens)) (hrefs : v.references = [])
    (h : Unpadded v tokens) : s.lookup? uri = .ok (Pointer.walk? v tokens) := by
  have hadvance := advance?_of_unpadded hrefs h
  rw [lookup?, hcanonical, resolution, hentrance]
  dsimp only
  cases hwalk : Pointer.walk? v tokens with
  | none =>
      rw [hwalk] at hadvance
      rw [walk_lost hadvance]
      rfl
  | some w =>
      rw [hwalk] at hadvance
      have hw : w.references = [] :=
        List.subset_nil.1 (hrefs ▸ references_subset_of_advance? hadvance)
      rw [walk_here hadvance (reference?_eq_none hw)]
      rfl

/-- The fragment of a stored document finds what it finds as a pointer, unless it has a needless
zero in the position of an item, or something else is stored under the whole URI. -/
theorem lookup?_fragment (huri : '#' ∉ uri.toList) (hrefs : document.references = [])
    (hids : document.ids = []) (hend : f.toList.getLast? ≠ some '#')
    (hown : f ≠ "" → s.find? (uri ++ ("#" ++ f)) = none)
    (hunpadded : Unpadded document (Pointer.tokens f)) :
    (s.add uri document).lookup? (uri ++ ("#" ++ f)) = .ok (Pointer.get? document f) := by
  have hstored := find?_add_of_no_references s uri hrefs
  rw [SchemaUri.normalize_of_no_hash huri] at hstored
  by_cases hf : f = ""
  · subst hf
    have hentrance : (s.add uri document).entrance? uri = some (document, []) := by
      rw [entrance?, hstored]
    exact lookup?_of_entrance? (SchemaUri.normalize_empty_fragment uri) hentrance hrefs hunpadded
  · have hnone : (s.add uri document).find? (uri ++ ("#" ++ f)) = none := by
      rw [find?_add_of_no_ids s uri hids, SchemaUri.normalize_of_no_hash huri,
        if_neg (SchemaUri.append_fragment_ne huri), hown hf]
    exact lookup?_of_entrance? (SchemaUri.normalize_fragment_self uri hf hend)
      (entrance?_fragment huri hstored hnone) hrefs hunpadded

def letters : Json := .object [("a", .array [.string "x", .string "y"])]

theorem lookup?_fragment_letters :
    '#' ∉ "u".toList ∧ letters.references = [] ∧ letters.ids = []
      ∧ "/a/+1".toList.getLast? ≠ some '#'
      ∧ ("/a/+1" ≠ "" → empty.find? ("u" ++ ("#" ++ "/a/+1")) = none)
      ∧ Unpadded letters (Pointer.tokens "/a/+1")
      ∧ (empty.add "u" letters).lookup? ("u" ++ ("#" ++ "/a/+1"))
        = .ok (Pointer.get? letters "/a/+1") := by
  have huri : '#' ∉ "u".toList := by decide
  have hend : "/a/+1".toList.getLast? ≠ some '#' := by decide
  have hunpadded : Unpadded letters (Pointer.tokens "/a/+1") :=
    Pointer.unpadded_of_forall_mem (by decide +kernel)
  exact ⟨huri, rfl, rfl, hend, fun _ => rfl, hunpadded,
    lookup?_fragment huri rfl rfl hend (fun _ => rfl) hunpadded⟩

/-- The store reads the second item at a position that is none for a pointer. -/
theorem padded_position_found :
    '#' ∉ "u".toList ∧ letters.references = [] ∧ letters.ids = []
      ∧ "/a/01".toList.getLast? ≠ some '#'
      ∧ (empty.add "u" letters).lookup? ("u" ++ ("#" ++ "/a/01")) = .ok (some (.string "y"))
      ∧ Pointer.get? letters "/a/01" = none := by
  refine ⟨by decide, rfl, rfl, by decide, ?_, ?_⟩
  · rfl
  · rfl

end Store

end HyperSchema
