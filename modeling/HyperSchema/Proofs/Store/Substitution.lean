import HyperSchema.Proofs.Pointer.Tokens
import HyperSchema.Proofs.Store.Growth
import HyperSchema.Proofs.Store.Trail

/-!
# References in the middle of a way

A reference in the middle of a way can be replaced by its target: going on from the place of the
reference is going on from the target. Where references lead does not depend on what was followed
before, so it is enough to compare the values the two ways come to.

The target of a reference on the way is taken as a plain pointer into its document, while the way
from the target itself follows the references it meets, and reads positions of arrays more freely.
Replacing is right when the target's own way is direct: it meets no reference before its end, and
both readings of its tokens are the same.
-/

namespace HyperSchema

namespace Store

/-- Following every reference, under whatever URI, ends at a schema. -/
def Reaches (s : Store) (v : Json) (tokens : List String) (x : Json) : Prop :=
  ∃ uri trail found, s.Arrives uri v tokens trail found x

/-- Nothing is stored under a URI with a fragment. -/
def Plain (s : Store) : Prop := ∀ uri : String, '#' ∈ uri.toList → s.find? uri = none

/-- A way down, from reference to reference where it meets them, to a value. -/
inductive Descends (s : Store) : Json → List String → Json → Prop where
  | here {v tokens w} : advance? v tokens = some (w, []) → Descends s v tokens w
  | through {v tokens w token rest target next x} : advance? v tokens = some (w, token :: rest) →
      w.reference? = some target → s.shortcut? target = some next →
      Descends s next (token :: rest) x → Descends s v tokens x

/-- A way that meets no reference before its end, with tokens that mean the same to a pointer. -/
def Direct : Json → List String → Prop
  | _, [] => True
  | v, token :: rest => v.reference? = none ∧ Pointer.step? v token = step? v token
      ∧ ∀ next, step? v token = some next → Direct next rest

variable {s : Store} {v v' w x next document : Json} {uri uri' target found : String}
  {tokens tokens' rest way : List String} {trail : List Waypoint}

/-! ### Ways -/

theorem advance?_of_reference? (href : v.reference? = some target) (tokens : List String) :
    advance? v tokens = some (v, tokens) := by
  cases tokens with
  | nil => rfl
  | cons token rest => rw [advance?, href]

theorem advance?_append (h : advance? v tokens = some (w, rest)) (way : List String) :
    advance? v (tokens ++ way) = advance? w (rest ++ way) := by
  induction tokens generalizing v with
  | nil =>
      obtain ⟨rfl, rfl⟩ := Prod.mk.inj (Option.some.inj h)
      rfl
  | cons token tokens ih =>
      cases href : v.reference? with
      | some target =>
          rw [advance?_of_reference? href] at h
          obtain ⟨rfl, rfl⟩ := Prod.mk.inj (Option.some.inj h)
          rfl
      | none =>
          rw [advance?, href] at h
          obtain ⟨next, hnext, hrest⟩ := Option.bind_eq_some_iff.1 h
          rw [List.cons_append, advance?, href, ← ih hrest]
          dsimp only
          rw [hnext, Option.bind_some]

theorem Direct.advance?_append (h : Direct v tokens) (way : List String) :
    advance? v (tokens ++ way)
      = (Pointer.walk? v tokens).bind (fun next => advance? next way) := by
  induction tokens generalizing v with
  | nil => rfl
  | cons token tokens ih =>
      obtain ⟨hplain, hstep, hnext⟩ := h
      rw [List.cons_append, advance?, hplain, Pointer.walk?, hstep]
      dsimp only
      cases hv : step? v token with
      | none => rfl
      | some next => exact ih (hnext next hv)

/-! ### What is reached -/

theorem Arrives.under (h : s.Arrives uri v tokens trail found x) (uri' : String) :
    ∃ found', s.Arrives uri' v tokens trail found' x := by
  induction h generalizing uri' with
  | here hadvance hend => exact ⟨uri', .here hadvance hend⟩
  | onward hadvance href hfollow _ ih =>
      obtain ⟨uri'', hsame⟩ := follow?_of_uri uri' hfollow
      obtain ⟨found', harrives⟩ := ih uri''
      exact ⟨found', .onward hadvance href hsame harrives⟩

/-- Only where a way comes to counts. -/
theorem Arrives.of_advance?_eq (h : s.Arrives uri v tokens trail found x)
    (heq : advance? v' tokens' = advance? v tokens) :
    s.Arrives uri v' tokens' trail found x := by
  cases h with
  | here hadvance hend => exact .here (heq.trans hadvance) hend
  | onward hadvance href hfollow harrives =>
      exact .onward (heq.trans hadvance) href hfollow harrives

theorem reaches_congr (heq : advance? v tokens = advance? v' tokens') :
    s.Reaches v tokens x ↔ s.Reaches v' tokens' x :=
  ⟨fun ⟨_, _, _, h⟩ => ⟨_, _, _, h.of_advance?_eq heq.symm⟩,
    fun ⟨_, _, _, h⟩ => ⟨_, _, _, h.of_advance?_eq heq⟩⟩

theorem not_reaches_of_advance?_eq_none (h : advance? v tokens = none) :
    ¬s.Reaches v tokens x := by
  intro hreaches
  obtain ⟨uri, trail, found, harrives⟩ := hreaches
  cases harrives with
  | here hadvance => rw [h] at hadvance; cases hadvance
  | onward hadvance => rw [h] at hadvance; cases hadvance

/-- On the way a reference can be replaced by what it stands for. -/
theorem reaches_iff_of_reference? (href : v.reference? = some target) (hway : way ≠ []) :
    s.Reaches v way x ↔ ∃ next, s.shortcut? target = some next ∧ s.Reaches next way x := by
  obtain ⟨token, rest, rfl⟩ := List.exists_cons_of_ne_nil hway
  have hhere := advance?_of_reference? href (token :: rest)
  constructor
  · intro h
    obtain ⟨uri, trail, found, harrives⟩ := h
    cases harrives with
    | here hadvance hend =>
        obtain ⟨rfl, -⟩ := Prod.mk.inj (Option.some.inj (hhere.symm.trans hadvance))
        rw [href] at hend
        cases hend
    | onward hadvance href' hfollow harrives =>
        obtain ⟨rfl, rfl⟩ := Prod.mk.inj (Option.some.inj (hhere.symm.trans hadvance))
        obtain rfl := Option.some.inj (href.symm.trans href')
        obtain ⟨next, hshortcut, heq⟩ := Option.map_eq_some_iff.1 hfollow
        obtain ⟨rfl, hpair⟩ := Prod.mk.inj heq
        obtain ⟨rfl, rfl⟩ := Prod.mk.inj hpair
        exact ⟨next, hshortcut, _, _, _, harrives⟩
  · intro h
    obtain ⟨next, hshortcut, uri, trail, found, harrives⟩ := h
    refine ⟨uri, _, found, .onward hhere href ?_ harrives⟩
    rw [follow?, hshortcut, Option.map_some]

theorem Descends.reaches_append_iff (h : s.Descends v tokens w) (way : List String) :
    s.Reaches v (tokens ++ way) x ↔ s.Reaches w way x := by
  induction h with
  | here hadvance =>
      apply reaches_congr
      rw [advance?_append hadvance, List.nil_append]
  | @through v tokens w token rest target next _ hadvance href hshortcut _ ih =>
      have hcons : token :: rest ++ way ≠ [] := by simp
      rw [reaches_congr (advance?_append hadvance way), reaches_iff_of_reference? href hcons]
      constructor
      · intro h
        obtain ⟨next', hnext', hreaches⟩ := h
        obtain rfl := Option.some.inj (hshortcut.symm.trans hnext')
        exact ih.1 hreaches
      · exact fun hreaches => ⟨next, hshortcut, ih.2 hreaches⟩

/-! ### Looking up -/

/-- A lookup that does not go in circles answers the schema that is reached. -/
theorem lookup?_eq_some_iff (hok : ∀ e, s.lookup? uri ≠ .error e) :
    s.lookup? uri = .ok (some x) ↔ ∃ v tokens,
      s.entrance? (SchemaUri.normalize uri) = some (v, tokens) ∧ s.Reaches v tokens x := by
  constructor
  · intro h
    rw [lookup?] at h
    split at h
    · next found value hfound =>
      obtain rfl := Option.some.inj (Except.ok.inj h)
      obtain ⟨trail, ⟨v, tokens, hentrance, harrives⟩, -⟩ := resolution_eq_found_iff.1 hfound
      exact ⟨v, tokens, hentrance, _, _, _, harrives⟩
    · cases h
    · cases h
  · intro h
    obtain ⟨v, tokens, hentrance, u, trail, found, harrives⟩ := h
    obtain ⟨found', hunder⟩ := harrives.under (SchemaUri.normalize uri)
    have hleads : s.Leads (SchemaUri.normalize uri) trail found' x := ⟨v, tokens, hentrance, hunder⟩
    rcases hleads.resolution_cases with ⟨-, hfound⟩ | ⟨-, chain, hcircle⟩
    · rw [lookup?, hfound]
    · refine absurd ?_ (hok ⟨chain⟩)
      rw [lookup?, hcircle]

theorem lookup?_congr (hok : ∀ e, s.lookup? uri ≠ .error e) (hok' : ∀ e, s.lookup? uri' ≠ .error e)
    (h : ∀ x, s.lookup? uri = .ok (some x) ↔ s.lookup? uri' = .ok (some x)) :
    s.lookup? uri = s.lookup? uri' := by
  cases hleft : s.lookup? uri with
  | error e => exact absurd hleft (hok e)
  | ok left =>
      cases hright : s.lookup? uri' with
      | error e => exact absurd hright (hok' e)
      | ok right =>
          congr 1
          apply Option.ext
          intro x
          have hx := h x
          rwa [hleft, hright, Except.ok.injEq, Except.ok.injEq] at hx

/-! ### Stores without fragments -/

theorem plain_empty : Plain empty := fun _ _ => rfl

theorem Plain.add (h : s.Plain) (huri : '#' ∉ (SchemaUri.normalize uri).toList)
    (hnamed : (document.scan (SchemaUri.normalize uri)).named = []) :
    (s.add uri document).Plain := by
  intro u hhash
  rw [Store.add, hnamed, List.foldl_nil, (sameDocuments_noteTargets _ _).find?, find?_put]
  split
  · next heq =>
    rw [heq] at hhash
    exact absurd hhash huri
  · exact h u hhash

namespace Plain

variable (h : s.Plain)

include h

theorem entrance?_child (uri : String) (way : List String) :
    s.entrance? (SchemaUri.child uri way) = (s.find? (SchemaUri.base uri)).map
      (fun document => (document, Pointer.tokens (SchemaUri.split uri).2 ++ way)) := by
  rw [entrance?_of_find?_eq_none (h _ (SchemaUri.hash_mem_child uri way)), SchemaUri.base,
    SchemaUri.tokens_split_child, SchemaUri.split_child]

theorem shortcut?_eq (target : String) :
    s.shortcut? target = (s.find? (SchemaUri.base target)).bind
      (fun document => Pointer.get? document (SchemaUri.split target).2) := by
  by_cases hhash : '#' ∈ target.toList
  · exact shortcut?_of_find?_eq_none (h target hhash)
  · have hsplit : SchemaUri.split target = (target, "") := by
      rw [SchemaUri.split, Text.cutFirst?_eq_none_iff.2 hhash]
    rw [SchemaUri.base_of_no_hash hhash, shortcut?, hsplit]
    cases hfind : s.find? target with
    | some v => rfl
    | none =>
        dsimp only
        rw [hfind]

/-- What a lookup further down answers. -/
theorem lookup?_child_iff {way' : List String}
    (hcanonical : SchemaUri.normalize (SchemaUri.child uri way) = SchemaUri.child uri way')
    (hok : ∀ e, s.lookup? (SchemaUri.child uri way) ≠ .error e) :
    s.lookup? (SchemaUri.child uri way) = .ok (some x)
      ↔ ∃ document, s.find? (SchemaUri.base uri) = some document
        ∧ s.Reaches document (Pointer.tokens (SchemaUri.split uri).2 ++ way') x := by
  rw [lookup?_eq_some_iff hok, hcanonical, h.entrance?_child]
  constructor
  · intro hstart
    obtain ⟨v, tokens, hentrance, hreaches⟩ := hstart
    obtain ⟨document, hdocument, heq⟩ := Option.map_eq_some_iff.1 hentrance
    obtain ⟨rfl, rfl⟩ := Prod.mk.inj heq
    exact ⟨document, hdocument, hreaches⟩
  · intro hstart
    obtain ⟨document, hdocument, hreaches⟩ := hstart
    exact ⟨document, _, by rw [hdocument, Option.map_some], hreaches⟩

end Plain

/-- A reference in the middle of a way can be replaced by its target, if the way of the target
itself is direct. -/
theorem lookup?_child_of_reference? (hplain : s.Plain)
    (hdocument : s.find? (SchemaUri.base uri) = some document)
    (hnode : s.Descends document (Pointer.tokens (SchemaUri.split uri).2) w)
    (href : w.reference? = some target)
    (hdirect : ∀ d, s.find? (SchemaUri.base target) = some d →
      Direct d (Pointer.tokens (SchemaUri.split target).2))
    (hway : way ≠ []) (hok : ∀ e, s.lookup? (SchemaUri.child uri way) ≠ .error e)
    (hok' : ∀ e, s.lookup? (SchemaUri.child target way) ≠ .error e) :
    s.lookup? (SchemaUri.child uri way) = s.lookup? (SchemaUri.child target way) := by
  obtain ⟨way', hway', hcanonical⟩ := SchemaUri.exists_normalize_child hway
  refine lookup?_congr hok hok' fun x => ?_
  have hhere : s.lookup? (SchemaUri.child uri way) = .ok (some x)
      ↔ ∃ next, s.shortcut? target = some next ∧ s.Reaches next way' x := by
    rw [hplain.lookup?_child_iff (hcanonical uri) hok, ← reaches_iff_of_reference? href hway',
      ← hnode.reaches_append_iff]
    simp [hdocument]
  rw [hhere, hplain.lookup?_child_iff (hcanonical target) hok', hplain.shortcut?_eq]
  -- both begin in the document of the target, or there is none
  cases hfind : s.find? (SchemaUri.base target) with
  | none => simp
  | some d =>
      have hadvance := (hdirect d hfind).advance?_append way'
      rw [Option.bind_some, Pointer.get?]
      cases hwalk : Pointer.walk? d (Pointer.tokens (SchemaUri.split target).2) with
      | none =>
          rw [hwalk, Option.bind_none] at hadvance
          have hnot : ¬s.Reaches d (Pointer.tokens (SchemaUri.split target).2 ++ way') x :=
            not_reaches_of_advance?_eq_none hadvance
          simp [hnot]
      | some next =>
          rw [hwalk, Option.bind_some] at hadvance
          have hsame : s.Reaches d (Pointer.tokens (SchemaUri.split target).2 ++ way') x
              ↔ s.Reaches next way' x := reaches_congr hadvance
          simp [hsame]

def linked : Store :=
  empty.add "b" (.object
    [("p", .object [("$ref", .string "#/x")]), ("x", .object [("q", .bool true)])])

theorem lookup?_child_of_reference?_linked :
    linked.Plain
      ∧ linked.lookup? (SchemaUri.child "b#/p" ["q"])
        = linked.lookup? (SchemaUri.child "b#/x" ["q"])
      ∧ linked.lookup? (SchemaUri.child "b#/x" ["q"]) = .ok (some (.bool true)) := by
  have hplain : linked.Plain := Plain.add plain_empty (by decide +kernel) rfl
  have hleft : linked.lookup? (SchemaUri.child "b#/p" ["q"]) = .ok (some (.bool true)) := rfl
  have hright : linked.lookup? (SchemaUri.child "b#/x" ["q"]) = .ok (some (.bool true)) := rfl
  refine ⟨hplain, lookup?_child_of_reference? hplain rfl (.here rfl) rfl ?_ (by simp) ?_ ?_, hright⟩
  · intro d hd
    obtain rfl := Option.some.inj (hd.symm.trans rfl)
    exact ⟨rfl, rfl, fun next hnext => trivial⟩
  · intro e he
    rw [hleft] at he
    cases he
  · intro e he
    rw [hright] at he
    cases he

/-- A document with a reference on a way whose target lies behind another reference. -/
def detour : Store :=
  empty.add "b" (.object
    [("p", .object [("$ref", .string "#/x/y")]), ("x", .object [("$ref", .string "#/d")]),
      ("d", .object [("y", .object [("q", .bool true)])])])

/-- Behind the reference nothing is found, from its target there is. -/
theorem detour_differs :
    detour.Plain
      ∧ (∃ document w, detour.find? (SchemaUri.base "b#/p") = some document
        ∧ detour.Descends document (Pointer.tokens (SchemaUri.split "b#/p").2) w
        ∧ w.reference? = some "b#/x/y")
      ∧ detour.lookup? (SchemaUri.child "b#/p" ["q"]) = .ok none
      ∧ detour.lookup? (SchemaUri.child "b#/x/y" ["q"]) = .ok (some (.bool true)) := by
  exact ⟨Plain.add plain_empty (by decide +kernel) rfl, ⟨_, _, rfl, .here rfl, rfl⟩, rfl, rfl⟩

end Store

end HyperSchema
