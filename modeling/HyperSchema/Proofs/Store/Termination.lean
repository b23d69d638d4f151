import HyperSchema.Proofs.Store.Trail
import Mathlib.Logic.Function.Iterate

/-!
# Lookups come to an end

A lookup goes from reference to reference. A stride takes it to the next reference on its way and on
to where that one leads, and nothing in a stride counts how many there have been. It comes to an end
all the same, in every store and from every URI: a reference that was met before ends it, each
stride meets another reference of the store, and there are only so many. Where it ends is the
answer, so the bound that the walk over the store is given changes nothing.

The references met are kept in order, each once. When references are reported to go in circles, the
last one is therefore the only one that is in the report twice.
-/

namespace HyperSchema

/-- The last reference has been met before, and it is the only one met twice. -/
def CircularReference.Closes (e : CircularReference) : Prop :=
  ∃ front last, e.chain = front ++ [last] ∧ last ∈ front ∧ front.Nodup

namespace Store

/-- Where a lookup of a canonical URI sets out. -/
def depart (s : Store) (uri : String) : Resolution ⊕ Standing :=
  match s.entrance? uri with
  | some (v, tokens) => .inr ⟨uri, v, tokens, []⟩
  | none => .inl (.documentAbsent (SchemaUri.base uri))

/-- One stride further; a lookup that has come to its end stays there. -/
def proceed (s : Store) : Resolution ⊕ Standing → Resolution ⊕ Standing :=
  Sum.elim .inl s.stride

/-- What a lookup answers for the end it came to, and the record it leaves. -/
def answer (s : Store) : Resolution → Except CircularReference (Option Resolved) × Store
  | .found uri value => (.ok (some ⟨uri, value⟩), s)
  | .documentAbsent base => (.ok none, s.recordMissing base)
  | .nodeAbsent => (.ok none, s)
  | .circular chain => (.error ⟨chain⟩, s)

variable {s : Store} {p q : Standing} {outcome outcome' : Resolution} {uri : String}

theorem resolve?_eq_answer (s : Store) (uri : String) :
    s.resolve? uri = s.answer (s.resolution (SchemaUri.normalize uri)) := by
  rw [resolve?]
  cases s.resolution (SchemaUri.normalize uri) <;> rfl

/-! ### Strides and the walk -/

theorem iterate_proceed_ended (s : Store) (n : Nat) (outcome : Resolution) :
    s.proceed^[n] (.inl outcome) = .inl outcome :=
  Function.iterate_fixed rfl n

theorem end_unique {start : Resolution ⊕ Standing} {m n : Nat}
    (h : s.proceed^[m] start = .inl outcome) (h' : s.proceed^[n] start = .inl outcome') :
    outcome' = outcome := by
  have hm := congrArg s.proceed^[n] h
  have hn := congrArg s.proceed^[m] h'
  rw [iterate_proceed_ended, ← Function.iterate_add_apply] at hm hn
  rw [Nat.add_comm, hm] at hn
  exact (Sum.inl.inj hn).symm

theorem walk_eq_some_iff {bound : Nat} :
    s.walk bound p.uri p.value p.tokens p.visited = some outcome
      ↔ s.proceed^[bound] (.inr p) = .inl outcome := by
  induction bound generalizing p with
  | zero => exact ⟨nofun, nofun⟩
  | succ bound ih =>
      rw [walk_succ, Function.iterate_succ_apply, proceed, Sum.elim_inr]
      cases s.stride p with
      | inl ended =>
          rw [← proceed, iterate_proceed_ended, Sum.elim_inl, Option.some.injEq, Sum.inl.injEq]
      | inr q =>
          rw [Sum.elim_inr]
          exact ih

/-- A lookup ends where the URI leads. Its strides are bounded by the references in the store. -/
theorem iterate_proceed_depart {n : Nat} (hn : s.references.length + 2 ≤ n) :
    s.proceed^[n] (s.depart uri) = .inl (s.resolution uri) := by
  cases hentrance : s.entrance? uri with
  | none =>
      rw [depart, resolution, hentrance]
      exact iterate_proceed_ended s n _
  | some start =>
      obtain ⟨v, tokens⟩ := start
      have hwalk := resolution_eq_of_entrance? hentrance
      have hend := (walk_eq_some_iff (p := ⟨uri, v, tokens, []⟩)).1 hwalk
      obtain ⟨more, rfl⟩ := Nat.exists_eq_add_of_le' hn
      rw [depart, hentrance, Function.iterate_add_apply, hend, iterate_proceed_ended]

/-! ### Only what is found matters -/

section

variable {s' : Store} (hfind : ∀ uri, s'.find? uri = s.find? uri)

include hfind

theorem entrance?_congr (uri : String) : s'.entrance? uri = s.entrance? uri := by
  rw [entrance?, entrance?, hfind]
  split
  · rfl
  · dsimp only
    rw [hfind]

theorem shortcut?_congr (target : String) : s'.shortcut? target = s.shortcut? target := by
  rw [shortcut?, shortcut?, hfind]
  split
  · rfl
  · dsimp only
    rw [hfind]

theorem follow?_congr (uri target : String) (rest : List String) :
    s'.follow? uri target rest = s.follow? uri target rest := by
  cases rest with
  | nil => rw [follow?, follow?, entrance?_congr hfind]
  | cons token rest => rw [follow?, follow?, shortcut?_congr hfind]

theorem stride_congr (p : Standing) : s'.stride p = s.stride p := by
  rw [stride, stride]
  simp only [follow?_congr hfind]

/-- Stores that find the same agree on where URIs lead, whatever else there is in their layers. -/
theorem resolution_congr (uri : String) : s'.resolution uri = s.resolution uri := by
  have hdepart : s'.depart uri = s.depart uri := by rw [depart, depart, entrance?_congr hfind]
  have hproceed : s'.proceed = s.proceed := by
    rw [proceed, proceed, funext (stride_congr hfind)]
  have hend : s'.proceed^[s'.references.length + 2] (s'.depart uri) = .inl (s'.resolution uri) :=
    iterate_proceed_depart (Nat.le_refl _)
  rw [hproceed, hdepart] at hend
  exact end_unique (iterate_proceed_depart (Nat.le_refl _)) hend

end

/-! ### What has been met -/

/-- No reference has been met twice, but for the last one of a circle. -/
def Distinct : Resolution ⊕ Standing → Prop
  | .inr p => p.visited.Nodup
  | .inl (.circular chain) => CircularReference.Closes ⟨chain⟩
  | .inl _ => True

theorem distinct_depart (s : Store) (uri : String) : Distinct (s.depart uri) := by
  rw [depart]
  cases s.entrance? uri with
  | none => exact trivial
  | some start => exact List.nodup_nil

theorem distinct_astray (target : String) (rest : List String) :
    Distinct (.inl (astray target rest)) := by
  cases rest <;> exact trivial

theorem distinct_stride (h : p.visited.Nodup) : Distinct (s.stride p) := by
  have hstrides := s.strides_stride p
  generalize s.stride p = next at hstrides ⊢
  cases hstrides with
  | lost => exact trivial
  | here => exact trivial
  | again _ _ hmet => exact ⟨p.visited, _, rfl, hmet, h⟩
  | nowhere => exact distinct_astray _ _
  | @onward _ _ target _ _ _ _ _ hfresh =>
      have hnodup : (p.visited ++ [target]).Nodup := List.concat_eq_append ▸ h.concat hfresh
      exact hnodup

theorem distinct_proceed {start : Resolution ⊕ Standing} (h : Distinct start) :
    Distinct (s.proceed start) := by
  cases start with
  | inl outcome => exact h
  | inr p => exact distinct_stride h

theorem distinct_iterate {start : Resolution ⊕ Standing} (h : Distinct start) (n : Nat) :
    Distinct (s.proceed^[n] start) := by
  induction n with
  | zero => exact h
  | succ n ih =>
      rw [Function.iterate_succ_apply']
      exact distinct_proceed ih

/-- References that go in circles come back to one that was met before, and only to that one. -/
theorem closes_of_circular {chain : List String} (h : s.resolution uri = .circular chain) :
    CircularReference.Closes ⟨chain⟩ := by
  have hdistinct := distinct_iterate (distinct_depart s uri) (s := s) (s.references.length + 2)
  rwa [iterate_proceed_depart (Nat.le_refl _), h] at hdistinct

/-- Going from reference to reference ends, in every store and from every URI, and the lookup
answers by where it ends. If it answers that references go in circles, the last of them stands
among those before it, and those before it are all different. -/
theorem resolve?_ends (s : Store) (uri : String) :
    ∃ outcome,
      (∀ n, s.references.length + 2 ≤ n →
        s.proceed^[n] (s.depart (SchemaUri.normalize uri)) = .inl outcome)
      ∧ s.resolve? uri = s.answer outcome
      ∧ ∀ e, (s.resolve? uri).1 = .error e → e.Closes := by
  refine ⟨s.resolution (SchemaUri.normalize uri), fun n hn => iterate_proceed_depart hn,
    resolve?_eq_answer s uri, fun e he => ?_⟩
  rw [resolve?_eq_answer] at he
  cases hresolution : s.resolution (SchemaUri.normalize uri) with
  | found found value =>
      rw [hresolution] at he
      cases he
  | documentAbsent base =>
      rw [hresolution] at he
      cases he
  | nodeAbsent =>
      rw [hresolution] at he
      cases he
  | circular chain =>
      rw [hresolution] at he
      obtain rfl := Except.error.inj he
      exact closes_of_circular hresolution

def twins : Store :=
  empty.add "a" (.object
    [("p", .object [("$ref", .string "#/q")]), ("q", .object [("$ref", .string "#/p")])])

theorem resolve?_ends_twins :
    (twins.resolve? "a#/p/z").1 = .error ⟨["a#/q", "a#/p", "a#/q"]⟩
      ∧ CircularReference.Closes ⟨["a#/q", "a#/p", "a#/q"]⟩ := by
  have hcircle : (twins.resolve? "a#/p/z").1 = .error ⟨["a#/q", "a#/p", "a#/q"]⟩ := rfl
  obtain ⟨outcome, -, -, hcloses⟩ := resolve?_ends twins "a#/p/z"
  exact ⟨hcircle, hcloses _ hcircle⟩

end Store

end HyperSchema
