import HyperSchema.Proofs.Json.Parts
import HyperSchema.Proofs.Schema.Parts

/-!
# Steps down a value

A place in a value is named by the steps that lead to it: the keys of members and the positions of
items. Where no object has a key twice, every subschema of a schema has a place.
-/

namespace HyperSchema

namespace Json

inductive Step where
  | member (key : String)
  | item (i : Nat)
  deriving DecidableEq

def step? : Json → Step → Option Json
  | .object members, .member key => Table.get? members key
  | .array items, .item i => items[i]?
  | _, _ => none

def at? : Json → List Step → Option Json
  | v, [] => some v
  | v, step :: rest => (v.step? step).bind (fun next => at? next rest)

variable {v w : Json} {step : Step} {place : List Step}

theorem at?_append (v : Json) (front back : List Step) :
    v.at? (front ++ back) = (v.at? front).bind (fun w => w.at? back) := by
  induction front generalizing v with
  | nil => rfl
  | cons step rest ih =>
      rw [List.cons_append, at?, at?, Option.bind_assoc]
      exact Option.bind_congr fun next _ => ih next

theorem UniqueKeys.step? (hkeys : v.UniqueKeys) (h : v.step? step = some w) : w.UniqueKeys := by
  cases v with
  | object members =>
      cases step with
      | member key =>
          rw [UniqueKeys] at hkeys
          exact UniqueKeys.of_mem hkeys.2 (Table.mem_of_get? h)
      | item i => cases h
  | array items =>
      cases step with
      | member key => cases h
      | item i =>
          rw [UniqueKeys] at hkeys
          exact UniqueKeys.of_getElem? hkeys h
  | _ => cases h

theorem UniqueKeys.at? (hkeys : v.UniqueKeys) (h : v.at? place = some w) : w.UniqueKeys := by
  induction place generalizing v with
  | nil => exact Option.some.inj h ▸ hkeys
  | cons step rest ih =>
      obtain ⟨next, hstep, hrest⟩ := Option.bind_eq_some_iff.1 h
      exact ih (hkeys.step? hstep) hrest

end Json

theorem Schema.Sub.exists_at? {keywords : Table Json} {sub : Json} (h : Sub keywords sub)
    (hkeys : (Json.object keywords).UniqueKeys) :
    ∃ place, (Json.object keywords).at? place = some sub := by
  cases h with
  | single key _ hget => exact ⟨[.member key], by rw [Json.at?, Json.step?, hget]; rfl⟩
  | listed key _ hget hmem =>
      obtain ⟨i, hi⟩ := List.getElem?_of_mem hmem
      refine ⟨[.member key, .item i], ?_⟩
      rw [Json.at?, Json.step?, hget, Option.bind_some, Json.at?, Json.step?, hi]
      rfl
  | @named key name table _ _ hget hmem =>
      have hstep : (Json.object keywords).step? (.member key) = some (.object table) := hget
      have htable := hkeys.step? hstep
      rw [Json.UniqueKeys] at htable
      refine ⟨[.member key, .member name], ?_⟩
      rw [Json.at?, Json.step?, hget, Option.bind_some, Json.at?, Json.step?,
        Table.get?_of_mem htable.1 hmem]
      rfl

end HyperSchema
