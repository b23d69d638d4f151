import HyperSchema.Proofs.Pointer.Resolution
import HyperSchema.Proofs.Validation.Places
import HyperSchema.Proofs.Validation.Recording
import HyperSchema.Proofs.Validation.Relocation

/-!
# Every reported location is real

The paths in the result of a run are those of its errors, at whatever depth they are nested, and the
keys of its maps. Each of them leads from the path of the run to something in the value.
-/

namespace HyperSchema

inductive ValidationState.Mentions (state : ValidationState) : String → Prop where
  | error {e error : ValidationError} (he : e ∈ state.errors) (hincludes : e.Includes error) :
      Mentions state error.path
  | schemas {m : PathMap String} {place : String} (hm : state.schemas = some m)
      (hplace : place ∈ Table.keys m) : Mentions state place
  | links {m : PathMap Link} {place : String} (hm : state.links = some m)
      (hplace : place ∈ Table.keys m) : Mentions state place
  | missing {m : PathMap String} {place : String} (hm : state.missing = some m)
      (hplace : place ∈ Table.keys m) : Mentions state place

namespace PathMap

variable {α : Type} [DecidableEq α] {place : String}

theorem mem_keys_add {m : PathMap α} {path : String} {x : α}
    (h : place ∈ Table.keys (m.add path x)) : place = path ∨ place ∈ Table.keys m := by
  obtain ⟨xs, hxs⟩ := Table.mem_keys_iff.1 h
  rw [get?_add] at hxs
  split at hxs
  · next heq => exact .inl heq
  · exact .inr (Table.mem_keys_iff.2 ⟨xs, hxs⟩)

theorem mem_keys_collect {m : PathMap α} {found : List (String × α)}
    (h : place ∈ Table.keys (m.collect found)) :
    place ∈ Table.keys m ∨ ∃ e ∈ found, e.1 = place := by
  induction found generalizing m with
  | nil => exact .inl h
  | cons e rest ih =>
      rcases ih h with h | ⟨other, hother, heq⟩
      · rcases mem_keys_add h with rfl | h
        · exact .inr ⟨e, List.mem_cons_self, rfl⟩
        · exact .inl h
      · exact .inr ⟨other, List.mem_cons_of_mem e hother, heq⟩

/-- What a map that started empty has paths for was collected there. -/
theorem exists_of_mem_keys {start : Option (PathMap α)} {found : List (String × α)}
    {m : PathMap α} (hm : (start.map (fun _ => [])).map (fun m => collect m found) = some m)
    (h : place ∈ Table.keys m) : ∃ e ∈ found, e.1 = place := by
  cases start with
  | none => cases hm
  | some before =>
      obtain rfl := Option.some.inj hm
      rcases mem_keys_collect h with h | h
      · cases h
      · exact h

end PathMap

/-- A state that started empty speaks of what was recorded. -/
theorem ValidationState.Mentions.exists_finding {state : ValidationState} {fs : Findings}
    {place : String} (h : (state.fresh.recordAll fs).Mentions place) :
    ∃ x ∈ fs, x.Mentions place := by
  rw [recordAll_eq] at h
  cases h with
  | @error e error he hincludes =>
      exact ⟨.error e, Findings.mem_errors.1 he, error, hincludes, rfl⟩
  | schemas hm hplace =>
      obtain ⟨e, he, rfl⟩ := PathMap.exists_of_mem_keys hm hplace
      obtain ⟨x, hx, hfinding⟩ := List.mem_filterMap.1 he
      refine ⟨x, hx, ?_⟩
      cases x with
      | schema path uri => exact congrArg Prod.fst (Option.some.inj hfinding)
      | _ => cases hfinding
  | links hm hplace =>
      obtain ⟨e, he, rfl⟩ := PathMap.exists_of_mem_keys hm hplace
      obtain ⟨x, hx, hfinding⟩ := List.mem_filterMap.1 he
      refine ⟨x, hx, ?_⟩
      cases x with
      | link path l => exact congrArg Prod.fst (Option.some.inj hfinding)
      | _ => cases hfinding
  | missing hm hplace =>
      obtain ⟨e, he, rfl⟩ := PathMap.exists_of_mem_keys hm hplace
      obtain ⟨x, hx, hfinding⟩ := List.mem_filterMap.1 he
      refine ⟨x, hx, ?_⟩
      cases x with
      | missing path uri => exact congrArg Prod.fst (Option.some.inj hfinding)
      | _ => cases hfinding

theorem Pointer.isWithin_append_join (path : String) (way : List String) :
    isWithin (path ++ join way) path = true := by
  have hrelative := relative?_append_join path way
  rw [relative?] at hrelative
  rw [isWithin, Bool.or_eq_true, beq_iff_eq, isBelow]
  split at hrelative
  · next heq => exact .inl heq
  · obtain ⟨chars, hchars, -⟩ := Option.map_eq_some_iff.1 hrelative
    exact .inr (Option.isSome_of_eq_some hchars)

namespace Snapshot

/-- Every place in the result of a run is a pointer within the path of the run, and what remains of
it leads to something in the value. Run at the root, the result is the same without this path in
front of its places. -/
theorem run_located (s : Snapshot) (uri : String) (v : Json) (hkeys : v.UniqueKeys)
    (hcount : v.Countable) (p : String) (state : ValidationState) :
    (∀ place, (s.run uri v p state.fresh).Mentions place →
        Pointer.isWithin place p = true ∧ (Pointer.Rooted p → Pointer.Rooted place)
          ∧ ∃ rest w, Pointer.relative? place p = some rest ∧ Pointer.get? v rest = some w)
      ∧ s.run uri v p state.fresh = (s.run uri v "" state.fresh).under p := by
  constructor
  · intro place hmentions
    obtain ⟨x, hx, hmentions⟩ := hmentions.exists_finding
    obtain ⟨w, hpart⟩ := partAt_of_mem_findings hx hmentions
    obtain ⟨way, rfl, hway⟩ := Pointer.exists_way_of_partAt hkeys hcount hpart
    refine ⟨Pointer.isWithin_append_join p way, hpart.rooted, Pointer.join way, w,
      Pointer.relative?_append_join p way, ?_⟩
    rw [Pointer.get?_join, hway]
  · have hmoved := s.run_under p uri v "" state.fresh
    rwa [String.append_empty, ValidationState.fresh_under] at hmoved

/-- A member with a slash in its name has to be an array of refused items, or is refused. -/
def nesting : Snapshot where
  entries :=
    [("a", .compiled ⟨"a", none,
        .schema ⟨"a", Kind.all, [], none, none, []⟩
          [(Kind.all, [.members [("p/q", .reference "b")] [] [] [] .allowed])] [] [] [] none⟩),
      ("b", .compiled ⟨"b", none,
        .schema ⟨"b", Kind.all, [], none, none, []⟩ [] [] [.reject "x", .reference "c"] [] none⟩),
      ("c", .compiled ⟨"c", none,
        .schema ⟨"c", Kind.all, [], none, none, []⟩ [(Kind.all, [.items (.reject "y")])] [] [] []
          none⟩)]
  aliases := []
  options := Options.tracking

def slashed : Json := .object [("p/q", .array [.null])]

theorem nesting_located :
    slashed.UniqueKeys ∧ slashed.Countable
      ∧ (nesting.run "a" slashed "/at" (.ofOptions .tracking)).errors
        = [⟨.anyOfMissing [[⟨.notPassed, "/at/p~1q", "x"⟩], [⟨.notPassed, "/at/p~1q/0", "y"⟩]],
            "/at/p~1q", "b"⟩]
      ∧ Pointer.isWithin "/at/p~1q/0" "/at" = true
      ∧ (∃ rest w, Pointer.relative? "/at/p~1q/0" "/at" = some rest
        ∧ Pointer.get? slashed rest = some w)
      ∧ nesting.run "a" slashed "/at" (.ofOptions .tracking)
        = (nesting.run "a" slashed "" (.ofOptions .tracking)).under "/at" := by
  have hkeys : slashed.UniqueKeys := by
    simp [slashed, Json.UniqueKeys, Json.UniqueKeysMembers, Json.UniqueKeysItems, Table.Distinct,
      Table.keys]
  have hcount : slashed.Countable := by
    simp [slashed, Json.Countable, Json.CountableMembers, Json.CountableItems, Text.maxCount]
  obtain ⟨hplaces, hmoved⟩ :=
    nesting.run_located "a" slashed hkeys hcount "/at" (.ofOptions .tracking)
  have herrors : (nesting.run "a" slashed "/at" (.ofOptions .tracking)).errors
      = [⟨.anyOfMissing [[⟨.notPassed, "/at/p~1q", "x"⟩], [⟨.notPassed, "/at/p~1q/0", "y"⟩]],
          "/at/p~1q", "b"⟩] := rfl
  have hmentions : (nesting.run "a" slashed "/at" (.ofOptions .tracking)).Mentions
      "/at/p~1q/0" :=
    .error (herrors ▸ List.mem_singleton_self _)
      (.nested (List.mem_cons_of_mem _ (List.mem_singleton_self _)) (List.mem_singleton_self _)
        (.itself _))
  obtain ⟨hwithin, -, hrest⟩ := hplaces _ hmentions
  exact ⟨hkeys, hcount, herrors, hwithin, hrest, hmoved⟩

end Snapshot

end HyperSchema
