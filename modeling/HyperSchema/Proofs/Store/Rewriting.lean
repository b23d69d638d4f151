import HyperSchema.Proofs.Json.Steps
import HyperSchema.Store.Scan

/-!
# References made absolute

A scanned value has the shape of the original. At a place that no data keyword leads to, a reference
of the original has become its absolute target, resolved against the innermost accepted id around
the place. Below a data keyword, or whatever else has the name of one, everything is as it was.
-/

namespace HyperSchema

namespace Scan

open Json (Step)

variable {v w : Json} {ms : Table Json} {root : Bool} {scope r : String} {place : List Step}

def rewritten (scope key : String) (v : Json) : Json :=
  match target? scope key v with
  | some target => .string target
  | none => if isData key then v else (value false scope v).value

theorem value_list (scope : String) (items : List Json) :
    (list scope items).value = items.map (fun v => (value false scope v).value) := by
  induction items with
  | nil => rfl
  | cons v rest ih => rw [list, List.map_cons, ih]

theorem value_members (scope : String) (ms : Table Json) : (members scope ms).value
    = ms.map (fun entry => (entry.1, rewritten scope entry.1 entry.2)) := by
  induction ms with
  | nil => rfl
  | cons entry rest ih =>
      obtain ⟨key, v⟩ := entry
      rw [members, List.map_cons, ih, rewritten]
      cases target? scope key v with
      | some target => rfl
      | none => cases isData key <;> rfl

theorem value_object (root : Bool) (scope : String) (ms : Table Json) :
    (value root scope (.object ms)).value = .object
      (ms.map (fun entry => (entry.1, rewritten (scopeOf scope ms) entry.1 entry.2))) := by
  rw [value, ← value_members]

theorem value_array (root : Bool) (scope : String) (items : List Json) :
    (value root scope (.array items)).value
      = .array (items.map (fun v => (value false scope v).value)) := by
  rw [value, ← value_list]

theorem asString?_value (root : Bool) (scope : String) (v : Json) :
    (value root scope v).value.asString? = v.asString? := by
  cases v with
  | object ms =>
      rw [value_object]
      rfl
  | array items =>
      rw [value_array]
      rfl
  | _ => rfl

/-! ### References at their places -/

def ownScope (scope : String) : Json → String
  | .object ms => scopeOf scope ms
  | _ => scope

/-- The URI that a reference at a place is resolved against: the innermost id that was accepted on
the way to the place or at it, or the scope of the whole. -/
def scopeAt : String → Json → List Step → String
  | scope, v, [] => ownScope scope v
  | scope, v, step :: rest =>
    match v.step? step with
    | some next => scopeAt (ownScope scope v) next rest
    | none => ownScope scope v

/-- A place that no name of a data keyword leads to. -/
def Plain (place : List Step) : Prop := ∀ key, Step.member key ∈ place → isData key = false

theorem Plain.tail {step : Step} (h : Plain (step :: place)) : Plain place :=
  fun key hkey => h key (List.mem_cons_of_mem _ hkey)

theorem asString?_rewritten (scope : String) (v : Json) :
    (rewritten scope "$ref" v).asString? = v.asString?.map (SchemaUri.resolve scope) := by
  rw [rewritten, target?, if_pos rfl]
  cases v with
  | object ms => exact asString?_value false scope (.object ms)
  | array items => exact asString?_value false scope (.array items)
  | _ => rfl

theorem reference?_value (root : Bool) (scope : String) (v : Json) :
    (value root scope v).value.reference?
      = v.reference?.map (SchemaUri.resolve (ownScope scope v)) := by
  cases v with
  | object ms =>
      rw [value_object, Json.reference?, Json.member?, Table.get?_map, Json.reference?,
        Json.member?]
      cases Table.get? ms "$ref" with
      | none => rfl
      | some own => exact asString?_rewritten _ own
  | _ => rfl

theorem target?_of_ne_string (hw : ∀ s, w ≠ .string s) (key : String) :
    target? scope key w = none := by
  rw [target?]
  split
  · cases w with
    | string s => exact absurd rfl (hw s)
    | _ => rfl
  · rfl

theorem step?_value_of_data {key : String} (root : Bool) (scope : String) (v : Json)
    (hdata : isData key = true) (hw : ∀ s, w ≠ .string s)
    (h : v.step? (.member key) = some w) :
    (value root scope v).value.step? (.member key) = some w := by
  cases v with
  | object ms =>
      rw [Json.step?] at h
      rw [value_object, Json.step?, Table.get?_map, h, Option.map_some, rewritten,
        target?_of_ne_string hw, hdata]
      rfl
  | _ => cases h

theorem step?_value {step : Step} (root : Bool) (scope : String) (hplain : Plain [step])
    (hw : ∀ s, w ≠ .string s) (h : v.step? step = some w) :
    (value root scope v).value.step? step = some (value false (ownScope scope v) w).value := by
  cases v with
  | object ms =>
      cases step with
      | member key =>
          rw [Json.step?] at h
          rw [value_object, Json.step?, Table.get?_map, h, Option.map_some, rewritten,
            target?_of_ne_string hw, hplain key (List.mem_singleton_self _)]
          rfl
      | item i => cases h
  | array items =>
      cases step with
      | member key => cases h
      | item i =>
          rw [Json.step?] at h
          rw [value_array, Json.step?, List.getElem?_map, h]
          rfl
  | _ => cases h

/-- On the way to a reference there is no text. -/
theorem ne_string_of_at? {s : String} (hat : v.at? place = some w) (href : w.reference? = some r) :
    v ≠ .string s := by
  rintro rfl
  cases place with
  | nil =>
      obtain rfl := Option.some.inj hat
      cases href
  | cons => cases hat

/-- Where no name of a data keyword leads, references have become absolute. -/
theorem exists_reference?_at? (root : Bool) (scope : String) (hplain : Plain place)
    (hat : v.at? place = some w) (href : w.reference? = some r) :
    ∃ w', (value root scope v).value.at? place = some w'
      ∧ w'.reference? = some (SchemaUri.resolve (scopeAt scope v place) r) := by
  induction place generalizing v scope root with
  | nil =>
      obtain rfl := Option.some.inj hat
      refine ⟨_, rfl, ?_⟩
      rw [reference?_value, href]
      rfl
  | cons step rest ih =>
      obtain ⟨next, hstep, hrest⟩ := Option.bind_eq_some_iff.1 hat
      have hhere : Plain [step] := fun key hkey =>
        hplain key (List.mem_singleton.1 hkey ▸ List.mem_cons_self)
      rw [Json.at?, step?_value root scope hhere (fun _ => ne_string_of_at? hrest href) hstep,
        scopeAt, hstep]
      exact ih false _ hplain.tail hrest

theorem at?_value_of_not_plain (root : Bool) (scope : String) (hplain : ¬Plain place)
    (hat : v.at? place = some w) (href : w.reference? = some r) :
    (value root scope v).value.at? place = some w := by
  induction place generalizing v scope root with
  | nil => exact absurd (fun _ hkey => nomatch hkey) hplain
  | cons step rest ih =>
      obtain ⟨next, hstep, hrest⟩ := Option.bind_eq_some_iff.1 hat
      have hnext : ∀ s, next ≠ .string s := fun _ => ne_string_of_at? hrest href
      rw [Json.at?]
      by_cases hhere : Plain [step]
      · rw [step?_value root scope hhere hnext hstep]
        refine ih false _ (fun htail => hplain fun key hkey => ?_) hrest
        rcases List.mem_cons.1 hkey with heq | hkey
        · exact hhere key (List.mem_singleton.2 heq)
        · exact htail key hkey
      · obtain ⟨key, hkey, hdata⟩ : ∃ key, .member key ∈ [step] ∧ isData key ≠ false := by
          simpa [Plain] using hhere
        obtain rfl := List.mem_singleton.1 hkey
        rw [step?_value_of_data root scope v (Bool.eq_true_of_not_eq_false hdata) hnext hstep]
        exact hrest

/-! ### The schemas with ids stand in the document -/

theorem keys_rewritten (scope : String) (ms : Table Json) :
    Table.keys (ms.map (fun entry => (entry.1, rewritten scope entry.1 entry.2)))
      = Table.keys ms := by
  rw [Table.keys, List.map_map]
  rfl

mutual

theorem uniqueKeys_value (root : Bool) (scope : String) :
    ∀ v : Json, v.UniqueKeys → (value root scope v).value.UniqueKeys
  | .null, _ => trivial
  | .bool _, _ => trivial
  | .number _, _ => trivial
  | .string _, _ => trivial
  | .array items, h => by
      rw [Json.UniqueKeys] at h
      rw [value_array, Json.UniqueKeys]
      exact uniqueKeys_list scope items h
  | .object ms, h => by
      rw [Json.UniqueKeys] at h
      rw [value_object, Json.UniqueKeys, Table.Distinct, keys_rewritten]
      exact ⟨h.1, uniqueKeys_members _ ms h.2⟩

theorem uniqueKeys_list (scope : String) :
    ∀ items : List Json, Json.UniqueKeysItems items →
      Json.UniqueKeysItems (items.map (fun v => (value false scope v).value))
  | [], _ => trivial
  | v :: rest, h => by
      rw [Json.UniqueKeysItems] at h
      rw [List.map_cons, Json.UniqueKeysItems]
      exact ⟨uniqueKeys_value false scope v h.1, uniqueKeys_list scope rest h.2⟩

theorem uniqueKeys_members (scope : String) :
    ∀ ms : List (String × Json), Json.UniqueKeysMembers ms →
      Json.UniqueKeysMembers (ms.map (fun entry => (entry.1, rewritten scope entry.1 entry.2)))
  | [], _ => trivial
  | (key, v) :: rest, h => by
      rw [Json.UniqueKeysMembers] at h
      rw [List.map_cons, Json.UniqueKeysMembers, rewritten]
      refine ⟨?_, uniqueKeys_members scope rest h.2⟩
      dsimp only
      split
      · trivial
      · split
        · exact h.1
        · exact uniqueKeys_value false scope v h.1

end

mutual

theorem exists_at?_of_mem_named (root : Bool) (scope : String) :
    ∀ v : Json, v.UniqueKeys → ∀ entry ∈ (value root scope v).named,
      ∃ place, (value root scope v).value.at? place = some entry.2
  | .null, _, _, hentry => nomatch hentry
  | .bool _, _, _, hentry => nomatch hentry
  | .number _, _, _, hentry => nomatch hentry
  | .string _, _, _, hentry => nomatch hentry
  | .array items, hkeys, entry, hentry => by
      rw [Json.UniqueKeys] at hkeys
      rw [value] at hentry
      obtain ⟨w, hw, place, hplace⟩ := exists_at?_of_mem_named_list scope items hkeys entry hentry
      obtain ⟨i, hi⟩ := List.getElem?_of_mem hw
      refine ⟨.item i :: place, ?_⟩
      rw [value_array, Json.at?, Json.step?, hi, Option.bind_some, hplace]
  | .object ms, hkeys, entry, hentry => by
      have hwhole := uniqueKeys_value root scope _ hkeys
      rw [value_object, Json.UniqueKeys] at hwhole
      rw [Json.UniqueKeys] at hkeys
      rw [value] at hentry
      rcases List.mem_append.1 hentry with hinner | hown
      · obtain ⟨member, hmember, place, hplace⟩ :=
          exists_at?_of_mem_named_members _ ms hkeys.2 entry hinner
        refine ⟨.member member.1 :: place, ?_⟩
        rw [value_object, Json.at?, Json.step?, Table.get?_of_mem hwhole.1 hmember,
          Option.bind_some, hplace]
      · refine ⟨[], ?_⟩
        rw [naming] at hown
        split at hown
        · cases hown
        · split at hown
          · rw [List.mem_singleton.1 hown, value, Json.at?]
          · cases hown

theorem exists_at?_of_mem_named_list (scope : String) :
    ∀ items : List Json, Json.UniqueKeysItems items → ∀ entry ∈ (list scope items).named,
      ∃ w ∈ items.map (fun v => (value false scope v).value), ∃ place, w.at? place = some entry.2
  | [], _, _, hentry => nomatch hentry
  | v :: rest, hkeys, entry, hentry => by
      rw [Json.UniqueKeysItems] at hkeys
      rw [list] at hentry
      rcases List.mem_append.1 hentry with hentry | hentry
      · exact ⟨_, List.mem_cons_self, exists_at?_of_mem_named false scope v hkeys.1 entry hentry⟩
      · obtain ⟨w, hw, hplace⟩ := exists_at?_of_mem_named_list scope rest hkeys.2 entry hentry
        exact ⟨w, List.mem_cons_of_mem _ hw, hplace⟩

theorem exists_at?_of_mem_named_members (scope : String) :
    ∀ ms : List (String × Json), Json.UniqueKeysMembers ms → ∀ entry ∈ (members scope ms).named,
      ∃ member ∈ ms.map (fun entry => (entry.1, rewritten scope entry.1 entry.2)),
        ∃ place, member.2.at? place = some entry.2
  | [], _, _, hentry => nomatch hentry
  | (key, v) :: rest, hkeys, entry, hentry => by
      rw [Json.UniqueKeysMembers] at hkeys
      rw [members] at hentry
      rcases List.mem_append.1 hentry with hentry | hentry
      · refine ⟨_, List.mem_cons_self, ?_⟩
        dsimp only
        rw [rewritten]
        cases htarget : target? scope key v with
        | some target =>
            rw [htarget] at hentry
            cases hentry
        | none =>
            rw [htarget] at hentry
            cases hdata : isData key with
            | true =>
                rw [hdata] at hentry
                cases hentry
            | false =>
                rw [hdata] at hentry
                exact exists_at?_of_mem_named false scope v hkeys.1 entry hentry
      · obtain ⟨w, hw, hplace⟩ := exists_at?_of_mem_named_members scope rest hkeys.2 entry hentry
        exact ⟨w, List.mem_cons_of_mem _ hw, hplace⟩

end

end Scan

end HyperSchema
