import HyperSchema.Proofs.Model.SchemaChanges
import HyperSchema.Proofs.Model.Walks
import HyperSchema.Proofs.Pointer.Writing

/-!
# Changes that are told

A write is told to the handles above the path that it reaches and to those below it. As a write
changes what is read there and nowhere else, nobody misses a change, provided that the path and the
handle have no second spelling: the handles are looked up by their texts, and a write by a text that
no handle has is told to none of those that mark the same place.
-/

namespace HyperSchema

namespace Model

variable {m next : Model} {s : Snapshot} {path handle : String} {x : Json}
  {notices : List Notice}

/-- The handles above and below the written path are told. -/
theorem exists_mem_changeEvents {handles : Handles} {written : String} (htree : handles.Tree)
    (hthere : Table.has handles handle = true)
    (hnear : handle ∈ Pointer.lineage written
      ∨ written ∈ Pointer.lineage handle ∧ Pointer.Rooted handle) :
    ∃ relative, (handle, ModelEvent.change relative) ∈ changeEvents handles written := by
  by_cases habove : handle ∈ Pointer.lineage written
  · exact ⟨_, List.mem_append_left _ (List.mem_map_of_mem (List.mem_filter.2 ⟨habove, hthere⟩))⟩
  · obtain ⟨hbelow, hrooted⟩ := hnear.resolve_left habove
    have hwalk := Handles.mem_walk_of_mem_lineage htree hrooted hthere hbelow
    obtain ⟨rest, hrest⟩ := Handles.exists_walk_eq_cons
      (Handles.has_of_mem_lineage htree hthere hbelow)
    rw [hrest, List.mem_cons] at hwalk
    have hlater := hwalk.resolve_left fun heq =>
      habove (heq ▸ Pointer.mem_lineage_self written)
    refine ⟨"", List.mem_append_right _ (List.mem_map.2 ⟨handle, ?_, rfl⟩)⟩
    rw [hrest]
    exact hlater

theorem Reachable.wellFormed (hm : Reachable m) : WellFormed m := by
  obtain ⟨value, url, ops, rfl⟩ := hm
  exact (wellFormed_new value url).applyAll

/-- Who listens at a handle is told of every change of the value there, when neither the path that
is written nor the handle has a second spelling. -/
theorem change_of_differs (hm : Reachable m) (hwrite : m.write? s path x = some (next, notices))
    (hpath : Pointer.Canonical m.value path) (hhandle : Pointer.Canonical m.value handle)
    (hdiffers : next.valueAt? handle ≠ m.valueAt? handle) :
    ∀ l ∈ m.handles.listeners handle, ∃ relative, ⟨l, handle, .change relative⟩ ∈ notices := by
  obtain ⟨value, hset, heq⟩ := Option.map_eq_some_iff.1 hwrite
  obtain ⟨rfl, rfl⟩ := Prod.mk.inj heq
  intro l hl
  have hthere : Table.has m.handles handle = true := by
    by_contra hnot
    rw [Handles.listeners_of_fresh (Table.get?_eq_none_of_not_has hnot)] at hl
    cases hl
  have hrooted : Pointer.Rooted handle := hhandle.spelled ▸ Pointer.rooted_join _
  have hnear := Pointer.mem_lineage_of_differs hset hpath hhandle hdiffers
  obtain ⟨relative, hevent⟩ := exists_mem_changeEvents hm.wellFormed.tree hthere
    (hnear.imp_right (⟨·, hrooted⟩))
  exact ⟨relative, List.mem_flatMap.2 ⟨_, List.mem_append_left _ hevent,
    List.mem_map_of_mem hl⟩⟩

/-- A model of a nested array, with a listener at the position behind its last item. -/
def awaiting : Model := ((new (.array [.array []]) none).subscribe "/0/0" "item").1

/-- What is appended there is a change for the listener. -/
theorem change_of_differs_awaiting :
    Reachable awaiting
      ∧ Pointer.Canonical awaiting.value "/0/-" ∧ Pointer.Canonical awaiting.value "/0/0"
      ∧ ∃ next notices, awaiting.write? .empty "/0/-" .null = some (next, notices)
        ∧ next.valueAt? "/0/0" ≠ awaiting.valueAt? "/0/0"
        ∧ ∃ relative, ⟨⟨0, "item"⟩, "/0/0", .change relative⟩ ∈ notices := by
  have hreachable : Reachable awaiting :=
    ⟨.array [.array []], none, [.subscribe "/0/0" "item"], rfl⟩
  have hpath : Pointer.Canonical awaiting.value "/0/-" := ⟨by decide +kernel, by decide +kernel⟩
  have hhandle : Pointer.Canonical awaiting.value "/0/0" := ⟨by decide +kernel, by decide +kernel⟩
  have hafter : (awaiting.write? .empty "/0/-" .null).bind (fun r => r.1.valueAt? "/0/0")
      = some .null := rfl
  have hbefore : awaiting.valueAt? "/0/0" = none := by decide +kernel
  obtain ⟨⟨next, notices⟩, hwrite, hvalue⟩ := Option.bind_eq_some_iff.1 hafter
  have hdiffers : next.valueAt? "/0/0" ≠ awaiting.valueAt? "/0/0" := by
    rw [hvalue, hbefore]
    exact nofun
  exact ⟨hreachable, hpath, hhandle, next, notices, hwrite, hdiffers,
    change_of_differs hreachable hwrite hpath hhandle hdiffers ⟨0, "item"⟩ (by decide +kernel)⟩

/-- A position of an array is written with a sign before its digits, and its listener is not told.
-/
theorem not_told_of_sign :
    ¬ ∀ (m next : Model) (s : Snapshot) (path handle : String) (x : Json) (notices : List Notice),
      Reachable m → m.write? s path x = some (next, notices) →
      next.valueAt? handle ≠ m.valueAt? handle →
      ∀ l ∈ m.handles.listeners handle, ∃ relative, ⟨l, handle, .change relative⟩ ∈ notices := by
  intro hall
  let m := ((new (.array [.null]) none).subscribe "/0" "item").1
  have hreachable : Reachable m := ⟨.array [.null], none, [.subscribe "/0" "item"], rfl⟩
  have hafter : (m.write? .empty "/+0" (.bool true)).bind (fun r => r.1.valueAt? "/0")
      = some (.bool true) := rfl
  have hnone : (m.write? .empty "/+0" (.bool true)).map Prod.snd = some [] := by decide +kernel
  have hbefore : m.valueAt? "/0" = some .null := rfl
  obtain ⟨⟨next, notices⟩, hwrite, hvalue⟩ := Option.bind_eq_some_iff.1 hafter
  rw [hwrite, Option.map_some] at hnone
  obtain rfl := Option.some.inj hnone
  have hdiffers : next.valueAt? "/0" ≠ m.valueAt? "/0" := by
    rw [hvalue, hbefore]
    exact nofun
  obtain ⟨relative, hnotice⟩ := hall m next .empty "/+0" "/0" (.bool true) [] hreachable hwrite
    hdiffers ⟨0, "item"⟩ (by decide +kernel)
  cases hnotice

end Model

end HyperSchema
