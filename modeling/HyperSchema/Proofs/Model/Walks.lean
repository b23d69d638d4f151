import HyperSchema.Proofs.Model.HandleTree

/-!
# Walks from a handle

A walk from any handle comes to the handles at and below it, each once and after its parent. When
it begins, it is as if the handles outside had been visited already; so whatever holds of a walk
that is under way holds of it from the start.
-/

namespace HyperSchema

namespace Handles

open Table (get? has)

variable {h : Handles} {path start : String}

/-- Handles are registered with all above them. -/
theorem has_of_mem_lineage {path above : String} (htree : Tree h) (hthere : has h path = true)
    (habove : above ∈ Pointer.lineage path) : has h above = true := by
  cases hparent : Pointer.parent? path with
  | none =>
      rw [Pointer.lineage_of_parent?_eq_none hparent, List.mem_singleton] at habove
      exact habove ▸ hthere
  | some parent =>
      have hlt := Pointer.length_parent?_lt hparent
      rcases (Pointer.mem_lineage_of_parent? hparent).1 habove with rfl | habove
      · exact hthere
      · exact has_of_mem_lineage htree (htree.closed hthere List.not_mem_nil hparent) habove
termination_by path.length
decreasing_by exact hlt

/-- The handles below the root that are not below another one, nor that one itself. -/
def outside (h : Handles) (start : String) : List String :=
  (Table.keys h).filter (fun p => "" ∈ Pointer.lineage p ∧ start ∉ Pointer.lineage p)

theorem mem_outside_iff {p : String} :
    p ∈ h.outside start
      ↔ has h p = true ∧ "" ∈ Pointer.lineage p ∧ start ∉ Pointer.lineage p := by
  rw [outside, List.mem_filter, Table.mem_keys_iff, decide_eq_true_iff, has,
    Option.isSome_iff_exists]

theorem mem_outside_parent {p parent : String} (htree : Tree h) (hthere : has h p = true)
    (hroot : "" ∈ Pointer.lineage p) (hparent : Pointer.parent? p = some parent)
    (hstart : start ∉ Pointer.lineage parent) : parent ∈ h.outside start := by
  refine mem_outside_iff.2 ⟨htree.closed hthere List.not_mem_nil hparent, ?_, hstart⟩
  rcases (Pointer.mem_lineage_of_parent? hparent).1 hroot with rfl | hroot
  · cases hparent
  · exact hroot

/-- When a walk from a handle begins, it is as if the handles outside had been visited. -/
theorem visiting_outside (htree : Tree h) (hthere : has h start = true)
    (hrooted : Pointer.Rooted start) : Visiting h (h.outside start) [start] := by
  have hmem : ∀ {p}, p ∈ h.outside start ++ [start] ↔ p ∈ h.outside start ∨ p = start := by
    intro p
    rw [List.mem_append, List.mem_singleton]
  constructor
  · rw [hmem]
    by_cases hstart : start = ""
    · exact .inr hstart.symm
    · refine .inl (mem_outside_iff.2 ⟨has_of_mem_lineage htree hthere
        (Pointer.root_mem_lineage hrooted), Pointer.mem_lineage_self "", ?_⟩)
      rw [Pointer.lineage_of_parent?_eq_none rfl, List.mem_singleton]
      exact hstart
  · refine List.nodup_append.2 ⟨htree.distinct.filter _, List.nodup_singleton _, ?_⟩
    rintro p hp q hq rfl
    rw [List.mem_singleton.1 hq, mem_outside_iff] at hp
    exact hp.2.2 (Pointer.mem_lineage_self start)
  · intro p hp
    rcases hmem.1 hp with hp | rfl
    · exact (mem_outside_iff.1 hp).1
    · exact hthere
  · intro p hp
    cases hparent : Pointer.parent? p with
    | none =>
        refine .inl ?_
        have hroot : "" ∈ Pointer.lineage p := by
          rcases hmem.1 hp with hp | rfl
          · exact (mem_outside_iff.1 hp).2.1
          · exact Pointer.root_mem_lineage hrooted
        rw [Pointer.lineage_of_parent?_eq_none hparent, List.mem_singleton] at hroot
        exact hroot.symm
    | some parent =>
        refine .inr ⟨parent, ?_, rfl⟩
        rcases hmem.1 hp with hp | rfl
        · obtain ⟨hp, hroot, hstart⟩ := mem_outside_iff.1 hp
          exact mem_outside_parent htree hp hroot hparent
            (fun hmem => hstart ((Pointer.mem_lineage_of_parent? hparent).2 (.inr hmem)))
        · exact mem_outside_parent htree hthere (Pointer.root_mem_lineage hrooted) hparent
            (Pointer.not_mem_lineage_parent? hparent)
  · intro q hq c hc hparent
    obtain ⟨-, hroot, hstart⟩ := mem_outside_iff.1 hq
    rw [hmem]
    by_cases hsame : c = start
    · exact .inr hsame
    · refine .inl (mem_outside_iff.2 ⟨hc,
        (Pointer.mem_lineage_of_parent? hparent).2 (.inr hroot), fun hmem => ?_⟩)
      rcases (Pointer.mem_lineage_of_parent? hparent).1 hmem with heq | hmem
      · exact hsame heq.symm
      · exact hstart hmem

/-- A walk from any handle below the root visits every handle below it. -/
theorem mem_walk_of_mem_lineage (htree : Tree h) (hrooted : Pointer.Rooted path)
    (hthere : has h path = true) (hbelow : start ∈ Pointer.lineage path) :
    path ∈ h.walk start := by
  have hstart := has_of_mem_lineage htree hthere hbelow
  have hvisiting := (visiting_outside htree hstart (hrooted.of_mem_lineage hbelow)).complete htree
    (h.length + 1) (by omega)
  rcases List.mem_append.1 (hvisiting.mem_of_rooted htree hrooted hthere) with hout | hwalk
  · exact absurd hbelow (mem_outside_iff.1 hout).2.2
  · exact hwalk

theorem Walks.unique {stack order order' : List String} (hwalks : Walks h stack order)
    (hwalks' : Walks h stack order') : order = order' := by
  induction hwalks generalizing order' with
  | done =>
      cases hwalks'
      rfl
  | visit hget _ ih =>
      cases hwalks' with
      | visit hget' hrest' =>
          rw [hget] at hget'
          obtain rfl := Option.some.inj hget'
          rw [ih hrest']
      | skip hget' _ =>
          rw [hget] at hget'
          cases hget'
  | skip hget _ ih =>
      cases hwalks' with
      | visit hget' _ =>
          rw [hget] at hget'
          cases hget'
      | skip _ hrest' => exact ih hrest'

theorem exists_walk_eq_cons (hthere : has h start = true) :
    ∃ rest, h.walk start = start :: rest := by
  obtain ⟨handle, hget⟩ := Option.isSome_iff_exists.1 hthere
  refine ⟨h.visit h.length (handle.children ++ []), ?_⟩
  rw [walk, visit, hget]

section

variable (htree : Tree h) (hrooted : ∀ path, has h path = true → Pointer.Rooted path)

include htree hrooted

theorem visiting_walk_from (hthere : has h start = true) :
    Visiting h (h.outside start ++ h.walk start) [] :=
  (visiting_outside htree hthere (hrooted start hthere)).complete htree (h.length + 1) (by omega)

/-- A walk comes to the handles at and below its start, and to no others. -/
theorem mem_walk_iff :
    path ∈ h.walk start ↔ has h path = true ∧ start ∈ Pointer.lineage path := by
  constructor
  · intro hmem
    cases hthere : has h start with
    | false =>
        rw [walk_of_fresh hthere] at hmem
        cases hmem
    | true =>
        have hvisiting := visiting_walk_from htree hrooted hthere
        have hpath := hvisiting.registered path
          (List.mem_append_left _ (List.mem_append_right _ hmem))
        refine ⟨hpath, ?_⟩
        by_contra hnot
        have hout := mem_outside_iff.2 ⟨hpath, Pointer.root_mem_lineage (hrooted path hpath), hnot⟩
        have hnodup := hvisiting.nodup
        rw [List.append_nil] at hnodup
        exact (List.nodup_append.1 hnodup).2.2 path hout path hmem rfl
  · intro h
    exact mem_walk_of_mem_lineage htree (hrooted path h.1) h.1 h.2

theorem nodup_walk_from (start : String) : (h.walk start).Nodup := by
  cases hthere : has h start with
  | false =>
      rw [walk_of_fresh hthere]
      exact List.nodup_nil
  | true =>
      have hnodup := (visiting_walk_from htree hrooted hthere).nodup
      rw [List.append_nil] at hnodup
      exact (List.nodup_append.1 hnodup).2.1

/-- A walk comes to its end, wherever it begins. -/
theorem walks_walk (start : String) : Walks h [start] (h.walk start) := by
  cases hthere : has h start with
  | false =>
      rw [walk_of_fresh hthere]
      exact .skip (Table.get?_eq_none_of_not_has (Bool.eq_false_iff.1 hthere)) .done
  | true =>
      exact (visiting_outside htree hthere (hrooted start hthere)).walks htree (h.length + 1)
        (by omega)

theorem pairwise_walk (start : String) :
    (h.walk start).Pairwise (fun a b => Pointer.isBelow a b = false) := by
  cases hthere : has h start with
  | false =>
      rw [walk_of_fresh hthere]
      exact .nil
  | true =>
      exact (visiting_outside htree hthere (hrooted start hthere)).parents_first htree
        (walks_walk htree hrooted start)

/-- A walk comes to the parent of a handle before the handle, but for the one that it begins at. -/
theorem exists_parent_before (hmem : path ∈ h.walk start) (hne : path ≠ start) :
    ∃ parent front back, Pointer.parent? path = some parent
      ∧ h.walk start = front ++ path :: back ∧ parent ∈ front := by
  obtain ⟨hthere, hbelow⟩ := (mem_walk_iff htree hrooted).1 hmem
  cases hparent : Pointer.parent? path with
  | none =>
      rw [Pointer.lineage_of_parent?_eq_none hparent, List.mem_singleton] at hbelow
      exact absurd hbelow.symm hne
  | some parent =>
      have habove := ((Pointer.mem_lineage_of_parent? hparent).1 hbelow).resolve_left (Ne.symm hne)
      have hvisited : parent ∈ h.walk start := (mem_walk_iff htree hrooted).2
        ⟨htree.closed hthere List.not_mem_nil hparent, habove⟩
      obtain ⟨front, back, hwalk⟩ := List.append_of_mem hmem
      refine ⟨parent, front, back, rfl, hwalk, ?_⟩
      have hpairwise := pairwise_walk htree hrooted start
      rw [hwalk] at hvisited hpairwise
      refine (List.mem_append.1 hvisited).resolve_right fun hlater => ?_
      rcases List.mem_cons.1 hlater with rfl | hlater
      · exact Nat.lt_irrefl _ (Pointer.length_parent?_lt hparent)
      · -- the parent would be visited after what is below it
        have hnot := List.rel_of_pairwise_cons (List.pairwise_append.1 hpairwise).2.1 hlater
        rw [Bool.eq_false_iff, Ne, Pointer.isBelow_iff_of_parent? hparent] at hnot
        exact hnot (Pointer.isWithin_iff.2 (.inl rfl))

/-- Behind its start, a walk comes to the handles strictly below. -/
theorem mem_drop_walk_iff :
    path ∈ (h.walk start).drop 1 ↔ has h path = true ∧ Pointer.isBelow path start = true := by
  have hwalk : path ∈ h.walk start ↔ has h path = true
      ∧ (path = start ∨ Pointer.isBelow path start = true) := by
    rw [mem_walk_iff htree hrooted, Pointer.mem_lineage_iff, Pointer.isWithin_iff]
  cases hthere : has h start with
  | false =>
      rw [walk_of_fresh hthere] at hwalk ⊢
      refine iff_of_false List.not_mem_nil fun h => ?_
      exact List.not_mem_nil (hwalk.2 ⟨h.1, .inr h.2⟩)
  | true =>
      obtain ⟨rest, hrest⟩ := exists_walk_eq_cons hthere
      have hnodup := nodup_walk_from htree hrooted start
      rw [hrest] at hwalk hnodup ⊢
      rw [List.drop_one, List.tail_cons]
      constructor
      · intro hmem
        obtain ⟨hpath, hwithin⟩ := hwalk.1 (List.mem_cons_of_mem _ hmem)
        refine ⟨hpath, hwithin.resolve_left ?_⟩
        rintro rfl
        exact (List.nodup_cons.1 hnodup).1 hmem
      · intro h
        refine (List.mem_cons.1 (hwalk.2 ⟨h.1, .inr h.2⟩)).resolve_left ?_
        rintro rfl
        rw [Pointer.not_isBelow_self] at h
        cases h.2

end

end Handles

end HyperSchema
