import HyperSchema.Proofs.Table
import HyperSchema.Validation.Snapshot

/-!
# Chains of aliases

An alias leads to one other URI. So a chain of aliases that comes to an end has no URI twice: from
the second time on it would be as long as from the first. It is no longer than the table of aliases,
and the search for a target gets to the end of it.
-/

namespace HyperSchema.Snapshot

/-- A number of aliases that lead from one URI to another. -/
inductive Chain (aliases : Table String) (uri : String) : String → Nat → Prop where
  | start : Chain aliases uri uri 0
  | step {next target : String} {n : Nat} (front : Chain aliases uri next n)
      (h : Table.get? aliases next = some target) : Chain aliases uri target (n + 1)

variable {s : Snapshot} {aliases aliases' : Table String} {uri next target target' : String}
  {n n' : Nat}

namespace Chain

theorem mono (h : Chain aliases uri target n)
    (hsame : ∀ u next, Table.get? aliases u = some next → Table.get? aliases' u = some next) :
    Chain aliases' uri target n := by
  induction h with
  | start => exact .start
  | step _ hget ih => exact ih.step (hsame _ _ hget)

theorem insert {key : String} (h : Chain aliases uri target n)
    (hfresh : Table.get? aliases key = none) :
    Chain (Table.insert aliases key next) uri target n := by
  refine h.mono fun u other hget => ?_
  rw [Table.get?_insert_of_ne _ _ ?_, hget]
  intro heq
  subst heq
  rw [hfresh] at hget
  cases hget

theorem cons (hget : Table.get? aliases uri = some next) (h : Chain aliases next target n) :
    Chain aliases uri target (n + 1) := by
  induction h with
  | start => exact .step .start hget
  | step _ hlast ih => exact ih.step hlast

/-- A chain is empty, or goes on from where its first alias leads. -/
theorem cases_first (h : Chain aliases uri target n) : n = 0 ∧ target = uri
    ∨ ∃ next m, n = m + 1 ∧ Table.get? aliases uri = some next ∧ Chain aliases next target m := by
  induction h with
  | start => exact .inl ⟨rfl, rfl⟩
  | @step next target n _ hget ih =>
      rcases ih with ⟨rfl, rfl⟩ | ⟨first, m, rfl, hfirst, hrest⟩
      · exact .inr ⟨target, 0, rfl, hget, .start⟩
      · exact .inr ⟨first, m + 1, rfl, hfirst, hrest.step hget⟩

section

variable (hend : Table.get? aliases target = none)

include hend

theorem length_unique (h : Chain aliases uri target n) (h' : Chain aliases uri target n') :
    n' = n := by
  induction n generalizing uri n' with
  | zero =>
      rcases h.cases_first with ⟨-, rfl⟩ | ⟨_, _, hzero, -⟩
      · rcases h'.cases_first with ⟨hlength, -⟩ | ⟨_, _, -, hget, -⟩
        · exact hlength
        · rw [hend] at hget
          cases hget
      · cases hzero
  | succ n ih =>
      rcases h.cases_first with ⟨hzero, -⟩ | ⟨next, m, hlength, hget, hrest⟩
      · cases hzero
      · obtain rfl := Nat.succ.inj hlength
        rcases h'.cases_first with ⟨-, rfl⟩ | ⟨next', m', rfl, hget', hrest'⟩
        · rw [hend] at hget
          cases hget
        · obtain rfl := Option.some.inj (hget.symm.trans hget')
          rw [ih hrest hrest']

/-- The URIs on a chain that ends are aliases, each of them once. -/
theorem exists_path (h : Chain aliases uri target n) : ∃ path : List String, path.length = n
    ∧ path.Nodup ∧ ∀ u ∈ path, u ∈ Table.keys aliases ∧ ∃ m ≤ n, Chain aliases u target m := by
  induction n generalizing uri with
  | zero => exact ⟨[], rfl, List.nodup_nil, fun _ hu => absurd hu List.not_mem_nil⟩
  | succ n ih =>
      rcases h.cases_first with ⟨hzero, -⟩ | ⟨next, m, hlength, hget, hrest⟩
      · cases hzero
      · obtain rfl := Nat.succ.inj hlength
        obtain ⟨path, hpath, hnodup, hmem⟩ := ih hrest
        have hkey : uri ∈ Table.keys aliases := by
          by_contra hnot
          rw [Table.get?_eq_none_iff.2 hnot] at hget
          cases hget
        refine ⟨uri :: path, by rw [List.length_cons, hpath], List.nodup_cons.2 ⟨?_, hnodup⟩, ?_⟩
        · intro hagain
          obtain ⟨-, m, hm, hshort⟩ := hmem uri hagain
          have hlong := length_unique hend hshort h
          omega
        · rw [List.forall_mem_cons]
          refine ⟨⟨hkey, n + 1, Nat.le_refl _, h⟩, fun u hu => ?_⟩
          obtain ⟨hkeys, m, hm, hchain⟩ := hmem u hu
          exact ⟨hkeys, m, Nat.le_succ_of_le hm, hchain⟩

theorem length_le (h : Chain aliases uri target n) : n ≤ aliases.length := by
  obtain ⟨path, rfl, hnodup, hmem⟩ := exists_path hend h
  have hle := hnodup.length_le_of_subset (fun u hu => (hmem u hu).1)
  rwa [Table.keys, List.length_map] at hle

end

end Chain

theorem targetWithin_of_chain (h : Chain s.aliases uri target n)
    (hentries : ∀ u, Table.get? s.entries u ≠ none → Table.get? s.aliases u = none) (m : Nat) :
    s.targetWithin (n + m) uri = s.targetWithin m target := by
  induction h generalizing m with
  | start => rw [Nat.zero_add]
  | @step next target n front hget ih =>
      have hnone : Table.get? s.entries next = none := by
        by_contra hsome
        rw [hentries next hsome] at hget
        cases hget
      rw [Nat.add_right_comm, Nat.add_assoc, ih, targetWithin, hnone, hget]

theorem target?_of_chain (h : Chain s.aliases uri target n)
    (hentries : ∀ u, Table.get? s.entries u ≠ none → Table.get? s.aliases u = none)
    (hend : Table.get? s.aliases target = none) :
    s.target? uri = Table.get? s.entries target := by
  obtain ⟨m, hm⟩ := Nat.exists_eq_add_of_le (h.length_le hend)
  rw [target?, hm, Nat.add_assoc, targetWithin_of_chain h hentries, targetWithin, hend]
  cases Table.get? s.entries target <;> rfl

end HyperSchema.Snapshot
