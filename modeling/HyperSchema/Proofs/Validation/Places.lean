import HyperSchema.Proofs.Pointer.Lineage
import HyperSchema.Proofs.Validation.Guard
import HyperSchema.Proofs.Validation.Jobs

/-!
# Where findings are

Calls are made on parts of the value, so that all that a run finds lies at the path it was started
at or below it. So do the errors within errors: the branches of a choice are evaluated on the same
value, and a choice that fails repeats what they found.
-/

namespace HyperSchema

namespace Head

variable {h : Head} {path place : String} {x : Finding} {results : List Findings}

/-- A choice that fails mentions what its branches mention. -/
theorem mentions_missing {uri : String} {v : Violation}
    (hbranches : v.branches = results.map Findings.errors)
    (h : (Finding.violation path uri v).Mentions place) :
    place = path ∨ ∃ found ∈ results, ∃ y ∈ found, y.Mentions place := by
  rcases Finding.mentions_violation h with h | ⟨errors, herrors, e, he, hmentions⟩
  · exact .inl h
  · rw [hbranches] at herrors
    obtain ⟨found, hfound, rfl⟩ := List.mem_map.1 herrors
    exact .inr ⟨found, hfound, .error e, Findings.mem_errors.1 he, hmentions⟩

theorem mentions_of_mem_anyOf (hx : x ∈ h.anyOf path results) (hmentions : x.Mentions place) :
    place = path ∨ ∃ found ∈ results, ∃ y ∈ found, y.Mentions place := by
  rw [anyOf] at hx
  split at hx
  · cases hx
  · split at hx
    · obtain ⟨found, hfound, hmem⟩ := List.mem_flatten.1 hx
      exact .inr ⟨found, (List.mem_filter.1 hfound).1, x, hmem, hmentions⟩
    · obtain rfl := List.mem_singleton.1 hx
      exact mentions_missing rfl hmentions

theorem mentions_of_mem_oneOf (hx : x ∈ h.oneOf path results) (hmentions : x.Mentions place) :
    place = path ∨ ∃ found ∈ results, ∃ y ∈ found, y.Mentions place := by
  rw [oneOf] at hx
  split at hx
  · cases hx
  · split at hx
    · obtain rfl := List.mem_singleton.1 hx
      exact mentions_missing rfl hmentions
    · next found i hpassing =>
      have hmem : (found, i) ∈ passing results := hpassing ▸ List.mem_singleton_self (found, i)
      exact .inr ⟨found, List.fst_mem_of_mem_zipIdx (List.mem_filter.1 hmem).1, x, hx, hmentions⟩
    · next i j _ _ =>
      obtain rfl := List.mem_singleton.1 hx
      exact .inl (Finding.eq_of_mentions_violation rfl hmentions)

end Head

/-- Calls mention parts of the value they are made on. -/
def Environment.Stays (env : Environment) : Prop :=
  ∀ target v path found, env.call target v path = some found →
    ∀ x ∈ found, ∀ place, x.Mentions place → ∃ w, v.PartAt path w place

namespace Node

variable {env : Environment} {v : Json} {path place : String} {found : Findings} {x : Finding}

/-- Whatever a node mentions is the place of a part of the value. -/
theorem partAt_of_mentions (henv : env.Stays) (node : Node)
    (h : node.evaluate env v path = some found) (hx : x ∈ found) (hmentions : x.Mentions place) :
    ∃ w, v.PartAt path w place := by
  induction node using below_induction generalizing v path found x with
  | h node ih =>
      rw [evaluate_eq] at h
      obtain ⟨job, hjob, part, hperform, hx⟩ := Job.exists_of_mem_performAll h hx
      have hstays := staysOn_of_mem_jobs hjob
      -- what a node below mentions is part of the value it is evaluated on
      have hsub : ∀ sub w spot part y, job.Applies sub w spot →
          sub.evaluate env w spot = some part → y ∈ part → y.Mentions place →
            ∃ u, v.PartAt path u place := by
        intro sub w spot part y happlies heval hy hmentions
        obtain ⟨hbelow, hpart⟩ := hstays.of_applies happlies
        obtain ⟨u, hu⟩ := ih sub hbelow heval hy hmentions
        exact ⟨u, hpart.trans hu⟩
      cases job with
      | find own =>
          obtain rfl := Option.some.inj hperform
          obtain ⟨uri, -, hown⟩ := hstays x hx
          exact hown.partAt_of_mentions hmentions
      | judge a uri w spot =>
          obtain rfl := Option.some.inj hperform
          obtain ⟨violation, hviolation, rfl⟩ := Option.map_eq_some_iff.1 (Option.mem_toList.1 hx)
          obtain rfl := Finding.eq_of_mentions_violation
            (Assertion.branches_of_violation? hviolation) hmentions
          exact ⟨w, hstays.2⟩
      | call target w spot =>
          obtain ⟨u, hu⟩ := henv target w spot part hperform x hx place hmentions
          exact ⟨u, hstays.trans hu⟩
      | apply sub w spot => exact hsub sub w spot part x .apply hperform hx hmentions
      | anyOf head nodes w spot =>
          obtain ⟨results, hresults, rfl⟩ := Option.map_eq_some_iff.1 hperform
          rcases Head.mentions_of_mem_anyOf hx hmentions with rfl | ⟨part, hpart, y, hy, hmentions⟩
          · exact ⟨w, hstays.2.2⟩
          · obtain ⟨sub, hmem, heval⟩ := (mem_of_evaluateEach hresults).1 hpart
            exact hsub sub w spot part y (.anyOf hmem) heval hy hmentions
      | oneOf head nodes w spot =>
          obtain ⟨results, hresults, rfl⟩ := Option.map_eq_some_iff.1 hperform
          rcases Head.mentions_of_mem_oneOf hx hmentions with rfl | ⟨part, hpart, y, hy, hmentions⟩
          · exact ⟨w, hstays.2.2⟩
          · obtain ⟨sub, hmem, heval⟩ := (mem_of_evaluateEach hresults).1 hpart
            exact hsub sub w spot part y (.oneOf hmem) heval hy hmentions
      | negated head sub w spot =>
          obtain ⟨result, -, rfl⟩ := Option.map_eq_some_iff.1 hperform
          obtain rfl := Head.eq_of_mem_negated hx
          obtain rfl := Finding.eq_of_mentions_violation rfl hmentions
          exact ⟨w, hstays.2.2⟩

end Node

namespace Snapshot

variable {s : Snapshot} {depth : Nat} {active : List ActiveCall} {target path place : String}
  {v : Json} {x : Finding}

theorem partAt_of_mem_call {found : Findings}
    (h : s.call depth active target v path = some found) (hx : x ∈ found)
    (hmentions : x.Mentions place) : ∃ w, v.PartAt path w place := by
  induction depth generalizing active target v path found x place with
  | zero => cases h
  | succ depth ih =>
      have hviolation : ∀ violation, violation.branches = [] →
          x ∈ [Finding.violation path target violation] → ∃ w, v.PartAt path w place := by
        intro violation hflat hx
        obtain rfl := List.mem_singleton.1 hx
        obtain rfl := Finding.eq_of_mentions_violation hflat hmentions
        exact ⟨v, .whole⟩
      rw [call] at h
      split at h
      · obtain rfl := Option.some.inj h
        obtain rfl := List.mem_singleton.1 hx
        exact ⟨v, hmentions ▸ .whole⟩
      · obtain rfl := Option.some.inj h
        exact hviolation _ rfl hx
      · next schema htarget =>
        split at h
        · obtain rfl := Option.some.inj h
          exact hviolation _ rfl hx
        · refine Node.partAt_of_mentions (fun target v path found hcall x hx place => ?_)
            schema.node h hx hmentions
          exact ih hcall hx

theorem partAt_of_mem_findings {uri : String} (hx : x ∈ s.findings uri v path)
    (hmentions : x.Mentions place) : ∃ w, v.PartAt path w place := by
  rw [findings] at hx
  cases hcall : s.call (s.depthBound v) [] (SchemaUri.normalize uri) v path with
  | none =>
      rw [hcall] at hx
      cases hx
  | some found =>
      rw [hcall] at hx
      exact partAt_of_mem_call hcall hx hmentions

end Snapshot

theorem Json.PartAt.rooted {v w : Json} {path place : String} (hpart : v.PartAt path w place)
    (h : Pointer.Rooted path) : Pointer.Rooted place := by
  induction hpart with
  | whole => exact h
  | item _ _ ih => exact ih.child _
  | member _ _ ih => exact ih.child _

theorem Snapshot.rooted_of_mem_findings {s : Snapshot} {uri : String} {v : Json} {x : Finding}
    (hx : x ∈ s.findings uri v "") : Pointer.Rooted x.path := by
  obtain ⟨w, hpart⟩ := partAt_of_mem_findings hx x.mentions_path
  exact hpart.rooted (.inl rfl)

end HyperSchema
