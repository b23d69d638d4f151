import HyperSchema.Proofs.Validation.Guard
import HyperSchema.Proofs.Validation.Jobs
import HyperSchema.Proofs.Validation.PathMap

/-!
# Running at another path

A run does not depend on the path it is started at. Every job of a node carries its path with it, and
so do its findings, the errors of branches included. The guard compares paths, and these are equal
exactly when they are equal with the same path in front. So a run at a path is the run at the root,
with that path in front of every path in its result.
-/

namespace HyperSchema

/-! ### What is found at another path -/

theorem String.append_left_injective {p a b : String} (h : p ++ a = p ++ b) : a = b := by
  have hchars := congrArg String.toList h
  rw [String.toList_append, String.toList_append] at hchars
  exact String.toList_injective (List.append_cancel_left hchars)

theorem Pointer.child_append (p path token : String) :
    child (p ++ path) token = p ++ child path token := by
  apply String.toList_injective
  rw [String.toList_append, toList_child, toList_child, String.toList_append, List.append_assoc]

theorem Node.itemPath_append (p path : String) (i : Nat) :
    itemPath (p ++ path) i = p ++ itemPath path i := Pointer.child_append p path _

/-- Findings with a path in front of all of theirs. -/
abbrev Findings.under (p : String) (fs : Findings) : Findings := fs.map (Finding.under p)

namespace Head

variable (h : Head) (p : String) (v : Json) (path : String)

theorem opening_under : h.opening v (p ++ path) = (h.opening v path).under p := by
  rw [opening, opening, Findings.under, List.map_cons, List.map_append]
  congr 2
  · split
    · rfl
    · rfl
  · split
    · split
      · rfl
      · rfl
    · rfl

theorem anyOf_under (results : List Findings) :
    h.anyOf (p ++ path) (results.map (Findings.under p)) = (h.anyOf path results).under p := by
  have hpasses : Findings.passes ∘ Findings.under p = Findings.passes :=
    funext (Findings.passes_under p)
  have herrors : (results.map (Findings.under p)).map Findings.errors
      = (results.map Findings.errors).map (List.map (ValidationError.under p)) := by
    rw [List.map_map, List.map_map]
    exact List.map_congr_left (fun fs _ => Findings.errors_under p fs)
  rw [anyOf, anyOf, List.isEmpty_map, List.any_map, List.filter_map, hpasses, herrors]
  split
  · rfl
  · split
    · exact List.map_flatten.symm
    · rw [← ValidationError.branchesUnder_eq]
      rfl

theorem oneOf_under (results : List Findings) :
    h.oneOf (p ++ path) (results.map (Findings.under p)) = (h.oneOf path results).under p := by
  have hpassing : passing (results.map (Findings.under p))
      = (passing results).map (fun r => (r.1.under p, r.2)) := by
    rw [passing, passing, List.zipIdx_map, List.filter_map]
    congr 1
    exact List.filter_congr (fun r _ => Findings.passes_under p r.1)
  have herrors : (results.map (Findings.under p)).map Findings.errors
      = (results.map Findings.errors).map (List.map (ValidationError.under p)) := by
    rw [List.map_map, List.map_map]
    exact List.map_congr_left (fun fs _ => Findings.errors_under p fs)
  rw [oneOf, oneOf, List.isEmpty_map, hpassing, herrors]
  split
  · rfl
  · cases passing results with
    | nil =>
        rw [← ValidationError.branchesUnder_eq]
        rfl
    | cons first rest =>
        cases rest with
        | nil => rfl
        | cons second rest => rfl

theorem negated_under (result : Option Findings) :
    h.negated (p ++ path) (result.map (Findings.under p)) = (h.negated path result).under p := by
  cases result with
  | none => rfl
  | some fs =>
      rw [Option.map_some, negated, negated, Findings.passes_under]
      split
      · rfl
      · rfl

theorem closing_under : h.closing v (p ++ path) = (h.closing v path).under p := by
  rw [closing, closing, Findings.under, List.map_append, List.map_map]
  congr 1
  split
  · split
    · rfl
    · rfl
  · rfl

end Head

/-! ### Jobs at another path -/

namespace Job

def under (p : String) : Job → Job
  | .find found => .find (found.under p)
  | .judge a uri v path => .judge a uri v (p ++ path)
  | .call target v path => .call target v (p ++ path)
  | .apply node v path => .apply node v (p ++ path)
  | .anyOf head nodes v path => .anyOf head nodes v (p ++ path)
  | .oneOf head nodes v path => .oneOf head nodes v (p ++ path)
  | .negated head node v path => .negated head node v (p ++ path)

variable (p : String)

theorem ofExtra_under (rest : Additional) (item : Json) (path : String) :
    ofExtra rest item (p ++ path) = (ofExtra rest item path).map (under p) := by
  cases rest with
  | _ => rfl

theorem ofRest_under (uri : String) (rest : Additional) (key : String) (member : Json)
    (path : String) :
    ofRest uri rest key member (p ++ path) = (ofRest uri rest key member path).map (under p) := by
  cases rest with
  | _ => rfl

theorem ofKey_under (uri : String) (properties : List (String × Node)) (required : List String)
    (dependencies : List (String × Dependency)) (members : Table Json) (path key : String) :
    ofKey uri properties required dependencies members (p ++ path) key
      = (ofKey uri properties required dependencies members path key).map (under p) := by
  rw [ofKey, ofKey]
  cases Table.get? members key with
  | none =>
      dsimp only
      split
      · rfl
      · rfl
  | some member =>
      dsimp only
      rw [List.map_append, ofProperty, ofProperty, ofDependency, ofDependency]
      congr 1
      · split
        · rfl
        · rw [Pointer.child_append]
          rfl
      · split
        · rfl
        · rw [List.map_singleton, under, Node.missingKeys, Node.missingKeys, Findings.under,
            List.map_map]
          rfl
        · rfl

theorem ofMember_under (uri : String) (properties : List (String × Node))
    (patterns : List (Pattern × Node)) (rest : Additional) (path : String)
    (entry : String × Json) :
    ofMember uri properties patterns rest (p ++ path) entry
      = (ofMember uri properties patterns rest path entry).map (under p) := by
  rw [ofMember, ofMember, List.map_append, Pointer.child_append, ofPatterns, ofPatterns,
    List.map_map]
  congr 1
  split
  · rfl
  · exact ofRest_under p uri rest entry.1 entry.2 _

end Job

theorem Check.jobs_under (p uri : String) (check : Check) (v : Json) (path : String) :
    check.jobs uri v (p ++ path) = (check.jobs uri v path).map (Job.under p) := by
  cases check with
  | assertion a => rfl
  | items node =>
      rw [Check.jobs, Check.jobs, List.map_map]
      refine List.map_congr_left (fun i _ => ?_)
      rw [Node.itemPath_append]
      rfl
  | tuple nodes rest =>
      rw [Check.jobs, Check.jobs, List.map_append, List.map_append, List.map_map,
        List.map_flatMap, List.map_singleton]
      refine congrArg₂ _ (congrArg₂ _ (List.map_congr_left (fun i _ => ?_)) ?_) ?_
      · rw [Node.itemPath_append]
        rfl
      · refine congrArg (List.flatMap · _) (funext fun i => ?_)
        rw [Node.itemPath_append, Job.ofExtra_under]
      · rw [Job.under, Node.surplus.eq_def, Node.surplus.eq_def]
        split
        · split
          · rfl
          · rfl
        · rfl
  | members properties required dependencies patterns rest =>
      cases v with
      | object entries =>
          rw [Check.jobs, Check.jobs, List.map_append, List.map_flatMap, List.map_flatMap]
          refine congrArg₂ _ (congrArg (List.flatMap · _) (funext fun key => ?_))
            (congrArg (List.flatMap · _) (funext fun entry => ?_))
          · exact Job.ofKey_under p uri properties required dependencies entries path key
          · exact Job.ofMember_under p uri properties patterns rest path entry
      | _ => rfl

theorem Node.jobs_under (p : String) (node : Node) (v : Json) (path : String) :
    node.jobs v (p ++ path) = (node.jobs v path).map (Job.under p) := by
  cases node with
  | accept => rfl
  | reject uri => rfl
  | reference target => rfl
  | schema head branches allOf anyOf oneOf negated =>
      have hchecks : ofChecks head branches v (p ++ path)
          = (ofChecks head branches v path).map (Job.under p) := by
        rw [ofChecks, ofChecks]
        split
        · rw [List.map_flatMap]
          exact congrArg (List.flatMap · _)
            (funext fun check => check.jobs_under p head.uri v path)
        · rfl
      rw [jobs, jobs, Head.opening_under, Head.closing_under, hchecks, List.map_cons,
        List.map_append, List.map_append, List.map_map]
      rfl

/-! ### Evaluation at another path -/

/-- Calls find the same with a path in front. -/
structure Environment.Moved (p : String) (env env' : Environment) : Prop where
  call : ∀ target v path,
    env'.call target v (p ++ path) = (env.call target v path).map (Findings.under p)
  unicodeLength : env'.unicodeLength = env.unicodeLength

section Evaluation

variable {p : String} {env env' : Environment}

theorem Findings.map_both (p : String) (f g : Option Findings) :
    (both f g).map (under p) = both (f.map (under p)) (g.map (under p)) := by
  cases f with
  | none => rfl
  | some found =>
      cases g with
      | none => rfl
      | some more => exact congrArg some List.map_append

theorem Node.evaluateEach_under {nodes : List Node} {v : Json} {path : String}
    (h : ∀ node ∈ nodes,
      node.evaluate env' v (p ++ path) = (node.evaluate env v path).map (Findings.under p)) :
    evaluateEach env' nodes v (p ++ path)
      = (evaluateEach env nodes v path).map (List.map (Findings.under p)) := by
  induction nodes with
  | nil => rfl
  | cons node rest ih =>
      rw [evaluateEach, evaluateEach, h node List.mem_cons_self,
        ih (fun other hother => h other (List.mem_cons_of_mem _ hother))]
      cases node.evaluate env v path with
      | none => rfl
      | some found =>
          cases evaluateEach env rest v path with
          | none => rfl
          | some more => rfl

namespace Job

theorem perform_under (henv : Environment.Moved p env env') (job : Job)
    (h : ∀ sub w place, job.Applies sub w place →
      sub.evaluate env' w (p ++ place) = (sub.evaluate env w place).map (Findings.under p)) :
    (job.under p).perform env' = (job.perform env).map (Findings.under p) := by
  cases job with
  | find found => rfl
  | judge a uri v path =>
      rw [under, perform, perform, henv.unicodeLength]
      cases hviolation : a.violation? env.unicodeLength v with
      | none => rfl
      | some violation =>
          have hflat := Assertion.branches_of_violation? hviolation
          simp only [Option.map_some, Option.toList_some, Findings.under, List.map_singleton,
            Finding.under_violation hflat]
  | call target v path => exact henv.call target v path
  | apply node v path => exact h node v path .apply
  | anyOf head nodes v path =>
      have heach := Node.evaluateEach_under (fun node hnode => h node v path (.anyOf hnode))
      rw [under, perform, perform, heach, Option.map_map, Option.map_map]
      exact congrArg (Option.map · _) (funext (head.anyOf_under p path))
  | oneOf head nodes v path =>
      have heach := Node.evaluateEach_under (fun node hnode => h node v path (.oneOf hnode))
      rw [under, perform, perform, heach, Option.map_map, Option.map_map]
      exact congrArg (Option.map · _) (funext (head.oneOf_under p path))
  | negated head node v path =>
      cases node with
      | none => rfl
      | some sub =>
          rw [under, perform, perform, Node.evaluateNegated, Node.evaluateNegated,
            h sub v path .negated]
          cases sub.evaluate env v path with
          | none => rfl
          | some found => exact congrArg some (head.negated_under p path (some found))

theorem performAll_under {jobs : List Job}
    (h : ∀ job ∈ jobs, (job.under p).perform env' = (job.perform env).map (Findings.under p)) :
    performAll env' (jobs.map (under p)) = (performAll env jobs).map (Findings.under p) := by
  induction jobs with
  | nil => rfl
  | cons job rest ih =>
      rw [List.map_cons, performAll_cons, performAll_cons, Findings.map_both,
        h job List.mem_cons_self,
        ih (fun other hother => h other (List.mem_cons_of_mem _ hother))]

end Job

theorem Node.evaluate_under (henv : Environment.Moved p env env') (node : Node) (v : Json)
    (path : String) :
    node.evaluate env' v (p ++ path) = (node.evaluate env v path).map (Findings.under p) := by
  induction node using below_induction generalizing v path with
  | h node ih =>
      rw [evaluate_eq, evaluate_eq, jobs_under]
      refine Job.performAll_under (fun job hjob => job.perform_under henv ?_)
      intro sub w place happlies
      exact ih sub ((staysOn_of_mem_jobs hjob).of_applies happlies).1 w place

end Evaluation

/-! ### States at another path -/

namespace PathMap

def under {α : Type} (p : String) (m : PathMap α) : PathMap α :=
  m.map (fun e => (p ++ e.1, e.2))

variable {α : Type} (p : String)

theorem get?_under (m : PathMap α) (path : String) :
    Table.get? (m.under p) (p ++ path) = Table.get? m path := by
  induction m with
  | nil => rfl
  | cons first rest ih =>
      obtain ⟨k, xs⟩ := first
      show (if p ++ k = p ++ path then _ else Table.get? (under p rest) _) = _
      rw [ih, Table.get?_cons]
      exact if_congr ⟨String.append_left_injective, congrArg (p ++ ·)⟩ rfl rfl

theorem insert_under (m : PathMap α) (path : String) (xs : List α) :
    Table.insert (m.under p) (p ++ path) xs = under p (Table.insert m path xs) := by
  induction m with
  | nil => rfl
  | cons first rest ih =>
      obtain ⟨k, ys⟩ := first
      show (if p ++ k = p ++ path then _ else _ :: Table.insert (under p rest) _ xs)
        = under p (if k = path then _ else _)
      rw [ih]
      by_cases hk : k = path
      · rw [if_pos hk, if_pos (congrArg (p ++ ·) hk)]
        rfl
      · rw [if_neg hk, if_neg (fun h => hk (String.append_left_injective h))]
        rfl

theorem add_under [DecidableEq α] (m : PathMap α) (path : String) (x : α) :
    (m.under p).add (p ++ path) x = (m.add path x).under p := by
  rw [add, add, entries, entries, get?_under, insert_under]
  split
  · rfl
  · rfl

end PathMap

namespace ValidationState

/-- The state with a path in front of those of its errors and of all keys of its maps. -/
def under (p : String) (s : ValidationState) : ValidationState where
  errors := s.errors.map (ValidationError.under p)
  schemas := s.schemas.map (PathMap.under p)
  links := s.links.map (PathMap.under p)
  missing := s.missing.map (PathMap.under p)

variable (p : String) (s : ValidationState)

theorem fresh_under : s.fresh.under p = s.fresh := by
  rw [under, fresh, Option.map_map, Option.map_map, Option.map_map]
  rfl

/-- One of the maps takes an entry before or after it is moved. -/
theorem map_add_under {α : Type} [DecidableEq α] (m : Option (PathMap α)) (path : String) (x : α) :
    (m.map (PathMap.under p)).map (fun m => m.add (p ++ path) x)
      = (m.map (fun m => m.add path x)).map (PathMap.under p) := by
  rw [Option.map_map, Option.map_map]
  exact congrArg (Option.map · m) (funext fun m => m.add_under p path x)

theorem record_under (x : Finding) : (s.under p).record (x.under p) = (s.record x).under p := by
  cases x with
  | error e =>
      rw [Finding.under, record, record, under, under, List.map_append]
      rfl
  | schema path uri =>
      rw [Finding.under, record, record, under, under, map_add_under]
  | link path l =>
      rw [Finding.under, record, record, under, under, map_add_under]
  | missing path uri =>
      rw [Finding.under, record, record, under, under, map_add_under]

theorem recordAll_under (fs : Findings) :
    (s.under p).recordAll (fs.under p) = (s.recordAll fs).under p := by
  induction fs generalizing s with
  | nil => rfl
  | cons x rest ih =>
      rw [Findings.under, List.map_cons, recordAll, List.foldl_cons, record_under]
      exact ih (s.record x)

end ValidationState

/-! ### Runs at another path -/

namespace Snapshot

variable (s : Snapshot) (p : String)

/-- Calls that are active, with a path in front. -/
def activeUnder (active : List ActiveCall) : List ActiveCall :=
  active.map (fun a => (a.1, p ++ a.2))

theorem contains_activeUnder (active : List ActiveCall) (uri path : String) :
    (activeUnder p active).contains (uri, p ++ path) = active.contains (uri, path) := by
  rw [Bool.eq_iff_iff, List.contains_iff_mem, List.contains_iff_mem, activeUnder, List.mem_map]
  constructor
  · intro h
    obtain ⟨⟨uri', place⟩, hmem, heq⟩ := h
    obtain ⟨rfl, hplace⟩ := Prod.mk.inj heq
    rwa [← String.append_left_injective hplace]
  · exact fun h => ⟨(uri, path), h, rfl⟩

theorem call_under (depth : Nat) (active : List ActiveCall) (target : String) (v : Json)
    (path : String) :
    s.call depth (activeUnder p active) target v (p ++ path)
      = (s.call depth active target v path).map (Findings.under p) := by
  induction depth generalizing active target v path with
  | zero => rfl
  | succ depth ih =>
      rw [call, call]
      cases s.target? target with
      | none => rfl
      | some entry =>
          cases entry with
          | circular chain => rfl
          | compiled schema =>
              dsimp only
              rw [contains_activeUnder]
              split
              · rfl
              · have hmoved : Environment.Moved p (s.below depth ((schema.uri, path) :: active))
                    (s.below depth (activeUnder p ((schema.uri, path) :: active))) :=
                  ⟨fun target v place => ih ((schema.uri, path) :: active) target v place, rfl⟩
                exact Node.evaluate_under hmoved schema.node v path

theorem findings_under (uri : String) (v : Json) (path : String) :
    s.findings uri v (p ++ path) = (s.findings uri v path).under p := by
  have hcall := s.call_under p (s.depthBound v) [] (SchemaUri.normalize uri) v path
  rw [findings, findings]
  cases hfound : s.call (s.depthBound v) [] (SchemaUri.normalize uri) v path with
  | none =>
      rw [hfound] at hcall
      exact congrArg (Option.getD · []) hcall
  | some found =>
      rw [hfound] at hcall
      exact congrArg (Option.getD · []) hcall

/-- A run does not depend on where it is started. -/
theorem run_under (uri : String) (v : Json) (path : String) (state : ValidationState) :
    s.run uri v (p ++ path) (state.under p) = (s.run uri v path state).under p := by
  rw [run, run, findings_under, ValidationState.recordAll_under]

end Snapshot

end HyperSchema
