import HyperSchema.Proofs.Schema.Branches
import HyperSchema.Proofs.Schema.Reading
import Mathlib.Data.List.Permutation
import Mathlib.Data.List.Sort

/-!
# Dispatch by type

The checks of a schema can be sorted into branches in two steps: types whose checks are equal are
merged, and the branches are put in the order of how many types they serve. Checks of different
types are never equal, so that only types without checks are merged; this is why branches need not
compare checks.

A value then runs the checks of the first branch that serves its type or is the last. These are the
checks read for its type, because every type that is allowed is served by one branch and no other
type is served by any.
-/

namespace HyperSchema

/-- Equality of assertions. Patterns are equal when they were read from the same text. -/
def Assertion.alike : Assertion → Assertion → Bool
  | .integer, .integer => true
  | .multipleOf divisor, .multipleOf divisor' => divisor.same divisor'
  | .minimum limit exclusive, .minimum limit' exclusive' =>
    limit.same limit' && exclusive == exclusive'
  | .maximum limit exclusive, .maximum limit' exclusive' =>
    limit.same limit' && exclusive == exclusive'
  | .minLength limit, .minLength limit' => limit == limit'
  | .maxLength limit, .maxLength limit' => limit == limit'
  | .pattern p, .pattern p' => p.source == p'.source
  | .minItems limit, .minItems limit' => limit == limit'
  | .maxItems limit, .maxItems limit' => limit == limit'
  | .uniqueItems, .uniqueItems => true
  | .minProperties limit, .minProperties limit' => limit == limit'
  | .maxProperties limit, .maxProperties limit' => limit == limit'
  | _, _ => false

def Assertion.kind : Assertion → Kind
  | .integer => .number
  | .multipleOf _ => .number
  | .minimum _ _ => .number
  | .maximum _ _ => .number
  | .minLength _ => .string
  | .maxLength _ => .string
  | .pattern _ => .string
  | .minItems _ => .array
  | .maxItems _ => .array
  | .uniqueItems => .array
  | .minProperties _ => .object
  | .maxProperties _ => .object

theorem Assertion.kind_eq_of_alike {a a' : Assertion} (h : a.alike a' = true) :
    a.kind = a'.kind := by
  unfold Assertion.alike at h
  split at h <;> first | rfl | cases h

namespace Check

variable {sub : Check → Check → Bool}

/-- Equality of checks. Those that apply schemas are equal in form and by their content, which is
compared in some way. -/
def alike (sub : Check → Check → Bool) : Check → Check → Bool
  | .assertion a, .assertion a' => a.alike a'
  | .items node, .items node' => sub (.items node) (.items node')
  | .tuple nodes rest, .tuple nodes' rest' => sub (.tuple nodes rest) (.tuple nodes' rest')
  | .members properties required dependencies patterns rest,
    .members properties' required' dependencies' patterns' rest' =>
    sub (.members properties required dependencies patterns rest)
      (.members properties' required' dependencies' patterns' rest')
  | _, _ => false

def kind : Check → Kind
  | .assertion a => a.kind
  | .items _ => .array
  | .tuple _ _ => .array
  | .members _ _ _ _ _ => .object

theorem kind_eq_of_alike {check check' : Check} (h : alike sub check check' = true) :
    check.kind = check'.kind := by
  unfold alike at h
  split at h
  · exact Assertion.kind_eq_of_alike h
  · rfl
  · rfl
  · rfl
  · cases h

/-- Equality of lists of checks. -/
def allAlike (sub : Check → Check → Bool) (own own' : List Check) : Bool :=
  own.isEqv own' (alike sub)

theorem allAlike_eq {own own' : List Check} {kind kind' : Kind} (hne : kind ≠ kind')
    (hown : ∀ check ∈ own, check.kind = kind) (hown' : ∀ check ∈ own', check.kind = kind') :
    allAlike sub own own' = (own.isEmpty && own'.isEmpty) := by
  cases own with
  | nil => cases own' <;> rfl
  | cons check rest =>
      cases own' with
      | nil => rfl
      | cons check' rest' =>
          have hdiffer : alike sub check check' = false := by
            by_contra hsame
            rw [Bool.not_eq_false] at hsame
            refine hne ?_
            rw [← hown check List.mem_cons_self, ← hown' check' List.mem_cons_self]
            exact kind_eq_of_alike hsame
          rw [allAlike, List.isEqv, hdiffer]
          rfl

end Check

namespace Node

variable {formats : Table Format} {uri : String} {keywords : Table Json}
  {found : List (List Kind × List Check)} {lists : List (Kind × List Check)}

/-! ### The checks of a type -/

theorem kind_of_mem_map {α : Type} {written : Option α} {assertion : α → Assertion} {kind : Kind}
    (h : ∀ x, (assertion x).kind = kind) :
    ∀ a ∈ (written.map assertion).toList, a.kind = kind := by
  intro a ha
  obtain ⟨x, -, rfl⟩ := Option.map_eq_some_iff.1 (Option.mem_toList.1 ha)
  exact h x

theorem kind_of_mem_numberAssertions {integer : Bool} :
    ∀ a ∈ numberAssertions keywords integer, a.kind = .number := by
  rw [numberAssertions, List.forall_mem_append, List.forall_mem_append, List.forall_mem_append]
  refine ⟨⟨⟨?_, kind_of_mem_map fun _ => rfl⟩, kind_of_mem_map fun _ => rfl⟩,
    kind_of_mem_map fun _ => rfl⟩
  split <;> simp [Assertion.kind]

theorem kind_of_mem_stringAssertions {assertions : List Assertion}
    (h : stringAssertions uri keywords = .ok assertions) :
    ∀ a ∈ assertions, a.kind = .string := by
  have hlengths : ∀ a ∈ ((limit? keywords "minLength").map Assertion.minLength).toList
      ++ ((limit? keywords "maxLength").map Assertion.maxLength).toList, a.kind = .string :=
    List.forall_mem_append.2 ⟨kind_of_mem_map fun _ => rfl, kind_of_mem_map fun _ => rfl⟩
  rw [stringAssertions] at h
  split at h
  · obtain ⟨p, -, h⟩ := Except.exists_of_bind_eq_ok h
    obtain rfl := Except.ok.inj h
    exact List.forall_mem_append.2 ⟨hlengths, fun a ha => List.mem_singleton.1 ha ▸ rfl⟩
  · obtain rfl := Except.ok.inj h
    exact hlengths

theorem kind_of_mem_checks {integer : Bool} {kind : Kind} {own : List Check}
    (h : checks formats uri keywords integer kind = .ok own) :
    ∀ check ∈ own, check.kind = kind := by
  have hassertions : ∀ {assertions : List Assertion} {kind : Kind},
      (∀ a ∈ assertions, a.kind = kind) →
        ∀ check ∈ assertions.map Check.assertion, check.kind = kind := by
    intro assertions kind hall
    rw [List.forall_mem_map]
    exact hall
  have hlimits : ∀ {low high : Option Nat} {least most : Nat → Assertion} {kind : Kind},
      (∀ n, (least n).kind = kind) → (∀ n, (most n).kind = kind) →
        ∀ a ∈ (low.map least).toList ++ (high.map most).toList, a.kind = kind :=
    fun hleast hmost => List.forall_mem_append.2 ⟨kind_of_mem_map hleast, kind_of_mem_map hmost⟩
  cases kindReads_of_checks h with
  | null => simp
  | boolean => simp
  | number => exact hassertions kind_of_mem_numberAssertions
  | string hread => exact hassertions (kind_of_mem_stringAssertions hread)
  | array hitems =>
      rw [List.forall_mem_append, List.forall_mem_append]
      refine ⟨⟨hassertions (hlimits (fun _ => rfl) fun _ => rfl), ?_⟩, hassertions ?_⟩
      · cases itemReads_of_itemChecks hitems <;> simp [Check.kind]
      · split <;> simp [Assertion.kind]
  | object hrules =>
      rw [List.forall_mem_append]
      refine ⟨hassertions (hlimits (fun _ => rfl) fun _ => rfl), ?_⟩
      cases memberReads_of_memberChecks hrules <;> simp [Check.kind]

/-! ### Merging and sorting -/

/-- Adds a type to the first branch with equal checks, or as a branch of its own. -/
def mergeBranch (sub : Check → Check → Bool) (kind : Kind) (own : List Check) :
    List (List Kind × List Check) → List (List Kind × List Check)
  | [] => [([kind], own)]
  | (kinds, present) :: rest =>
    if Check.allAlike sub present own then (kinds ++ [kind], present) :: rest
    else (kinds, present) :: mergeBranch sub kind own rest

/-- The branches for checks given type by type: types with equal checks are merged, and the branches
sorted by the number of their types. -/
def dispatch (sub : Check → Check → Bool) (lists : List (Kind × List Check)) :
    List (List Kind × List Check) :=
  (lists.foldl (fun found e => mergeBranch sub e.1 e.2 found) []).insertionSort
    (fun branch other => branch.1.length ≤ other.1.length)

theorem mergeBranch_eq_addBranch {sub : Check → Check → Bool} {kind : Kind} {own : List Check}
    (h : ∀ branch ∈ found,
      Check.allAlike sub branch.2 own = (branch.2.isEmpty && own.isEmpty)) :
    mergeBranch sub kind own found = addBranch kind own found := by
  induction found with
  | nil => rfl
  | cons branch rest ih =>
      obtain ⟨kinds, present⟩ := branch
      rw [List.forall_mem_cons] at h
      rw [mergeBranch, addBranch, h.1, ih h.2]

theorem insertionSort_eq (found : List (List Kind × List Check)) :
    found.insertionSort (fun branch other => branch.1.length ≤ other.1.length)
      = found.foldr insertBranch [] := by
  have hinsert : ∀ (branch : List Kind × List Check) (found : List (List Kind × List Check)),
      found.orderedInsert (fun branch other => branch.1.length ≤ other.1.length) branch
        = insertBranch branch found := by
    intro branch found
    induction found with
    | nil => rfl
    | cons other rest ih => rw [List.orderedInsert, insertBranch, ih]
  induction found with
  | nil => rfl
  | cons branch rest ih => rw [List.insertionSort_cons, List.foldr_cons, ih, hinsert]

/-- Types are merged only if neither has checks. -/
theorem foldl_mergeBranch_eq {done rest : List (Kind × List Check)} (hsorted : Sorted done found)
    (hkinds : ∀ entry ∈ done ++ rest, ∀ check ∈ entry.2, check.kind = entry.1)
    (hnodup : ((done ++ rest).map Prod.fst).Nodup) (sub : Check → Check → Bool) :
    rest.foldl (fun found e => mergeBranch sub e.1 e.2 found) found
      = rest.foldl (fun found e => addBranch e.1 e.2 found) found := by
  induction rest generalizing done found with
  | nil => rfl
  | cons entry rest ih =>
      have hmerge : mergeBranch sub entry.1 entry.2 found = addBranch entry.1 entry.2 found := by
        refine mergeBranch_eq_addBranch fun branch hbranch => ?_
        obtain ⟨kind, hkind⟩ := List.exists_mem_of_ne_nil _ (hsorted.2.2 branch hbranch)
        have hdone := hsorted.2.1 branch hbranch kind hkind
        have hne : kind ≠ entry.1 := by
          rw [List.map_append, List.nodup_append] at hnodup
          exact hnodup.2.2 kind (List.mem_map_of_mem hdone) entry.1 List.mem_cons_self
        exact Check.allAlike_eq hne (hkinds _ (List.mem_append_left _ hdone))
          (hkinds _ (List.mem_append_right _ List.mem_cons_self))
      rw [List.append_cons] at hkinds hnodup
      rw [List.foldl_cons, List.foldl_cons, hmerge]
      exact ih (sorted_addBranch hsorted entry.1 entry.2) hkinds hnodup

theorem branches_eq_dispatch (hkinds : ∀ entry ∈ lists, ∀ check ∈ entry.2, check.kind = entry.1)
    (hnodup : (lists.map Prod.fst).Nodup) (sub : Check → Check → Bool) :
    branches lists = dispatch sub lists := by
  rw [dispatch, insertionSort_eq, branches, foldl_mergeBranch_eq sorted_nil hkinds hnodup]

/-! ### One branch for each type -/

theorem flatMap_fst_addBranch_perm (kind : Kind) (own : List Check) :
    ((addBranch kind own found).flatMap Prod.fst).Perm (found.flatMap Prod.fst ++ [kind]) := by
  induction found with
  | nil => exact .refl _
  | cons other rest ih =>
      obtain ⟨kinds, present⟩ := other
      rw [addBranch]
      split
      · rw [List.flatMap_cons, List.flatMap_cons, List.append_assoc, List.append_assoc]
        exact List.perm_append_comm.append_left kinds
      · rw [List.flatMap_cons, List.flatMap_cons, List.append_assoc]
        exact ih.append_left kinds

/-- The types in the branches are those that checks are given for. -/
theorem flatMap_fst_branches_perm (lists : List (Kind × List Check)) :
    ((branches lists).flatMap Prod.fst).Perm (lists.map Prod.fst) := by
  have hadded : ∀ (lists : List (Kind × List Check)) (found : List (List Kind × List Check)),
      ((lists.foldl (fun found e => addBranch e.1 e.2 found) found).flatMap Prod.fst).Perm
        (found.flatMap Prod.fst ++ lists.map Prod.fst) := by
    intro lists
    induction lists with
    | nil =>
        intro found
        rw [List.map_nil, List.append_nil]
        exact .refl _
    | cons entry rest ih =>
        intro found
        rw [List.foldl_cons, List.map_cons, List.append_cons]
        exact (ih _).trans ((flatMap_fst_addBranch_perm entry.1 entry.2).append_right _)
  exact ((foldr_insertBranch_perm _).flatMap_right _).trans (hadded lists [])

theorem countP_contains_eq (h : (found.flatMap Prod.fst).Nodup) (kind : Kind) :
    found.countP (fun branch => branch.1.contains kind) = (found.flatMap Prod.fst).count kind := by
  induction found with
  | nil => rfl
  | cons branch rest ih =>
      rw [List.flatMap_cons, List.nodup_append] at h
      rw [List.countP_cons, List.flatMap_cons, List.count_append, ih h.2.1, h.1.count, Nat.add_comm]
      simp only [List.contains_iff_mem]

/-! ### Plain dispatch -/

/-- The checks of a compiled schema that a value of some type runs. -/
def running (head : Head) (found : List (List Kind × List Check)) (kind : Kind) : List Check :=
  if head.allowed.contains kind then chosen kind found else []

/-- The checks that plain dispatch runs: those read for the type, if the type is allowed. -/
def plainChecks (formats : Table Format) (uri : String) (keywords : Table Json) (kind : Kind) :
    Except PatternError (List Check) :=
  let head := head formats uri keywords
  if head.allowed.contains kind then
    checks formats uri keywords (integersOnly head.declared) kind
  else .ok []

def evaluateRunning (env : Environment) (head : Head) (own : List Check)
    (allOf anyOf oneOf : List Node) (negated : Option Node) (v : Json) (path : String) :
    Option Findings := do
  let typed ← evaluateChecks env head.uri own v path
  let allResults ← evaluateEach env allOf v path
  let anyResults ← evaluateEach env anyOf v path
  let oneResults ← evaluateEach env oneOf v path
  let negatedResult ← evaluateNegated env negated v path
  return head.opening v path ++ typed ++ allResults.flatten ++ head.anyOf path anyResults
    ++ head.oneOf path oneResults ++ head.negated path negatedResult ++ head.closing v path

theorem evaluate_eq_evaluateRunning (env : Environment) (head : Head)
    (found : List (List Kind × List Check)) (allOf anyOf oneOf : List Node) (negated : Option Node)
    (v : Json) (path : String) :
    evaluate env (.schema head found allOf anyOf oneOf negated) v path
      = evaluateRunning env head (running head found v.kind) allOf anyOf oneOf negated v path := by
  rw [evaluate, evaluateRunning, running]
  split
  · rw [evaluateBranches_eq_chosen]
  · rw [evaluateChecks]

/-- A compiled schema has the branches that merging and sorting come to, whatever equality of the
schemas in the checks they use, and a value runs the checks that plain dispatch runs. Every type
that is allowed is in one branch, and no other type in any. -/
theorem dispatch_is_plain (sub : Check → Check → Bool) {head : Head} {allOf anyOf oneOf : List Node}
    {negated : Option Node} (h : ofSchema formats uri (.object keywords)
      = .ok (.schema head found allOf anyOf oneOf negated)) :
    (∃ lists, kindChecks formats uri keywords head.allowed (integersOnly head.declared) = .ok lists
        ∧ found = dispatch sub lists)
      ∧ (∀ kind, plainChecks formats uri keywords kind = .ok (running head found kind))
      ∧ (∀ env v path, evaluate env (.schema head found allOf anyOf oneOf negated) v path
        = evaluateRunning env head (running head found v.kind) allOf anyOf oneOf negated v path)
      ∧ ∀ kind, found.countP (fun branch => branch.1.contains kind)
        = if kind ∈ head.allowed then 1 else 0 := by
  cases readAs_of_ofSchema h with
  | @schema _ lists _ _ _ _ href hlists =>
      have hkeys : lists.map Prod.fst = (Node.head formats uri keywords).allowed := by
        rw [← List.forall₂_eq_eq_eq, List.forall₂_map_left_iff]
        exact (kindChecks_forall₂ hlists).imp fun _ _ h => h.1
      have hnodup : (lists.map Prod.fst).Nodup := hkeys ▸ nodup_allowedKinds _
      have hown := (kindChecks_spec hlists).2
      have hkinds : ∀ entry ∈ lists, ∀ check ∈ entry.2, check.kind = entry.1 :=
        fun entry hentry => kind_of_mem_checks (hown entry hentry)
      refine ⟨⟨lists, hlists, branches_eq_dispatch hkinds hnodup sub⟩, fun kind => ?_,
        fun env v path => evaluate_eq_evaluateRunning env _ _ _ _ _ _ v path, fun kind => ?_⟩
      · rw [plainChecks, running]
        split
        · next hallowed =>
          -- the branch chosen serves the type, so that its checks are those read for the type
          obtain ⟨own, hmem⟩ := (kindChecks_spec hlists).1 kind (List.contains_iff_mem.1 hallowed)
          have hsorted := sorted_branches lists
          obtain ⟨branch, hbranch, hkind, hchosen⟩ := exists_mem_of_chosen (hsorted.1 _ hmem)
          rw [← hchosen]
          exact hown _ (hsorted.2.1 branch hbranch kind hkind)
        · rfl
      · have hperm := flatMap_fst_branches_perm lists
        rw [countP_contains_eq (hperm.nodup_iff.2 hnodup), hperm.count_eq, hnodup.count, hkeys]

def unmixed : Table Json :=
  [("type", .array [.string "null", .string "integer", .string "array", .string "boolean"]),
    ("uniqueItems", .bool true)]

def unmixedHead : Head :=
  ⟨"s", [.null, .boolean, .number, .array], ["null", "integer", "array", "boolean"], none, none, []⟩

def unmixedBranches : List (List Kind × List Check) :=
  [([.number], [.assertion .integer]), ([.array], [.assertion .uniqueItems]),
    ([.null, .boolean], [])]

theorem dispatch_is_plain_unmixed :
    (∃ lists, kindChecks [] "s" unmixed unmixedHead.allowed true = .ok lists
        ∧ unmixedBranches = dispatch (fun _ _ => false) lists)
      ∧ plainChecks [] "s" unmixed .array = .ok [.assertion .uniqueItems]
      ∧ plainChecks [] "s" unmixed .boolean = .ok []
      ∧ plainChecks [] "s" unmixed .object = .ok [] := by
  have hread : ofSchema [] "s" (.object unmixed)
      = .ok (.schema unmixedHead unmixedBranches [] [] [] none) := by cbv
  obtain ⟨hbranches, hplain, -, -⟩ := dispatch_is_plain (fun _ _ => false) hread
  exact ⟨hbranches, hplain .array, hplain .boolean, hplain .object⟩

end Node

end HyperSchema
