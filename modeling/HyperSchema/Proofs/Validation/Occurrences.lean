import HyperSchema.Validation.Node

/-!
# The nodes within a node

A node has other nodes in many places: under the keywords that combine schemas, and in the checks
for single types. Wherever a reference stands in it, at whatever depth, its target is among those
that are collected when the schema is read, and these are all that are collected.
-/

namespace HyperSchema

inductive Check.Applies : Check → Node → Prop where
  | items {node} : Applies (.items node) node
  | tuple {nodes rest node} : node ∈ nodes → Applies (.tuple nodes rest) node
  | surplus {nodes node} : Applies (.tuple nodes (.schema node)) node
  | property {properties required dependencies patterns rest key node} :
      (key, node) ∈ properties →
        Applies (.members properties required dependencies patterns rest) node
  | dependency {properties required dependencies patterns rest key node} :
      (key, Dependency.schema node) ∈ dependencies →
        Applies (.members properties required dependencies patterns rest) node
  | pattern {properties required dependencies patterns rest pattern node} :
      (pattern, node) ∈ patterns →
        Applies (.members properties required dependencies patterns rest) node
  | others {properties required dependencies patterns node} :
      Applies (.members properties required dependencies patterns (.schema node)) node

namespace Node

def uri? : Node → Option String
  | .reject uri => some uri
  | .schema head _ _ _ _ _ => some head.uri
  | _ => none

inductive Below : Node → Node → Prop where
  | check {head branches allOf anyOf oneOf negated kinds checks check node} :
      (kinds, checks) ∈ branches → check ∈ checks → Check.Applies check node →
        Below (.schema head branches allOf anyOf oneOf negated) node
  | allOf {head branches allOf anyOf oneOf negated node} : node ∈ allOf →
      Below (.schema head branches allOf anyOf oneOf negated) node
  | anyOf {head branches allOf anyOf oneOf negated node} : node ∈ anyOf →
      Below (.schema head branches allOf anyOf oneOf negated) node
  | oneOf {head branches allOf anyOf oneOf negated node} : node ∈ oneOf →
      Below (.schema head branches allOf anyOf oneOf negated) node
  | negated {head branches allOf anyOf oneOf node} :
      Below (.schema head branches allOf anyOf oneOf (some node)) node

inductive Within (whole : Node) : Node → Prop where
  | whole : Within whole whole
  | inner {node sub : Node} (h : Within whole node) (hbelow : Below node sub) : Within whole sub

variable {node whole : Node} {target : String}

/-! ### A node below is smaller -/

theorem sizeOf_lt_of_applies {check : Check} (h : check.Applies node) :
    sizeOf node < sizeOf check := by
  cases h with
  | items => simp
  | tuple hnode =>
      have hlt := List.sizeOf_lt_of_mem hnode
      rw [Check.tuple.sizeOf_spec]
      omega
  | surplus =>
      rw [Check.tuple.sizeOf_spec, Additional.schema.sizeOf_spec]
      omega
  | property hnode =>
      have hlt := List.sizeOf_lt_of_mem hnode
      rw [Prod.mk.sizeOf_spec] at hlt
      rw [Check.members.sizeOf_spec]
      omega
  | dependency hnode =>
      have hlt := List.sizeOf_lt_of_mem hnode
      rw [Prod.mk.sizeOf_spec, Dependency.schema.sizeOf_spec] at hlt
      rw [Check.members.sizeOf_spec]
      omega
  | pattern hnode =>
      have hlt := List.sizeOf_lt_of_mem hnode
      rw [Prod.mk.sizeOf_spec] at hlt
      rw [Check.members.sizeOf_spec]
      omega
  | others =>
      rw [Check.members.sizeOf_spec, Additional.schema.sizeOf_spec]
      omega

theorem Below.sizeOf_lt (h : Below whole node) : sizeOf node < sizeOf whole := by
  cases h with
  | check hbranch hcheck happlies =>
      have hbranches := List.sizeOf_lt_of_mem hbranch
      have hchecks := List.sizeOf_lt_of_mem hcheck
      have hnode := sizeOf_lt_of_applies happlies
      rw [Prod.mk.sizeOf_spec] at hbranches
      rw [Node.schema.sizeOf_spec]
      omega
  | allOf hnode =>
      have hlt := List.sizeOf_lt_of_mem hnode
      rw [Node.schema.sizeOf_spec]
      omega
  | anyOf hnode =>
      have hlt := List.sizeOf_lt_of_mem hnode
      rw [Node.schema.sizeOf_spec]
      omega
  | oneOf hnode =>
      have hlt := List.sizeOf_lt_of_mem hnode
      rw [Node.schema.sizeOf_spec]
      omega
  | negated =>
      rw [Node.schema.sizeOf_spec, Option.some.sizeOf_spec]
      omega

theorem below_induction {P : Node → Prop}
    (h : ∀ node, (∀ sub, Below node sub → P sub) → P node) (node : Node) : P node := by
  induction node using (measure (fun node : Node => sizeOf node)).wf.induction with
  | h node ih => exact h node (fun sub hbelow => ih sub hbelow.sizeOf_lt)

/-! ### Targets are collected node by node -/

theorem targetsOfAll_eq (nodes : List Node) : targetsOfAll nodes = nodes.flatMap targets := by
  induction nodes with
  | nil => rfl
  | cons node rest ih => rw [targetsOfAll, ih, List.flatMap_cons]

theorem targetsOfProperties_eq (properties : List (String × Node)) :
    targetsOfProperties properties = properties.flatMap (fun p => p.2.targets) := by
  induction properties with
  | nil => rfl
  | cons first rest ih => rw [targetsOfProperties, ih, List.flatMap_cons]

theorem targetsOfDependencies_eq (dependencies : List (String × Dependency)) :
    targetsOfDependencies dependencies
      = dependencies.flatMap (fun d => targetsOfDependency d.2) := by
  induction dependencies with
  | nil => rfl
  | cons first rest ih => rw [targetsOfDependencies, ih, List.flatMap_cons]

theorem targetsOfPatterns_eq (patterns : List (Pattern × Node)) :
    targetsOfPatterns patterns = patterns.flatMap (fun p => p.2.targets) := by
  induction patterns with
  | nil => rfl
  | cons first rest ih => rw [targetsOfPatterns, ih, List.flatMap_cons]

theorem targetsOfChecks_eq (checks : List Check) :
    targetsOfChecks checks = checks.flatMap targetsOfCheck := by
  induction checks with
  | nil => rfl
  | cons check rest ih => rw [targetsOfChecks, ih, List.flatMap_cons]

theorem targetsOfBranches_eq (branches : List (List Kind × List Check)) :
    targetsOfBranches branches = branches.flatMap (fun b => targetsOfChecks b.2) := by
  induction branches with
  | nil => rfl
  | cons first rest ih => rw [targetsOfBranches, ih, List.flatMap_cons]

theorem mem_targetsOfCheck {check : Check} (h : check.Applies node)
    (htarget : target ∈ node.targets) : target ∈ targetsOfCheck check := by
  cases h with
  | items => rwa [targetsOfCheck]
  | @tuple nodes _ _ hnode =>
      have hmem : target ∈ targetsOfAll nodes := by
        rw [targetsOfAll_eq]
        exact List.mem_flatMap_of_mem hnode htarget
      simp [targetsOfCheck, hmem]
  | surplus => simp [targetsOfCheck, targetsOfRest, htarget]
  | @property properties _ _ _ _ _ _ hnode =>
      have hmem : target ∈ targetsOfProperties properties := by
        rw [targetsOfProperties_eq]
        exact List.mem_flatMap_of_mem hnode htarget
      simp [targetsOfCheck, hmem]
  | @dependency _ _ dependencies _ _ _ _ hnode =>
      have hmem : target ∈ targetsOfDependencies dependencies := by
        rw [targetsOfDependencies_eq]
        exact List.mem_flatMap_of_mem hnode (by rwa [targetsOfDependency])
      simp [targetsOfCheck, hmem]
  | @pattern _ _ _ patterns _ _ _ hnode =>
      have hmem : target ∈ targetsOfPatterns patterns := by
        rw [targetsOfPatterns_eq]
        exact List.mem_flatMap_of_mem hnode htarget
      simp [targetsOfCheck, hmem]
  | others => simp [targetsOfCheck, targetsOfRest, htarget]

theorem Below.targets_subset (h : Below whole node) : node.targets ⊆ whole.targets := by
  have hlisted : ∀ {nodes : List Node}, node ∈ nodes → node.targets ⊆ targetsOfAll nodes := by
    intro nodes hnode target htarget
    rw [targetsOfAll_eq]
    exact List.mem_flatMap_of_mem hnode htarget
  intro target htarget
  cases h with
  | @check _ branches _ _ _ _ _ checks _ _ hbranch hcheck happlies =>
      have hchecks : target ∈ targetsOfChecks checks := by
        rw [targetsOfChecks_eq]
        exact List.mem_flatMap_of_mem hcheck (mem_targetsOfCheck happlies htarget)
      have hbranches : target ∈ targetsOfBranches branches := by
        rw [targetsOfBranches_eq]
        exact List.mem_flatMap_of_mem hbranch hchecks
      simp [targets, hbranches]
  | allOf hnode => simp [targets, hlisted hnode htarget]
  | anyOf hnode => simp [targets, hlisted hnode htarget]
  | oneOf hnode => simp [targets, hlisted hnode htarget]
  | negated => simp [targets, targetsOfNegated, htarget]

theorem Within.targets_subset (h : Within whole node) : node.targets ⊆ whole.targets := by
  induction h with
  | whole => exact List.Subset.refl _
  | inner _ hbelow ih => exact List.Subset.trans hbelow.targets_subset ih

theorem mem_targets_of_within (h : Within whole (.reference target)) : target ∈ whole.targets :=
  h.targets_subset (by simp [targets])

/-! ### Nothing else is collected -/

theorem exists_of_mem_targetsOfRest {rest : Additional} (h : target ∈ targetsOfRest rest) :
    ∃ node, rest = .schema node ∧ target ∈ node.targets := by
  cases rest with
  | allowed => cases h
  | forbidden => cases h
  | schema node => exact ⟨node, rfl, h⟩

theorem exists_of_mem_targetsOfCheck {check : Check} (h : target ∈ targetsOfCheck check) :
    ∃ node, check.Applies node ∧ target ∈ node.targets := by
  cases check with
  | assertion a => cases h
  | items node => exact ⟨node, .items, h⟩
  | tuple nodes rest =>
      rw [targetsOfCheck, targetsOfAll_eq] at h
      rcases List.mem_append.1 h with h | h
      · obtain ⟨node, hnode, htarget⟩ := List.mem_flatMap.1 h
        exact ⟨node, .tuple hnode, htarget⟩
      · obtain ⟨node, rfl, htarget⟩ := exists_of_mem_targetsOfRest h
        exact ⟨node, .surplus, htarget⟩
  | members properties required dependencies patterns rest =>
      rw [targetsOfCheck, targetsOfProperties_eq, targetsOfDependencies_eq, targetsOfPatterns_eq,
        List.append_assoc, List.append_assoc] at h
      rcases List.mem_append.1 h with h | h
      · obtain ⟨⟨key, node⟩, hnode, htarget⟩ := List.mem_flatMap.1 h
        exact ⟨node, .property hnode, htarget⟩
      · rcases List.mem_append.1 h with h | h
        · obtain ⟨⟨key, dependency⟩, hdependency, htarget⟩ := List.mem_flatMap.1 h
          cases dependency with
          | keys names => cases htarget
          | schema node => exact ⟨node, .dependency hdependency, htarget⟩
        · rcases List.mem_append.1 h with h | h
          · obtain ⟨⟨pattern, node⟩, hnode, htarget⟩ := List.mem_flatMap.1 h
            exact ⟨node, .pattern hnode, htarget⟩
          · obtain ⟨node, rfl, htarget⟩ := exists_of_mem_targetsOfRest h
            exact ⟨node, .others, htarget⟩

theorem exists_below_of_mem_targets (h : target ∈ whole.targets) :
    whole = .reference target ∨ ∃ node, Below whole node ∧ target ∈ node.targets := by
  cases whole with
  | accept => cases h
  | reject uri => cases h
  | reference other =>
      rw [targets, List.mem_singleton] at h
      exact .inl (h ▸ rfl)
  | schema head branches allOf anyOf oneOf negated =>
      right
      simp only [targets, targetsOfBranches_eq, targetsOfAll_eq, List.append_assoc] at h
      rcases List.mem_append.1 h with h | h
      · obtain ⟨⟨kinds, checks⟩, hbranch, h⟩ := List.mem_flatMap.1 h
        rw [targetsOfChecks_eq] at h
        obtain ⟨check, hcheck, h⟩ := List.mem_flatMap.1 h
        obtain ⟨node, happlies, htarget⟩ := exists_of_mem_targetsOfCheck h
        exact ⟨node, .check hbranch hcheck happlies, htarget⟩
      · rcases List.mem_append.1 h with h | h
        · cases negated with
          | none => cases h
          | some node => exact ⟨node, .negated, h⟩
        · rcases List.mem_append.1 h with h | h
          · obtain ⟨node, hnode, htarget⟩ := List.mem_flatMap.1 h
            exact ⟨node, .allOf hnode, htarget⟩
          · rcases List.mem_append.1 h with h | h
            · obtain ⟨node, hnode, htarget⟩ := List.mem_flatMap.1 h
              exact ⟨node, .anyOf hnode, htarget⟩
            · obtain ⟨node, hnode, htarget⟩ := List.mem_flatMap.1 h
              exact ⟨node, .oneOf hnode, htarget⟩

end Node

end HyperSchema
