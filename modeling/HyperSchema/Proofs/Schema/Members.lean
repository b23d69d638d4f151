import HyperSchema.Proofs.Schema.Items

/-!
# Schemas for members

The keywords that lead down to the members of an object. They are read into one check, which goes
through the keys that have rules and then through the members that are there; what is known of the
two parts has to be sorted by keyword again.
-/

namespace HyperSchema

open Schema (Satisfies)

namespace Node

variable {env : Environment} {uri path : String} {keywords : Table Json} {v : Json}

/-! ### Tables of schemas

Properties, patterns and dependencies are read from tables of schemas, entry by entry. -/

def PropertyAgrees (env : Environment) (p : String × Node) (entry : String × Json) : Prop :=
  p.1 = entry.1 ∧ p.2.Decides env entry.2

def PatternAgrees (env : Environment) (p : Pattern × Node) (entry : String × Json) : Prop :=
  Pattern.compile? entry.1 = some p.1 ∧ p.2.Decides env entry.2

def DependencyAgrees (env : Environment) (d : String × Dependency) (entry : String × Json) : Prop :=
  d.1 = entry.1 ∧ ∀ uri key members path, Verdict (evaluateDependent env uri d.2 key members path)
    ((∀ name ∈ Schema.dependentKeys entry.2, Table.has members name = true)
      ∧ Satisfies env.unicodeLength entry.2 (.object members))

variable {table : Table Json} {key : String} {members : Table Json}

theorem forall₂_of_namedNodes {properties : List (String × Node)}
    (hagrees : ∀ entry ∈ table, Agrees env entry.2)
    (h : namedNodes [] uri table = .ok properties) :
    List.Forall₂ (PropertyAgrees env) properties table :=
  forall₂_imp_of_mem (namedNodes_forall₂ h) (fun p entry hentry hread =>
    ⟨hread.1, hagrees entry hentry _ p.2 hread.2⟩)

theorem forall₂_of_patternNodes {patterns : List (Pattern × Node)}
    (hagrees : ∀ entry ∈ table, Agrees env entry.2)
    (h : patternNodes [] uri table = .ok patterns) :
    List.Forall₂ (PatternAgrees env) patterns table :=
  forall₂_imp_of_mem (patternNodes_forall₂ h) (fun p entry hentry hread =>
    ⟨hread.1, hagrees entry hentry _ p.2 hread.2⟩)

theorem missingKeys_passes_iff {names : List String} :
    Findings.passes (missingKeys uri path key members names) = true
      ↔ ∀ name ∈ names, Table.has members name = true := by
  rw [missingKeys, Findings.passes_map_violation, List.isEmpty_iff, List.filter_eq_nil_iff]
  simp

theorem forall₂_of_dependenciesOf {dependencies : List (String × Dependency)}
    (hagrees : ∀ entry ∈ table, Agrees env entry.2)
    (h : dependenciesOf [] uri table = .ok dependencies) :
    List.Forall₂ (DependencyAgrees env) dependencies table := by
  refine forall₂_imp_of_mem (dependenciesOf_forall₂ h) (fun d entry hentry hread => ?_)
  obtain ⟨name, dependency⟩ := d
  obtain ⟨hname, hreads⟩ := hread
  refine ⟨hname, fun uri' key members path => ?_⟩
  cases hreads with
  | keys hfalse hobject =>
      refine .of_passes ?_
      rw [missingKeys_passes_iff]
      exact (and_iff_left (Schema.satisfies_of_not_object _ _ hfalse hobject)).symm
  | @schema node hnone hnode =>
      refine (hagrees entry hentry _ node hnode (.object members) path).of_iff
        (and_iff_right ?_).symm
      rw [hnone]
      exact fun other hother => by cases hother

theorem evaluateProperty_verdict {properties : List (String × Node)}
    (h : List.Forall₂ (PropertyAgrees env) properties table) :
    Verdict (evaluateProperty env properties key v path)
      (∀ sub, Table.get? table key = some sub → Satisfies env.unicodeLength sub v) := by
  induction h with
  | nil => exact .accept (fun sub hsub => by simp at hsub)
  | @cons p entry _ _ hagrees _ ih =>
      obtain ⟨name, node⟩ := p
      obtain ⟨name', sub⟩ := entry
      obtain ⟨rfl, hdecides⟩ : name = name' ∧ node.Decides env sub := hagrees
      rw [evaluateProperty, Table.get?_cons]
      by_cases hname : name = key
      · rw [if_pos hname, if_pos hname]
        exact (hdecides v _).of_iff (by simp)
      · rw [if_neg hname, if_neg hname]
        exact ih

theorem evaluateDependency_verdict {dependencies : List (String × Dependency)}
    (h : List.Forall₂ (DependencyAgrees env) dependencies table) :
    Verdict (evaluateDependency env uri dependencies key members path)
      (∀ sub, Table.get? table key = some sub →
        (∀ name ∈ Schema.dependentKeys sub, Table.has members name = true)
          ∧ Satisfies env.unicodeLength sub (.object members)) := by
  induction h with
  | nil => exact .accept (fun sub hsub => by simp at hsub)
  | @cons d entry _ _ hagrees _ ih =>
      obtain ⟨name, dependency⟩ := d
      obtain ⟨name', sub⟩ := entry
      obtain ⟨hname', hdependent⟩ := hagrees
      obtain rfl : name = name' := hname'
      rw [evaluateDependency, Table.get?_cons]
      by_cases hname : name = key
      · rw [if_pos hname, if_pos hname]
        exact (hdependent uri key members path).of_iff (by simp)
      · rw [if_neg hname, if_neg hname]
        exact ih

theorem evaluatePatterns_verdict {patterns : List (Pattern × Node)}
    (h : List.Forall₂ (PatternAgrees env) patterns table) :
    Verdict (evaluatePatterns env patterns key v path)
      (∀ source sub p, (source, sub) ∈ table → Pattern.compile? source = some p →
        p.isMatch key = true → Satisfies env.unicodeLength sub v) := by
  induction h with
  | nil => exact .accept (fun source sub p hmem => by cases hmem)
  | @cons p entry _ _ hagrees _ ih =>
      obtain ⟨p, node⟩ := p
      obtain ⟨source, sub⟩ := entry
      obtain ⟨hcompile, hdecides⟩ := hagrees
      have hfirst : Verdict (if p.isMatch key = true then evaluate env node v path else some [])
          (p.isMatch key = true → Satisfies env.unicodeLength sub v) :=
        .ite (fun _ => hdecides v path)
      refine ((hfirst.append ih).congr ?_).of_iff ⟨?_, fun hall => ⟨?_, ?_⟩⟩
      · rw [evaluatePatterns]
        split <;> rfl
      · intro h source' sub' p' hmem hcompile' hmatch
        obtain ⟨hhead, hrest⟩ := h
        rcases List.mem_cons.1 hmem with heq | hmem
        · obtain ⟨rfl, rfl⟩ := Prod.mk.inj heq
          obtain rfl := Option.some.inj (hcompile.symm.trans hcompile')
          exact hhead hmatch
        · exact hrest source' sub' p' hmem hcompile' hmatch
      · exact hall source sub p List.mem_cons_self hcompile
      · exact fun source' sub' p' hmem => hall source' sub' p' (List.mem_cons_of_mem _ hmem)

theorem mem_keys_iff_of_forall₂ {α : Type} {R : String × α → String × Json → Prop}
    {l : List (String × α)} (h : List.Forall₂ R l table) (hkey : ∀ a b, R a b → a.1 = b.1) :
    key ∈ l.map Prod.fst ↔ Table.has table key = true := by
  induction h with
  | nil => simp [Table.has]
  | @cons a b _ _ hab _ ih =>
      rw [List.map_cons, List.mem_cons, ih, hkey a b hab, Table.has, Table.has, Table.get?_cons]
      by_cases heq : b.1 = key
      · simp [heq]
      · simp [heq, Ne.symm heq]

theorem any_isMatch_iff {patterns : List (Pattern × Node)}
    (h : List.Forall₂ (PatternAgrees env) patterns table) :
    patterns.any (fun p => p.1.isMatch key) = true
      ↔ ∃ source sub p, (source, sub) ∈ table ∧ Pattern.compile? source = some p
        ∧ p.isMatch key = true := by
  induction h with
  | nil => simp
  | @cons p entry _ _ hagrees _ ih =>
      obtain ⟨p, node⟩ := p
      obtain ⟨source, sub⟩ := entry
      rw [List.any_cons, Bool.or_eq_true, ih]
      constructor
      · intro h
        rcases h with hmatch | ⟨source', sub', p', hmem, hrest⟩
        · exact ⟨source, sub, p, List.mem_cons_self, hagrees.1, hmatch⟩
        · exact ⟨source', sub', p', List.mem_cons_of_mem _ hmem, hrest⟩
      · intro h
        obtain ⟨source', sub', p', hmem, hcompile, hmatch⟩ := h
        rcases List.mem_cons.1 hmem with heq | hmem
        · obtain ⟨rfl, rfl⟩ := Prod.mk.inj heq
          obtain rfl := Option.some.inj (hagrees.1.symm.trans hcompile)
          exact .inl hmatch
        · exact .inr ⟨source', sub', p', hmem, hcompile, hmatch⟩

/-! ### Keys with rules -/

theorem mem_foldl_insert_iff {keys found : List String} :
    key ∈ keys.foldl (fun found key => if key ∈ found then found else found ++ [key]) found
      ↔ key ∈ keys ∨ key ∈ found := by
  induction keys generalizing found with
  | nil => simp
  | cons first rest ih =>
      rw [List.foldl_cons, ih, List.mem_cons]
      split
      · next hmem =>
        constructor
        · intro h
          rcases h with h | h
          · exact .inl (.inr h)
          · exact .inr h
        · intro h
          rcases h with (rfl | h) | h
          · exact .inr hmem
          · exact .inl h
          · exact .inr h
      · rw [List.mem_append, List.mem_singleton]
        constructor
        · intro h
          rcases h with h | h | h
          · exact .inl (.inr h)
          · exact .inr h
          · exact .inl (.inl h)
        · intro h
          rcases h with (h | h) | h
          · exact .inr (.inr h)
          · exact .inl h
          · exact .inr (.inl h)

theorem mem_ruledKeys_iff {properties : List (String × Node)} {required : List String}
    {dependencies : List (String × Dependency)} :
    key ∈ ruledKeys properties required dependencies
      ↔ key ∈ properties.map Prod.fst ∨ key ∈ required ∨ key ∈ dependencies.map Prod.fst := by
  rw [ruledKeys, mem_foldl_insert_iff, List.mem_append, List.mem_append,
    or_iff_left List.not_mem_nil, or_assoc]

section

variable {properties : List (String × Node)} {required : List String}
  {dependencies : List (String × Dependency)} {propertyTable dependencyTable : Table Json}

/-- A key that is not there matters only if it is required. -/
theorem ruledKey_verdict (uri path : String) (members : Table Json) (required : List String)
    (key : String) (hproperties : List.Forall₂ (PropertyAgrees env) properties propertyTable)
    (hdependencies : List.Forall₂ (DependencyAgrees env) dependencies dependencyTable) :
    Verdict
      (match Table.get? members key with
      | none => some (if key ∈ required then [Finding.violation path uri (.requiredMissing key)]
          else [])
      | some member => do
        let found ← evaluateProperty env properties key member path
        let more ← evaluateDependency env uri dependencies key members path
        return found ++ more)
      ((key ∈ required → Table.has members key = true)
        ∧ ∀ member, Table.get? members key = some member →
          (∀ sub, Table.get? propertyTable key = some sub →
            Satisfies env.unicodeLength sub member)
          ∧ ∀ sub, Table.get? dependencyTable key = some sub →
            (∀ name ∈ Schema.dependentKeys sub, Table.has members name = true)
              ∧ Satisfies env.unicodeLength sub (.object members)) := by
  cases hget : Table.get? members key with
  | none =>
      refine .of_passes ?_
      rw [Table.has, hget]
      by_cases hkey : key ∈ required
      · rw [if_pos hkey]
        exact iff_of_false (by simp) (fun h => by simpa using h.1 hkey)
      · rw [if_neg hkey]
        exact iff_of_true rfl ⟨fun h => absurd h hkey, fun member h => by cases h⟩
  | some member =>
      refine ((evaluateProperty_verdict hproperties).append
        (evaluateDependency_verdict hdependencies)).of_iff ?_
      rw [Table.has, hget]
      simp

/-- The keys that have rules are gone through once each. -/
theorem ruledKeys_verdict (uri path : String) (members : Table Json) (required : List String)
    (hproperties : List.Forall₂ (PropertyAgrees env) properties propertyTable)
    (hdependencies : List.Forall₂ (DependencyAgrees env) dependencies dependencyTable) :
    Verdict (Findings.gather ((ruledKeys properties required dependencies).map (fun key =>
      match Table.get? members key with
      | none => some (if key ∈ required then [Finding.violation path uri (.requiredMissing key)]
          else [])
      | some member => do
        let found ← evaluateProperty env properties key member path
        let more ← evaluateDependency env uri dependencies key members path
        return found ++ more)))
      ((∀ key ∈ required, Table.has members key = true)
        ∧ (∀ key sub member, Table.get? propertyTable key = some sub →
          Table.get? members key = some member → Satisfies env.unicodeLength sub member)
        ∧ ∀ key sub, Table.get? dependencyTable key = some sub → Table.has members key = true →
          (∀ name ∈ Schema.dependentKeys sub, Table.has members name = true)
            ∧ Satisfies env.unicodeLength sub (.object members)) := by
  have heach := fun key (_ : key ∈ ruledKeys properties required dependencies) =>
    ruledKey_verdict uri path members required key hproperties hdependencies
  refine (Verdict.gather heach).of_iff ⟨fun hall => ⟨?_, ?_, ?_⟩, ?_⟩
  · intro key hkey
    exact (hall key (mem_ruledKeys_iff.2 (.inr (.inl hkey)))).1 hkey
  · intro key sub member hsub hmember
    have hkey : key ∈ properties.map Prod.fst :=
      (mem_keys_iff_of_forall₂ hproperties (fun _ _ h => h.1)).2 (by rw [Table.has, hsub]; rfl)
    exact ((hall key (mem_ruledKeys_iff.2 (.inl hkey))).2 member hmember).1 sub hsub
  · intro key sub hsub hhas
    have hkey : key ∈ dependencies.map Prod.fst :=
      (mem_keys_iff_of_forall₂ hdependencies (fun _ _ h => h.1)).2 (by rw [Table.has, hsub]; rfl)
    obtain ⟨member, hmember⟩ := Option.isSome_iff_exists.1 hhas
    exact ((hall key (mem_ruledKeys_iff.2 (.inr (.inr hkey)))).2 member hmember).2 sub hsub
  · intro h key _
    obtain ⟨hrequired, hproperty, hdependency⟩ := h
    refine ⟨hrequired key, fun member hmember => ⟨?_, ?_⟩⟩
    · exact fun sub hsub => hproperty key sub member hsub hmember
    · exact fun sub hsub => hdependency key sub hsub (by rw [Table.has, hmember]; rfl)

end

/-! ### All members -/

/-- Every member meets the patterns for its key, and if nothing speaks of it, it is left over. -/
theorem others_verdict (uri path : String) (members : Table Json)
    {properties : List (String × Node)} {patterns : List (Pattern × Node)}
    {rest : Additional} {sub? : Option Json} {propertyTable patternTable : Table Json}
    (hproperties : List.Forall₂ (PropertyAgrees env) properties propertyTable)
    (hpatterns : List.Forall₂ (PatternAgrees env) patterns patternTable)
    (hrest : RestAgrees env sub? rest) :
    Verdict (Findings.gather (members.map (fun entry => do
      let found ← evaluatePatterns env patterns entry.1 entry.2 (Pointer.child path entry.1)
      let more ←
        if (properties.map Prod.fst).contains entry.1
            || patterns.any (fun p => p.1.isMatch entry.1) then some []
        else evaluateRest env uri rest entry.1 entry.2 (Pointer.child path entry.1)
      return found ++ more)))
      (∀ entry ∈ members,
        (∀ source sub p, (source, sub) ∈ patternTable → Pattern.compile? source = some p →
          p.isMatch entry.1 = true → Satisfies env.unicodeLength sub entry.2)
        ∧ (¬(Table.has propertyTable entry.1 = true ∨ ∃ source sub p, (source, sub) ∈ patternTable
            ∧ Pattern.compile? source = some p ∧ p.isMatch entry.1 = true) →
          ∀ sub, sub? = some sub → Satisfies env.unicodeLength sub entry.2)) := by
  refine .gather (fun entry _ => ?_)
  have hspoken : ((properties.map Prod.fst).contains entry.1
      || patterns.any (fun p => p.1.isMatch entry.1)) = true
        ↔ Table.has propertyTable entry.1 = true ∨ ∃ source sub p, (source, sub) ∈ patternTable
          ∧ Pattern.compile? source = some p ∧ p.isMatch entry.1 = true := by
    rw [Bool.or_eq_true, List.contains_iff_mem, any_isMatch_iff hpatterns,
      mem_keys_iff_of_forall₂ hproperties (fun _ _ h => h.1)]
  by_cases h : ((properties.map Prod.fst).contains entry.1
      || patterns.any (fun p => p.1.isMatch entry.1)) = true
  · simp only [h, if_true]
    exact (evaluatePatterns_verdict hpatterns).append
      (.accept (fun hno => absurd (hspoken.1 h) hno))
  · simp only [h]
    apply (evaluatePatterns_verdict hpatterns).append
    exact (evaluateRest_verdict hrest entry.1).of_iff
      ⟨fun hsat _ => hsat, fun hsat => hsat (fun hno => h (hspoken.2 hno))⟩

theorem members_verdict (uri path : String) (members : Table Json) (required : List String)
    {properties : List (String × Node)} {dependencies : List (String × Dependency)}
    {patterns : List (Pattern × Node)} {rest : Additional}
    (hproperties : List.Forall₂ (PropertyAgrees env) properties
      (Schema.tableOf keywords "properties"))
    (hdependencies : List.Forall₂ (DependencyAgrees env) dependencies
      (Schema.tableOf keywords "dependencies"))
    (hpatterns : List.Forall₂ (PatternAgrees env) patterns
      (Schema.tableOf keywords "patternProperties"))
    (hrest : RestAgrees env (Table.get? keywords "additionalProperties") rest) :
    Verdict (evaluateCheck env uri (.members properties required dependencies patterns rest)
        (.object members) path)
      ((∀ key ∈ required, Table.has members key = true)
        ∧ Schema.MemberKeywords env.unicodeLength keywords (.object members)) := by
  refine (((ruledKeys_verdict uri path members required hproperties hdependencies).append
    (others_verdict uri path members hproperties hpatterns hrest)).congr ?_).of_iff ?_
  · exact (evaluateCheck.eq_def env uri (.members properties required dependencies patterns rest)
      (.object members) path).symm
  · rw [Schema.memberKeywords_iff]
    constructor
    · intro h
      obtain ⟨⟨hrequired, hproperty, hdependency⟩, hothers⟩ := h
      refine ⟨hrequired, hproperty, ?_, ?_, hdependency⟩
      · exact fun source sub p hmem hcompile key member hmember =>
          (hothers (key, member) hmember).1 source sub p hmem hcompile
      · exact fun sub hsub key member hmember hno =>
          (hothers (key, member) hmember).2 (fun h => hno (Schema.mentions_iff.2 h)) sub hsub
    · intro h
      obtain ⟨hrequired, hproperty, hpattern, hleft, hdependency⟩ := h
      refine ⟨⟨hrequired, hproperty, hdependency⟩, fun entry hentry => ⟨?_, ?_⟩⟩
      · exact fun source sub p hmem hcompile =>
          hpattern source sub p hmem hcompile entry.1 entry.2 hentry
      · exact fun hno sub hsub =>
          hleft sub hsub entry.1 entry.2 hentry (fun h => hno (Schema.mentions_iff.1 h))

/-- A check of the members that has nothing to check finds nothing. -/
theorem evaluateCheck_members_nil :
    evaluateCheck env uri (.members [] [] [] [] .allowed) (.object members) path = some [] := by
  have hothers : ∀ n, Findings.gather (List.replicate n (some [])) = some [] := by
    intro n
    induction n with
    | zero => rfl
    | succ n ih =>
        rw [List.replicate_succ, Findings.gather, ih]
        rfl
  rw [evaluateCheck]
  simp [ruledKeys, Findings.gather, evaluatePatterns, evaluateRest, hothers]

theorem memberChecks_verdict {checks : List Check}
    (hagrees : ∀ sub, Schema.Sub keywords sub → Agrees env sub)
    (h : memberChecks [] uri keywords = .ok checks) :
    Verdict (evaluateChecks env uri checks (.object members) path)
      ((∀ key ∈ requiredKeys keywords, Table.has members key = true)
        ∧ Schema.MemberKeywords env.unicodeLength keywords (.object members)) := by
  have hentries : ∀ key ∈ ["properties", "patternProperties", "dependencies"],
      ∀ entry ∈ Schema.tableOf keywords key, Agrees env entry.2 :=
    fun key hkey entry hentry => hagrees _ (Schema.sub_of_mem_tableOf hkey hentry)
  have hverdict := fun props deps pats rest
      (hprops : namedNodes [] uri (Schema.tableOf keywords "properties") = .ok props)
      (hdeps : dependenciesOf [] uri (Schema.tableOf keywords "dependencies") = .ok deps)
      (hpats : patternNodes [] uri (Schema.tableOf keywords "patternProperties") = .ok pats)
      (hrest : additional [] uri "additionalProperties" keywords = .ok rest) =>
    members_verdict uri path members (requiredKeys keywords)
      (forall₂_of_namedNodes (hentries _ (by decide)) hprops)
      (forall₂_of_dependenciesOf (hentries _ (by decide)) hdeps)
      (forall₂_of_patternNodes (hentries _ (by decide)) hpats)
      (restAgrees_of_additional (by decide) hagrees hrest)
  cases memberReads_of_memberChecks h with
  | members hprops hdeps hpats hrest =>
      exact evaluateChecks_singleton (hverdict _ _ _ _ hprops hdeps hpats hrest)
  | unrestricted hprops hrequired hdeps hpats hrest =>
      have hnothing := hverdict _ _ _ _ hprops hdeps hpats hrest
      rw [hrequired, evaluateCheck_members_nil] at hnothing
      rwa [hrequired]

end Node

end HyperSchema
