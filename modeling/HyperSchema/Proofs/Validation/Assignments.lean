import HyperSchema.Proofs.Pointer.Resolution
import HyperSchema.Proofs.Validation.Alone
import HyperSchema.Proofs.Validation.Recording

/-!
# Assigned schemas are satisfied

A schema is assigned to a value before it is known whether it will pass, or whether a branch around
it will. But what is found in a branch that fails, or under a negation, is dropped, so that the map
of a run speaks exactly of the nodes that the run keeps. What a node that is kept finds by itself is
among the findings of the run. If the run finds no error, neither does the node.
-/

namespace HyperSchema

theorem Findings.passes_of_subset {fs more : Findings} (hsub : fs ⊆ more) (h : more.passes = true) :
    fs.passes = true := by
  rw [passes, List.isEmpty_iff, List.eq_nil_iff_forall_not_mem] at *
  exact fun e he => h e (mem_errors.2 (hsub (mem_errors.1 he)))

namespace Head

variable {h : Head} {path : String} {results : List Findings} {found : Findings}

/-- A branch that passes is kept. -/
theorem subset_anyOf (hfound : found ∈ results) (hpasses : found.passes = true) :
    found ⊆ h.anyOf path results := by
  have hempty : ¬results.isEmpty = true :=
    fun hnil => List.not_mem_nil (List.isEmpty_iff.1 hnil ▸ hfound)
  have hany : results.any Findings.passes = true := List.any_eq_true.2 ⟨found, hfound, hpasses⟩
  rw [anyOf, if_neg hempty, if_pos hany]
  exact fun x hx => List.mem_flatten.2 ⟨found, List.mem_filter.2 ⟨hfound, hpasses⟩, hx⟩

/-- So is the only branch that passes where no other may. -/
theorem oneOf_eq {i : Nat} (hi : results[i]? = some found) (hpasses : found.passes = true)
    (honly : ∀ (j : Nat) (other : Findings), results[j]? = some other → other.passes = true →
      j = i) : h.oneOf path results = found := by
  have hempty : ¬results.isEmpty = true := by
    intro hnil
    rw [List.isEmpty_iff.1 hnil] at hi
    cases hi
  have hmem := mem_passing_iff.2 ⟨hi, hpasses⟩
  rw [oneOf, if_neg hempty]
  cases hpassing : passing results with
  | nil =>
      rw [hpassing] at hmem
      cases hmem
  | cons first rest =>
      have hsame : ∀ r ∈ passing results, r = (found, i) := by
        intro r hr
        obtain ⟨hr, hother⟩ := mem_passing_iff.1 hr
        have hindex := honly r.2 r.1 hr hother
        rw [hindex, hi] at hr
        exact Prod.ext (Option.some.inj hr).symm hindex
      have hfirst := hsame first (hpassing ▸ List.mem_cons_self)
      cases rest with
      | nil => rw [hfirst]
      | cons second rest =>
          have hsecond := hsame second
            (hpassing ▸ List.mem_cons_of_mem _ List.mem_cons_self)
          have hnodup := nodup_passing results
          rw [hpassing, hfirst, hsecond, List.map_cons, List.map_cons] at hnodup
          exact absurd List.mem_cons_self (List.nodup_cons.1 hnodup).1

/-- A choice finds a schema to apply only in a branch that is kept. -/
theorem exists_of_schema_mem_anyOf {place uri : String}
    (hx : .schema place uri ∈ h.anyOf path results) :
    ∃ found ∈ results, found.passes = true ∧ .schema place uri ∈ found := by
  rw [anyOf] at hx
  split at hx
  · cases hx
  · split at hx
    · obtain ⟨found, hfound, hx⟩ := List.mem_flatten.1 hx
      obtain ⟨hfound, hpasses⟩ := List.mem_filter.1 hfound
      exact ⟨found, hfound, hpasses, hx⟩
    · cases List.mem_singleton.1 hx

theorem exists_of_schema_mem_oneOf {place uri : String}
    (hx : .schema place uri ∈ h.oneOf path results) :
    ∃ (found : Findings) (i : Nat), results[i]? = some found ∧ found.passes = true
      ∧ (∀ (j : Nat) (other : Findings), results[j]? = some other → other.passes = true → j = i)
      ∧ .schema place uri ∈ found := by
  rw [oneOf] at hx
  split at hx
  · cases hx
  · split at hx
    · cases List.mem_singleton.1 hx
    · next found i hpassing =>
      have hmem : (found, i) ∈ passing results := hpassing ▸ List.mem_singleton_self (found, i)
      obtain ⟨hi, hpasses⟩ := mem_passing_iff.1 hmem
      refine ⟨found, i, hi, hpasses, fun j other hj hother => ?_, hx⟩
      have hother := mem_passing_iff.2 ⟨hj, hother⟩
      rw [hpassing] at hother
      exact congrArg Prod.snd (List.mem_singleton.1 hother)
    · cases List.mem_singleton.1 hx

end Head

namespace Snapshot

/-- A node is kept where its findings count for those of the one around it: nodes that have to pass,
branches that pass where one has to, the branch that alone passes where exactly one has to, and the
schemas called by these. -/
inductive Keeps (s : Snapshot) : Node → Json → String → Node → Json → String → Prop where
  | itself {node : Node} {v : Json} {path : String} : Keeps s node v path node v path
  | part {node part sub : Node} {v w x : Json} {path place spot : String}
      (hjob : .apply part w place ∈ node.jobs v path) (hkeeps : Keeps s part w place sub x spot) :
      Keeps s node v path sub x spot
  | branch {head : Head} {nodes : List Node} {node part sub : Node} {v w x : Json}
      {path place spot : String} (hjob : .anyOf head nodes w place ∈ node.jobs v path)
      (hpart : part ∈ nodes) (hpasses : (s.nodeFindings part w place).passes = true)
      (hkeeps : Keeps s part w place sub x spot) : Keeps s node v path sub x spot
  | only {head : Head} {nodes : List Node} {node part sub : Node} {v w x : Json}
      {path place spot : String} {i : Nat} (hjob : .oneOf head nodes w place ∈ node.jobs v path)
      (hpart : nodes[i]? = some part) (hpasses : (s.nodeFindings part w place).passes = true)
      (honly : ∀ (j : Nat) (other : Node), nodes[j]? = some other →
        (s.nodeFindings other w place).passes = true → j = i)
      (hkeeps : Keeps s part w place sub x spot) : Keeps s node v path sub x spot
  | called {target : String} {schema : CompiledSchema} {node sub : Node} {v w x : Json}
      {path place spot : String} (hjob : .call target w place ∈ node.jobs v path)
      (htarget : s.target? target = some (.compiled schema))
      (hkeeps : Keeps s schema.node w place sub x spot) : Keeps s node v path sub x spot

variable {s : Snapshot} {active : List ActiveCall} {node sub : Node} {v w : Json}
  {path place uri : String}

theorem Keeps.partAt (h : s.Keeps node v path sub w place) : v.PartAt path w place := by
  induction h with
  | itself => exact .whole
  | part hjob _ ih => exact ((Node.staysOn_of_mem_jobs hjob).of_applies .apply).2.trans ih
  | branch hjob hpart _ _ ih =>
      exact ((Node.staysOn_of_mem_jobs hjob).of_applies (.anyOf hpart)).2.trans ih
  | only hjob hpart _ _ _ ih =>
      have hmem := List.mem_of_getElem? hpart
      exact ((Node.staysOn_of_mem_jobs hjob).of_applies (.oneOf hmem)).2.trans ih
  | called hjob _ _ ih => exact (Node.staysOn_of_mem_jobs hjob).trans ih

/-- A job of a node, with what it finds when the node is evaluated by itself. -/
theorem exists_of_nodeFindings {job : Job} (hjob : job ∈ node.jobs v path) :
    ∃ part, job.perform (s.below (s.depthBound v) []) = some part
      ∧ part ⊆ s.nodeFindings node v path := by
  have heval := evaluate_alone (s := s) node v path (Nat.le_refl _)
  rw [Node.evaluate_eq] at heval
  obtain ⟨part, hpart, hsub, -⟩ := Job.exists_of_performAll heval hjob
  exact ⟨part, hpart, hsub⟩

theorem Keeps.subset (h : s.Keeps node v path sub w place) (hquiet : s.Quiet active node v path) :
    s.nodeFindings sub w place ⊆ s.nodeFindings node v path := by
  induction h generalizing active with
  | itself => exact List.Subset.refl _
  | @part node part sub v w x path place spot hjob _ ih =>
      obtain ⟨found, hfound, hsub⟩ := exists_of_nodeFindings (s := s) hjob
      have hpart := ((Node.staysOn_of_mem_jobs hjob).of_applies .apply).2
      have halone := evaluate_alone (s := s) part w place (depthBound_le hpart)
      obtain rfl := Option.some.inj (halone.symm.trans hfound)
      exact List.Subset.trans (ih (hquiet.of_applies hjob .apply)) hsub
  | @branch head nodes node part sub v w x path place spot hjob hmem hpasses _ ih =>
      obtain ⟨found, hfound, hsub⟩ := exists_of_nodeFindings (s := s) hjob
      obtain ⟨results, hresults, rfl⟩ := Option.map_eq_some_iff.1 hfound
      have hpart := ((Node.staysOn_of_mem_jobs hjob).of_applies (.anyOf hmem)).2
      have halone := evaluate_alone (s := s) part w place (depthBound_le hpart)
      obtain ⟨i, hi⟩ := List.getElem?_of_mem hmem
      have hresult := List.mem_of_getElem?
        ((Node.getElem?_of_evaluateEach hresults).2 ⟨part, hi, halone⟩)
      exact List.Subset.trans (ih (hquiet.of_applies hjob (.anyOf hmem)))
        (List.Subset.trans (Head.subset_anyOf hresult hpasses) hsub)
  | @only head nodes node part sub v w x path place spot i hjob hi hpasses honly _ ih =>
      obtain ⟨found, hfound, hsub⟩ := exists_of_nodeFindings (s := s) hjob
      obtain ⟨results, hresults, rfl⟩ := Option.map_eq_some_iff.1 hfound
      have hmem := List.mem_of_getElem? hi
      have hpart := ((Node.staysOn_of_mem_jobs hjob).of_applies (.oneOf hmem)).2
      have halone := fun node => evaluate_alone (s := s) node w place (depthBound_le hpart)
      have hresult := (Node.getElem?_of_evaluateEach hresults).2 ⟨part, hi, halone part⟩
      have hsole : head.oneOf place results = s.nodeFindings part w place := by
        refine Head.oneOf_eq hresult hpasses (fun j other hj hother => ?_)
        obtain ⟨node, hnode, heval⟩ := (Node.getElem?_of_evaluateEach hresults).1 hj
        obtain rfl := Option.some.inj ((halone node).symm.trans heval)
        exact honly j node hnode hother
      rw [hsole] at hsub
      exact List.Subset.trans (ih (hquiet.of_applies hjob (.oneOf hmem))) hsub
  | called hjob htarget _ ih =>
      obtain ⟨found, hfound, hsub⟩ := exists_of_nodeFindings (s := s) hjob
      have hschema := hquiet.of_call hjob htarget
      obtain rfl := hschema.nodeFindings_of_call htarget hfound
      exact List.Subset.trans (ih hschema) hsub

theorem exists_compiled_of_mem_call {target : String} {depth : Nat} {found : Findings}
    (h : s.call depth active target v path = some found) (hx : .schema place uri ∈ found) :
    ∃ schema, s.target? target = some (.compiled schema) := by
  cases depth with
  | zero => cases h
  | succ depth =>
      cases htarget : s.target? target with
      | none =>
          rw [call, htarget] at h
          obtain rfl := Option.some.inj h
          cases List.mem_singleton.1 hx
      | some entry =>
          cases entry with
          | compiled schema => exact ⟨schema, rfl⟩
          | circular chain =>
              rw [call, htarget] at h
              obtain rfl := Option.some.inj h
              cases List.mem_singleton.1 hx

section Choices

variable {head : Head} {nodes : List Node} {depth : Nat} {found : Findings}
  (hquiet : ∀ sub ∈ nodes, s.Quiet [] sub v path) (hx : .schema place uri ∈ found)

include hquiet hx

/-- Where one branch has to pass, a schema is found to apply in a branch that passes. -/
theorem exists_branch_of_mem
    (hperform : (Job.anyOf head nodes v path).perform (s.below depth []) = some found) :
    ∃ sub part, sub ∈ nodes ∧ sub.evaluate (s.below depth []) v path = some part
      ∧ (s.nodeFindings sub v path).passes = true ∧ .schema place uri ∈ part := by
  obtain ⟨results, hresults, rfl⟩ := Option.map_eq_some_iff.1 hperform
  obtain ⟨part, hpart, hpasses, hx⟩ := Head.exists_of_schema_mem_anyOf hx
  obtain ⟨i, hi⟩ := List.getElem?_of_mem hpart
  obtain ⟨sub, hsub, heval⟩ := (Node.getElem?_of_evaluateEach hresults).1 hi
  have hmem := List.mem_of_getElem? hsub
  rw [← (hquiet sub hmem).nodeFindings_eq heval] at hpasses
  exact ⟨sub, part, hmem, heval, hpasses, hx⟩

/-- Where exactly one branch has to pass, it is found to apply in the one that does. -/
theorem exists_only_of_mem
    (hperform : (Job.oneOf head nodes v path).perform (s.below depth []) = some found) :
    ∃ (i : Nat) (sub : Node) (part : Findings), nodes[i]? = some sub
      ∧ sub.evaluate (s.below depth []) v path = some part
      ∧ (s.nodeFindings sub v path).passes = true
      ∧ (∀ (j : Nat) (other : Node), nodes[j]? = some other →
        (s.nodeFindings other v path).passes = true → j = i)
      ∧ .schema place uri ∈ part := by
  obtain ⟨results, hresults, rfl⟩ := Option.map_eq_some_iff.1 hperform
  obtain ⟨part, i, hi, hpasses, honly, hx⟩ := Head.exists_of_schema_mem_oneOf hx
  obtain ⟨sub, hsub, heval⟩ := (Node.getElem?_of_evaluateEach hresults).1 hi
  rw [← (hquiet sub (List.mem_of_getElem? hsub)).nodeFindings_eq heval] at hpasses
  refine ⟨i, sub, part, hsub, heval, hpasses, fun j other hj hother => ?_, hx⟩
  have hmem := List.mem_of_getElem? hj
  obtain ⟨result, hresult⟩ := Node.exists_of_evaluateEach hresults hmem
  rw [(hquiet other hmem).nodeFindings_eq hresult] at hother
  exact honly j result ((Node.getElem?_of_evaluateEach hresults).2 ⟨other, hj, hresult⟩) hother

end Choices

/-- A schema is found to apply only by a node that is kept. -/
theorem exists_keeps_of_mem {depth : Nat} {found : Findings} (hquiet : s.Quiet active node v path)
    (heval : node.evaluate (s.below depth []) v path = some found)
    (hx : .schema place uri ∈ found) :
    ∃ sub w, s.Keeps node v path sub w place ∧ sub.uri? = some uri := by
  -- a call leads to any node, at less depth, and all else to nodes below at the same depth
  induction depth using Nat.strongRecOn generalizing active node v path found with
  | ind depth ihdepth =>
      induction node using Node.below_induction generalizing v path found with
      | h node ih =>
          rw [Node.evaluate_eq] at heval
          obtain ⟨job, hjob, part, hperform, hx⟩ := Job.exists_of_mem_performAll heval hx
          have hstays := Node.staysOn_of_mem_jobs hjob
          cases job with
          | find own =>
              obtain rfl := Option.some.inj hperform
              obtain ⟨uri', huri, hown⟩ := hstays _ hx
              cases hown
              exact ⟨node, v, .itself, huri⟩
          | judge a uri' w spot =>
              obtain rfl := Option.some.inj hperform
              obtain ⟨violation, -, h⟩ := Option.map_eq_some_iff.1 (Option.mem_toList.1 hx)
              cases h
          | call target w spot =>
              cases depth with
              | zero => cases hperform
              | succ depth =>
                  have hcall : s.call (depth + 1) [] target w spot = some part := hperform
                  obtain ⟨schema, htarget⟩ := exists_compiled_of_mem_call hcall hx
                  have hschema := hquiet.of_call hjob htarget
                  have hinner : s.Quiet [(schema.uri, spot)] schema.node w spot :=
                    hschema.mono (List.cons_subset_cons _ (List.nil_subset _))
                  rw [call_fresh htarget List.not_mem_nil, hinner.evaluate_eq] at hcall
                  obtain ⟨sub, x, hkeeps, huri⟩ :=
                    ihdepth depth (Nat.lt_succ_self depth) hschema hcall hx
                  exact ⟨sub, x, .called hjob htarget hkeeps, huri⟩
          | apply inner w spot =>
              obtain ⟨sub, x, hkeeps, huri⟩ :=
                ih inner hstays.1 (hquiet.of_applies hjob .apply) hperform hx
              exact ⟨sub, x, .part hjob hkeeps, huri⟩
          | anyOf head nodes w spot =>
              have hbranches : ∀ sub ∈ nodes, s.Quiet active sub w spot :=
                fun sub hsub => hquiet.of_applies hjob (.anyOf hsub)
              obtain ⟨inner, part, hmem, hperform, hpasses, hx⟩ := exists_branch_of_mem
                (fun sub hsub => (hbranches sub hsub).mono (List.nil_subset _)) hx hperform
              obtain ⟨sub, x, hkeeps, huri⟩ :=
                ih inner (hstays.2.1 inner hmem) (hbranches inner hmem) hperform hx
              exact ⟨sub, x, .branch hjob hmem hpasses hkeeps, huri⟩
          | oneOf head nodes w spot =>
              have hbranches : ∀ sub ∈ nodes, s.Quiet active sub w spot :=
                fun sub hsub => hquiet.of_applies hjob (.oneOf hsub)
              obtain ⟨i, inner, part, hi, hperform, hpasses, honly, hx⟩ := exists_only_of_mem
                (fun sub hsub => (hbranches sub hsub).mono (List.nil_subset _)) hx hperform
              have hmem := List.mem_of_getElem? hi
              obtain ⟨sub, x, hkeeps, huri⟩ :=
                ih inner (hstays.2.1 inner hmem) (hbranches inner hmem) hperform hx
              exact ⟨sub, x, .only hjob hi hpasses honly hkeeps, huri⟩
          | negated head inner w spot =>
              obtain ⟨result, -, rfl⟩ := Option.map_eq_some_iff.1 hperform
              cases Head.eq_of_mem_negated hx

/-! ### The map of a valid run -/

theorem nodeFindings_reference (s : Snapshot) (uri : String) (v : Json) (path : String) :
    s.nodeFindings (.reference (SchemaUri.normalize uri)) v path = s.findings uri v path := rfl

/-- A reference asks for its target only. -/
theorem quiet_reference {target : String} (h : ¬s.Cut active target v path) :
    s.Quiet active (.reference target) v path := by
  classical
  intro q hasks hcut
  by_cases heq : q = ⟨target, v, path⟩
  · rw [heq] at hcut
    exact h hcut
  · -- in this environment every call has an answer but the one asked for
    let env : Environment :=
      ⟨fun target w place => if Query.mk target w place = q then none else some [], false⟩
    have hnone : env.call target v path = none := hasks env (if_pos rfl)
    rw [show env.call target v path = some [] from if_neg (Ne.symm heq)] at hnone
    cases hnone

/-- The map of a run has the schemas that the run finds to apply. -/
theorem exists_schemas_validate (s : Snapshot) (uri : String) (v : Json)
    (hassign : s.options.assignSchemas = true) :
    ∃ m, (s.validate uri v).schemas = some m
      ∧ ∀ place u, u ∈ m.entries place ↔ .schema place u ∈ s.findings uri v "" := by
  refine ⟨PathMap.collect [] ((s.findings uri v "").filterMap Finding.schema?), ?_, ?_⟩
  · change ((ValidationState.ofOptions s.options).recordAll (s.findings uri v "")).schemas = _
    rw [ValidationState.recordAll_eq, ValidationState.ofOptions, if_pos hassign]
    rfl
  · intro place u
    have hempty : u ∉ PathMap.entries ([] : PathMap String) place := List.not_mem_nil
    rw [PathMap.mem_entries_collect, or_iff_right hempty, List.mem_filterMap]
    constructor
    · rintro ⟨x, hx, hschema⟩
      cases x with
      | schema path uri =>
          obtain ⟨rfl, rfl⟩ := Prod.mk.inj (Option.some.inj hschema)
          exact hx
      | _ => cases hschema
    · exact fun hx => ⟨.schema place u, hx, rfl⟩

/-- A node that finds no error has its own schema among its findings. -/
theorem schema_mem_nodeFindings (huri : node.uri? = some uri)
    (hpasses : (s.nodeFindings node v path).passes = true) :
    .schema path uri ∈ s.nodeFindings node v path := by
  cases node with
  | accept => cases huri
  | reference target => cases huri
  | reject other => cases hpasses
  | schema head branches allOf anyOf oneOf negated =>
      obtain rfl := Option.some.inj huri
      have hjob : .find (head.opening v path)
          ∈ (Node.schema head branches allOf anyOf oneOf negated).jobs v path :=
        List.mem_cons_self
      obtain ⟨part, hpart, hsub⟩ := exists_of_nodeFindings (s := s) hjob
      obtain rfl := Option.some.inj hpart
      exact hsub List.mem_cons_self

/-- The map of a valid run in which nothing is cut off has, for each path, the URIs of the nodes
that the run keeps there. Each of these finds no error when it is evaluated by itself on the part of
the value that the path leads to. -/
theorem validate_assigns (s : Snapshot) (hassign : s.options.assignSchemas = true) (uri : String)
    (v : Json) (hkeys : v.UniqueKeys) (hcount : v.Countable)
    (hvalid : (s.validate uri v).isValid = true)
    (hcut : ¬s.Cut [] (SchemaUri.normalize uri) v "") :
    ∃ m, (s.validate uri v).schemas = some m
      ∧ (∀ path u, u ∈ m.entries path
        ↔ ∃ node w, s.Keeps (.reference (SchemaUri.normalize uri)) v "" node w path
          ∧ node.uri? = some u)
      ∧ ∀ node w path, s.Keeps (.reference (SchemaUri.normalize uri)) v "" node w path →
          Pointer.get? v path = some w
            ∧ ∃ found, (∀ depth, s.depthBound w ≤ depth →
                node.evaluate (s.below depth []) w path = some found) ∧ found.errors = [] := by
  have hquiet := quiet_reference hcut
  have hpasses : ∀ node w path, s.Keeps (.reference (SchemaUri.normalize uri)) v "" node w path →
      (s.nodeFindings node w path).passes = true := by
    intro node w path hkeeps
    rw [isValid_validate, ← nodeFindings_reference] at hvalid
    exact Findings.passes_of_subset (hkeeps.subset hquiet) hvalid
  obtain ⟨m, hm, hentries⟩ := s.exists_schemas_validate uri v hassign
  refine ⟨m, hm, fun path u => ?_, fun node w path hkeeps => ⟨?_, ?_⟩⟩
  · rw [hentries, ← nodeFindings_reference]
    constructor
    · intro hx
      exact exists_keeps_of_mem hquiet (evaluate_alone _ _ _ (Nat.le_refl _)) hx
    · rintro ⟨node, w, hkeeps, huri⟩
      exact hkeeps.subset hquiet (schema_mem_nodeFindings huri (hpasses node w path hkeeps))
  · obtain ⟨way, rfl, hway⟩ := Pointer.exists_way_of_partAt hkeys hcount hkeeps.partAt
    rw [String.empty_append, Pointer.get?_join, hway]
  · exact ⟨s.nodeFindings node w path, fun depth => evaluate_alone node w path,
      List.isEmpty_iff.1 (hpasses node w path hkeeps)⟩

/-- A schema with a branch that applies to a member before it fails, a branch by reference that
passes, and a negated schema that fails. -/
def weighing : Snapshot where
  entries :=
    [("a", .compiled ⟨"a", none,
        .schema ⟨"a", Kind.all, [], none, none, []⟩ [] []
          [.schema ⟨"f", Kind.all, [], none, none, []⟩
            [(Kind.all, [.members [("k", .schema ⟨"f/k", Kind.all, [], none, none, []⟩ [] [] [] []
              none)] [] [] [] .allowed])] [.reject "f/0"] [] [] none, .reference "b"] []
          (some (.schema ⟨"n", [], [], none, none, []⟩ [] [] [] [] none))⟩),
      ("b", .compiled ⟨"b", none,
        .schema ⟨"b", Kind.all, [], none, none, []⟩
          [(Kind.all, [.members [("k", .schema ⟨"b/k", Kind.all, [], none, none, []⟩ [] [] [] []
            none)] [] [] [] .allowed])] [] [] [] none⟩)]
  aliases := []
  options := Options.tracking

theorem weighing_keyed : weighing.Keyed := by
  intro uri schema h
  simp only [weighing, Table.get?_cons, Table.get?_nil] at h
  split at h
  · next huri =>
    obtain rfl := Entry.compiled.inj (Option.some.inj h)
    exact huri
  · split at h
    · next huri =>
      obtain rfl := Entry.compiled.inj (Option.some.inj h)
      exact huri
    · cases h

/-- The run keeps the branch by reference, with the schema of its member; the schemas that applied
in the other branch and under the negation are not kept. -/
theorem weighing_assigns :
    Json.UniqueKeys (.object [("k", .null)]) ∧ Json.Countable (.object [("k", .null)])
      ∧ (weighing.validate "a" (.object [("k", .null)])).isValid = true
      ∧ ¬weighing.Cut [] (SchemaUri.normalize "a") (.object [("k", .null)]) ""
      ∧ (weighing.validate "a" (.object [("k", .null)])).schemas
        = some [("", ["a", "b"]), ("/k", ["b/k"])]
      ∧ (∀ node w, weighing.Keeps (.reference (SchemaUri.normalize "a")) (.object [("k", .null)]) ""
          node w "" → node.uri? ≠ some "f" ∧ node.uri? ≠ some "n")
      ∧ ∃ node w, weighing.Keeps (.reference (SchemaUri.normalize "a")) (.object [("k", .null)]) ""
          node w "/k" ∧ node.uri? = some "b/k"
          ∧ Pointer.get? (.object [("k", .null)]) "/k" = some w := by
  have hkeys : Json.UniqueKeys (.object [("k", .null)]) := by
    simp [Json.UniqueKeys, Json.UniqueKeysMembers, Table.Distinct, Table.keys]
  have hcount : Json.Countable (.object [("k", .null)]) := by
    simp [Json.Countable, Json.CountableMembers]
  have huncut : ¬weighing.Cut [] (SchemaUri.normalize "a") (.object [("k", .null)]) "" := by
    intro hcut
    have hnone := hcut.unguardedCall_eq_none weighing_keyed hkeys 2
    have hsome : weighing.unguardedCall 2 (SchemaUri.normalize "a") (.object [("k", .null)]) ""
        = some [.schema "" "a", .schema "" "b", .schema "/k" "b/k"] := rfl
    rw [hsome] at hnone
    cases hnone
  obtain ⟨m, hm, hentries, hkept⟩ :=
    weighing.validate_assigns rfl "a" (.object [("k", .null)]) hkeys hcount rfl huncut
  obtain rfl : [("", ["a", "b"]), ("/k", ["b/k"])] = m := Option.some.inj hm
  refine ⟨hkeys, hcount, rfl, huncut, hm, fun node w hkeeps => ⟨fun huri => ?_, fun huri => ?_⟩, ?_⟩
  · exact absurd ((hentries "" "f").2 ⟨node, w, hkeeps, huri⟩) (by decide)
  · exact absurd ((hentries "" "n").2 ⟨node, w, hkeeps, huri⟩) (by decide)
  · obtain ⟨node, w, hkeeps, huri⟩ := (hentries "/k" "b/k").1 (by decide)
    exact ⟨node, w, hkeeps, huri, (hkept node w "/k" hkeeps).1⟩

end Snapshot

end HyperSchema
