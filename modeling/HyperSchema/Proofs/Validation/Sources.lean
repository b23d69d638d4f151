import HyperSchema.Proofs.Validation.Assignments

/-!
# Where findings come from

A run evaluates the node it is called with, the nodes that this one applies, and the schemas that it
calls. Whatever a run reports, alone or within the error of a choice, has been found by one of these
nodes through its own keywords and under its own URI, circles of references apart.
-/

namespace HyperSchema

namespace Finding

/-- A finding, with the errors that are reported within it. -/
inductive Holds : Finding → Finding → Prop where
  | itself (x : Finding) : Holds x x
  | nested {e error : ValidationError} (h : e.Includes error) : Holds (.error e) (.error error)

/-- The URI of the schema that a finding reports: one that applies, or one that is not satisfied. An
error about references that go in circles is about none. -/
def schemaUri? : Finding → Option String
  | .error e => if e.cause.code = .circularReference then none else some e.schema
  | .schema _ uri => some uri
  | _ => none

variable {x y : Finding} {place uri : String} {v : Violation}

theorem holds_violation (h : (violation place uri v).Holds y) :
    y = violation place uri v
      ∨ ∃ errors ∈ v.branches, ∃ e ∈ errors, (Finding.error e).Holds y := by
  cases h with
  | itself => exact .inl rfl
  | nested hincludes =>
      cases hincludes with
      | itself => exact .inl rfl
      | nested hbranch hinner hincludes => exact .inr ⟨_, hbranch, _, hinner, .nested hincludes⟩

theorem eq_of_holds_violation (hflat : v.branches = []) (h : (violation place uri v).Holds y) :
    y = violation place uri v := by
  rcases holds_violation h with h | ⟨errors, herrors, -⟩
  · exact h
  · rw [hflat] at herrors
    cases herrors

theorem Own.eq_of_holds {value : Json} {path : String} (hown : x.Own uri value path)
    (h : x.Holds y) : y = x := by
  cases hown with
  | violation _ hflat => exact eq_of_holds_violation hflat h
  | schema => cases h with | itself => rfl
  | link l => cases h with | itself => rfl

end Finding

namespace Head

variable {h : Head} {path : String} {x y : Finding} {results : List Findings}

theorem holds_missing {uri : String} {v : Violation}
    (hbranches : v.branches = results.map Findings.errors)
    (h : (Finding.violation path uri v).Holds y) :
    y = .violation path uri v ∨ ∃ found ∈ results, ∃ z ∈ found, z.Holds y := by
  rcases Finding.holds_violation h with h | ⟨errors, herrors, e, he, hholds⟩
  · exact .inl h
  · rw [hbranches] at herrors
    obtain ⟨found, hfound, rfl⟩ := List.mem_map.1 herrors
    exact .inr ⟨found, hfound, .error e, Findings.mem_errors.1 he, hholds⟩

/-- A choice reports its own error, or what is reported by one of its branches. -/
theorem holds_of_mem_anyOf (hx : x ∈ h.anyOf path results) (hholds : x.Holds y) :
    (∃ v, y = .violation path h.uri v ∧ h.anyOf path results = [y])
      ∨ ∃ found ∈ results, ∃ z ∈ found, z.Holds y := by
  rw [anyOf] at hx ⊢
  split at hx
  · cases hx
  · next hsome =>
    rw [if_neg hsome]
    split at hx
    · obtain ⟨found, hfound, hmem⟩ := List.mem_flatten.1 hx
      exact .inr ⟨found, (List.mem_filter.1 hfound).1, x, hmem, hholds⟩
    · next hnone =>
      rw [if_neg hnone]
      obtain rfl := List.mem_singleton.1 hx
      rcases holds_missing rfl hholds with rfl | hinner
      · exact .inl ⟨_, rfl, rfl⟩
      · exact .inr hinner

theorem holds_of_mem_oneOf (hx : x ∈ h.oneOf path results) (hholds : x.Holds y) :
    (∃ v, y = .violation path h.uri v ∧ h.oneOf path results = [y])
      ∨ ∃ found ∈ results, ∃ z ∈ found, z.Holds y := by
  rw [oneOf] at hx ⊢
  split at hx
  · cases hx
  · next hsome =>
    rw [if_neg hsome]
    cases hpassing : passing results with
    | nil =>
        rw [hpassing] at hx
        obtain rfl := List.mem_singleton.1 hx
        rcases holds_missing rfl hholds with rfl | hinner
        · exact .inl ⟨_, rfl, rfl⟩
        · exact .inr hinner
    | cons first rest =>
        rw [hpassing] at hx
        cases rest with
        | nil =>
            have hmem : first ∈ passing results := hpassing ▸ List.mem_singleton_self first
            exact .inr ⟨first.1, List.fst_mem_of_mem_zipIdx (List.mem_filter.1 hmem).1, x, hx,
              hholds⟩
        | cons second rest =>
            obtain rfl := List.mem_singleton.1 hx
            obtain rfl := Finding.eq_of_holds_violation rfl hholds
            exact .inl ⟨_, rfl, rfl⟩

theorem negated_eq_of_mem {result : Option Findings} (hx : x ∈ h.negated path result) :
    h.negated path result = [.violation path h.uri .notPassed] := by
  cases result with
  | none => cases hx
  | some found =>
      rw [negated] at hx ⊢
      split at hx
      · next hpasses => rw [if_pos hpasses]
      · cases hx

end Head

namespace Node

/-- What a node finds by its own keywords: in none of the nodes that it applies, and in none of the
schemas that it calls. -/
inductive Finds (env : Environment) (node : Node) (v : Json) (path : String) : Finding → Prop where
  | found {found : Findings} {x : Finding} (hjob : .find found ∈ node.jobs v path)
      (hx : x ∈ found) : Finds env node v path x
  | judged {a : Assertion} {uri place : String} {w : Json} {violation : Violation}
      (hjob : .judge a uri w place ∈ node.jobs v path)
      (hviolation : a.violation? env.unicodeLength w = some violation) :
      Finds env node v path (.violation place uri violation)
  | anyOf {head : Head} {nodes : List Node} {place : String} {w : Json} {results : List Findings}
      {violation : Violation} (hjob : .anyOf head nodes w place ∈ node.jobs v path)
      (hresults : evaluateEach env nodes w place = some results)
      (hfails : head.anyOf place results = [.violation place head.uri violation]) :
      Finds env node v path (.violation place head.uri violation)
  | oneOf {head : Head} {nodes : List Node} {place : String} {w : Json} {results : List Findings}
      {violation : Violation} (hjob : .oneOf head nodes w place ∈ node.jobs v path)
      (hresults : evaluateEach env nodes w place = some results)
      (hfails : head.oneOf place results = [.violation place head.uri violation]) :
      Finds env node v path (.violation place head.uri violation)
  | negated {head : Head} {sub : Option Node} {place : String} {w : Json}
      {result : Option Findings} {violation : Violation}
      (hjob : .negated head sub w place ∈ node.jobs v path)
      (hresult : evaluateNegated env sub w place = some result)
      (hfails : head.negated place result = [.violation place head.uri violation]) :
      Finds env node v path (.violation place head.uri violation)

variable {env : Environment} {node sub : Node} {v : Json} {path uri : String} {x : Finding}

theorem schemaUri?_violation {place u : String} {violation : Violation}
    (h : (Finding.violation place uri violation).schemaUri? = some u) : u = uri := by
  rw [Finding.violation, Finding.schemaUri?] at h
  split at h
  · cases h
  · exact (Option.some.inj h).symm

/-- What a node finds by its own keywords has its own URI. -/
theorem Finds.uri?_eq (h : node.Finds env v path x) (huri : x.schemaUri? = some uri) :
    node.uri? = some uri := by
  cases h with
  | found hjob hx =>
      obtain ⟨own, hnode, hown⟩ := staysOn_of_mem_jobs hjob x hx
      cases hown with
      | violation => rw [schemaUri?_violation huri, hnode]
      | schema => rw [← huri, hnode, Finding.schemaUri?]
      | link l => cases huri
  | judged hjob => rw [schemaUri?_violation huri, (staysOn_of_mem_jobs hjob).1]
  | anyOf hjob => rw [schemaUri?_violation huri, (staysOn_of_mem_jobs hjob).1]
  | oneOf hjob => rw [schemaUri?_violation huri, (staysOn_of_mem_jobs hjob).1]
  | negated hjob => rw [schemaUri?_violation huri, (staysOn_of_mem_jobs hjob).1]

theorem Within.trans {whole inner : Node} (h : Within whole inner) (h' : Within inner sub) :
    Within whole sub := by
  induction h' with
  | whole => exact h
  | inner _ hbelow ih => exact ih.inner hbelow

theorem Within.eq_reference {target : String} (h : Within (.reference target) sub) :
    sub = .reference target := by
  induction h with
  | whole => rfl
  | inner _ hbelow ih =>
      rw [ih] at hbelow
      cases hbelow

end Node

namespace Snapshot

/-- A run that evaluates a node on a value evaluates the nodes that this one applies, and those of
the schemas that it calls. -/
inductive Evaluates (s : Snapshot) : Node → Json → String → Node → Json → String → Prop where
  | itself {node : Node} {v : Json} {path : String} : Evaluates s node v path node v path
  | applied {node part sub : Node} {v w x : Json} {path place spot : String} {job : Job}
      (hjob : job ∈ node.jobs v path) (happlies : job.Applies part w place)
      (h : Evaluates s part w place sub x spot) : Evaluates s node v path sub x spot
  | called {target : String} {schema : CompiledSchema} {node sub : Node} {v w x : Json}
      {path place spot : String} (hjob : .call target w place ∈ node.jobs v path)
      (htarget : s.target? target = some (.compiled schema))
      (h : Evaluates s schema.node w place sub x spot) : Evaluates s node v path sub x spot

variable {s : Snapshot} {active : List ActiveCall} {node sub : Node} {v w : Json}
  {path place uri : String} {x y : Finding} {depth : Nat} {found : Findings}

/-- All nodes that are evaluated are within the first or within a compiled schema. -/
theorem Evaluates.within (h : s.Evaluates node v path sub w place) :
    Node.Within node sub ∨ ∃ target schema, s.target? target = some (.compiled schema)
      ∧ Node.Within schema.node sub := by
  induction h with
  | itself => exact .inl .whole
  | applied hjob happlies _ ih =>
      have hbelow := ((Node.staysOn_of_mem_jobs hjob).of_applies happlies).1
      exact ih.imp_left fun hwithin => (Node.Within.whole.inner hbelow).trans hwithin
  | @called target schema _ _ _ _ _ _ _ _ _ htarget _ ih =>
      exact .inr (ih.elim (fun hwithin => ⟨target, schema, htarget, hwithin⟩) id)

/-- A call finds that nothing is there, that references go in circles, or what a schema finds. -/
theorem call_cases {target : String}
    (h : s.call (depth + 1) active target v path = some found) :
    found = [.missing path target]
      ∨ (∃ chain, found = [.violation path target (.circularReference chain)])
      ∨ ∃ schema, s.target? target = some (.compiled schema)
        ∧ schema.node.evaluate (s.below depth ((schema.uri, path) :: active)) v path
          = some found := by
  rw [call] at h
  split at h
  · exact .inl (Option.some.inj h).symm
  · next chain _ => exact .inr (.inl ⟨chain, (Option.some.inj h).symm⟩)
  · next schema htarget =>
    split at h
    · exact .inr (.inl ⟨_, (Option.some.inj h).symm⟩)
    · exact .inr (.inr ⟨schema, htarget, h⟩)

/-- Whatever an evaluation reports, a node that is evaluated has found by its own keywords. -/
theorem exists_finds_of_mem (heval : node.evaluate (s.below depth active) v path = some found)
    (hx : x ∈ found) (hholds : x.Holds y) (huri : y.schemaUri? = some uri) :
    ∃ sub w place depth active, s.Evaluates node v path sub w place
      ∧ sub.Finds (s.below depth active) w place y := by
  -- a call leads to any node, at less depth, and all else to nodes below at the same depth
  induction depth using Nat.strongRecOn generalizing active node v path found x with
  | ind depth ihdepth =>
      induction node using Node.below_induction generalizing v path found x with
      | h node ih =>
          rw [Node.evaluate_eq] at heval
          obtain ⟨job, hjob, part, hperform, hx⟩ := Job.exists_of_mem_performAll heval hx
          have hstays := Node.staysOn_of_mem_jobs hjob
          have hsub : ∀ {inner w place part z}, job.Applies inner w place →
              inner.evaluate (s.below depth active) w place = some part → z ∈ part → z.Holds y →
                ∃ sub x spot depth active, s.Evaluates node v path sub x spot
                  ∧ sub.Finds (s.below depth active) x spot y := by
            intro inner w place part z happlies heval hz hholds
            obtain ⟨sub, x, spot, depth', active', hevaluates, hfinds⟩ :=
              ih inner (hstays.of_applies happlies).1 heval hz hholds
            exact ⟨sub, x, spot, depth', active', .applied hjob happlies hevaluates, hfinds⟩
          cases job with
          | find own =>
              obtain rfl := Option.some.inj hperform
              obtain ⟨own, -, hown⟩ := hstays x hx
              obtain rfl := hown.eq_of_holds hholds
              exact ⟨node, v, path, depth, active, .itself, .found hjob hx⟩
          | judge a uri w place =>
              obtain rfl := Option.some.inj hperform
              obtain ⟨violation, hviolation, rfl⟩ :=
                Option.map_eq_some_iff.1 (Option.mem_toList.1 hx)
              obtain rfl := Finding.eq_of_holds_violation
                (Assertion.branches_of_violation? hviolation) hholds
              exact ⟨node, v, path, depth, active, .itself, .judged hjob hviolation⟩
          | call target w place =>
              cases depth with
              | zero => cases hperform
              | succ depth =>
                  rcases call_cases hperform with rfl | ⟨chain, rfl⟩ | ⟨schema, htarget, heval⟩
                  · obtain rfl := List.mem_singleton.1 hx
                    cases hholds
                    cases huri
                  · obtain rfl := List.mem_singleton.1 hx
                    obtain rfl := Finding.eq_of_holds_violation rfl hholds
                    cases huri
                  · obtain ⟨sub, x, spot, depth', active', hevaluates, hfinds⟩ :=
                      ihdepth depth (Nat.lt_succ_self depth) heval hx hholds
                    exact ⟨sub, x, spot, depth', active', .called hjob htarget hevaluates, hfinds⟩
          | apply inner w place => exact hsub .apply hperform hx hholds
          | anyOf head nodes w place =>
              obtain ⟨results, hresults, rfl⟩ := Option.map_eq_some_iff.1 hperform
              rcases Head.holds_of_mem_anyOf hx hholds
                with ⟨v, rfl, hfails⟩ | ⟨part, hpart, z, hz, h⟩
              · exact ⟨node, _, path, depth, active, .itself, .anyOf hjob hresults hfails⟩
              · obtain ⟨inner, hmem, heval⟩ := (Node.mem_of_evaluateEach hresults).1 hpart
                exact hsub (.anyOf hmem) heval hz h
          | oneOf head nodes w place =>
              obtain ⟨results, hresults, rfl⟩ := Option.map_eq_some_iff.1 hperform
              rcases Head.holds_of_mem_oneOf hx hholds
                with ⟨v, rfl, hfails⟩ | ⟨part, hpart, z, hz, h⟩
              · exact ⟨node, _, path, depth, active, .itself, .oneOf hjob hresults hfails⟩
              · obtain ⟨inner, hmem, heval⟩ := (Node.mem_of_evaluateEach hresults).1 hpart
                exact hsub (.oneOf hmem) heval hz h
          | negated head inner w place =>
              obtain ⟨result, hresult, rfl⟩ := Option.map_eq_some_iff.1 hperform
              have hfails := Head.negated_eq_of_mem hx
              rw [hfails] at hx
              obtain rfl := List.mem_singleton.1 hx
              obtain rfl := Finding.eq_of_holds_violation rfl hholds
              exact ⟨node, v, path, depth, active, .itself, .negated hjob hresult hfails⟩

/-- All that a run finds, a node that it evaluates has found. -/
theorem exists_finds_of_mem_findings {target : String}
    (hx : x ∈ s.findings target v path) (hholds : x.Holds y) (huri : y.schemaUri? = some uri) :
    ∃ sub w place depth active,
      s.Evaluates (.reference (SchemaUri.normalize target)) v path sub w place
        ∧ sub.Finds (s.below depth active) w place y :=
  exists_finds_of_mem (evaluate_alone _ _ _ (Nat.le_refl _)) hx hholds huri

end Snapshot

/-- What a state reports: its errors, at whatever depth, and the schemas in its map. -/
inductive ValidationState.Reports (state : ValidationState) : Finding → Prop where
  | error {e error : ValidationError} (he : e ∈ state.errors) (hincludes : e.Includes error) :
      Reports state (.error error)
  | schema {m : PathMap String} {place uri : String} (hm : state.schemas = some m)
      (huri : uri ∈ m.entries place) : Reports state (.schema place uri)

/-- A state that started empty reports what was recorded. -/
theorem ValidationState.Reports.exists_holds {options : Options} {fs : Findings} {y : Finding}
    (h : ((ofOptions options).recordAll fs).Reports y) : ∃ x ∈ fs, x.Holds y := by
  rw [recordAll_eq] at h
  cases h with
  | error he hincludes => exact ⟨_, Findings.mem_errors.1 he, .nested hincludes⟩
  | schema hm huri =>
      obtain ⟨start, hstart, rfl⟩ := Option.map_eq_some_iff.1 hm
      have hempty : start = [] := by
        rw [ofOptions] at hstart
        split at hstart
        · exact (Option.some.inj hstart).symm
        · cases hstart
      rw [PathMap.mem_entries_collect, hempty] at huri
      rcases huri with hnone | hmem
      · cases hnone
      · obtain ⟨x, hx, hschema⟩ := List.mem_filterMap.1 hmem
        cases x with
        | schema path uri =>
            obtain ⟨rfl, rfl⟩ := Prod.mk.inj (Option.some.inj hschema)
            exact ⟨_, hx, .itself _⟩
        | _ => cases hschema

namespace Snapshot

variable {s : Snapshot} {uris : List String} {v : Json} {y : Finding} {uri : String}

theorem runAll_eq (s : Snapshot) (uris : List String) (v : Json) (path : String)
    (state : ValidationState) :
    s.runAll uris v path state = state.recordAll (uris.flatMap (fun u => s.findings u v path)) := by
  induction uris generalizing state with
  | nil => rfl
  | cons u rest ih =>
      rw [List.flatMap_cons, ValidationState.recordAll, List.foldl_append]
      exact ih _

/-- What a root finds wrong is reported. -/
theorem reports_of_mem_findings {root : String} {e : ValidationError} (hroot : root ∈ uris)
    (h : .error e ∈ s.findings root v "") : (s.validateAll uris v).Reports (.error e) := by
  refine .error ?_ (.itself e)
  rw [validateAll, runAll_eq, ValidationState.errors_recordAll]
  exact List.mem_append_right _ (Findings.mem_errors.2 (List.mem_flatMap.2 ⟨root, hroot, h⟩))

/-- All that is reported about a value, a node that has been evaluated has found. -/
theorem exists_finds_of_reports (h : (s.validateAll uris v).Reports y)
    (huri : y.schemaUri? = some uri) :
    ∃ root ∈ uris, ∃ sub w place depth active,
      s.Evaluates (.reference (SchemaUri.normalize root)) v "" sub w place
        ∧ sub.Finds (s.below depth active) w place y := by
  rw [validateAll, runAll_eq] at h
  obtain ⟨x, hx, hholds⟩ := h.exists_holds
  obtain ⟨root, hroot, hx⟩ := List.mem_flatMap.1 hx
  exact ⟨root, hroot, exists_finds_of_mem_findings hx hholds huri⟩

end Snapshot

end HyperSchema
