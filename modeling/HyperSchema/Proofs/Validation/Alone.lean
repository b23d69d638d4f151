import HyperSchema.Proofs.Validation.Guard
import HyperSchema.Proofs.Validation.Jobs

/-!
# Evaluating a node by itself

What a node finds can depend on the calls that are active around it, since the guard cuts off those
that come back to them. Where nothing is cut off it does not: the node finds what it finds by itself.
All calls of a node below are calls of the node, so that this carries over from a run to everything
that is evaluated in it.
-/

namespace HyperSchema

namespace Node

variable {node sub : Node} {v w : Json} {path place target : String} {job : Job}

/-- A job that has no result leaves the node without one. -/
theorem evaluate_eq_none {env : Environment} (hjob : job ∈ node.jobs v path)
    (h : job.perform env = none) : node.evaluate env v path = none := by
  rw [evaluate_eq]
  cases hall : Job.performAll env (node.jobs v path) with
  | none => rfl
  | some found =>
      obtain ⟨part, hpart, -⟩ := Job.exists_of_performAll hall hjob
      rw [h] at hpart
      cases hpart

theorem evaluateEach_eq_none {env : Environment} {nodes : List Node} (hsub : sub ∈ nodes)
    (h : sub.evaluate env v path = none) : evaluateEach env nodes v path = none := by
  induction nodes with
  | nil => cases hsub
  | cons first rest ih =>
      rw [evaluateEach]
      rcases List.mem_cons.1 hsub with rfl | hsub
      · rw [h]
        rfl
      · rw [ih hsub]
        cases first.evaluate env v path with
        | none => rfl
        | some found => rfl

/-- A node asks for whatever the nodes it has evaluated ask for. -/
theorem Asks.of_applies {q : Query} (hjob : job ∈ node.jobs v path)
    (happlies : job.Applies sub w place) (hasks : sub.Asks w place q) : node.Asks v path q := by
  intro env hnone
  refine evaluate_eq_none hjob ?_
  have hsub := hasks env hnone
  cases happlies with
  | apply => exact hsub
  | anyOf hmem => rw [Job.perform, evaluateEach_eq_none hmem hsub, Option.map_none]
  | oneOf hmem => rw [Job.perform, evaluateEach_eq_none hmem hsub, Option.map_none]
  | negated => rw [Job.perform, evaluateNegated, hsub, Option.map_none, Option.map_none]

theorem asks_of_call (hjob : .call target w place ∈ node.jobs v path) :
    node.Asks v path ⟨target, w, place⟩ :=
  fun _ hnone => evaluate_eq_none hjob hnone

end Node

namespace Snapshot

variable {s : Snapshot} {active active' : List ActiveCall} {node sub : Node} {v w : Json}
  {path place target : String} {depth : Nat} {schema : CompiledSchema} {job : Job}

/-! ### Enough depth -/

theorem depthBound_le (hpart : v.PartAt path w place) : s.depthBound w ≤ s.depthBound v := by
  have hheight : w.height ≤ v.height := by
    rcases hpart.eq_or_height_lt with ⟨rfl, -⟩ | hlt
    · exact Nat.le_refl _
    · exact Nat.le_of_lt hlt
  rw [depthBound, depthBound]
  exact Nat.succ_le_succ (Nat.mul_le_mul_right _ (Nat.succ_le_succ hheight))

theorem evaluate_of_le {found : Findings} {depth' : Nat} (hle : depth ≤ depth')
    (h : node.evaluate (s.below depth active) v path = some found) :
    node.evaluate (s.below depth' active) v path = some found := by
  refine Node.evaluate_mono ?_ (fun q answer hanswer => ?_) h
  · rfl
  · exact call_of_le hle hanswer

/-- What a node finds by itself. -/
def nodeFindings (s : Snapshot) (node : Node) (v : Json) (path : String) : Findings :=
  (node.evaluate (s.below (s.depthBound v) []) v path).getD []

theorem evaluate_alone (node : Node) (v : Json) (path : String)
    (hdepth : s.depthBound v ≤ depth) :
    node.evaluate (s.below depth []) v path = some (s.nodeFindings node v path) := by
  have hne : node.evaluate (s.below (s.depthBound v) []) v path ≠ none := by
    intro hnone
    obtain ⟨q, hasks, hanswer⟩ := Node.evaluate_eq_none_iff.1 hnone
    have hidle := s.idle_le [] q.path
    have hsome : (s.call (s.depthBound q.value) [] q.target q.value q.path).isSome := by
      apply isSome_call
      rw [depthBound, Nat.succ_mul]
      omega
    obtain ⟨found, hfound⟩ := Option.isSome_iff_exists.1 hsome
    rw [answer?_below, call_of_le (depthBound_le hasks.partAt) hfound] at hanswer
    cases hanswer
  exact evaluate_of_le hdepth (Option.getD_of_ne_none hne []).symm

/-! ### Where nothing is cut off -/

theorem Cut.mono (h : s.Cut active target v path) (hsub : active ⊆ active') :
    s.Cut active' target v path := by
  induction h generalizing active' with
  | again htarget hactive => exact .again htarget (hsub hactive)
  | @within active target v path schema q htarget _ hasks _ ih =>
      by_cases hagain : (schema.uri, path) ∈ active'
      · exact .again htarget hagain
      · exact .within htarget hagain hasks (ih (List.cons_subset_cons _ hsub))

/-- No call that a node makes is cut off. -/
def Quiet (s : Snapshot) (active : List ActiveCall) (node : Node) (v : Json) (path : String) :
    Prop :=
  ∀ q, node.Asks v path q → ¬s.Cut active q.target q.value q.path

theorem Quiet.mono (h : s.Quiet active' node v path) (hsub : active ⊆ active') :
    s.Quiet active node v path :=
  fun q hasks hcut => h q hasks (hcut.mono hsub)

theorem Quiet.of_applies (h : s.Quiet active node v path) (hjob : job ∈ node.jobs v path)
    (happlies : job.Applies sub w place) : s.Quiet active sub w place :=
  fun q hasks => h q (hasks.of_applies hjob happlies)

/-- Nor is any call that a schema called by the node makes in its turn. -/
theorem Quiet.of_call (h : s.Quiet active node v path)
    (hjob : .call target w place ∈ node.jobs v path)
    (htarget : s.target? target = some (.compiled schema)) :
    s.Quiet ((schema.uri, place) :: active) schema.node w place := by
  have hcut : ¬s.Cut active target w place := h ⟨target, w, place⟩ (Node.asks_of_call hjob)
  intro q hasks hbelow
  by_cases hagain : (schema.uri, place) ∈ active
  · exact hcut (.again htarget hagain)
  · exact hcut (.within htarget hagain hasks hbelow)

/-- What is active makes no difference. -/
theorem Quiet.evaluate_eq (h : s.Quiet active node v path) (depth : Nat) :
    node.evaluate (s.below depth active) v path = node.evaluate (s.below depth []) v path := by
  refine Node.evaluate_congr rfl (fun q hasks => ?_)
  rw [answer?_below, answer?_below, ← unguardedCall_of_not_cut (h q hasks),
    ← unguardedCall_of_not_cut (h.mono (List.nil_subset _) q hasks)]

theorem Quiet.nodeFindings_eq (h : s.Quiet active node v path) {found : Findings}
    (heval : node.evaluate (s.below depth active) v path = some found) :
    s.nodeFindings node v path = found := by
  rw [h.evaluate_eq] at heval
  have hlarge := evaluate_of_le (Nat.le_max_left depth (s.depthBound v)) heval
  rw [evaluate_alone node v path (Nat.le_max_right depth (s.depthBound v))] at hlarge
  exact Option.some.inj hlarge

/-- A call finds what the schema finds by itself. -/
theorem Quiet.nodeFindings_of_call (h : s.Quiet ((schema.uri, path) :: active) schema.node v path)
    (htarget : s.target? target = some (.compiled schema)) {found : Findings}
    (hcall : s.call depth [] target v path = some found) :
    s.nodeFindings schema.node v path = found := by
  cases depth with
  | zero => cases hcall
  | succ depth =>
      rw [call_fresh htarget List.not_mem_nil] at hcall
      have hquiet : s.Quiet [(schema.uri, path)] schema.node v path :=
        h.mono (List.cons_subset_cons _ (List.nil_subset _))
      exact hquiet.nodeFindings_eq hcall

end Snapshot

end HyperSchema
