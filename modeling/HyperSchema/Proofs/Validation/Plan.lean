import HyperSchema.Proofs.Json.Parts

/-!
# Plans

A plan is a fixed list of calls on parts of a value, and a way of combining what they find. A
computation follows a plan when it makes these calls and no others, whatever they find. Plans can be
put one after the other and gathered, which is all that evaluation does with them.
-/

namespace HyperSchema

/-- A call of a schema on a value at a path. -/
structure Query where
  target : String
  value : Json
  path : String

namespace Environment

def answer? (env : Environment) (q : Query) : Option Findings := env.call q.target q.value q.path

/-- The answers to several calls, if all of them have one. -/
def answers? (env : Environment) : List Query → Option (List Findings)
  | [] => some []
  | q :: rest => (env.answer? q).bind (fun found => (env.answers? rest).map (found :: ·))

theorem answers?_append (env : Environment) (qs qs' : List Query) :
    env.answers? (qs ++ qs')
      = (env.answers? qs).bind (fun a => (env.answers? qs').map (fun b => a ++ b)) := by
  induction qs with
  | nil => simp [answers?]
  | cons q rest ih =>
      rw [List.cons_append, answers?, answers?, ih]
      cases env.answer? q with
      | none => rfl
      | some found => cases env.answers? rest <;> simp [Function.comp_def]

theorem length_of_answers? {env : Environment} {qs : List Query} {answers : List Findings}
    (h : env.answers? qs = some answers) : answers.length = qs.length := by
  induction qs generalizing answers with
  | nil =>
      obtain rfl := Option.some.inj h
      rfl
  | cons q rest ih =>
      obtain ⟨found, -, hrest⟩ := Option.bind_eq_some_iff.1 h
      obtain ⟨more, hmore, rfl⟩ := Option.map_eq_some_iff.1 hrest
      rw [List.length_cons, List.length_cons, ih hmore]

theorem answers?_eq_none_iff {env : Environment} {qs : List Query} :
    env.answers? qs = none ↔ ∃ q ∈ qs, env.answer? q = none := by
  induction qs with
  | nil => simp [answers?]
  | cons q rest ih =>
      simp only [answers?, List.mem_cons, exists_eq_or_imp]
      cases hq : env.answer? q with
      | none => simp
      | some found => simp [ih]

theorem answers?_congr {env env' : Environment} {qs : List Query}
    (h : ∀ q ∈ qs, env.answer? q = env'.answer? q) : env.answers? qs = env'.answers? qs := by
  induction qs with
  | nil => rfl
  | cons q rest ih =>
      rw [answers?, answers?, h q List.mem_cons_self,
        ih (fun q' hq' => h q' (List.mem_cons_of_mem _ hq'))]

end Environment

def Finding.path : Finding → String
  | .error e => e.path
  | .schema path _ => path
  | .link path _ => path
  | .missing path _ => path

/-! ### Plans -/

/-- A fixed list of calls, and what is made of their findings. -/
structure Plan (α : Type) where
  queries : List Query
  combine : Bool → List Findings → α

def Plan.run {α : Type} (plan : Plan α) (env : Environment) : Option α :=
  (env.answers? plan.queries).map (plan.combine env.unicodeLength)

/-- A plan stays on a value when all its calls are on parts of it. -/
def Plan.StaysOn {α : Type} (plan : Plan α) (v : Json) (path : String) : Prop :=
  ∀ q ∈ plan.queries, v.PartAt path q.value q.path

/-- A computation follows a plan. -/
def Planned {α : Type} (v : Json) (path : String) (f : Environment → Option α) : Prop :=
  ∃ plan : Plan α, plan.StaysOn v path ∧ ∀ env, f env = plan.run env

namespace Planned

variable {α β : Type} {v w : Json} {path place : String} {f : Environment → Option α}
  {g : Environment → Option β}

/-- Without calls. -/
theorem own (value : Bool → α) : Planned v path (fun env => some (value env.unicodeLength)) :=
  ⟨⟨[], fun unicode _ => value unicode⟩, fun _ hq => absurd hq List.not_mem_nil, fun _ => rfl⟩

theorem silent (value : α) : Planned v path (fun _ => some value) := own (fun _ => value)

theorem call (target : String) : Planned v path (fun env => env.call target v path) := by
  refine ⟨⟨[⟨target, v, path⟩], fun _ answers => answers.flatten⟩, ?_, ?_⟩
  · intro q hq
    obtain rfl := List.mem_singleton.1 hq
    exact .whole
  · intro env
    simp only [Plan.run, Environment.answers?, Environment.answer?]
    cases env.call target v path with
    | none => rfl
    | some found => simp

theorem map (hf : Planned v path f) (h : α → β) :
    Planned v path (fun env => (f env).map h) := by
  obtain ⟨plan, hstays, hrun⟩ := hf
  refine ⟨⟨plan.queries, fun unicode answers => h (plan.combine unicode answers)⟩, hstays, ?_⟩
  intro env
  simp only [hrun env, Plan.run, Option.map_map]
  rfl

/-- One computation after the other, neither depending on what the other finds. -/
theorem seq (hf : Planned v path f) (hg : Planned v path g) :
    Planned v path (fun env => (f env).bind (fun a => (g env).map (fun b => (a, b)))) := by
  obtain ⟨plan, hstays, hrun⟩ := hf
  obtain ⟨plan', hstays', hrun'⟩ := hg
  refine ⟨⟨plan.queries ++ plan'.queries, fun unicode answers =>
    (plan.combine unicode (answers.take plan.queries.length),
      plan'.combine unicode (answers.drop plan.queries.length))⟩,
    List.forall_mem_append.2 ⟨hstays, hstays'⟩, ?_⟩
  intro env
  simp only [hrun env, hrun' env, Plan.run, Environment.answers?_append]
  cases hfirst : env.answers? plan.queries with
  | none => rfl
  | some answers =>
      have hlength := Environment.length_of_answers? hfirst
      cases env.answers? plan'.queries with
      | none => rfl
      | some answers' => simp [← hlength]

/-- A computation on a part is one on the whole. -/
theorem below (hf : Planned w place f) (hpart : v.PartAt path w place) : Planned v path f := by
  obtain ⟨plan, hstays, hrun⟩ := hf
  exact ⟨plan, fun q hq => hpart.trans (hstays q hq), hrun⟩

theorem congr {f' : Environment → Option α} (hf : Planned v path f)
    (h : ∀ env, f' env = f env) : Planned v path f' := by
  rwa [show f' = f from funext h]

/-- Findings joined. -/
theorem append {f g : Environment → Option Findings} (hf : Planned v path f)
    (hg : Planned v path g) :
    Planned v path (fun env => do
      let found ← f env
      let more ← g env
      return found ++ more) := by
  apply ((hf.seq hg).map (fun r => r.1 ++ r.2)).congr
  intro env
  cases f env <;> cases g env <;> simp

theorem gather {ι : Type} (l : List ι) (g : ι → Environment → Option Findings)
    (hg : ∀ i ∈ l, Planned v path (g i)) :
    Planned v path (fun env => Findings.gather (l.map (fun i => g i env))) := by
  induction l with
  | nil => exact silent []
  | cons i rest ih =>
      have hrest := ih (fun j hj => hg j (List.mem_cons_of_mem _ hj))
      apply ((hg i List.mem_cons_self).append hrest).congr
      intro env
      rw [List.map_cons]
      cases g i env with
      | none => rfl
      | some found =>
          rw [Findings.gather]
          cases Findings.gather (rest.map (fun i => g i env)) <;> rfl

end Planned

end HyperSchema
