import HyperSchema.Proofs.Schema.Composition
import HyperSchema.Proofs.Validation.Guard
import HyperSchema.Proofs.Validation.Occurrences
import HyperSchema.Proofs.Validity

/-!
# Where passing helps

A node stands positively where its passing can only help the whole to pass, and negatively where it
can only make the whole fail. Checks and the keywords that combine schemas keep the side, except
that a negated node stands on the other side, and a branch of a choice of exactly one on both. So if
a snapshot comes to have more schemas, and none of the references that are answered now stands
negatively, what is valid then was valid before.
-/

namespace HyperSchema

inductive Polarity where
  | positive
  | negative

namespace Polarity

def flip : Polarity → Polarity
  | .positive => .negative
  | .negative => .positive

/-- Positively, the first passes whenever the second does; negatively, the other way round. -/
def Leans : Polarity → Bool → Bool → Prop
  | .positive, a, b => b = true → a = true
  | .negative, a, b => a = true → b = true

variable {p : Polarity} {a b c d : Bool}

theorem Leans.refl (p : Polarity) (a : Bool) : p.Leans a a := by
  cases p with
  | positive => exact id
  | negative => exact id

theorem Leans.and (h : p.Leans a b) (h' : p.Leans c d) : p.Leans (a && c) (b && d) := by
  cases p with
  | positive =>
      intro hboth
      rw [Bool.and_eq_true] at hboth ⊢
      exact hboth.imp h h'
  | negative =>
      intro hboth
      rw [Bool.and_eq_true] at hboth ⊢
      exact hboth.imp h h'

theorem Leans.or (h : p.Leans a b) (h' : p.Leans c d) : p.Leans (a || c) (b || d) := by
  cases p with
  | positive =>
      intro hone
      rw [Bool.or_eq_true] at hone ⊢
      exact hone.imp h h'
  | negative =>
      intro hone
      rw [Bool.or_eq_true] at hone ⊢
      exact hone.imp h h'

theorem Leans.not (h : p.flip.Leans a b) : p.Leans (!a) (!b) := by
  cases p with
  | positive =>
      intro hb
      rw [Bool.not_eq_true'] at hb ⊢
      exact Bool.eq_false_iff.2 (fun ha => Bool.eq_false_iff.1 hb (h ha))
  | negative =>
      intro ha
      rw [Bool.not_eq_true'] at ha ⊢
      exact Bool.eq_false_iff.2 (fun hb => Bool.eq_false_iff.1 ha (h hb))

/-- What leans both ways is the same. -/
theorem eq_of_leans (h : ∀ p : Polarity, p.Leans a b) : a = b :=
  Bool.eq_iff_iff.2 ⟨h .negative, h .positive⟩

end Polarity

/-! ### Results that lean -/

/-- Where both have a result, the results are related. -/
def WhenBoth {α β : Type} (R : α → β → Prop) (f : Option α) (g : Option β) : Prop :=
  ∀ a b, f = some a → g = some b → R a b

namespace WhenBoth

variable {α β γ δ : Type} {R : α → β → Prop} {S : γ → δ → Prop} {f : Option α} {g : Option β}

theorem some {a : α} {b : β} (h : R a b) : WhenBoth R (some a) (some b) := by
  intro a' b' ha hb
  rw [← Option.some.inj ha, ← Option.some.inj hb]
  exact h

theorem bind {k : α → Option γ} {l : β → Option δ} (h : WhenBoth R f g)
    (hnext : ∀ a b, R a b → WhenBoth S (k a) (l b)) : WhenBoth S (f.bind k) (g.bind l) := by
  intro c d hc hd
  obtain ⟨a, ha, hc⟩ := Option.bind_eq_some_iff.1 hc
  obtain ⟨b, hb, hd⟩ := Option.bind_eq_some_iff.1 hd
  exact hnext a b (h a b ha hb) c d hc hd

theorem ite {c : Prop} [Decidable c] {f' : Option α} {g' : Option β} (h : WhenBoth R f g)
    (h' : WhenBoth R f' g') : WhenBoth R (if c then f else f') (if c then g else g') := by
  by_cases hc : c
  · rwa [if_pos hc, if_pos hc]
  · rwa [if_neg hc, if_neg hc]

theorem congr {f' : Option α} {g' : Option β} (h : WhenBoth R f g) (hf : f' = f) (hg : g' = g) :
    WhenBoth R f' g' := by
  rwa [hf, hg]

end WhenBoth

namespace Polarity

variable {p : Polarity} {f g f' g' : Option Findings} {results results' : List Findings}

abbrev LeansFound (p : Polarity) (found found' : Findings) : Prop :=
  p.Leans found.passes found'.passes

abbrev LeansEach (p : Polarity) : List Findings → List Findings → Prop :=
  List.Forall₂ p.LeansFound

/-- The results of two evaluations lean. -/
abbrev Leaning (p : Polarity) : Option Findings → Option Findings → Prop :=
  WhenBoth p.LeansFound

theorem Leaning.refl (p : Polarity) (f : Option Findings) : p.Leaning f f := by
  intro found found' hfound hfound'
  obtain rfl := Option.some.inj (hfound.symm.trans hfound')
  exact .refl p _

theorem Leaning.append (h : p.Leaning f g) (h' : p.Leaning f' g') :
    p.Leaning (f.bind fun found => f'.bind fun more => some (found ++ more))
      (g.bind fun found => g'.bind fun more => some (found ++ more)) := by
  refine h.bind fun found found' hfound => h'.bind fun more more' hmore => .some ?_
  rw [LeansFound, Findings.passes_append, Findings.passes_append]
  exact hfound.and hmore

theorem Leaning.gather {ι : Type} {l : List ι} {f g : ι → Option Findings}
    (h : ∀ i ∈ l, p.Leaning (f i) (g i)) :
    p.Leaning (Findings.gather (l.map f)) (Findings.gather (l.map g)) := by
  induction l with
  | nil => exact .refl p _
  | cons i rest ih =>
      have hrest := ih (fun j hj => h j (List.mem_cons_of_mem i hj))
      have hgather : ∀ f : ι → Option Findings, Findings.gather ((i :: rest).map f)
          = (f i).bind fun found => (Findings.gather (rest.map f)).bind fun more =>
            some (found ++ more) := by
        intro f
        rw [List.map_cons]
        cases f i with
        | none => rfl
        | some found =>
            rw [Findings.gather]
            cases Findings.gather (rest.map f) <;> rfl
      rw [hgather, hgather]
      exact (h i List.mem_cons_self).append hrest

theorem leans_flatten (h : p.LeansEach results results') :
    p.LeansFound results.flatten results'.flatten := by
  rw [LeansFound, Findings.passes_flatten, Findings.passes_flatten]
  induction h with
  | nil => exact .refl p _
  | cons hfirst _ ih => exact hfirst.and ih

theorem leans_any (h : p.LeansEach results results') :
    p.Leans (results.any Findings.passes) (results'.any Findings.passes) := by
  induction h with
  | nil => exact .refl p _
  | cons hfirst _ ih => exact hfirst.or ih

theorem leans_anyOf (h : p.LeansEach results results') (head : Head) (path : String) :
    p.LeansFound (head.anyOf path results) (head.anyOf path results') := by
  have hempty := Node.ne_nil_iff_of_forall₂ h
  have hany := leans_any h
  cases p with
  | positive =>
      intro hpasses
      rw [Node.anyOf_passes_iff] at hpasses ⊢
      exact fun hne => hany (hpasses (hempty.1 hne))
  | negative =>
      intro hpasses
      rw [Node.anyOf_passes_iff] at hpasses ⊢
      exact fun hne => hany (hpasses (hempty.2 hne))

theorem map_passes_eq (h : ∀ p : Polarity, p.LeansEach results results') :
    results.map Findings.passes = results'.map Findings.passes := by
  induction results generalizing results' with
  | nil =>
      cases h .positive
      rfl
  | cons found rest ih =>
      cases h .positive with
      | @cons _ found' _ rest' _ _ =>
          have hfirst : ∀ p : Polarity, p.LeansFound found found' :=
            fun p => (List.forall₂_cons.1 (h p)).1
          have hrest : ∀ p : Polarity, p.LeansEach rest rest' :=
            fun p => (List.forall₂_cons.1 (h p)).2
          rw [List.map_cons, List.map_cons, eq_of_leans hfirst, ih hrest]

/-- Only which branches pass counts for the choice of exactly one. -/
theorem oneOf_passes_eq (head : Head) (path : String) (results : List Findings) :
    Findings.passes (head.oneOf path results)
      = ((results.map Findings.passes).isEmpty
        || (results.map Findings.passes).count true == 1) := by
  have hcount : (results.map Findings.passes).count true = (Head.passing results).length := by
    rw [Head.passing, ← List.countP_eq_length_filter, List.count_eq_countP, List.countP_map]
    conv_lhs => rw [← List.zipIdx_map_fst 0 results, List.countP_map]
    exact List.countP_congr (fun r _ => by simp)
  rw [hcount, List.isEmpty_map, Head.oneOf]
  cases hnil : results.isEmpty with
  | true => rfl
  | false =>
      rw [if_neg Bool.false_ne_true, Bool.false_or]
      cases hpassing : Head.passing results with
      | nil => rfl
      | cons first rest =>
          cases rest with
          | nil =>
              have hmem : first ∈ Head.passing results :=
                hpassing ▸ List.mem_singleton_self first
              exact (List.mem_filter.1 hmem).2
          | cons second rest => rfl

theorem leans_oneOf (h : ∀ p : Polarity, p.LeansEach results results') (head : Head)
    (path : String) : p.LeansFound (head.oneOf path results) (head.oneOf path results') := by
  rw [LeansFound, oneOf_passes_eq, oneOf_passes_eq, map_passes_eq h]
  exact .refl p _

theorem leans_negated {found found' : Findings} (h : p.flip.LeansFound found found') (head : Head)
    (path : String) :
    p.LeansFound (head.negated path (some found)) (head.negated path (some found')) := by
  have hnot : ∀ fs : Findings, Findings.passes (head.negated path (some fs)) = !fs.passes := by
    intro fs
    cases hpasses : fs.passes <;> simp [Head.negated, hpasses]
  rw [LeansFound, hnot, hnot]
  exact h.not

end Polarity

open Polarity (LeansFound LeansEach Leaning)

namespace Node

/-- A node that stands on a side has others directly below it stand on a side. -/
inductive Turns : Polarity → Node → Polarity → Node → Prop where
  | check {p head branches allOf anyOf oneOf negated kinds checks check node} :
      (kinds, checks) ∈ branches → check ∈ checks → Check.Applies check node →
        Turns p (.schema head branches allOf anyOf oneOf negated) p node
  | allOf {p head branches allOf anyOf oneOf negated node} : node ∈ allOf →
      Turns p (.schema head branches allOf anyOf oneOf negated) p node
  | anyOf {p head branches allOf anyOf oneOf negated node} : node ∈ anyOf →
      Turns p (.schema head branches allOf anyOf oneOf negated) p node
  | oneOf {p q head branches allOf anyOf oneOf negated node} : node ∈ oneOf →
      Turns p (.schema head branches allOf anyOf oneOf negated) q node
  | negated {p head branches allOf anyOf oneOf node} :
      Turns p (.schema head branches allOf anyOf oneOf (some node)) p.flip node

end Node

/-- Two environments, and certain nodes that stand on a side, among which the results of references
lean. -/
structure Compared (env env' : Environment) (stands : Polarity → Node → Prop) : Prop where
  unicodeLength : env'.unicodeLength = env.unicodeLength
  call : ∀ p target v path, stands p (.reference target) →
    p.Leaning (env.call target v path) (env'.call target v path)
  turns : ∀ p node q sub, stands p node → Node.Turns p node q sub → stands q sub

namespace Node

variable {env env' : Environment} {stands : Polarity → Node → Prop}

mutual

theorem evaluate_leaning {p : Polarity} (h : Compared env env' stands) (node : Node)
    (hnode : stands p node) (v : Json) (path : String) :
    p.Leaning (evaluate env node v path) (evaluate env' node v path) := by
  cases node with
  | accept => exact .refl p _
  | reject uri => exact .refl p _
  | reference target => exact h.call p target v path hnode
  | schema head branches allOf anyOf oneOf negated =>
      have htyped := (evaluateBranches_leaning h head.uri branches
        (fun kinds checks hchecks check hcheck sub happlies =>
          h.turns p _ p sub hnode (.check hchecks hcheck happlies)) v path).ite
        (c := head.allowed.contains v.kind = true) (Leaning.refl p (some []))
      have hone : WhenBoth (fun results results' => ∀ q : Polarity, q.LeansEach results results')
          (evaluateEach env oneOf v path) (evaluateEach env' oneOf v path) :=
        fun results results' hresults hresults' q => evaluateEach_leaning h oneOf
          (fun sub hsub => h.turns p _ q sub hnode (.oneOf hsub)) v path results results'
          hresults hresults'
      rw [evaluate_schema, evaluate_schema]
      refine htyped.bind fun typed typed' htyped =>
        (evaluateEach_leaning h allOf (fun sub hsub => h.turns p _ p sub hnode (.allOf hsub))
          v path).bind fun all all' hall =>
        (evaluateEach_leaning h anyOf (fun sub hsub => h.turns p _ p sub hnode (.anyOf hsub))
          v path).bind fun any any' hany => hone.bind fun one one' hone =>
        (evaluateNegated_leaning h head negated
          (fun sub hsub => h.turns p _ p.flip sub hnode (hsub ▸ .negated)) v path).bind
          fun result result' hresult => .some ?_
      simp only [LeansFound, Findings.passes_append]
      exact ((((((Polarity.Leans.refl p _).and htyped).and (Polarity.leans_flatten hall)).and
        (Polarity.leans_anyOf hany head path)).and (Polarity.leans_oneOf hone head path)).and
        hresult).and (.refl p _)

theorem evaluateEach_leaning {p : Polarity} (h : Compared env env' stands) (nodes : List Node)
    (hnodes : ∀ node ∈ nodes, stands p node) (v : Json) (path : String) :
    WhenBoth p.LeansEach (evaluateEach env nodes v path) (evaluateEach env' nodes v path) := by
  cases nodes with
  | nil => exact .some .nil
  | cons node rest =>
      exact (evaluate_leaning h node (hnodes node List.mem_cons_self) v path).bind
        fun found found' hfound => (evaluateEach_leaning h rest
          (fun other hother => hnodes other (List.mem_cons_of_mem node hother)) v path).bind
          fun more more' hmore => .some (.cons hfound hmore)

theorem evaluateNegated_leaning {p : Polarity} (h : Compared env env' stands) (head : Head)
    (negated : Option Node) (hnegated : ∀ node, negated = some node → stands p.flip node)
    (v : Json) (path : String) :
    WhenBoth (fun result result' =>
        p.LeansFound (head.negated path result) (head.negated path result'))
      (evaluateNegated env negated v path) (evaluateNegated env' negated v path) := by
  cases negated with
  | none => exact .some (.refl p _)
  | some node =>
      have hnode := evaluate_leaning h node (hnegated node rfl) v path
      rw [evaluateNegated, evaluateNegated, Option.map_eq_bind, Option.map_eq_bind]
      exact hnode.bind fun found found' hfound => .some (Polarity.leans_negated hfound head path)

theorem evaluateBranches_leaning {p : Polarity} (h : Compared env env' stands) (uri : String)
    (branches : List (List Kind × List Check))
    (hbranches : ∀ kinds checks, (kinds, checks) ∈ branches →
      ∀ check ∈ checks, ∀ node, check.Applies node → stands p node) (v : Json) (path : String) :
    p.Leaning (evaluateBranches env uri branches v path)
      (evaluateBranches env' uri branches v path) := by
  match branches with
  | [] => exact .refl p _
  | [(kinds, checks)] =>
      exact evaluateChecks_leaning h uri checks (hbranches kinds checks List.mem_cons_self) v path
  | (kinds, checks) :: next :: rest =>
      have hfirst := evaluateChecks_leaning h uri checks
        (hbranches kinds checks List.mem_cons_self) v path
      have hrest := evaluateBranches_leaning h uri (next :: rest)
        (fun kinds checks hmem => hbranches kinds checks (List.mem_cons_of_mem _ hmem)) v path
      have hite := hfirst.ite (c := kinds.contains v.kind = true) hrest
      simpa [evaluateBranches] using hite

theorem evaluateChecks_leaning {p : Polarity} (h : Compared env env' stands) (uri : String)
    (checks : List Check)
    (hchecks : ∀ check ∈ checks, ∀ node, check.Applies node → stands p node) (v : Json)
    (path : String) :
    p.Leaning (evaluateChecks env uri checks v path) (evaluateChecks env' uri checks v path) := by
  cases checks with
  | nil => exact .refl p _
  | cons check rest =>
      exact (evaluateCheck_leaning h uri check (hchecks check List.mem_cons_self) v path).append
        (evaluateChecks_leaning h uri rest
          (fun other hother => hchecks other (List.mem_cons_of_mem check hother)) v path)

theorem evaluateCheck_leaning {p : Polarity} (h : Compared env env' stands) (uri : String)
    (check : Check) (hcheck : ∀ node, check.Applies node → stands p node) (v : Json)
    (path : String) :
    p.Leaning (evaluateCheck env uri check v path) (evaluateCheck env' uri check v path) := by
  match check, v with
  | .assertion a, v =>
      rw [evaluateCheck, evaluateCheck, h.unicodeLength]
      exact .refl p _
  | .items node, v =>
      exact .gather fun i _ => evaluate_leaning h node (hcheck node .items) i.1 (itemPath path i.2)
  | .tuple nodes rest, v =>
      have htuple := evaluateTuple_leaning h nodes (fun node hnode => hcheck node (.tuple hnode))
        (itemsOf v) 0 path
      have hextra := Leaning.gather (l := (itemsOf v).zipIdx.drop nodes.length) fun i _ =>
        evaluateExtra_leaning h rest (fun node hnode => hcheck node (hnode ▸ .surplus)) i.1
          (itemPath path i.2)
      have hall := (htuple.append hextra).append
        (Leaning.refl p (some (surplus uri path nodes.length rest (itemsOf v).length)))
      simpa [evaluateCheck, Option.bind_assoc] using hall
  | .members properties required dependencies patterns rest, .object members =>
      refine Leaning.append (.gather fun key _ => ?_) (.gather fun entry _ => ?_)
      · cases Table.get? members key with
        | none => exact .refl p _
        | some member =>
            exact (evaluateProperty_leaning h properties
              (fun key node hnode => hcheck node (.property hnode)) key member path).append
              (evaluateDependency_leaning h uri dependencies
                (fun key node hnode => hcheck node (.dependency hnode)) key members path)
      · obtain ⟨key, member⟩ := entry
        have hpatterns := evaluatePatterns_leaning h patterns
          (fun pattern node hnode => hcheck node (.pattern hnode)) key member
          (Pointer.child path key)
        have hrest := (Leaning.refl p (some [])).ite
          (c := ((properties.map Prod.fst).contains key
            || patterns.any (fun p => p.1.isMatch key)) = true)
          (evaluateRest_leaning h uri rest (fun node hnode => hcheck node (hnode ▸ .others)) key
            member (Pointer.child path key))
        refine (hpatterns.append hrest).congr (Option.bind_congr fun found _ => ?_)
          (Option.bind_congr fun found _ => ?_)
        · split
          · rfl
          · rfl
        · split
          · rfl
          · rfl
  | .members _ _ _ _ _, .null => exact .refl p _
  | .members _ _ _ _ _, .bool _ => exact .refl p _
  | .members _ _ _ _ _, .number _ => exact .refl p _
  | .members _ _ _ _ _, .string _ => exact .refl p _
  | .members _ _ _ _ _, .array _ => exact .refl p _

theorem evaluateTuple_leaning {p : Polarity} (h : Compared env env' stands) (nodes : List Node)
    (hnodes : ∀ node ∈ nodes, stands p node) (items : List Json) (i : Nat) (path : String) :
    p.Leaning (evaluateTuple env nodes items i path) (evaluateTuple env' nodes items i path) := by
  match nodes, items with
  | [], _ => exact .refl p _
  | _ :: _, [] => exact .refl p _
  | node :: nodes, item :: items =>
      exact (evaluate_leaning h node (hnodes node List.mem_cons_self) item
        (itemPath path i)).append (evaluateTuple_leaning h nodes
          (fun other hother => hnodes other (List.mem_cons_of_mem node hother)) items (i + 1) path)

theorem evaluateExtra_leaning {p : Polarity} (h : Compared env env' stands) (rest : Additional)
    (hrest : ∀ node, rest = .schema node → stands p node) (v : Json) (path : String) :
    p.Leaning (evaluateExtra env rest v path) (evaluateExtra env' rest v path) := by
  cases rest with
  | allowed => exact .refl p _
  | forbidden => exact .refl p _
  | schema node => exact evaluate_leaning h node (hrest node rfl) v path

theorem evaluateRest_leaning {p : Polarity} (h : Compared env env' stands) (uri : String)
    (rest : Additional) (hrest : ∀ node, rest = .schema node → stands p node) (key : String)
    (member : Json) (path : String) :
    p.Leaning (evaluateRest env uri rest key member path)
      (evaluateRest env' uri rest key member path) := by
  cases rest with
  | allowed => exact .refl p _
  | forbidden => exact .refl p _
  | schema node => exact evaluate_leaning h node (hrest node rfl) member path

theorem evaluateProperty_leaning {p : Polarity} (h : Compared env env' stands)
    (properties : List (String × Node))
    (hproperties : ∀ name node, (name, node) ∈ properties → stands p node) (key : String)
    (member : Json) (path : String) :
    p.Leaning (evaluateProperty env properties key member path)
      (evaluateProperty env' properties key member path) := by
  match properties with
  | [] => exact .refl p _
  | (name, node) :: rest =>
      exact (evaluate_leaning h node (hproperties name node List.mem_cons_self) member
        (Pointer.child path key)).ite (evaluateProperty_leaning h rest
          (fun name node hnode => hproperties name node (List.mem_cons_of_mem _ hnode)) key member
          path)

theorem evaluateDependency_leaning {p : Polarity} (h : Compared env env' stands) (uri : String)
    (dependencies : List (String × Dependency))
    (hdependencies : ∀ name node, (name, Dependency.schema node) ∈ dependencies → stands p node)
    (key : String) (members : Table Json) (path : String) :
    p.Leaning (evaluateDependency env uri dependencies key members path)
      (evaluateDependency env' uri dependencies key members path) := by
  match dependencies with
  | [] => exact .refl p _
  | (name, dependency) :: rest =>
      exact (evaluateDependent_leaning h uri dependency
        (fun node hnode => hdependencies name node (hnode ▸ List.mem_cons_self)) key members
        path).ite (evaluateDependency_leaning h uri rest
          (fun name node hnode => hdependencies name node (List.mem_cons_of_mem _ hnode)) key
          members path)

theorem evaluateDependent_leaning {p : Polarity} (h : Compared env env' stands) (uri : String)
    (dependency : Dependency) (hdependency : ∀ node, dependency = .schema node → stands p node)
    (key : String) (members : Table Json) (path : String) :
    p.Leaning (evaluateDependent env uri dependency key members path)
      (evaluateDependent env' uri dependency key members path) := by
  cases dependency with
  | keys names => exact .refl p _
  | schema node => exact evaluate_leaning h node (hdependency node rfl) (.object members) path

theorem evaluatePatterns_leaning {p : Polarity} (h : Compared env env' stands)
    (patterns : List (Pattern × Node))
    (hpatterns : ∀ pattern node, (pattern, node) ∈ patterns → stands p node) (key : String)
    (member : Json) (path : String) :
    p.Leaning (evaluatePatterns env patterns key member path)
      (evaluatePatterns env' patterns key member path) := by
  match patterns with
  | [] => exact .refl p _
  | (pattern, node) :: rest =>
      have hfirst := (evaluate_leaning h node (hpatterns pattern node List.mem_cons_self) member
        path).ite (c := pattern.isMatch key = true) (Leaning.refl p (some []))
      have hrest := evaluatePatterns_leaning h rest
        (fun pattern node hnode => hpatterns pattern node (List.mem_cons_of_mem _ hnode)) key
        member path
      refine (Leaning.append hfirst hrest).congr ?_ ?_
      · rw [evaluatePatterns]
        split
        · rfl
        · rfl
      · rw [evaluatePatterns]
        split
        · rfl
        · rfl

end

end Node

namespace Snapshot

variable {s s' : Snapshot} {uri path : String} {v : Json}

/-- The nodes that a run of a URI comes to, with the side on which they stand in it. -/
inductive Stands (s : Snapshot) (uri : String) : Polarity → Node → Prop where
  | root : Stands s uri .positive (.reference (SchemaUri.normalize uri))
  | turn {p q : Polarity} {node sub : Node} (h : Stands s uri p node)
      (hturns : Node.Turns p node q sub) : Stands s uri q sub
  | call {p : Polarity} {target : String} {schema : CompiledSchema}
      (h : Stands s uri p (.reference target))
      (htarget : s.target? target = some (.compiled schema)) : Stands s uri p schema.node

structure Extends (s s' : Snapshot) : Prop where
  unicodeLength : s'.options.unicodeLength = s.options.unicodeLength
  target : ∀ target entry, s.target? target = some entry → s'.target? target = some entry

/-- With more schemas, what a call finds changes in the direction in which its target stands. -/
theorem call_leaning (hextends : s.Extends s')
    (habsent : ∀ target, s.Stands uri .negative (.reference target) → s.target? target = none →
      s'.target? target = none)
    (depth : Nat) (active : List ActiveCall) {p : Polarity} {target : String}
    (hstands : s.Stands uri p (.reference target)) (v : Json) (path : String) :
    p.Leaning (s.call depth active target v path) (s'.call depth active target v path) := by
  induction depth generalizing active p target v path with
  | zero => exact .refl p _
  | succ depth ih =>
      cases htarget : s.target? target with
      | none =>
          rw [call, htarget]
          cases p with
          | positive =>
              -- whatever the other snapshot has under the target, nothing is imposed here
              intro found found' hfound hfound' _
              rw [← Option.some.inj hfound]
              rfl
          | negative =>
              rw [call, habsent target hstands htarget]
              exact .refl _ _
      | some entry =>
          have htarget' := hextends.target target entry htarget
          rw [call, call, htarget, htarget']
          cases entry with
          | circular chain => exact .refl p _
          | compiled schema =>
              have hcompared : Compared (s.below depth ((schema.uri, path) :: active))
                  (s'.below depth ((schema.uri, path) :: active)) (s.Stands uri) :=
                ⟨hextends.unicodeLength, fun q target w place hq =>
                  ih ((schema.uri, path) :: active) hq w place, fun _ _ _ _ => .turn⟩
              exact (Leaning.refl p _).ite (c := active.contains (schema.uri, path) = true)
                (Node.evaluate_leaning hcompared schema.node (hstands.call htarget) v path)

/-- What is valid with more schemas was valid before, if nothing that stands negatively has come. -/
theorem isValid_of_extends (hextends : s.Extends s')
    (habsent : ∀ target, s.Stands uri .negative (.reference target) → s.target? target = none →
      s'.target? target = none)
    (hvalid : (s'.validate uri v).isValid = true) : (s.validate uri v).isValid = true := by
  rw [isValid_validate] at hvalid ⊢
  have hfindings := s.call_depthBound uri v "" (Nat.le_max_left _ (s'.depthBound v))
  have hfindings' := s'.call_depthBound uri v "" (Nat.le_max_right (s.depthBound v) _)
  exact call_leaning hextends habsent _ [] .root v "" _ _ hfindings hfindings' hvalid

end Snapshot

end HyperSchema
