import HyperSchema.Proofs.Schema.Composition

/-!
# Schemas for items

The keywords that lead down to the items of an array: one schema for all of them, or a schema for
each of the first and one for those that are left over. As for composition, what is read gives the
verdict that the keywords ask for, if the subschemas are read into nodes that agree with them.
-/

namespace HyperSchema

open Schema (Satisfies)

namespace Node

variable {env : Environment} {uri path : String} {keywords : Table Json} {v : Json}

/-! ### What is left over -/

/-- What is left over is treated as the schema for it asks, if there is one. -/
def RestAgrees (env : Environment) (sub? : Option Json) : Additional → Prop
  | .allowed => ∀ sub, sub? = some sub → ∀ v, Satisfies env.unicodeLength sub v
  | .forbidden => sub? = some (.bool false)
  | .schema node => ∃ sub, sub? = some sub ∧ node.Decides env sub

theorem restAgrees_of_additional {keyword : String} {rest : Additional}
    (hkeyword : keyword ∈ ["not", "items", "additionalItems", "additionalProperties"])
    (hagrees : ∀ sub, Schema.Sub keywords sub → Agrees env sub)
    (h : additional [] uri keyword keywords = .ok rest) :
    RestAgrees env (Table.get? keywords keyword) rest := by
  cases additionalReads_of_additional h with
  | forbidden hget => exact hget
  | schema hget hnode =>
      exact ⟨_, hget, hagrees _ (.single keyword hkeyword hget) _ _ hnode⟩
  | allowed hfalse hobject =>
      intro sub hsub v
      refine Schema.satisfies_of_not_object _ v ?_ ?_
      · intro heq
        subst heq
        exact hfalse hsub
      · intro members heq
        subst heq
        exact hobject members hsub

theorem evaluateRest_verdict {sub? : Option Json} {rest : Additional}
    (h : RestAgrees env sub? rest) (key : String) :
    Verdict (evaluateRest env uri rest key v path)
      (∀ sub, sub? = some sub → Satisfies env.unicodeLength sub v) := by
  cases rest with
  | allowed => exact .accept (fun sub hsub => h sub hsub v)
  | forbidden =>
      refine .of_passes (iff_of_false (by simp) (fun hall => ?_))
      exact Schema.satisfies_false _ v (hall _ h)
  | schema node =>
      obtain ⟨sub, hsub, hdecides⟩ := h
      refine (hdecides v path).of_iff ⟨fun hsat other hother => ?_, fun hall => hall sub hsub⟩
      rwa [← Option.some.inj (hsub.symm.trans hother)]

/-- Items behind a tuple are judged one by one, unless they are forbidden: then the array is at
fault for being too long. -/
theorem evaluateExtra_verdict {sub? : Option Json} {rest : Additional}
    (h : RestAgrees env sub? rest) :
    Verdict (evaluateExtra env rest v path)
      (rest = .forbidden ∨ ∀ sub, sub? = some sub → Satisfies env.unicodeLength sub v) := by
  cases rest with
  | allowed => exact .accept (.inr (fun sub hsub => h sub hsub v))
  | forbidden => exact .accept (.inl rfl)
  | schema node =>
      obtain ⟨sub, hsub, hdecides⟩ := h
      refine (hdecides v path).of_iff ⟨fun hsat => .inr (fun other hother => ?_), ?_⟩
      · rwa [← Option.some.inj (hsub.symm.trans hother)]
      · intro h
        rcases h with hno | hall
        · cases hno
        · exact hall sub hsub

theorem surplus_passes_iff {most length : Nat} {rest : Additional} :
    Findings.passes (surplus uri path most rest length) = true
      ↔ (rest = .forbidden → length ≤ most) := by
  cases rest with
  | forbidden =>
      rw [surplus]
      by_cases hlong : most < length
      · rw [if_pos hlong]
        exact iff_of_false (by simp) (fun h => Nat.not_le_of_lt hlong (h rfl))
      · rw [if_neg hlong]
        exact iff_of_true rfl (fun _ => Nat.le_of_not_lt hlong)
  | allowed => exact iff_of_true rfl (fun h => by cases h)
  | schema node => exact iff_of_true rfl (fun h => by cases h)

/-! ### Items -/

theorem evaluateTuple_verdict (items : List Json) (i : Nat) (path : String) {nodes : List Node}
    {subs : List Json} (h : List.Forall₂ (Decides env) nodes subs) :
    Verdict (evaluateTuple env nodes items i path)
      (∀ (j : Nat) (sub item : Json), subs[j]? = some sub → items[j]? = some item →
        Satisfies env.unicodeLength sub item) := by
  induction h generalizing items i with
  | nil => exact .accept (fun j sub item hsub _ => by simp at hsub)
  | @cons node sub _ _ hdecides _ ih =>
      cases items with
      | nil => exact .accept (fun j sub item _ hitem => by simp at hitem)
      | cons item items =>
          refine ((hdecides item (itemPath path i)).append (ih items (i + 1))).of_iff
            ⟨?_, fun hall => ⟨hall 0 sub item rfl rfl, fun j => hall (j + 1)⟩⟩
          intro h j sub' item' hsub' hitem'
          obtain ⟨hfirst, hlater⟩ := h
          cases j with
          | zero =>
              obtain rfl : sub = sub' := by simpa using hsub'
              obtain rfl : item = item' := by simpa using hitem'
              exact hfirst
          | succ j => exact hlater j sub' item' (by simpa using hsub') (by simpa using hitem')

theorem forall_mem_zipIdx_iff {α : Type} {l : List α} {P : α → Prop} :
    (∀ entry ∈ l.zipIdx, P entry.1) ↔ ∀ a ∈ l, P a := by
  constructor
  · intro h a ha
    obtain ⟨i, hi⟩ := List.mem_iff_getElem?.1 ha
    exact h (a, i) (List.mk_mem_zipIdx_iff_getElem?.2 hi)
  · intro h entry hentry
    exact h entry.1 (List.fst_mem_of_mem_zipIdx hentry)

theorem forall_mem_drop_zipIdx_iff {α : Type} {l : List α} {n : Nat} {P : α → Prop} :
    (∀ entry ∈ l.zipIdx.drop n, P entry.1) ↔ ∀ a ∈ l.drop n, P a := by
  have hmap : (l.zipIdx.drop n).map Prod.fst = l.drop n := by
    rw [List.map_drop, List.zipIdx_map_fst]
  rw [← hmap, List.forall_mem_map]

theorem tuple_verdict {nodes : List Node} {subs : List Json} {sub? : Option Json}
    {rest : Additional} (hnodes : List.Forall₂ (Decides env) nodes subs)
    (hrest : RestAgrees env sub? rest) :
    Verdict (evaluateCheck env uri (.tuple nodes rest) v path)
      ((∀ (i : Nat) (sub item : Json), subs[i]? = some sub → (itemsOf v)[i]? = some item →
          Satisfies env.unicodeLength sub item)
        ∧ ∀ sub, sub? = some sub → ∀ item ∈ (itemsOf v).drop subs.length,
          Satisfies env.unicodeLength sub item) := by
  have hextra : Verdict (Findings.gather (((itemsOf v).zipIdx.drop nodes.length).map
      (fun i => evaluateExtra env rest i.1 (itemPath path i.2))))
      (∀ item ∈ (itemsOf v).drop nodes.length, rest = .forbidden
        ∨ ∀ sub, sub? = some sub → Satisfies env.unicodeLength sub item) := by
    rw [← forall_mem_drop_zipIdx_iff]
    exact .gather (fun i _ => evaluateExtra_verdict hrest)
  have hsurplus : Verdict (some (surplus uri path nodes.length rest (itemsOf v).length))
      (rest = .forbidden → (itemsOf v).length ≤ nodes.length) :=
    .of_passes surplus_passes_iff
  have hall := ((evaluateTuple_verdict (itemsOf v) 0 path hnodes).append
    hextra).append hsurplus
  refine (hall.congr ?_).of_iff ?_
  · rw [evaluateCheck]
    simp [Option.bind_assoc]
  · rw [and_assoc, hnodes.length_eq]
    refine and_congr_right (fun _ => ⟨?_, fun hrestAll => ⟨?_, ?_⟩⟩)
    · intro h sub hsub item hitem
      obtain ⟨hitems, hlength⟩ := h
      rcases hitems item hitem with hforbidden | hsat
      · rw [List.drop_eq_nil_of_le (hlength hforbidden)] at hitem
        cases hitem
      · exact hsat sub hsub
    · exact fun item hitem => .inr (fun sub hsub => hrestAll sub hsub item hitem)
    · intro heq
      subst heq
      refine Nat.le_of_not_lt (fun hlong => ?_)
      have hleft : 0 < ((itemsOf v).drop subs.length).length := by
        rw [List.length_drop]
        omega
      obtain ⟨item, hitem⟩ := List.exists_mem_of_length_pos hleft
      exact Schema.satisfies_false _ item (hrestAll _ hrest item hitem)

theorem itemChecks_verdict {checks : List Check}
    (hagrees : ∀ sub, Schema.Sub keywords sub → Agrees env sub)
    (h : itemChecks [] uri keywords = .ok checks) :
    Verdict (evaluateChecks env uri checks v path)
      (Schema.ItemKeywords env.unicodeLength keywords v) := by
  cases itemReads_of_itemChecks h with
  | @tuple subs nodes rest hget hnodes hrest =>
      have hdecides := forall₂_of_nodesOf
        (fun sub hsub => hagrees sub (.listed "items" (by decide) hget hsub)) hnodes
      have hadditional := restAgrees_of_additional (by decide) hagrees hrest
      refine (evaluateChecks_singleton (tuple_verdict hdecides hadditional)).of_iff ⟨?_, ?_⟩
      · intro htuple
        refine ⟨fun sub hsub item _ => ?_, fun other hother => ?_⟩
        · rw [hget] at hsub
          obtain rfl := Option.some.inj hsub
          exact Schema.satisfies_of_not_object _ item (by simp) (by simp)
        · rw [hget] at hother
          rwa [← Json.array.inj (Option.some.inj hother)]
      · intro hitems
        exact hitems.tuple subs hget
  | @each sub node hlist hget hnode =>
      have hdecides := hagrees sub (.single "items" (by decide) hget) _ node hnode
      have heach : Verdict (evaluateCheck env uri (.items node) v path)
          (∀ item ∈ itemsOf v, Satisfies env.unicodeLength sub item) := by
        rw [← forall_mem_zipIdx_iff, evaluateCheck]
        exact .gather (fun i _ => hdecides i.1 _)
      refine (evaluateChecks_singleton heach).of_iff ⟨?_, fun hitems => hitems.each sub hget⟩
      intro hsat
      refine ⟨fun other hother => ?_, fun subs hsubs => ?_⟩
      · rw [hget] at hother
        rwa [← Option.some.inj hother]
      · rw [hget] at hsubs
        exact absurd (Option.some.inj hsubs) (hlist subs)
  | absent hnone =>
      refine .accept ⟨fun sub hsub => ?_, fun subs hsubs => ?_⟩
      · rw [hnone] at hsub
        cases hsub
      · rw [hnone] at hsubs
        cases hsubs

end Node

end HyperSchema
