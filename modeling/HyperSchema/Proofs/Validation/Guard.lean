import HyperSchema.Proofs.Outstanding
import HyperSchema.Proofs.Validation.Asking
import HyperSchema.Validation.Snapshot

/-!
# The guard against endless calls

A run of a snapshot always comes to an end. Calls either go down into the value, or stay where they
are and make one more schema active there, and there are only so many schemas.

The guard is exact. Where it cuts nothing off, evaluation without it finds the same. Where it cuts a
call off, evaluation without it has no result, however deep the calls may nest: the call would come
back to the same schema on the same part of the value, and this with one level less to spend. That
it is the same part is because a pointer names one part only.
-/

namespace HyperSchema

/-- The environment of the calls below a schema that has become active. -/
abbrev Snapshot.below (s : Snapshot) (depth : Nat) (active : List ActiveCall) : Environment :=
  ⟨s.call depth active, s.options.unicodeLength⟩

/-- Every compiled schema stands under its own URI. -/
def Snapshot.Keyed (s : Snapshot) : Prop :=
  ∀ uri schema, Table.get? s.entries uri = some (.compiled schema) → schema.uri = uri

namespace Snapshot

/-- Calls a schema, whatever is being evaluated already. -/
def unguardedCall (s : Snapshot) : Nat → String → Json → String → Option Findings
  | 0, _, _, _ => none
  | depth + 1, target, v, path =>
    match s.target? target with
    | none => some [.missing path target]
    | some (.circular chain) => some [.violation path target (.circularReference chain)]
    | some (.compiled schema) =>
      schema.node.evaluate ⟨s.unguardedCall depth, s.options.unicodeLength⟩ v path

/-- The environment of calls that nothing guards. -/
abbrev unguarded (s : Snapshot) (depth : Nat) : Environment :=
  ⟨s.unguardedCall depth, s.options.unicodeLength⟩

/-- A call during which the guard cuts a call off: itself, or one below it. -/
inductive Cut (s : Snapshot) : List ActiveCall → String → Json → String → Prop where
  | again {active : List ActiveCall} {target : String} {v : Json} {path : String}
      {schema : CompiledSchema} (htarget : s.target? target = some (.compiled schema))
      (hactive : (schema.uri, path) ∈ active) : Cut s active target v path
  | within {active : List ActiveCall} {target : String} {v : Json} {path : String}
      {schema : CompiledSchema} {q : Query}
      (htarget : s.target? target = some (.compiled schema))
      (hfresh : (schema.uri, path) ∉ active) (hasks : schema.node.Asks v path q)
      (hbelow : Cut s ((schema.uri, path) :: active) q.target q.value q.path) :
      Cut s active target v path

@[simp] theorem answer?_below (s : Snapshot) (depth : Nat) (active : List ActiveCall) (q : Query) :
    (s.below depth active).answer? q = s.call depth active q.target q.value q.path := rfl

@[simp] theorem answer?_unguarded (s : Snapshot) (depth : Nat) (q : Query) :
    (s.unguarded depth).answer? q = s.unguardedCall depth q.target q.value q.path := rfl

variable {s : Snapshot} {schema : CompiledSchema} {active : List ActiveCall}
  {target path : String} {v : Json} {depth : Nat}

/-! ### One call -/

theorem call_again (htarget : s.target? target = some (.compiled schema))
    (hactive : (schema.uri, path) ∈ active) :
    s.call (depth + 1) active target v path
      = some [.violation path target (.circularReference [target])] := by
  rw [call, htarget]
  exact if_pos (List.contains_iff_mem.2 hactive)

theorem call_fresh (htarget : s.target? target = some (.compiled schema))
    (hfresh : (schema.uri, path) ∉ active) :
    s.call (depth + 1) active target v path
      = schema.node.evaluate (s.below depth ((schema.uri, path) :: active)) v path := by
  rw [call, htarget]
  exact if_neg (fun h => hfresh (List.contains_iff_mem.1 h))

theorem unguardedCall_compiled (htarget : s.target? target = some (.compiled schema)) :
    s.unguardedCall (depth + 1) target v path
      = schema.node.evaluate (s.unguarded depth) v path := by
  rw [unguardedCall, htarget]

/-- A call that reaches no compiled schema takes one step, guarded or not. -/
theorem call_uncompiled (v : Json) (path : String)
    (h : ∀ schema, s.target? target ≠ some (.compiled schema)) :
    ∃ found, (∀ depth active, s.call (depth + 1) active target v path = some found)
      ∧ ∀ depth, s.unguardedCall (depth + 1) target v path = some found := by
  cases htarget : s.target? target with
  | none =>
      refine ⟨[.missing path target], fun depth active => ?_, fun depth => ?_⟩
      · rw [call, htarget]
      · rw [unguardedCall, htarget]
  | some entry =>
      cases entry with
      | compiled schema => exact absurd htarget (h schema)
      | circular chain =>
          refine ⟨[.violation path target (.circularReference chain)], fun depth active => ?_,
            fun depth => ?_⟩
          · rw [call, htarget]
          · rw [unguardedCall, htarget]

/-! ### Calls that may nest deeper find the same -/

theorem call_succ {found : Findings} (h : s.call depth active target v path = some found) :
    s.call (depth + 1) active target v path = some found := by
  induction depth generalizing active target v path found with
  | zero => cases h
  | succ depth ih =>
      by_cases hcompiled : ∀ schema, s.target? target ≠ some (.compiled schema)
      · obtain ⟨found', hcall, -⟩ := call_uncompiled v path hcompiled
        rw [hcall depth active] at h
        rw [hcall (depth + 1) active, h]
      · obtain ⟨schema, htarget⟩ := Classical.not_forall_not.1 hcompiled
        by_cases hactive : (schema.uri, path) ∈ active
        · rw [call_again htarget hactive] at h ⊢
          exact h
        · rw [call_fresh htarget hactive] at h ⊢
          have hmono : ∀ q answer,
              (s.below depth ((schema.uri, path) :: active)).answer? q = some answer →
                (s.below (depth + 1) ((schema.uri, path) :: active)).answer? q = some answer :=
            fun q answer hanswer => ih hanswer
          refine Node.evaluate_mono ?_ hmono h
          rfl

theorem call_of_le {found : Findings} {depth' : Nat} (hle : depth ≤ depth')
    (h : s.call depth active target v path = some found) :
    s.call depth' active target v path = some found := by
  induction hle with
  | refl => exact h
  | step _ ih => exact call_succ ih

/-! ### Every run comes to an end -/

theorem exists_entry_of_targetWithin {steps : Nat} {uri : String} {entry : Entry}
    (h : s.targetWithin steps uri = some entry) : ∃ key, Table.get? s.entries key = some entry := by
  induction steps generalizing uri with
  | zero => cases h
  | succ steps ih =>
      rw [targetWithin] at h
      cases hentry : Table.get? s.entries uri with
      | some found =>
          rw [hentry] at h
          exact ⟨uri, hentry.trans h⟩
      | none =>
          rw [hentry] at h
          cases halias : Table.get? s.aliases uri with
          | none =>
              rw [halias] at h
              cases h
          | some next =>
              rw [halias] at h
              exact ih h

/-- A compiled schema that a call reaches stands under its own URI. -/
theorem Keyed.get? (hkeyed : s.Keyed) (htarget : s.target? target = some (.compiled schema)) :
    Table.get? s.entries schema.uri = some (.compiled schema) := by
  obtain ⟨key, hkey⟩ := exists_entry_of_targetWithin htarget
  rw [hkeyed key schema hkey]
  exact hkey

def schemaOf? : Entry → Option CompiledSchema
  | .compiled schema => some schema
  | .circular _ => none

/-- How many schemas are not active at a place. -/
def idle (s : Snapshot) (active : List ActiveCall) (path : String) : Nat :=
  outstanding ((s.entries.filterMap (fun entry => schemaOf? entry.2)).map
    (fun schema => (schema.uri, path))) active

theorem idle_le (s : Snapshot) (active : List ActiveCall) (path : String) :
    s.idle active path ≤ s.entries.length := by
  have hle := outstanding_le ((s.entries.filterMap (fun entry => schemaOf? entry.2)).map
    (fun schema => (schema.uri, path))) active
  rw [List.length_map] at hle
  exact hle.trans (List.length_filterMap_le _ s.entries)

theorem idle_cons_lt (htarget : s.target? target = some (.compiled schema))
    (hfresh : (schema.uri, path) ∉ active) :
    s.idle ((schema.uri, path) :: active) path < s.idle active path := by
  obtain ⟨key, hkey⟩ := exists_entry_of_targetWithin htarget
  refine outstanding_cons_lt (List.mem_map.2 ⟨schema, ?_, rfl⟩) hfresh
  exact List.mem_filterMap.2 ⟨(key, .compiled schema), Table.mem_of_get? hkey, rfl⟩

/-- Calls that go on where they are make a schema active there, and calls that go down have all the
schemas before them again. -/
theorem isSome_call (hdepth : v.height * s.entries.length + s.idle active path + 1 ≤ depth) :
    (s.call depth active target v path).isSome := by
  induction depth generalizing active target v path with
  | zero => exact absurd hdepth (Nat.not_succ_le_zero _)
  | succ depth ih =>
      by_cases hcompiled : ∀ schema, s.target? target ≠ some (.compiled schema)
      · obtain ⟨found, hcall, -⟩ := call_uncompiled v path hcompiled
        rw [hcall depth active]
        rfl
      · obtain ⟨schema, htarget⟩ := Classical.not_forall_not.1 hcompiled
        by_cases hactive : (schema.uri, path) ∈ active
        · rw [call_again htarget hactive]
          rfl
        · rw [call_fresh htarget hactive, Option.isSome_iff_ne_none]
          intro hnone
          obtain ⟨q, hasks, hanswer⟩ := Node.evaluate_eq_none_iff.1 hnone
          have hidle := idle_cons_lt htarget hactive
          have hsome :
              (s.call depth ((schema.uri, path) :: active) q.target q.value q.path).isSome := by
            apply ih
            rcases hasks.partAt.eq_or_height_lt with ⟨hvalue, hpath⟩ | hlt
            · rw [hvalue, hpath]
              omega
            · have hall := s.idle_le ((schema.uri, path) :: active) q.path
              have hmul := Nat.mul_le_mul_right s.entries.length (Nat.succ_le_of_lt hlt)
              rw [Nat.succ_mul] at hmul
              omega
          rw [answer?_below] at hanswer
          rw [hanswer] at hsome
          cases hsome

theorem call_depthBound (uri : String) (v : Json) (path : String)
    (hdepth : s.depthBound v ≤ depth) :
    s.call depth [] (SchemaUri.normalize uri) v path = some (s.findings uri v path) := by
  apply call_of_le hdepth
  have hsome : (s.call (s.depthBound v) [] (SchemaUri.normalize uri) v path).isSome := by
    apply isSome_call
    have hidle := s.idle_le [] path
    rw [depthBound, Nat.succ_mul]
    omega
  exact (Option.getD_of_ne_none (Option.isSome_iff_ne_none.1 hsome) []).symm

/-! ### Where nothing is cut off -/

theorem unguardedCall_of_not_cut (hcut : ¬s.Cut active target v path) (depth : Nat) :
    s.unguardedCall depth target v path = s.call depth active target v path := by
  induction depth generalizing active target v path with
  | zero => rfl
  | succ depth ih =>
      by_cases hcompiled : ∀ schema, s.target? target ≠ some (.compiled schema)
      · obtain ⟨found, hcall, hunguarded⟩ := call_uncompiled v path hcompiled
        rw [hcall, hunguarded]
      · obtain ⟨schema, htarget⟩ := Classical.not_forall_not.1 hcompiled
        by_cases hactive : (schema.uri, path) ∈ active
        · exact absurd (.again htarget hactive) hcut
        · rw [unguardedCall_compiled htarget, call_fresh htarget hactive]
          refine Node.evaluate_congr rfl (fun q hasks => ?_)
          rw [answer?_unguarded, answer?_below]
          exact ih (fun hbelow => hcut (.within htarget hactive hasks hbelow))

/-! ### Where a call is cut off -/

/-- If a call below which something is cut off had a result without the guard, one of the active
schemas would have a result on its part of the value, with less depth to spend. In `within`, the
active schema may be the one that this call itself evaluates: then the same holds of it again, hence
the induction on the depth. -/
theorem Cut.exists_active {whole : Json} {root : String} (hkeyed : s.Keyed)
    (hkeys : whole.UniqueKeys) (hcut : s.Cut active target v path)
    (hpart : whole.PartAt root v path) (hsome : (s.unguardedCall depth target v path).isSome) :
    ∃ (schema : CompiledSchema) (place : String) (w : Json) (less : Nat),
      (schema.uri, place) ∈ active
        ∧ Table.get? s.entries schema.uri = some (.compiled schema)
        ∧ whole.PartAt root w place ∧ less < depth
        ∧ (schema.node.evaluate (s.unguarded less) w place).isSome := by
  induction hcut generalizing depth with
  | @again active target v path schema htarget hactive =>
      cases depth with
      | zero => cases hsome
      | succ depth =>
          rw [unguardedCall_compiled htarget] at hsome
          exact ⟨schema, path, v, depth, hactive, hkeyed.get? htarget, hpart,
            Nat.lt_succ_self depth, hsome⟩
  | @within active target v path schema q htarget _ hasks _ ih =>
      induction depth using Nat.strongRecOn with
      | ind depth ihdepth =>
          cases depth with
          | zero => cases hsome
          | succ depth =>
              rw [unguardedCall_compiled htarget] at hsome
              have hanswer : (s.unguardedCall depth q.target q.value q.path).isSome := by
                rw [Option.isSome_iff_ne_none] at hsome ⊢
                exact fun hnone => hsome (hasks (s.unguarded depth) hnone)
              obtain ⟨other, place, w, less, hmem, hentry, hother, hless, hresult⟩ :=
                ih (hpart.trans hasks.partAt) hanswer
              rcases List.mem_cons.1 hmem with heq | hmem
              · obtain ⟨huri, rfl⟩ := Prod.mk.inj heq
                obtain rfl := hother.unique hkeys hpart
                obtain rfl : other = schema := by
                  rw [huri, hkeyed.get? htarget] at hentry
                  exact (Entry.compiled.inj (Option.some.inj hentry)).symm
                rw [← unguardedCall_compiled htarget] at hresult
                obtain ⟨found, place', w', less', hmem', hfound, hpart', hlt, hresult'⟩ :=
                  ihdepth (less + 1) (Nat.succ_lt_succ hless) hresult
                exact ⟨found, place', w', less', hmem', hfound, hpart', by omega, hresult'⟩
              · exact ⟨other, place, w, less, hmem, hentry, hother, by omega, hresult⟩

theorem Cut.unguardedCall_eq_none (hkeyed : s.Keyed) (hkeys : v.UniqueKeys)
    (hcut : s.Cut [] target v path) (depth : Nat) :
    s.unguardedCall depth target v path = none := by
  cases hanswer : s.unguardedCall depth target v path with
  | none => rfl
  | some found =>
      obtain ⟨schema, place, w, less, hmem, -⟩ :=
        hcut.exists_active hkeyed hkeys .whole (Option.isSome_of_eq_some hanswer)
      cases hmem

/-- A run comes to an end, since its calls nest no deeper than the bound. If nothing is cut off, the
evaluation without the guard leads to the same state; if something is, that evaluation has no
result at any depth. -/
theorem run_guard_exact (hkeyed : s.Keyed) (uri : String) (v : Json) (hkeys : v.UniqueKeys)
    (path : String) (state : ValidationState) :
    (∀ depth, s.depthBound v ≤ depth →
        (s.call depth [] (SchemaUri.normalize uri) v path).map state.recordAll
          = some (s.run uri v path state))
      ∧ (¬s.Cut [] (SchemaUri.normalize uri) v path →
        ∀ depth, s.depthBound v ≤ depth →
          (s.unguardedCall depth (SchemaUri.normalize uri) v path).map state.recordAll
            = some (s.run uri v path state))
      ∧ (s.Cut [] (SchemaUri.normalize uri) v path →
        ∀ depth, s.unguardedCall depth (SchemaUri.normalize uri) v path = none) := by
  refine ⟨fun depth hdepth => ?_, fun hcut depth hdepth => ?_, fun hcut depth => ?_⟩
  · rw [call_depthBound uri v path hdepth]
    rfl
  · rw [unguardedCall_of_not_cut hcut, call_depthBound uri v path hdepth]
    rfl
  · exact hcut.unguardedCall_eq_none hkeyed hkeys depth

def selfIncluding : Snapshot where
  entries :=
    [("loop", .compiled ⟨"loop", none,
      .schema ⟨"loop", Kind.all, [], none, none, []⟩ [] [.reference "loop"] [] [] none⟩)]
  aliases := []
  options := Options.standard

theorem selfIncluding_unguarded :
    selfIncluding.Keyed ∧ Json.null.UniqueKeys ∧
      ∀ depth, selfIncluding.unguardedCall depth (SchemaUri.normalize "loop") .null "" = none := by
  have hkeyed : selfIncluding.Keyed := by
    intro uri schema h
    simp only [selfIncluding, Table.get?_cons, Table.get?_nil] at h
    split at h
    · next huri =>
      obtain rfl := Entry.compiled.inj (Option.some.inj h)
      exact huri
    · cases h
  have hkeys : Json.null.UniqueKeys := by simp [Json.UniqueKeys]
  refine ⟨hkeyed, hkeys, ?_⟩
  apply (run_guard_exact hkeyed "loop" .null hkeys "" ⟨[], none, none, none⟩).2.2
  refine Cut.within (q := ⟨"loop", .null, ""⟩) rfl (by simp) ?_ (.again rfl List.mem_cons_self)
  intro env hnone
  have hinner : env.call "loop" .null "" = none := hnone
  rw [Node.evaluate_schema]
  simp [Node.evaluateEach, Node.evaluate, Node.evaluateBranches, hinner]

end Snapshot

end HyperSchema
