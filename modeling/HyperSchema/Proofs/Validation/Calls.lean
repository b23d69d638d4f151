import HyperSchema.Proofs.Validation.Guard
import HyperSchema.Proofs.Validation.Polarity

/-!
# The calls of a run

A run calls its root schemas on the value; each compiled schema that is called makes the calls that
its node asks for. What a run finds depends on nothing else: when more schemas come, and none of
them has been called in vain, the run finds what it has found before.
-/

namespace HyperSchema

theorem Node.not_asks_reject {uri : String} {v : Json} {path : String} {q : Query} :
    ¬(Node.reject uri).Asks v path q := by
  intro hasks
  have hnone := hasks ⟨fun _ _ _ => none, false⟩ rfl
  rw [evaluate] at hnone
  cases hnone

namespace Snapshot

variable {s s' : Snapshot} {uris : List String} {v : Json}

/-- The calls that are made when root schemas are run on a value. -/
inductive Calls (s : Snapshot) (uris : List String) (v : Json) : Query → Prop where
  | root {uri : String} (h : uri ∈ uris) : Calls s uris v ⟨SchemaUri.normalize uri, v, ""⟩
  | ask {q q' : Query} {schema : CompiledSchema} (above : Calls s uris v q)
      (htarget : s.target? q.target = some (.compiled schema))
      (hasks : schema.node.Asks q.value q.path q') : Calls s uris v q'

/-- A run calls a schema that is not there. -/
def CallsInVain (s : Snapshot) (uris : List String) (v : Json) (target : String) : Prop :=
  s.target? target = none ∧ ∃ w path, Calls s uris v ⟨target, w, path⟩

section

variable (hextends : s.Extends s')
  (hvain : ∀ target, s.CallsInVain uris v target → s'.target? target = none)

include hextends hvain

/-- A call that is made when schemas are run finds what it found before more schemas came. -/
theorem call_of_extends (depth : Nat) (active : List ActiveCall) {q : Query}
    (hq : Calls s uris v q) :
    s'.call depth active q.target q.value q.path = s.call depth active q.target q.value q.path := by
  induction depth generalizing active q with
  | zero => rfl
  | succ depth ih =>
      rw [call, call]
      cases htarget : s.target? q.target with
      | none => rw [hvain q.target ⟨htarget, q.value, q.path, hq⟩]
      | some entry =>
          rw [hextends.target q.target entry htarget]
          cases entry with
          | circular chain => rfl
          | compiled schema =>
              dsimp only
              split
              · rfl
              · exact Node.evaluate_congr hextends.unicodeLength
                  (fun q' hasks => ih _ (.ask hq htarget hasks))

theorem findings_of_extends {uri : String} (huri : uri ∈ uris) :
    s'.findings uri v "" = s.findings uri v "" := by
  have hfindings := s.call_depthBound uri v "" (Nat.le_max_left _ (s'.depthBound v))
  have hfindings' := s'.call_depthBound uri v "" (Nat.le_max_right (s.depthBound v) _)
  have hcall := call_of_extends hextends hvain (max (s.depthBound v) (s'.depthBound v)) []
    (.root huri)
  rw [hfindings, hfindings'] at hcall
  exact Option.some.inj hcall

/-- When no schema has come that was called in vain, a run finds what it found before. -/
theorem runAll_of_extends (state : ValidationState) :
    s'.runAll uris v "" state = s.runAll uris v "" state := by
  refine List.foldl_ext _ _ _ (fun state uri huri => ?_)
  rw [run, run, findings_of_extends hextends hvain huri]

end

/-- Schemas that are there and make no calls call nothing in vain. -/
theorem not_callsInVain {target : String}
    (h : ∀ uri ∈ uris, ∃ schema, s.target? (SchemaUri.normalize uri) = some (.compiled schema)
      ∧ ∀ w path q, ¬schema.node.Asks w path q) : ¬s.CallsInVain uris v target := by
  have hroot : ∀ q, s.Calls uris v q → ∃ uri ∈ uris, q.target = SchemaUri.normalize uri := by
    intro q hq
    induction hq with
    | root huri => exact ⟨_, huri, rfl⟩
    | ask _ htarget hasks ih =>
        obtain ⟨uri, huri, heq⟩ := ih
        obtain ⟨schema, htarget', hsilent⟩ := h uri huri
        rw [heq, htarget', Option.some.injEq, Entry.compiled.injEq] at htarget
        exact absurd (htarget ▸ hasks) (hsilent _ _ _)
  rintro ⟨hnone, w, path, hcalls⟩
  obtain ⟨uri, huri, heq⟩ := hroot _ hcalls
  obtain ⟨schema, htarget, -⟩ := h uri huri
  rw [show target = SchemaUri.normalize uri from heq, htarget] at hnone
  cases hnone

end Snapshot

end HyperSchema
