import HyperSchema.Proofs.Validation.Accumulation

/-!
# Maps that are left out

Options decide which maps a run fills in. They are consulted at every assignment, and the branches of
choices start with the maps of the state they branch off from. None of this reaches the verdict. A
state without some of the maps takes a finding as the full state does, and what is left out at the
start may as well be left out in the end. So the runs of snapshots that hold the same schemas come
from one run with all maps on, and agree in their errors and in each map that both of them have.
-/

namespace HyperSchema

namespace ValidationState

/-- A state without the maps that are off. -/
def keeping (o : Options) (s : ValidationState) : ValidationState where
  errors := s.errors
  schemas := if o.assignSchemas then s.schemas else none
  links := if o.assignLinks then s.links else none
  missing := if o.trackMissing then s.missing else none

variable (o : Options) (s : ValidationState)

theorem map_ite_none {α β : Type} (c : Bool) (x : Option α) (f : α → β) :
    (if c then x else none).map f = if c then x.map f else none := by
  cases c <;> rfl

theorem record_keeping (x : Finding) : (s.keeping o).record x = (s.record x).keeping o := by
  cases x <;> simp only [record, keeping, map_ite_none]

theorem recordAll_keeping (fs : Findings) :
    (s.keeping o).recordAll fs = (s.recordAll fs).keeping o := by
  induction fs generalizing s with
  | nil => rfl
  | cons x rest ih => rw [recordAll, List.foldl_cons, record_keeping, ← recordAll, ih]; rfl

/-- A run starts with the maps that are on. -/
theorem keeping_ofOptions : (ofOptions Options.tracking).keeping o = ofOptions o := rfl

/-- A map that is kept by two choices of maps is the same for both. -/
theorem eq_of_keeping {α : Type} {x : Option α} {a b : Bool} {m m' : α}
    (h : (if a then x else none) = some m) (h' : (if b then x else none) = some m') : m = m' := by
  cases a with
  | false => cases h
  | true =>
      cases b with
      | false => cases h'
      | true => exact Option.some.inj (h.symm.trans h')

end ValidationState

namespace Snapshot

variable {s t : Snapshot}

/-- Two snapshots with the same schemas, which count the length of strings alike. -/
structure SameSchemas (s t : Snapshot) : Prop where
  entries : t.entries = s.entries
  aliases : t.aliases = s.aliases
  unicodeLength : t.options.unicodeLength = s.options.unicodeLength

/-- Several schemas write into a state in turn. -/
def recordRuns (s : Snapshot) (depth : Nat) (uris : List String) (v : Json) (path : String)
    (state : ValidationState) : Option ValidationState :=
  uris.foldlM (fun state uri => s.recordCall depth [] (SchemaUri.normalize uri) v path state) state

/-- Where calls may nest deep enough, this is what running them comes to. -/
theorem recordRuns_eq (s : Snapshot) {depth : Nat} (uris : List String) (v : Json) (path : String)
    (state : ValidationState) (hdepth : s.depthBound v ≤ depth) :
    s.recordRuns depth uris v path state = some (s.runAll uris v path state) := by
  induction uris generalizing state with
  | nil => rfl
  | cons uri rest ih =>
      have hfirst : s.recordCall depth [] (SchemaUri.normalize uri) v path state
          = some (s.run uri v path state) := by
        rw [s.recordCall_records depth [] (SchemaUri.normalize uri) v path state,
          call_depthBound uri v path hdepth]
        rfl
      rw [recordRuns, List.foldlM_cons, hfirst]
      exact ih (s.run uri v path state)

namespace SameSchemas

variable (h : SameSchemas s t)

include h

theorem target? (uri : String) : t.target? uri = s.target? uri := by
  have hwithin : ∀ steps uri, t.targetWithin steps uri = s.targetWithin steps uri := by
    intro steps
    induction steps with
    | zero => exact fun _ => rfl
    | succ steps ih =>
        intro uri
        rw [targetWithin, targetWithin, h.entries, h.aliases]
        simp only [ih]
  rw [Snapshot.target?, Snapshot.target?, h.aliases, hwithin]

/-- What a call finds does not depend on the maps that are on. -/
theorem call (depth : Nat) (active : List ActiveCall) (target : String) (v : Json)
    (path : String) : t.call depth active target v path = s.call depth active target v path := by
  induction depth generalizing active target v path with
  | zero => rfl
  | succ depth ih =>
      rw [Snapshot.call, Snapshot.call, h.target?, h.unicodeLength]
      have hcalls : ∀ active, t.call depth active = s.call depth active :=
        fun active => funext fun target => funext fun v => funext fun path =>
          ih active target v path
      simp only [hcalls]

/-- Maps may be left out before a call writes into the state, or afterwards. -/
theorem recordCall_keeping (o : Options) (depth : Nat) (active : List ActiveCall)
    (target : String) (v : Json) (path : String) (state : ValidationState) :
    t.recordCall depth active target v path (state.keeping o)
      = (s.recordCall depth active target v path state).map (ValidationState.keeping o) := by
  rw [recordCall_records, recordCall_records, h.call, Option.map_map]
  congr 1
  exact funext fun fs => state.recordAll_keeping o fs

/-- So may several calls in turn. -/
theorem recordRuns_keeping (o : Options) (depth : Nat) (uris : List String) (v : Json)
    (path : String) (state : ValidationState) :
    t.recordRuns depth uris v path (state.keeping o)
      = (s.recordRuns depth uris v path state).map (ValidationState.keeping o) := by
  induction uris generalizing state with
  | nil => rfl
  | cons uri rest ih =>
      rw [recordRuns, List.foldlM_cons, h.recordCall_keeping, recordRuns, List.foldlM_cons]
      cases s.recordCall depth [] (SchemaUri.normalize uri) v path state with
      | none => rfl
      | some next => exact ih next

theorem depthBound (v : Json) : t.depthBound v = s.depthBound v := by
  rw [Snapshot.depthBound, Snapshot.depthBound, h.entries]

/-- A validation is the one with all maps on, without the maps that are off. -/
theorem validateAll_eq (uris : List String) (v : Json) :
    t.validateAll uris v
      = (s.runAll uris v "" (ValidationState.ofOptions Options.tracking)).keeping t.options := by
  have hkept := h.recordRuns_keeping t.options (s.depthBound v) uris v ""
    (ValidationState.ofOptions Options.tracking)
  rw [ValidationState.keeping_ofOptions, recordRuns_eq t uris v "" _ (h.depthBound v).le,
    recordRuns_eq s uris v "" _ le_rfl, Option.map_some] at hkept
  exact Option.some.inj hkept

end SameSchemas

theorem SameSchemas.refl (s : Snapshot) : SameSchemas s s := ⟨rfl, rfl, rfl⟩

/-- Validations with the same schemas have the same verdict and the same errors, whichever maps are
on, and each map that is on in both is the same. Both are what writing into a state comes to, from
the state that has the maps of the options. -/
theorem validateAll_of_sameSchemas (h : SameSchemas s t) (uris : List String) (v : Json) :
    (∀ depth, s.depthBound v ≤ depth →
        s.recordRuns depth uris v "" (ValidationState.ofOptions s.options)
            = some (s.validateAll uris v)
          ∧ t.recordRuns depth uris v "" (ValidationState.ofOptions t.options)
            = some (t.validateAll uris v))
      ∧ (t.validateAll uris v).isValid = (s.validateAll uris v).isValid
      ∧ (t.validateAll uris v).errors = (s.validateAll uris v).errors
      ∧ (∀ m m', (s.validateAll uris v).schemas = some m →
          (t.validateAll uris v).schemas = some m' → m = m')
      ∧ (∀ m m', (s.validateAll uris v).links = some m →
          (t.validateAll uris v).links = some m' → m = m')
      ∧ ∀ m m', (s.validateAll uris v).missing = some m →
          (t.validateAll uris v).missing = some m' → m = m' := by
  have hwrites : ∀ depth, s.depthBound v ≤ depth →
      s.recordRuns depth uris v "" (ValidationState.ofOptions s.options)
          = some (s.validateAll uris v)
        ∧ t.recordRuns depth uris v "" (ValidationState.ofOptions t.options)
          = some (t.validateAll uris v) := fun depth hdepth =>
    ⟨recordRuns_eq s uris v "" _ hdepth, recordRuns_eq t uris v "" _ (h.depthBound v ▸ hdepth)⟩
  rw [h.validateAll_eq uris v, (SameSchemas.refl s).validateAll_eq uris v] at *
  refine ⟨hwrites, rfl, rfl, ?_, ?_, ?_⟩
  · exact fun m m' => ValidationState.eq_of_keeping
  · exact fun m m' => ValidationState.eq_of_keeping
  · exact fun m m' => ValidationState.eq_of_keeping

/-- A schema that includes an absent one and makes two choices. A branch passes in the first; all of
them fail in the second. -/
def choosing (options : Options) : Snapshot where
  entries :=
    [("a", .compiled ⟨"a", none,
        .schema ⟨"a", Kind.all, [], none, none, []⟩ [] [.reference "gone"]
          [.reject "x", .reference "b"] [.reject "y", .reference "c"] none⟩),
      ("b", .compiled ⟨"b", none, .schema ⟨"b", Kind.all, [], none, none, []⟩ [] [] [] [] none⟩),
      ("c", .compiled ⟨"c", none, .schema ⟨"c", [], [], none, none, []⟩ [] [] [] [] none⟩)]
  aliases := []
  options := options

/-- One with all maps, the other with the map of absent schemas only. -/
theorem choosing_verdict :
    SameSchemas (choosing .tracking) (choosing ⟨false, false, true, true⟩)
      ∧ ((choosing .tracking).validateAll ["a", "b"] .null).schemas = some [("", ["a", "b"])]
      ∧ ((choosing .tracking).validateAll ["a", "b"] .null).missing = some [("", ["gone"])]
      ∧ ((choosing ⟨false, false, true, true⟩).validateAll ["a", "b"] .null).errors
        = [⟨.oneOfMissing [[⟨.notPassed, "", "y"⟩], [⟨.invalidType "null" "", "", "c"⟩]], "", "a"⟩]
      ∧ ((choosing ⟨false, false, true, true⟩).validateAll ["a", "b"] .null).errors
        = ((choosing .tracking).validateAll ["a", "b"] .null).errors := by
  have hsame : SameSchemas (choosing .tracking) (choosing ⟨false, false, true, true⟩) :=
    ⟨rfl, rfl, rfl⟩
  exact ⟨hsame, rfl, rfl, rfl, (validateAll_of_sameSchemas hsame ["a", "b"] .null).2.2.1⟩

end Snapshot

end HyperSchema
