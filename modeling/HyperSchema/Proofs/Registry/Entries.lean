import HyperSchema.Proofs.Registry.Bound
import HyperSchema.Proofs.Validation.Guard

/-!
# What is compiled stays compiled

Compiling a URI writes under this URI only, and no URI is compiled twice. So what is known of a URI
when it is done is known of it for good. Every schema stands under its own URI, which is what the
guard of a run relies on.
-/

namespace HyperSchema.Registry

variable {r r' : Registry} {uri : String}

/-- What has been made of a URI is the same in two registries. -/
def SameAt (r r' : Registry) (uri : String) : Prop :=
  Table.get? r'.entries uri = Table.get? r.entries uri
    ∧ Table.get? r'.aliases uri = Table.get? r.aliases uri

theorem SameAt.trans {r'' : Registry} (h : SameAt r r' uri) (h' : SameAt r' r'' uri) :
    SameAt r r'' uri :=
  ⟨h'.1.trans h.1, h'.2.trans h.2⟩

theorem Compiles.sameAt {error : Option PatternError} {waits : Bool} {u : String}
    (h : Compiles r uri r' error waits) (hne : u ≠ uri) : SameAt r r' u := by
  cases h with
  | circular => exact ⟨Table.get?_insert_of_ne _ _ (Ne.symm hne), rfl⟩
  | documentAbsent => exact ⟨rfl, rfl⟩
  | nodeAbsent => exact ⟨rfl, rfl⟩
  | renamed =>
      refine ⟨?_, Table.get?_insert_of_ne _ _ (Ne.symm hne)⟩
      dsimp only
      rw [(sameBut_enqueue _ _).entries]
      rfl
  | schema =>
      refine ⟨Table.get?_insert_of_ne _ _ (Ne.symm hne), ?_⟩
      dsimp only
      rw [(sameBut_enqueueAll _ _).aliases]
      rfl
  | invalid => exact ⟨rfl, rfl⟩

theorem Compiles.handled_of_handled {error : Option PatternError} {waits : Bool} {u : String}
    (h : Compiles r uri r' error waits) (hu : u ∈ r.handled) : u ∈ r'.handled := by
  rcases h.queue with ⟨-, -, hhandled⟩ | ⟨-, hhandled, -, -⟩
  · rwa [hhandled]
  · exact (hhandled u).2 (.inr hu)

theorem compile_of_handled (h : uri ∈ r.handled) :
    uri ∈ r.compile.1.handled ∧ SameAt r r.compile.1 uri := by
  have hskip : ∀ (r' : Registry) u rest (waiting : List String) (failure : Option PatternError),
      r'.queue = u :: rest → u ∈ r'.handled → uri ∈ r'.handled ∧ SameAt r r' uri →
        uri ∈ r'.handled ∧ SameAt r { r' with queue := rest } uri :=
    fun _ _ _ _ _ _ _ hP => hP
  have hstep : ∀ (r' : Registry) u rest (waiting : List String) (failure : Option PatternError)
      r'' error waits, r'.queue = u :: rest → u ∉ r'.handled →
        uri ∈ r'.handled ∧ SameAt r r' uri → Compiles { r' with queue := rest } u r'' error waits →
          uri ∈ r''.handled ∧ SameAt r r'' uri := by
    rintro r' u rest _ _ r'' error waits - hfresh ⟨hdone, hsame⟩ hcompiles
    refine ⟨hcompiles.handled_of_handled hdone, hsame.trans (hcompiles.sameAt ?_)⟩
    intro heq
    subst heq
    exact hfresh hdone
  obtain ⟨r', waiting, failure, ⟨hdone, hsame⟩, -, hcompile⟩ :=
    compile_induction hskip hstep ⟨h, rfl, rfl⟩
  rw [hcompile]
  exact ⟨hdone, hsame⟩

/-! ### Schemas under their own URIs -/

theorem Compiles.keyed {error : Option PatternError} {waits : Bool}
    (h : Compiles r uri r' error waits) (hkeyed : r.snapshot.Keyed) : r'.snapshot.Keyed := by
  intro u schema hget
  by_cases hu : u = uri
  · subst hu
    cases h with
    | circular =>
        rw [snapshot] at hget
        dsimp only at hget
        rw [Table.get?_insert_self] at hget
        cases hget
    | documentAbsent => exact hkeyed u schema hget
    | nodeAbsent => exact hkeyed u schema hget
    | renamed =>
        rw [snapshot] at hget
        dsimp only at hget
        rw [(sameBut_enqueue _ _).entries] at hget
        exact hkeyed u schema hget
    | schema _ hread =>
        rw [snapshot] at hget
        dsimp only at hget
        rw [Table.get?_insert_self] at hget
        obtain rfl := Entry.compiled.inj (Option.some.inj hget)
        exact (eq_of_readSchema hread).1
    | invalid => exact hkeyed u schema hget
  · apply hkeyed u schema
    rw [← hget]
    exact (h.sameAt hu).1.symm

theorem keyed_addSchema {document : Option Json} {name : Option String} (h : r.snapshot.Keyed)
    (hadd : r.addSchema uri document name = .ok r') : r'.snapshot.Keyed := by
  rw [addSchema] at hadd
  split at hadd
  · cases hadd
  · obtain rfl := Except.ok.inj hadd
    cases document with
    | some document => exact h
    | none =>
        rw [supply]
        split
        · exact h
        · exact h

theorem keyed_compile (h : r.snapshot.Keyed) : r.compile.1.snapshot.Keyed := by
  obtain ⟨r', waiting, failure, hkeyed, -, hcompile⟩ :=
    compile_induction (P := fun r' _ _ => r'.snapshot.Keyed)
      (fun _ _ _ _ _ _ _ hP => hP)
      (fun _ _ _ _ _ _ _ _ _ _ hP hcompiles => hcompiles.keyed hP) h
  rw [hcompile]
  exact hkeyed

/-- The registries that can come about. -/
inductive Reached : Registry → Prop
  | start (store : Store) (options : Options) : Reached (ofStore store options)
  | format {r : Registry} (h : Reached r) (name : String) (refusal? : Json → Option String) :
      Reached (r.registerFormat name refusal?)
  | schema {r r' : Registry} {uri : String} {document : Option Json} {name : Option String}
      (h : Reached r) (hadd : r.addSchema uri document name = .ok r') : Reached r'
  | compilation {r : Registry} (h : Reached r) : Reached r.compile.1

theorem Reached.keyed (h : Reached r) : r.snapshot.Keyed := by
  induction h with
  | start => exact fun _ _ hget => nomatch hget
  | format _ _ _ ih => exact ih
  | schema _ hadd ih => exact keyed_addSchema ih hadd
  | compilation _ ih => exact keyed_compile ih

end HyperSchema.Registry
