import HyperSchema.Proofs.Registry.Absent
import HyperSchema.Proofs.Registry.Arrival
import HyperSchema.Proofs.Registry.Closure

/-!
# Snapshots grow

A snapshot shows what a registry has compiled so far. What a URI leads to in one, over however many
aliases, it leads to in every later one, whatever the registry was asked to do in between: only
compiling touches the entries and the aliases, and of a URI that is done it makes nothing more. It
does not matter that the URI is queued again, registered under another name or reached as the target
of an alias, nor that some schema could not be read.

A document is refused when a URI of the document is done, and whatever comes after it goes as if it
had not been offered.
-/

namespace HyperSchema

namespace Snapshot.Extends

variable {s s' s'' : Snapshot}

theorem refl (s : Snapshot) : s.Extends s := ⟨rfl, fun _ _ h => h⟩

theorem trans (h : s.Extends s') (h' : s'.Extends s'') : s.Extends s'' :=
  ⟨h'.unicodeLength.trans h.unicodeLength,
    fun target entry htarget => h'.target target entry (h.target target entry htarget)⟩

end Snapshot.Extends

namespace Registry

variable {r r' : Registry} {uri : String} {document : Option Json} {name : Option String}

/-! ### One command -/

theorem Orderly.extends_compile (h : Orderly r) : r.snapshot.Extends r.compile.1.snapshot :=
  extends_of_same h (fun _ hu => (compile_of_handled hu).2) r.options_compile

theorem snapshot_of_addSchema (hadd : r.addSchema uri document name = .ok r') :
    r'.snapshot = r.snapshot := by
  obtain ⟨hoptions, -, hentries, haliases⟩ := of_addSchema hadd
  rw [snapshot, snapshot, hoptions, hentries, haliases]

theorem obey_of_error {e : AlreadyCompiled} (h : r.addSchema uri document name = .error e) :
    r.obey (.schema uri document name) = r := by
  rw [obey, h]

theorem Orderly.obey (h : Orderly r) (command : Command) : Orderly (r.obey command) := by
  cases command with
  | schema uri document name =>
      cases hadd : r.addSchema uri document name with
      | error e =>
          rw [obey_of_error hadd]
          exact h
      | ok r' =>
          rw [Registry.obey, hadd]
          exact h.addSchema hadd
  | format name refusal? => exact h.congr rfl rfl rfl
  | compilation => exact h.compile

theorem Orderly.extends_obey (h : Orderly r) (command : Command) :
    r.snapshot.Extends (r.obey command).snapshot := by
  cases command with
  | schema uri document name =>
      cases hadd : r.addSchema uri document name with
      | error e =>
          rw [obey_of_error hadd]
          exact .refl _
      | ok r' =>
          rw [Registry.obey, hadd, snapshot_of_addSchema hadd]
          exact .refl _
  | format name refusal? => exact .refl _
  | compilation => exact h.extends_compile

/-! ### Any commands -/

theorem Orderly.obeyAll (h : Orderly r) (commands : List Command) :
    Orderly (r.obeyAll commands) := by
  induction commands generalizing r with
  | nil => exact h
  | cons command rest ih => exact ih (h.obey command)

theorem Orderly.extends_obeyAll (h : Orderly r) (commands : List Command) :
    r.snapshot.Extends (r.obeyAll commands).snapshot := by
  induction commands generalizing r with
  | nil => exact .refl _
  | cons command rest ih => exact (h.extends_obey command).trans (ih (h.obey command))

/-- Only a document is refused, and only once some URI of it is done. -/
theorem addSchema_eq_error_iff {e : AlreadyCompiled} :
    r.addSchema uri document name = .error e
      ↔ e = ⟨SchemaUri.normalize uri⟩ ∧ document ≠ none
        ∧ ∃ u ∈ r.handled, SchemaUri.base u = SchemaUri.base uri := by
  have hcondition : (document.isSome
        && r.handlesBase (SchemaUri.base (SchemaUri.normalize uri))) = true
      ↔ document ≠ none ∧ ∃ u ∈ r.handled, SchemaUri.base u = SchemaUri.base uri := by
    rw [Bool.and_eq_true, Option.isSome_iff_ne_none, handlesBase_iff, SchemaUri.base_normalize]
  rw [← hcondition, addSchema]
  split
  · next hrefused =>
    rw [and_iff_left hrefused, Except.error.injEq, eq_comm]
  · next hkept =>
    refine iff_of_false (fun h => ?_) (fun h => hkept h.2)
    cases h

/-- What a URI leads to in one snapshot it leads to in all later ones, and a document that is
refused leaves no trace. -/
theorem snapshots_grow (store : Store) (options : Options) (before after : List Command) :
    (∀ uri entry,
      ((ofStore store options).obeyAll before).snapshot.target? uri = some entry →
        ((ofStore store options).obeyAll (before ++ after)).snapshot.target? uri = some entry)
      ∧ ∀ uri document name e,
        ((ofStore store options).obeyAll before).addSchema uri document name = .error e →
          (ofStore store options).obeyAll (before ++ .schema uri document name :: after)
            = (ofStore store options).obeyAll (before ++ after) := by
  have horderly := (orderly_ofStore store options).obeyAll before
  rw [obeyAll_append]
  refine ⟨(horderly.extends_obeyAll after).target, fun uri document name e hrefused => ?_⟩
  rw [obeyAll_append, obeyAll, List.foldl_cons, obey_of_error hrefused]
  rfl

/-- A schema is compiled, and another one that it refers to is not there. -/
def earlier : List Command := [.schema "a" (some relying) none, .compilation]

def later : List Command :=
  [.schema "a" none (some "Relying"), .schema "c" (some (.bool false)) none, .compilation]

theorem obeyAll_earlier : (empty .standard).obeyAll earlier = forsaken := by
  rw [obeyAll, earlier, List.foldl_cons, obey, addSchema_relying]
  exact compile_relied

theorem snapshots_grow_relying :
    ((empty .standard).obeyAll earlier).snapshot.target? "a"
        = some (.compiled ⟨"a", none, relyingNode⟩)
      ∧ ((empty .standard).obeyAll (earlier ++ later)).snapshot.target? "a"
        = some (.compiled ⟨"a", none, relyingNode⟩)
      ∧ (empty .standard).obeyAll (earlier ++ .schema "a#x" (some (.object [])) none :: later)
        = (empty .standard).obeyAll (earlier ++ later) := by
  obtain ⟨hkept, hrefused⟩ := snapshots_grow Store.empty .standard earlier later
  have hthere : ((empty .standard).obeyAll earlier).snapshot.target? "a"
      = some (.compiled ⟨"a", none, relyingNode⟩) := by
    rw [obeyAll_earlier]
    rfl
  refine ⟨hthere, hkept "a" _ hthere, hrefused "a#x" _ none ⟨"a#x"⟩ ?_⟩
  rw [addSchema_eq_error_iff, ← empty, obeyAll_earlier]
  exact ⟨by decide +kernel, Option.some_ne_none _, "a", List.mem_singleton_self _,
    by decide +kernel⟩

end Registry

end HyperSchema
