import HyperSchema.Proofs.Pointer.Subtrees
import HyperSchema.Proofs.Session.Lasting
import HyperSchema.Proofs.Validation.Locations
import HyperSchema.Proofs.Validation.Sources

/-!
# Errors at and below a path

A model reports errors at places that its schemas came to, and these are reached from the root token
by token. So the paths of all its errors are written from tokens, whatever has been done with the
model, and an error lies at a path or below it exactly if its tokens go on behind those of the path.
A text that is not what its tokens are written as, with a tilde that starts no escape or without its
first slash, has no errors at all: it is compared as it stands.
-/

namespace HyperSchema

open Pointer (Spelled join tokens)

theorem Json.PartAt.spelled {v w : Json} {path place : String} (hpart : v.PartAt path w place)
    (h : Spelled path) : Spelled place := by
  induction hpart with
  | whole => exact h
  | item _ _ ih => exact ih.child _
  | member _ _ ih => exact ih.child _

/-- Schemas are evaluated on parts of the value, and say nothing of other places. -/
theorem Snapshot.spelled_of_mentions {s : Snapshot} {uris : List String} {v : Json}
    (state : ValidationState) {place : String}
    (h : (s.runAll uris v "" state.fresh).Mentions place) : Spelled place := by
  rw [runAll_eq] at h
  obtain ⟨x, hx, hmentions⟩ := h.exists_finding
  obtain ⟨uri, -, hx⟩ := List.mem_flatMap.1 hx
  obtain ⟨w, hpart⟩ := partAt_of_mem_findings hx hmentions
  exact hpart.spelled (Pointer.spelled_join [])

theorem PathMap.mem_keys_of_mem_sorted {α : Type} {map : PathMap α} {entry : String × List α}
    (h : entry ∈ map.sorted) : entry.1 ∈ Table.keys map := by
  obtain ⟨path, hpath, rfl⟩ := List.mem_map.1 h
  exact (NameSet.mem_insertAll.1 hpath).resolve_left List.not_mem_nil

namespace ErrorFilter

variable {f : ErrorFilter} {path candidate : String}

/-- Below a path is what goes on behind its tokens, if the path is written from them. -/
theorem selects_iff (hsubtree : f.exact = false) (hcandidate : Spelled candidate) :
    f.selects path candidate = true ↔ Spelled path ∧ tokens path <+: tokens candidate := by
  rw [selects, hsubtree, if_neg Bool.false_ne_true, ← hcandidate, Pointer.isWithin_join_iff,
    Pointer.tokens_join]
  constructor
  · rintro ⟨front, hfront, rfl⟩
    exact ⟨Pointer.spelled_join front, by rwa [Pointer.tokens_join]⟩
  · rintro ⟨hpath, hprefix⟩
    exact ⟨tokens path, hprefix, hpath⟩

/-- The tilde of the path stands for itself, but a token with a tilde is not written like that. -/
example : selects ⟨false, false⟩ "/~" "/~0" = false := by decide +kernel

end ErrorFilter

namespace Model

variable {m : Model} {fetchError? : String → Option TransportError}

/-- All errors that a model reports, at whatever path; on demand with those of fetching. -/
def failures (m : Model) (fetchError? : String → Option TransportError)
    (withSchemaErrors : Bool) : List ValidationError :=
  m.errors ++
    if withSchemaErrors then
      m.documentFailures ++ m.schemaFailures fetchError? ++ m.missingFailures fetchError?
    else []

theorem errorsAt_eq (m : Model) (fetchError? : String → Option TransportError) (path : String)
    (f : ErrorFilter) : m.errorsAt fetchError? path f
      = (m.failures fetchError? f.withSchemaErrors).filter (fun e => f.selects path e.path) := rfl

/-- The places that a model reports errors for are written from tokens. -/
structure Placed (m : Model) : Prop where
  errors : ∀ e ∈ m.errors, Spelled e.path
  schemas : ∀ path ∈ Table.keys m.schemaMap, Spelled path
  missing : ∀ path ∈ Table.keys m.missingMap, Spelled path

theorem Placed.spelled_of_mem_failures (h : m.Placed) (withSchemaErrors : Bool) :
    ∀ e ∈ m.failures fetchError? withSchemaErrors, Spelled e.path := by
  have hdocument : ∀ e ∈ m.documentFailures, Spelled e.path := by
    intro e he
    rw [documentFailures] at he
    split at he
    · rw [List.mem_singleton.1 he]
      exact Pointer.spelled_join []
    · cases he
  have hschemas : ∀ e ∈ m.schemaFailures fetchError?, Spelled e.path := by
    intro e he
    obtain ⟨entry, hentry, he⟩ := List.mem_flatMap.1 he
    obtain ⟨schema, -, hfailure⟩ := List.mem_filterMap.1 he
    obtain ⟨failure, -, rfl⟩ := Option.map_eq_some_iff.1 hfailure
    exact h.schemas _ (PathMap.mem_keys_of_mem_sorted hentry)
  have hmissing : ∀ e ∈ m.missingFailures fetchError?, Spelled e.path := by
    intro e he
    obtain ⟨entry, hentry, he⟩ := List.mem_flatMap.1 he
    obtain ⟨schema, -, rfl⟩ := List.mem_map.1 he
    have hplaced := h.missing _ (PathMap.mem_keys_of_mem_sorted hentry)
    split
    · exact hplaced
    · exact hplaced
  refine List.forall_mem_append.2 ⟨h.errors, ?_⟩
  split
  · exact List.forall_mem_append.2 ⟨List.forall_mem_append.2 ⟨hdocument, hschemas⟩, hmissing⟩
  · exact fun e he => absurd he List.not_mem_nil

/-! ### Where errors come from -/

/-- What has been run is placed. -/
theorem placed_recompute (s : Snapshot) (m : Model) : (recompute s m).Placed := by
  have hmentions : ∀ {place}, (s.runAll m.schemas m.value ""
      ⟨[], some [], some [], some []⟩).Mentions place → Spelled place :=
    Snapshot.spelled_of_mentions ⟨[], some [], some [], some []⟩
  have hkeys : ∀ map : Option (PathMap String),
      (∀ found, map = some found → ∀ path ∈ Table.keys found, Spelled path) →
        ∀ path ∈ Table.keys (map.getD []), Spelled path := by
    intro map hmap path hpath
    cases map with
    | none => cases hpath
    | some found => exact hmap found rfl path hpath
  exact ⟨fun e he => hmentions (.error he (.itself e)),
    hkeys _ fun _ hfound _ hpath => hmentions (.schemas hfound hpath),
    hkeys _ fun _ hfound _ hpath => hmentions (.missing hfound hpath)⟩

/-- Errors and maps change only when the schemas are run. -/
theorem lasting_placed : Lasting Placed where
  created := fun _ _ _ => ⟨fun _ he => absurd he List.not_mem_nil,
    fun _ hpath => absurd hpath List.not_mem_nil, fun _ hpath => absurd hpath List.not_mem_nil⟩
  write? := fun _ hwrite => by
    obtain ⟨value, -, heq⟩ := Option.map_eq_some_iff.1 hwrite
    obtain ⟨rfl, -⟩ := Prod.mk.inj heq
    exact placed_recompute _ _
  addSchema := fun _ _ _ _ => placed_recompute _ _
  settle := fun {m} s h => by
    rw [settle]
    dsimp only
    split
    · exact ⟨h.errors, h.schemas, h.missing⟩
    · split
      · have hrun := placed_recompute s { m with pending := m.pending - 1, dirty := false }
        exact ⟨hrun.errors, hrun.schemas, hrun.missing⟩
      · exact ⟨h.errors, h.schemas, h.missing⟩
  whenReady := fun _ h => by
    rw [whenReady]
    split
    · exact ⟨h.errors, h.schemas, h.missing⟩
    · exact h
  withHandles := fun _ _ h => ⟨h.errors, h.schemas, h.missing⟩

/-- A filter for a path and what lies below selects the errors whose tokens go on behind those of
the path. -/
theorem Placed.errorsAt (h : m.Placed) (way : List String) (withSchemaErrors : Bool) :
    m.errorsAt fetchError? (join way) ⟨false, withSchemaErrors⟩
      = (m.failures fetchError? withSchemaErrors).filter
          (fun e => way.isPrefixOf (tokens e.path)) := by
  rw [errorsAt_eq]
  refine List.filter_congr fun e he => ?_
  rw [Bool.eq_iff_iff, List.isPrefixOf_iff_prefix,
    ErrorFilter.selects_iff rfl (h.spelled_of_mem_failures withSchemaErrors e he),
    Pointer.tokens_join]
  exact and_iff_right (Pointer.spelled_join way)

end Model

namespace Session

/-- Of pointers written from tokens, one lies within another exactly if it has the tokens of the
other first, and below it if there are more; what leads from the other to it is written from those
that are left. So the errors that a session reports of a model at a path and below are all those
whose tokens begin with the tokens of the path. -/
theorem subtrees_by_tokens :
    (∀ way above : List String,
        (Pointer.isWithin (join way) (join above) = true ↔ above <+: way)
          ∧ (Pointer.isBelow (join way) (join above) = true ↔ above <+: way ∧ above ≠ way)
          ∧ (∀ rest, Pointer.relative? (join way) (join above) = some (join rest)
            ↔ way = above ++ rest)
          ∧ (Pointer.relative? (join way) (join above) = none ↔ ¬ above <+: way))
      ∧ ∀ (context : Context) (transport : MemoryTransport) (ttl : Nat)
          (background overlapping : Bool) (uses : List Use) (m : Model),
        let s := (new context transport ttl background overlapping).useAll uses
        m ∈ s.models → ∀ withSchemaErrors,
          (∀ e ∈ m.failures s.context.fetchError? withSchemaErrors, join (tokens e.path) = e.path)
            ∧ ∀ above, s.errorsAt m (join above) ⟨false, withSchemaErrors⟩
              = (m.failures s.context.fetchError? withSchemaErrors).filter
                  (fun e => above.isPrefixOf (tokens e.path)) := by
  refine ⟨fun way above => ⟨Pointer.isWithin_join_join, Pointer.isBelow_join_join,
    fun rest => Pointer.relative?_join_join, Pointer.relative?_join_join_eq_none_iff⟩, ?_⟩
  intro context transport ttl background overlapping uses m s hm withSchemaErrors
  have hplaced : m.Placed :=
    all_useAll_new Model.lasting_placed context transport ttl background overlapping uses m hm
  exact ⟨hplaced.spelled_of_mem_failures withSchemaErrors,
    fun above => hplaced.errorsAt above withSchemaErrors⟩

/-- A context that has compiled a schema. No member of an object may have members, and each has to
meet another schema, which is missing. -/
def refusing : Context :=
  let refused : Node :=
    .schema ⟨"s#/additionalProperties", Kind.all, [], none, none, []⟩
      [(Kind.all, [.members [] [] [] [] .forbidden])] [.reference "gone"] [] [] none
  let schema : Node :=
    .schema ⟨"s", Kind.all, [], none, none, []⟩
      [(Kind.all, [.members [] [] [] [] (.schema refused)])] [] [] [] none
  { Context.new none .tracking with
    registry :=
      { Registry.empty .tracking with
        handled := ["s"]
        entries := [("s", .compiled ⟨"s", none, schema⟩)] } }

/-- Next to a member with an empty name within it there are two whose names begin alike. -/
def neighbours : List Use :=
  [.create none (.object [("a", .object [("", .null)]), ("ab", .null), ("a/b", .null)]) [],
    .other (.addSchema 0 "s" none)]

def neighboured : Session :=
  (new refusing MemoryTransport.empty 0 false false).useAll neighbours

theorem paths_neighboured :
    neighboured.models.map (fun m =>
      (m.failures neighboured.context.fetchError? true).map Located.path)
        = [["/a/", "/a", "/ab", "/a~1b"]] := by decide +kernel

theorem subtrees_by_tokens_neighboured :
    ∃ m ∈ neighboured.models,
      (m.failures neighboured.context.fetchError? true).map Located.path
          = ["/a/", "/a", "/ab", "/a~1b"]
        ∧ (neighboured.errorsAt m "/a" ⟨false, true⟩).map Located.path = ["/a/", "/a"] := by
  have hmodels := paths_neighboured
  obtain ⟨m, hm⟩ : ∃ m, neighboured.models = [m] :=
    List.length_eq_one_iff.1 (by simpa using congrArg List.length hmodels)
  rw [hm, List.map_singleton, List.singleton_inj] at hmodels
  have hmem : m ∈ neighboured.models := hm ▸ List.mem_singleton_self m
  have hselected : neighboured.errorsAt m "/a" ⟨false, true⟩
      = (m.failures neighboured.context.fetchError? true).filter
          (fun e => ["a"].isPrefixOf (tokens e.path)) :=
    (subtrees_by_tokens.2 refusing MemoryTransport.empty 0 false false neighbours m hmem
      true).2 ["a"]
  have hpaths : ["/a/", "/a", "/ab", "/a~1b"].filter (fun path => ["a"].isPrefixOf (tokens path))
      = ["/a/", "/a"] := by decide +kernel
  refine ⟨m, hmem, hmodels, ?_⟩
  rw [hselected, ← hpaths, ← hmodels, List.filter_map]
  rfl

end Session

end HyperSchema
