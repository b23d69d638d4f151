import HyperSchema.Proofs.Context.Answers
import HyperSchema.Proofs.Registry.Askable
import HyperSchema.Proofs.Registry.Confluence

/-!
# Rounds whose answers are there

At the end of a round the answers are taken in one after the other. What they can make a registry
ask for is known from the documents that they are; what is accepted is there afterwards, and what
was there stays.
-/

namespace HyperSchema

/-- An answer that is taken in, and the context that takes it. -/
structure Taking where
  context : Context
  base : String
  answer : Answer

namespace Context

variable {f : String → Answer} {c : Context} {base u : String} {tried : List String}

def takings (c : Context) : List (String × Answer) → List Taking
  | [] => []
  | (base, a) :: rest => ⟨c, base, a⟩ :: takings (c.takeAnswer base a) rest

def takenFor (c : Context) (calls : List Call) : List Taking :=
  (c.withRequests (c.requests.takeAll calls).2).takings (c.requests.takeAll calls).1

def takeAll (f : String → Answer) (c : Context) (bases : List String) : Context :=
  bases.foldl (fun c base => c.takeAnswer base (f base)) c

theorem contains_takeAnswer (base : String) (a : Answer)
    (h : c.registry.store.contains u = true) :
    (c.takeAnswer base a).registry.store.contains u = true := by
  rw [registry_takeAnswer]
  split
  · next document _ =>
    rw [Registry.obey]
    split
    · next hadd => exact Registry.contains_addSchema hadd h
    · exact h
  · exact h

theorem contains_takeAll (bases : List String) (h : c.registry.store.contains u = true) :
    (c.takeAll f bases).registry.store.contains u = true := by
  induction bases generalizing c with
  | nil => exact h
  | cons base rest ih => exact ih (contains_takeAnswer base (f base) h)

theorem within_takeAnswer {all : List String} (h : Registry.Within all c.registry)
    (hbase : base ∈ all) (hhash : '#' ∉ base.toList) {a : Answer}
    (hasked : ∀ document, documentOf? a = some document →
      ∀ b ∈ Registry.asked base document, b ∈ all) :
    Registry.Within all (c.takeAnswer base a).registry := by
  rw [registry_takeAnswer]
  split
  · next document hdocument =>
    rw [Registry.obey]
    split
    · next r hadd =>
      have hnormal := SchemaUri.normalize_of_no_hash hhash
      rw [Registry.addSchema_eq_ok hadd, hnormal]
      refine (h.supply ?_).enrol ?_ none
      · rw [hnormal]
        exact hasked document hdocument
      · rwa [SchemaUri.base_of_no_hash hhash]
    · exact h
  · exact h

theorem within_takeAll {all bases : List String} (h : Registry.Within all c.registry)
    (hbases : ∀ base ∈ bases, base ∈ all ∧ '#' ∉ base.toList)
    (hasked : ∀ base ∈ bases, ∀ document, documentOf? (f base) = some document →
      ∀ b ∈ Registry.asked base document, b ∈ all) :
    Registry.Within all (c.takeAll f bases).registry := by
  induction bases generalizing c with
  | nil => exact h
  | cons base rest ih =>
      rw [List.forall_mem_cons] at hbases hasked
      exact ih (within_takeAnswer h hbases.1.1 hbases.1.2 hasked.1) hbases.2 hasked.2

/-- What is accepted is there when all answers have been taken in. -/
theorem contains_of_mem_takings {bases : List String} {t : Taking}
    (hbases : ∀ base ∈ bases, '#' ∉ base.toList)
    (ht : t ∈ c.takings (bases.map (fun base => (base, f base)))) {document : Json}
    (hdocument : documentOf? t.answer = some document) {r : Registry}
    (hadd : t.context.registry.addSchema t.base (some document) none = .ok r) :
    (c.takeAll f bases).registry.store.contains t.base = true := by
  induction bases generalizing c with
  | nil => cases ht
  | cons base rest ih =>
      rw [List.forall_mem_cons] at hbases
      rcases List.mem_cons.1 ht with rfl | ht
      · refine contains_takeAll rest ?_
        rw [registry_takeAnswer, hdocument]
        dsimp only
        rw [Registry.obey, hadd]
        exact Registry.contains_of_addSchema hbases.1 hadd
      · exact ih hbases.2 ht

theorem map_takings (bases : List String) :
    (c.takings (bases.map (fun base => (base, f base)))).map (fun t => (t.base, t.answer))
      = bases.map (fun base => (base, f base)) := by
  induction bases generalizing c with
  | nil => rfl
  | cons base rest ih => exact congrArg (List.cons (base, f base)) ih

theorem answersTo_eq {r : Requests} {calls : List Call}
    (h : ∀ k ∈ calls, r.answerTo? k = some (f k.base)) :
    r.answersTo calls = (calls.map Call.base).map (fun base => (base, f base)) := by
  rw [List.map_map, Requests.answersTo, ← List.filterMap_eq_map]
  refine List.filterMap_congr (fun k hk => ?_)
  rw [h k hk]
  rfl

theorem collect_eq {calls : List Call}
    (h : ∀ k ∈ calls, c.requests.answerTo? k = some (f k.base)) (tried : List String) :
    c.collect tried calls = { (c.takeAll f (calls.map Call.base)).recompile.1 with
      fetching := .looking (tried ++ calls.map Call.base) } := by
  rw [collect, answersTo_eq h, List.foldl_map]
  rfl

theorem not_mem_missing (h : c.registry.store.contains base = true) : base ∉ c.missing := by
  intro hmem
  rw [(Registry.mem_missingDocuments.1 hmem).2] at h
  cases h

theorem nodup_missing (c : Context) : c.missing.Nodup :=
  c.registry.sortedLT_missingDocuments.pairwise.imp ne_of_lt

theorem mem_wanted_iff (h : c.fetching = .looking tried) :
    base ∈ c.wanted ↔ base ∈ c.missing ∧ base ∉ tried := by
  rw [wanted, h]
  dsimp only
  rw [List.mem_filter, Bool.not_eq_true', ← Bool.not_eq_true, List.contains_iff_mem]

end Context

end HyperSchema
