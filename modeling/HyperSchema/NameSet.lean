/-!
# Sets of names

A set of texts is the list of its elements in ascending order, each once, so that equal sets are
equal lists and a report needs no sorting.
-/

namespace HyperSchema

abbrev NameSet := List String

namespace NameSet

def insert : NameSet → String → NameSet
  | [], name => [name]
  | other :: rest, name =>
    if name = other then other :: rest
    else if name < other then name :: other :: rest
    else other :: insert rest name

def erase (s : NameSet) (name : String) : NameSet := s.filter (· ≠ name)

def insertAll (s : NameSet) (names : List String) : NameSet := names.foldl insert s

theorem mem_insert {s : NameSet} {name x : String} : x ∈ insert s name ↔ x = name ∨ x ∈ s := by
  induction s with
  | nil => simp [insert]
  | cons other rest ih =>
    simp only [insert]
    split
    · next h => subst h; simp
    · split
      · simp
      · simp only [List.mem_cons, ih]
        constructor <;> rintro (h | h | h) <;> simp [h]

theorem mem_erase {s : NameSet} {name x : String} : x ∈ erase s name ↔ x ∈ s ∧ x ≠ name := by
  simp [erase]

theorem mem_insertAll {s : NameSet} {names : List String} {x : String} :
    x ∈ insertAll s names ↔ x ∈ s ∨ x ∈ names := by
  induction names generalizing s with
  | nil => simp [insertAll]
  | cons name rest ih =>
    simp only [insertAll, List.foldl_cons] at ih ⊢
    rw [ih, mem_insert, List.mem_cons]
    constructor
    · rintro ((h | h) | h) <;> simp [h]
    · rintro (h | h | h) <;> simp [h]

end NameSet

end HyperSchema
