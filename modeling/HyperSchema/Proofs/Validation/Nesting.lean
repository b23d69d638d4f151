import HyperSchema.Proofs.Validation.Plan

/-!
# Errors within errors

A choice that fails reports the errors of its branches, and these may be choices that failed in their
turn. So a finding mentions the place where it is, and the places of all errors within it. Putting a
path in front of all of these is what the value being part of a larger one comes to.
-/

namespace HyperSchema

def Violation.branches : Violation → List (List ValidationError)
  | .anyOfMissing branches => branches
  | .oneOfMissing branches => branches
  | _ => []

namespace ValidationError

/-- An error that is reported with another, at any depth, or the error itself. -/
inductive Includes : ValidationError → ValidationError → Prop where
  | itself (e : ValidationError) : Includes e e
  | nested {e inner error : ValidationError} {errors : List ValidationError}
      (hbranch : errors ∈ e.cause.branches) (hinner : inner ∈ errors)
      (hincludes : Includes inner error) : Includes e error

mutual

def causeUnder (path : String) : Violation → Violation
  | .anyOfMissing branches => .anyOfMissing (branchesUnder path branches)
  | .oneOfMissing branches => .oneOfMissing (branchesUnder path branches)
  | v => v

/-- The error with a path in front of its own and of those of the errors within it. -/
def under (path : String) : ValidationError → ValidationError
  | ⟨v, place, schema⟩ => ⟨causeUnder path v, path ++ place, schema⟩

def listUnder (path : String) : List ValidationError → List ValidationError
  | [] => []
  | e :: rest => under path e :: listUnder path rest

def branchesUnder (path : String) : List (List ValidationError) → List (List ValidationError)
  | [] => []
  | errors :: rest => listUnder path errors :: branchesUnder path rest

end

theorem listUnder_eq (path : String) (errors : List ValidationError) :
    listUnder path errors = errors.map (under path) := by
  induction errors with
  | nil => rfl
  | cons e rest ih => rw [listUnder, ih, List.map_cons]

theorem branchesUnder_eq (path : String) (branches : List (List ValidationError)) :
    branchesUnder path branches = branches.map (List.map (under path)) := by
  induction branches with
  | nil => rfl
  | cons errors rest ih => rw [branchesUnder, ih, listUnder_eq, List.map_cons]

theorem causeUnder_of_branches_eq_nil {v : Violation} (h : v.branches = []) (path : String) :
    causeUnder path v = v := by
  cases v with
  | anyOfMissing branches =>
      obtain rfl : branches = [] := h
      rfl
  | oneOfMissing branches =>
      obtain rfl : branches = [] := h
      rfl
  | _ => rfl

end ValidationError

namespace Finding

/-- The places that a finding speaks of. -/
def Mentions : Finding → String → Prop
  | .error e, place => ∃ error, e.Includes error ∧ error.path = place
  | .schema path _, place => path = place
  | .link path _, place => path = place
  | .missing path _, place => path = place

/-- A finding that a schema makes itself: an error in a part of the value, without errors of
branches; or that the schema applies to the value, or has a link for it. -/
inductive Own (uri : String) (v : Json) (path : String) : Finding → Prop where
  | violation {w : Json} {place : String} {violation : Violation} (hpart : v.PartAt path w place)
      (hflat : violation.branches = []) : Own uri v path (.violation place uri violation)
  | schema : Own uri v path (.schema path uri)
  | link (l : Link) : Own uri v path (.link path l)

def under (path : String) : Finding → Finding
  | .error e => .error (e.under path)
  | .schema place uri => .schema (path ++ place) uri
  | .link place l => .link (path ++ place) l
  | .missing place uri => .missing (path ++ place) uri

variable {x : Finding} {path place uri : String} {v : Violation}

theorem mentions_path (x : Finding) : x.Mentions x.path := by
  cases x with
  | error e => exact ⟨e, .itself e, rfl⟩
  | schema path uri => rfl
  | link path l => rfl
  | missing path uri => rfl

theorem eq_of_mentions_violation {other : String} (hflat : v.branches = [])
    (h : (Finding.violation place uri v).Mentions other) : other = place := by
  obtain ⟨error, hincludes, rfl⟩ := h
  cases hincludes with
  | itself => rfl
  | nested hbranch _ _ =>
      rw [show (Located.mk v place uri).cause.branches = [] from hflat] at hbranch
      cases hbranch

theorem Own.partAt_of_mentions {value : Json} (hown : x.Own uri value path)
    (h : x.Mentions place) : ∃ w, value.PartAt path w place := by
  cases hown with
  | @violation w spot _ hpart hflat =>
      obtain rfl := eq_of_mentions_violation hflat h
      exact ⟨w, hpart⟩
  | schema => exact ⟨value, h ▸ .whole⟩
  | link l => exact ⟨value, h ▸ .whole⟩

theorem under_violation (h : v.branches = []) (path place uri : String) :
    (Finding.violation place uri v).under path = .violation (path ++ place) uri v := by
  rw [Finding.violation, under, ValidationError.under,
    ValidationError.causeUnder_of_branches_eq_nil h]
  rfl

/-- Apart from its own place, an error with branches mentions what the errors of these mention. -/
theorem mentions_violation (h : (violation place uri v).Mentions path) :
    path = place ∨ ∃ errors ∈ v.branches, ∃ e ∈ errors, (Finding.error e).Mentions path := by
  obtain ⟨error, hincludes, rfl⟩ := h
  cases hincludes with
  | itself => exact .inl rfl
  | nested hbranch hinner hincludes =>
      exact .inr ⟨_, hbranch, _, hinner, error, hincludes, rfl⟩

end Finding

namespace Findings

variable {fs : Findings} {path : String}

theorem mem_errors {e : ValidationError} : e ∈ fs.errors ↔ Finding.error e ∈ fs := by
  rw [errors, List.mem_filterMap]
  constructor
  · intro h
    obtain ⟨x, hx, he⟩ := h
    cases x with
    | error e' => exact Option.some.inj he ▸ hx
    | _ => cases he
  · exact fun h => ⟨.error e, h, rfl⟩

theorem errors_under (path : String) (fs : Findings) :
    errors (fs.map (Finding.under path)) = fs.errors.map (ValidationError.under path) := by
  rw [errors, errors, List.filterMap_map, List.map_filterMap]
  congr 1
  funext x
  cases x <;> rfl

@[simp] theorem passes_under (path : String) (fs : Findings) :
    passes (fs.map (Finding.under path)) = fs.passes := by
  rw [passes, errors_under, List.isEmpty_map, passes]

end Findings

end HyperSchema
