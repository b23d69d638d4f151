import HyperSchema.Pointer.Basic

/-!
# Lineage

The lineage of a pointer is the pointer itself, its parent, and so on up to the root.
-/

namespace HyperSchema

theorem Text.length_beforeLast?_lt {sep : Char} {cs before : List Char}
    (h : Text.beforeLast? sep cs = some before) : before.length < cs.length := by
  induction cs generalizing before with
  | nil => simp [Text.beforeLast?] at h
  | cons c rest ih =>
    simp only [Text.beforeLast?] at h
    split at h
    · next front hfront =>
      have := ih hfront
      simp at h; subst h; simp; omega
    · split at h
      · simp at h; subst h; simp
      · simp at h

namespace Pointer

/-- The lineage of a pointer as a list of characters. -/
def lineageChars (cs : List Char) : List (List Char) :=
  match _h : Text.beforeLast? '/' cs with
  | some parent => cs :: lineageChars parent
  | none => [cs]
termination_by cs.length
decreasing_by exact Text.length_beforeLast?_lt _h

def lineage (pointer : String) : List String := (lineageChars pointer.toList).map String.ofList

end Pointer

end HyperSchema
