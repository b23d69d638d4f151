import HyperSchema.NameSet
import Mathlib.Data.List.Sort
import Mathlib.Data.String.Basic

/-!
# Sets of names are determined by their members

Names are kept in ascending order, so that two sets with the same members are the same list.
-/

namespace HyperSchema.NameSet

variable {s t : NameSet} {name : String} {names : List String}

theorem sortedLT_insert (h : List.SortedLT s) : List.SortedLT (insert s name) := by
  induction s with
  | nil => exact (List.pairwise_singleton _ _).sortedLT
  | cons other rest ih =>
      obtain ⟨hother, hrest⟩ := List.pairwise_cons.1 h.pairwise
      rw [insert]
      split
      · exact h
      · next hne =>
        split
        · next hlt =>
          refine (List.pairwise_cons.2 ⟨?_, h.pairwise⟩).sortedLT
          rw [List.forall_mem_cons]
          exact ⟨hlt, fun x hx => lt_trans hlt (hother x hx)⟩
        · next hle =>
          refine (List.pairwise_cons.2 ⟨fun x hx => ?_, (ih hrest.sortedLT).pairwise⟩).sortedLT
          rcases mem_insert.1 hx with rfl | hx
          · exact lt_of_le_of_ne (not_lt.1 hle) (Ne.symm hne)
          · exact hother x hx

theorem sortedLT_insertAll (h : List.SortedLT s) : List.SortedLT (insertAll s names) := by
  induction names generalizing s with
  | nil => exact h
  | cons name rest ih => exact ih (sortedLT_insert h)

end HyperSchema.NameSet
