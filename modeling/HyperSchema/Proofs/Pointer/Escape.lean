import HyperSchema.Pointer.Basic
import HyperSchema.Text.Count

/-!
# A child has one parent and one token

An escaped token holds no slash and can be read back, so the last slash of a child's pointer is the
one that was put before the token. A position written in decimal can be read back as well. Together
they say that different places of a value have different pointers.
-/

namespace HyperSchema

theorem Text.natText_injective {m n : Nat} (h : Text.natText m = Text.natText n) : m = n := by
  have hdigits : Nat.toDigits 10 m = Nat.toDigits 10 n := String.ofList_injective h
  rw [← Nat.ofDigitChars_ten_toDigits (n := m), hdigits, Nat.ofDigitChars_ten_toDigits]

namespace Pointer

theorem slash_not_mem_escapeChars (cs : List Char) : '/' ∉ escapeChars cs := by
  induction cs with
  | nil => simp [escapeChars]
  | cons c rest ih =>
      simp only [escapeChars]
      split
      · simpa using ih
      · split
        · simpa using ih
        · next hslash => simpa [Ne.symm hslash] using ih

theorem unescapeChars_escapeChars (cs : List Char) : unescapeChars (escapeChars cs) = cs := by
  induction cs with
  | nil => rfl
  | cons c rest ih =>
      simp only [escapeChars]
      split
      · next htilde => simp [unescapeChars, ih, htilde]
      · split
        · next hslash => simp [unescapeChars, ih, hslash]
        · next htilde _ => rw [unescapeChars, ih] <;> simp_all

theorem escapeChars_injective {cs ds : List Char} (h : escapeChars cs = escapeChars ds) :
    cs = ds := by
  rw [← unescapeChars_escapeChars cs, h, unescapeChars_escapeChars]

/-- The last separator of a text cuts it in one way only. -/
theorem append_cons_inj_of_not_mem {front front' rest rest' : List Char} {sep : Char}
    (hrest : sep ∉ rest) (hrest' : sep ∉ rest')
    (h : front ++ sep :: rest = front' ++ sep :: rest') : front = front' ∧ rest = rest' := by
  induction front generalizing front' with
  | nil =>
      cases front' with
      | nil => exact ⟨rfl, by simpa using h⟩
      | cons c tail =>
          obtain ⟨-, rfl⟩ := List.cons.inj h
          simp at hrest
  | cons c tail ih =>
      cases front' with
      | nil =>
          obtain ⟨-, rfl⟩ := List.cons.inj h
          simp at hrest'
      | cons c' tail' =>
          obtain ⟨rfl, htail⟩ := List.cons.inj h
          obtain ⟨rfl, hpiece⟩ := ih htail
          exact ⟨rfl, hpiece⟩

@[simp] theorem toList_child (pointer token : String) :
    (child pointer token).toList = pointer.toList ++ '/' :: escapeChars token.toList := by
  simp [child]

theorem child_injective {p q token token' : String} (h : child p token = child q token') :
    p = q ∧ token = token' := by
  have hchars := congrArg String.toList h
  rw [toList_child, toList_child] at hchars
  obtain ⟨hfront, hpiece⟩ := append_cons_inj_of_not_mem (slash_not_mem_escapeChars _)
    (slash_not_mem_escapeChars _) hchars
  exact ⟨String.toList_injective hfront, String.toList_injective (escapeChars_injective hpiece)⟩

theorem length_lt_length_child (pointer token : String) :
    pointer.toList.length < (child pointer token).toList.length := by
  rw [toList_child, List.length_append, List.length_cons]
  omega

end Pointer

end HyperSchema
