/-!
# Cutting text

Texts are cut as lists of characters: at every separator, at the first or the last one, and at
either end.
-/

namespace HyperSchema.Text

/-- The pieces between separators; there is always at least one. -/
def pieces (sep : Char) : List Char → List (List Char)
  | [] => [[]]
  | c :: rest =>
    if c = sep then [] :: pieces sep rest
    else
      match pieces sep rest with
      | [] => [[c]]
      | piece :: more => (c :: piece) :: more

/-- What stands before and behind the first separator. -/
def cutFirst? (sep : Char) : List Char → Option (List Char × List Char)
  | [] => none
  | c :: rest =>
    if c = sep then some ([], rest)
    else (cutFirst? sep rest).map (fun (before, behind) => (c :: before, behind))

/-- What stands before the last separator. -/
def beforeLast? (sep : Char) : List Char → Option (List Char)
  | [] => none
  | c :: rest =>
    match beforeLast? sep rest with
    | some before => some (c :: before)
    | none => if c = sep then some [] else none

/-- What is left of a text behind a beginning. -/
def behind? : List Char → List Char → Option (List Char)
  | [], cs => some cs
  | b :: beginning, c :: cs => if b = c then behind? beginning cs else none
  | _ :: _, [] => none

/-- What is left of a text before an ending. -/
def before? (ending cs : List Char) : Option (List Char) :=
  (behind? ending.reverse cs.reverse).map List.reverse

def trimStart (drop : Char → Bool) (cs : List Char) : List Char := cs.dropWhile drop

def trimEnd (drop : Char → Bool) (cs : List Char) : List Char := (cs.reverse.dropWhile drop).reverse

def trim (drop : Char → Bool) (cs : List Char) : List Char := trimEnd drop (trimStart drop cs)

/-- The texts with a separator between neighbours. -/
def joinWith (sep : List Char) : List (List Char) → List Char
  | [] => []
  | [piece] => piece
  | piece :: rest => piece ++ sep ++ joinWith sep rest

theorem pieces_ne_nil (sep : Char) (cs : List Char) : pieces sep cs ≠ [] := by
  cases cs with
  | nil => simp [pieces]
  | cons c rest =>
    simp only [pieces]
    split
    · simp
    · split <;> simp

theorem joinWith_cons (sep piece : List Char) (more : List (List Char)) :
    joinWith sep (piece :: more) = piece ++ more.flatMap (sep ++ ·) := by
  induction more generalizing piece with
  | nil => rw [joinWith, List.flatMap_nil, List.append_nil]
  | cons next rest ih =>
    rw [joinWith, ih, List.flatMap_cons, List.append_assoc, List.append_assoc]
    exact List.cons_ne_nil next rest

theorem joinWith_eq_intercalate (sep : List Char) (pieces : List (List Char)) :
    joinWith sep pieces = sep.intercalate pieces := by
  match pieces with
  | [] => rfl
  | [piece] => exact List.intercalate_singleton.symm
  | piece :: next :: rest =>
    rw [joinWith, List.intercalate_cons_cons, joinWith_eq_intercalate sep (next :: rest)]
    exact List.cons_ne_nil next rest

theorem not_mem_joinWith {c : Char} {sep : List Char} {pieces : List (List Char)} (hsep : c ∉ sep)
    (h : ∀ piece ∈ pieces, c ∉ piece) : c ∉ joinWith sep pieces := by
  cases pieces with
  | nil => exact List.not_mem_nil
  | cons piece more =>
    rw [List.forall_mem_cons] at h
    rw [joinWith_cons, List.mem_append, List.mem_flatMap]
    rintro (hfirst | ⟨next, hnext, hmem⟩)
    · exact h.1 hfirst
    · rcases List.mem_append.1 hmem with hmem | hmem
      · exact hsep hmem
      · exact h.2 next hnext hmem

theorem behind?_eq_some_iff {beginning cs rest : List Char} :
    behind? beginning cs = some rest ↔ cs = beginning ++ rest := by
  induction beginning generalizing cs with
  | nil => simp [behind?, eq_comm]
  | cons b beginning ih =>
    cases cs with
    | nil => simp [behind?]
    | cons c cs =>
      simp only [behind?, List.cons_append, List.cons.injEq]
      split
      · next h => simp [ih, h]
      · next h => simp [Ne.symm h]

end HyperSchema.Text
