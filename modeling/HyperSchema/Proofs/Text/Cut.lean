import HyperSchema.Text.Cut
import Mathlib.Data.List.Basic
import Mathlib.Data.List.TakeWhile

/-!
# Texts that are cut

A text is cut at its first separator where it has one. It is cut at all of them if what is behind
the first is cut in turn: then it is a piece itself, or a first piece, a separator and a text with
pieces. Pieces hold no separator, and the text is got back by putting one in front of each. At its
ends a text is cut up to the first character that is kept, from either side.
-/

namespace HyperSchema.Text

variable {sep c : Char} {cs ds piece : List Char} {drop : Char → Bool}

/-! ### At an ending, and at the first separator -/

theorem before?_eq_some_iff {ending cs front : List Char} :
    before? ending cs = some front ↔ cs = front ++ ending := by
  rw [before?, Option.map_eq_some_iff]
  constructor
  · intro h
    obtain ⟨rest, hrest, rfl⟩ := h
    rw [behind?_eq_some_iff] at hrest
    rw [← List.reverse_reverse cs, hrest, List.reverse_append, List.reverse_reverse]
  · intro heq
    subst heq
    refine ⟨front.reverse, ?_, List.reverse_reverse front⟩
    rw [behind?_eq_some_iff, List.reverse_append]

theorem cutFirst?_eq_none_iff {sep : Char} {cs : List Char} :
    cutFirst? sep cs = none ↔ sep ∉ cs := by
  induction cs with
  | nil => simp [cutFirst?]
  | cons c rest ih =>
      rw [cutFirst?, List.mem_cons, not_or]
      by_cases hc : c = sep
      · rw [if_pos hc]
        exact iff_of_false (by simp) (fun h => h.1 hc.symm)
      · rw [if_neg hc, Option.map_eq_none_iff, ih]
        exact ⟨fun h => ⟨fun heq => hc heq.symm, h⟩, fun h => h.2⟩

theorem cutFirst?_eq_some {sep : Char} {cs before behind : List Char}
    (h : cutFirst? sep cs = some (before, behind)) :
    cs = before ++ sep :: behind ∧ sep ∉ before := by
  induction cs generalizing before with
  | nil => cases h
  | cons c rest ih =>
      rw [cutFirst?] at h
      by_cases hc : c = sep
      · rw [if_pos hc] at h
        obtain ⟨rfl, rfl⟩ := Prod.mk.inj (Option.some.inj h)
        exact ⟨by rw [hc, List.nil_append], List.not_mem_nil⟩
      · rw [if_neg hc] at h
        obtain ⟨⟨front, rear⟩, hcut, heq⟩ := Option.map_eq_some_iff.1 h
        obtain ⟨rfl, rfl⟩ := Prod.mk.inj heq
        obtain ⟨rfl, hfront⟩ := ih hcut
        refine ⟨rfl, fun hmem => ?_⟩
        rcases List.mem_cons.1 hmem with heq | hmem
        · exact hc heq.symm
        · exact hfront hmem

theorem cutFirst?_append {sep : Char} {before behind : List Char} (h : sep ∉ before) :
    cutFirst? sep (before ++ sep :: behind) = some (before, behind) := by
  induction before with
  | nil => rw [List.nil_append, cutFirst?, if_pos rfl]
  | cons c rest ih =>
      rw [List.mem_cons, not_or] at h
      rw [List.cons_append, cutFirst?, if_neg (Ne.symm h.1), ih h.2]
      rfl

/-! ### At all separators -/

theorem pieces_cons_of_ne {c : Char} (hc : c ≠ sep) {piece : List Char} {more : List (List Char)}
    (h : pieces sep cs = piece :: more) : pieces sep (c :: cs) = (c :: piece) :: more := by
  rw [pieces, if_neg hc, h]

theorem pieces_append_cons (sep : Char) (cs ds : List Char) :
    pieces sep (cs ++ sep :: ds) = pieces sep cs ++ pieces sep ds := by
  induction cs with
  | nil =>
      show (if sep = sep then [] :: pieces sep ds else _) = [] :: pieces sep ds
      rw [if_pos rfl]
  | cons c rest ih =>
      rw [List.cons_append]
      by_cases hc : c = sep
      · rw [pieces, if_pos hc, ih, pieces, if_pos hc, List.cons_append]
      · cases hrest : pieces sep rest with
        | nil => exact absurd hrest (pieces_ne_nil sep rest)
        | cons piece more =>
            rw [hrest, List.cons_append] at ih
            rw [pieces_cons_of_ne hc ih, pieces_cons_of_ne hc hrest, List.cons_append]

theorem pieces_of_not_mem (h : sep ∉ cs) : pieces sep cs = [cs] := by
  induction cs with
  | nil => rfl
  | cons c rest ih =>
      rw [List.mem_cons, not_or] at h
      rw [pieces_cons_of_ne (Ne.symm h.1) (ih h.2)]

/-- Every text is made of pieces without the separator. -/
theorem pieces_induction {motive : List Char → Prop} (sep : Char)
    (whole : ∀ piece, sep ∉ piece → motive piece)
    (cut : ∀ piece rest, sep ∉ piece → motive rest → motive (piece ++ sep :: rest))
    (cs : List Char) : motive cs := by
  by_cases hmem : sep ∈ cs
  · obtain ⟨piece, rest, hcs, hpiece⟩ := List.eq_append_cons_of_mem hmem
    have hlt : rest.length < cs.length := by
      rw [hcs, List.length_append, List.length_cons]
      omega
    rw [hcs]
    exact cut piece rest hpiece (pieces_induction sep whole cut rest)
  · exact whole cs hmem
termination_by cs.length
decreasing_by exact hlt

theorem pieces_cut (hpiece : sep ∉ piece) (rest : List Char) :
    pieces sep (piece ++ sep :: rest) = piece :: pieces sep rest := by
  rw [pieces_append_cons, pieces_of_not_mem hpiece, List.singleton_append]

theorem not_mem_of_mem_pieces (h : piece ∈ pieces sep cs) : sep ∉ piece := by
  induction cs using pieces_induction sep with
  | whole first hfirst =>
      rw [pieces_of_not_mem hfirst, List.mem_singleton] at h
      rw [h]
      exact hfirst
  | cut first rest hfirst ih =>
      rw [pieces_cut hfirst, List.mem_cons] at h
      rcases h with rfl | h
      · exact hfirst
      · exact ih h

/-- The text behind a separator is its pieces, each behind a separator. -/
theorem flatMap_pieces (sep : Char) (cs : List Char) :
    (pieces sep cs).flatMap (sep :: ·) = sep :: cs := by
  induction cs using pieces_induction sep with
  | whole piece hpiece => rw [pieces_of_not_mem hpiece, List.flatMap_singleton]
  | cut piece rest hpiece ih => rw [pieces_cut hpiece, List.flatMap_cons, ih, List.cons_append]

/-- The pieces of texts that each stand behind a separator are those of the texts. -/
theorem pieces_append_flatMap {α : Type} (f : α → List Char) (xs : List α) (cs : List Char) :
    pieces sep (cs ++ xs.flatMap (fun x => sep :: f x))
      = pieces sep cs ++ xs.flatMap (fun x => pieces sep (f x)) := by
  induction xs generalizing cs with
  | nil => rw [List.flatMap_nil, List.flatMap_nil, List.append_nil, List.append_nil]
  | cons x rest ih =>
      rw [List.flatMap_cons, List.flatMap_cons, List.cons_append, pieces_append_cons, ih]

theorem mem_of_mem_pieces {c : Char} (hpiece : piece ∈ pieces sep cs) (hc : c ∈ piece) :
    c ∈ cs := by
  have hmem : c ∈ sep :: cs := by
    rw [← flatMap_pieces]
    exact List.mem_flatMap.2 ⟨piece, hpiece, List.mem_cons_of_mem _ hc⟩
  refine (List.mem_cons.1 hmem).resolve_left fun heq => ?_
  exact not_mem_of_mem_pieces hpiece (heq ▸ hc)

/-! ### At the ends -/

theorem dropWhile_cons_of_kept (hc : drop c = false) (cs : List Char) :
    (c :: cs).dropWhile drop = c :: cs :=
  List.dropWhile_cons_of_neg (by rw [hc]; exact Bool.false_ne_true)

theorem trimEnd_sublist (drop : Char → Bool) (cs : List Char) :
    List.Sublist (trimEnd drop cs) cs := by
  rw [trimEnd, ← List.reverse_sublist, List.reverse_reverse]
  exact (List.dropWhile_suffix _).sublist

theorem trim_sublist (drop : Char → Bool) (cs : List Char) : List.Sublist (trim drop cs) cs :=
  (trimEnd_sublist drop _).trans (List.dropWhile_suffix _).sublist

theorem trimEnd_concat_of_kept (hc : drop c = false) (cs : List Char) :
    trimEnd drop (cs ++ [c]) = cs ++ [c] := by
  rw [trimEnd, List.reverse_append, List.reverse_singleton, List.singleton_append,
    dropWhile_cons_of_kept hc, List.reverse_cons, List.reverse_reverse]

theorem trimEnd_append (h : ∀ c ∈ cs, drop c = false) (back : List Char) :
    trimEnd drop (cs ++ back) = cs ++ trimEnd drop back := by
  have hkept : cs.reverse.dropWhile drop = cs.reverse := by
    cases hcs : cs.reverse with
    | nil => rfl
    | cons c rest =>
        have hc : c ∈ cs := List.mem_reverse.1 (hcs ▸ List.mem_cons_self)
        exact dropWhile_cons_of_kept (h c hc) rest
  rw [trimEnd, trimEnd, List.reverse_append, List.dropWhile_append]
  split
  · next hempty =>
    rw [hkept, List.reverse_reverse, List.isEmpty_iff.1 hempty, List.reverse_nil, List.append_nil]
  · rw [List.reverse_append, List.reverse_reverse]

theorem trimEnd_of_forall (h : ∀ c ∈ cs, drop c = false) : trimEnd drop cs = cs := by
  have hend := trimEnd_append h []
  rw [List.append_nil] at hend
  rw [hend]
  exact List.append_nil cs

theorem trim_cons_of_dropped (hc : drop c = true) (cs : List Char) :
    trim drop (c :: cs) = trim drop cs := by
  rw [trim, trimStart, List.dropWhile_cons_of_pos hc]
  rfl

theorem trim_cons_of_kept (hc : drop c = false) (cs : List Char) :
    trim drop (c :: cs) = trimEnd drop (c :: cs) := by
  rw [trim, trimStart, dropWhile_cons_of_kept hc]

theorem trim_of_forall (h : ∀ c ∈ cs, drop c = false) : trim drop cs = cs := by
  cases cs with
  | nil => rfl
  | cons c rest => rw [trim_cons_of_kept (h c List.mem_cons_self), trimEnd_of_forall h]

/-- Between two characters that are kept, everything is kept. -/
theorem trim_enclosed {last : Char} (hc : drop c = false) (hlast : drop last = false)
    (cs : List Char) : trim drop (c :: (cs ++ [last])) = c :: (cs ++ [last]) := by
  rw [trim_cons_of_kept hc, ← List.cons_append, trimEnd_concat_of_kept hlast]

/-- A character that is dropped is taken off at both ends of a text that is kept. -/
theorem trim_wrapped (hc : drop c = true) (h : ∀ d ∈ cs, drop d = false) :
    trim drop (c :: (cs ++ [c])) = cs := by
  have hend : trimEnd drop [c] = [] := by
    rw [trimEnd, List.reverse_singleton, List.dropWhile_cons_of_pos hc]
    rfl
  rw [trim_cons_of_dropped hc]
  cases cs with
  | nil =>
      rw [List.nil_append, trim_cons_of_dropped hc]
      rfl
  | cons d rest =>
      rw [List.cons_append, trim_cons_of_kept (h d List.mem_cons_self), ← List.cons_append,
        trimEnd_append h, hend, List.append_nil]

end HyperSchema.Text
