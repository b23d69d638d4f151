import HyperSchema.Pointer.Lineage
import HyperSchema.Proofs.Pointer.Escape

/-!
# The way up from a pointer

Each pointer of a lineage is the parent of the one before it and shorter. A lineage ends at the root
if and only if its first pointer begins with a slash, as all pointers do that lead into a value; any
other text has a topmost pointer of its own.
-/

namespace HyperSchema

namespace Pointer

variable {path parent : String}

theorem length_parent?_lt (h : parent? path = some parent) : parent.length < path.length := by
  obtain ⟨front, hfront, rfl⟩ := Option.map_eq_some_iff.1 h
  have hlt := Text.length_beforeLast?_lt hfront
  rwa [String.length_ofList, ← String.length_toList]

/-- Paths that lead upwards from the first one, each the parent of the one before, to a topmost
one. -/
inductive Ascends : List String → Prop where
  | top {path : String} (h : parent? path = none) : Ascends [path]
  | next {path parent : String} {rest : List String} (h : parent? path = some parent)
      (above : Ascends (parent :: rest)) : Ascends (path :: parent :: rest)

theorem ascends_lineage (path : String) :
    ∃ rest, lineage path = path :: rest ∧ Ascends (path :: rest) := by
  cases hparent : Text.beforeLast? '/' path.toList with
  | none =>
      refine ⟨[], ?_, .top ?_⟩
      · rw [lineage, lineageChars, hparent, List.map_singleton, String.ofList_toList]
      · rw [parent?, hparent, Option.map_none]
  | some front =>
      have hup : parent? path = some (String.ofList front) := by
        rw [parent?, hparent, Option.map_some]
      have hlt := length_parent?_lt hup
      obtain ⟨rest, hrest, habove⟩ := ascends_lineage (String.ofList front)
      refine ⟨String.ofList front :: rest, ?_, .next hup habove⟩
      rw [lineage, lineageChars, hparent]
      dsimp only
      rw [List.map_cons, String.ofList_toList, ← hrest, lineage, String.toList_ofList]
termination_by path.length
decreasing_by exact hlt

theorem Ascends.length_lt {rest : List String} (h : Ascends (path :: rest)) :
    ∀ x ∈ rest, x.length < path.length := by
  generalize hpaths : path :: rest = paths at h
  induction h generalizing path rest with
  | top _ =>
      obtain ⟨-, rfl⟩ := List.cons.inj hpaths
      exact fun x hx => nomatch hx
  | next hparent _ ih =>
      obtain ⟨rfl, rfl⟩ := List.cons.inj hpaths
      have hlt := length_parent?_lt hparent
      rw [List.forall_mem_cons]
      exact ⟨hlt, fun x hx => Nat.lt_trans (ih rfl x hx) hlt⟩

/-- A path begins at the root if it is empty or its first character is a slash. -/
def Rooted (path : String) : Prop := path = "" ∨ ∃ rest, path.toList = '/' :: rest

theorem Rooted.child (h : Rooted path) (token : String) : Rooted (child path token) := by
  rw [Rooted, toList_child]
  rcases h with rfl | ⟨rest, hrest⟩
  · exact .inr ⟨_, rfl⟩
  · rw [hrest]
    exact .inr ⟨_, rfl⟩

theorem Rooted.rooted_parent (h : Rooted path) :
    path = "" ∨ ∃ parent, parent? path = some parent ∧ Rooted parent := by
  rcases h with h | ⟨rest, h⟩
  · exact .inl h
  · refine .inr ?_
    rw [parent?, h, Text.beforeLast?]
    cases Text.beforeLast? '/' rest with
    | none => exact ⟨"", rfl, .inl rfl⟩
    | some front => exact ⟨_, rfl, .inr ⟨front, String.toList_ofList⟩⟩

theorem beforeLast?_eq_none_iff {sep : Char} {cs : List Char} :
    Text.beforeLast? sep cs = none ↔ sep ∉ cs := by
  induction cs with
  | nil => exact iff_of_true rfl List.not_mem_nil
  | cons c rest ih =>
      rw [Text.beforeLast?, List.mem_cons, not_or, ← ih]
      cases Text.beforeLast? sep rest with
      | some front => simp
      | none => simp [eq_comm]

theorem beforeLast?_eq_some_iff {sep : Char} {cs front : List Char} :
    Text.beforeLast? sep cs = some front ↔ ∃ rest, sep ∉ rest ∧ cs = front ++ sep :: rest := by
  constructor
  · intro h
    induction cs generalizing front with
    | nil => cases h
    | cons c rest ih =>
        rw [Text.beforeLast?] at h
        cases hrest : Text.beforeLast? sep rest with
        | some front' =>
            rw [hrest] at h
            obtain rfl := Option.some.inj h
            obtain ⟨piece, hpiece, rfl⟩ := ih hrest
            exact ⟨piece, hpiece, rfl⟩
        | none =>
            rw [hrest] at h
            dsimp only at h
            split at h
            · next hsep =>
              obtain rfl := Option.some.inj h
              exact ⟨rest, beforeLast?_eq_none_iff.1 hrest, by rw [hsep, List.nil_append]⟩
            · cases h
  · intro h
    obtain ⟨rest, hrest, rfl⟩ := h
    induction front with
    | nil =>
        rw [List.nil_append, Text.beforeLast?, beforeLast?_eq_none_iff.2 hrest]
        exact if_pos rfl
    | cons c front ih => rw [List.cons_append, Text.beforeLast?, ih]

theorem parent?_child (pointer token : String) : parent? (child pointer token) = some pointer := by
  rw [parent?, toList_child, beforeLast?_eq_some_iff.2 ⟨_, slash_not_mem_escapeChars _, rfl⟩,
    Option.map_some, String.ofList_toList]

theorem lineage_of_parent? {path parent : String} (h : parent? path = some parent) :
    lineage path = path :: lineage parent := by
  obtain ⟨front, hfront, rfl⟩ := Option.map_eq_some_iff.1 h
  rw [lineage, lineageChars, hfront, lineage]
  dsimp only
  rw [List.map_cons, String.ofList_toList, String.toList_ofList]

theorem mem_lineage_self (path : String) : path ∈ lineage path := by
  obtain ⟨rest, hlineage, -⟩ := ascends_lineage path
  rw [hlineage]
  exact List.mem_cons_self

theorem lineage_of_parent?_eq_none {path : String} (h : parent? path = none) :
    lineage path = [path] := by
  have hfront : Text.beforeLast? '/' path.toList = none := Option.map_eq_none_iff.1 h
  rw [lineage, lineageChars, hfront, List.map_singleton, String.ofList_toList]

theorem mem_lineage_of_parent? (h : parent? path = some parent) {x : String} :
    x ∈ lineage path ↔ x = path ∨ x ∈ lineage parent := by
  rw [lineage_of_parent? h, List.mem_cons]

theorem length_le_of_mem_lineage {x : String} (h : x ∈ lineage path) : x.length ≤ path.length := by
  obtain ⟨rest, hlineage, hascends⟩ := ascends_lineage path
  rw [hlineage, List.mem_cons] at h
  rcases h with rfl | h
  · exact Nat.le_refl _
  · exact Nat.le_of_lt (hascends.length_lt x h)

theorem not_mem_lineage_parent? (h : parent? path = some parent) : path ∉ lineage parent :=
  fun hmem => Nat.not_le.2 (length_parent?_lt h) (length_le_of_mem_lineage hmem)

theorem root_mem_lineage {path : String} (h : Rooted path) : "" ∈ lineage path := by
  rcases h.rooted_parent with rfl | ⟨parent, hparent, hrooted⟩
  · exact mem_lineage_self ""
  · have hlt := length_parent?_lt hparent
    exact (mem_lineage_of_parent? hparent).2 (.inr (root_mem_lineage hrooted))
termination_by path.length
decreasing_by exact hlt

theorem Rooted.of_mem_lineage {path x : String} (h : Rooted path) (hmem : x ∈ lineage path) :
    Rooted x := by
  rcases h.rooted_parent with rfl | ⟨parent, hparent, hrooted⟩
  · rw [lineage_of_parent?_eq_none rfl, List.mem_singleton] at hmem
    exact .inl hmem
  · rcases (mem_lineage_of_parent? hparent).1 hmem with rfl | hmem
    · exact h
    · have hlt := length_parent?_lt hparent
      exact hrooted.of_mem_lineage hmem
termination_by path.length
decreasing_by exact hlt

/-! ### What lies below -/

theorem below?_eq_some_iff {above : String} {rest : List Char} : below? path above = some rest
    ↔ path.toList = above.toList ++ rest ∧ ∃ more, rest = '/' :: more := by
  rw [below?]
  split
  · next more hbehind =>
    rw [Option.some.injEq]
    constructor
    · rintro rfl
      exact ⟨Text.behind?_eq_some_iff.1 hbehind, more, rfl⟩
    · rintro ⟨hrest, -⟩
      rw [Text.behind?_eq_some_iff.2 hrest] at hbehind
      exact (Option.some.inj hbehind).symm
  · next hnone =>
    refine iff_of_false nofun ?_
    rintro ⟨hrest, more, rfl⟩
    exact hnone more (Text.behind?_eq_some_iff.2 hrest)

theorem isBelow_iff {above : String} :
    isBelow path above = true ↔ ∃ rest, path.toList = above.toList ++ '/' :: rest := by
  rw [isBelow, Option.isSome_iff_exists]
  constructor
  · rintro ⟨_, h⟩
    obtain ⟨hrest, rest, rfl⟩ := below?_eq_some_iff.1 h
    exact ⟨rest, hrest⟩
  · rintro ⟨rest, hrest⟩
    exact ⟨_, below?_eq_some_iff.2 ⟨hrest, rest, rfl⟩⟩

theorem isWithin_iff {above : String} :
    isWithin path above = true ↔ path = above ∨ isBelow path above = true := by
  rw [isWithin, Bool.or_eq_true, beq_iff_eq]

theorem length_lt_of_isBelow {above : String} (h : isBelow path above = true) :
    above.length < path.length := by
  obtain ⟨rest, hrest⟩ := isBelow_iff.1 h
  rw [← String.length_toList, ← String.length_toList, hrest, List.length_append, List.length_cons]
  omega

theorem not_isBelow_self (path : String) : isBelow path path = false :=
  Bool.eq_false_iff.2 fun h => Nat.lt_irrefl _ (length_lt_of_isBelow h)

theorem isBelow_iff_of_parent? (h : parent? path = some parent) {above : String} :
    isBelow path above = true ↔ isWithin parent above = true := by
  obtain ⟨front, hfront, rfl⟩ := Option.map_eq_some_iff.1 h
  obtain ⟨piece, hpiece, hpath⟩ := beforeLast?_eq_some_iff.1 hfront
  rw [isBelow_iff, isWithin_iff, isBelow_iff, hpath, String.toList_ofList]
  constructor
  · rintro ⟨rest, hrest⟩
    rcases List.append_eq_append_iff.1 hrest with ⟨as, habove, hsplit⟩ | ⟨bs, hfront, hsplit⟩
    · cases as with
      | nil =>
          rw [List.append_nil] at habove
          exact .inl (by rw [← habove, String.ofList_toList])
      | cons c as =>
          -- the piece behind the last slash would have a slash in it
          obtain ⟨-, rfl⟩ := List.cons.inj hsplit
          exact absurd (List.mem_append_right _ List.mem_cons_self) hpiece
    · cases bs with
      | nil =>
          rw [List.append_nil] at hfront
          exact .inl (by rw [hfront, String.ofList_toList])
      | cons c bs =>
          obtain ⟨rfl, -⟩ := List.cons.inj hsplit
          exact .inr ⟨bs, hfront⟩
  · rintro (rfl | ⟨rest, hrest⟩)
    · exact ⟨piece, by rw [String.toList_ofList]⟩
    · exact ⟨rest ++ '/' :: piece, by rw [hrest, List.append_assoc, List.cons_append]⟩

theorem not_isBelow_of_parent?_eq_none (h : parent? path = none) (above : String) :
    isBelow path above = false := by
  have hslash := beforeLast?_eq_none_iff.1 (Option.map_eq_none_iff.1 h)
  refine Bool.eq_false_iff.2 fun hbelow => hslash ?_
  obtain ⟨rest, hrest⟩ := isBelow_iff.1 hbelow
  rw [hrest]
  exact List.mem_append_right _ List.mem_cons_self

theorem mem_lineage_iff {path above : String} :
    above ∈ lineage path ↔ isWithin path above = true := by
  rw [isWithin_iff]
  cases hparent : parent? path with
  | none =>
      rw [lineage_of_parent?_eq_none hparent, List.mem_singleton,
        not_isBelow_of_parent?_eq_none hparent, eq_comm]
      exact (or_iff_left Bool.false_ne_true).symm
  | some parent =>
      have hlt := length_parent?_lt hparent
      rw [mem_lineage_of_parent? hparent, isBelow_iff_of_parent? hparent, eq_comm,
        mem_lineage_iff]
termination_by path.length
decreasing_by exact hlt

theorem pairwise_lineage (path : String) :
    (lineage path).Pairwise (fun a b => isBelow a b = true) := by
  cases hparent : parent? path with
  | none =>
      rw [lineage_of_parent?_eq_none hparent]
      exact List.pairwise_singleton _ _
  | some parent =>
      have hlt := length_parent?_lt hparent
      rw [lineage_of_parent? hparent]
      refine List.pairwise_cons.2 ⟨fun above habove => ?_, pairwise_lineage parent⟩
      rw [isBelow_iff_of_parent? hparent]
      exact mem_lineage_iff.1 habove
termination_by path.length
decreasing_by exact hlt

/-- A relative path leads on from what is above, by whole tokens. -/
theorem relative?_eq_some_iff {above rest : String} :
    relative? path above = some rest ↔ above ++ rest = path ∧ Rooted rest := by
  rw [relative?]
  split
  · next heq =>
    rw [Option.some.injEq, heq]
    constructor
    · rintro rfl
      exact ⟨String.append_empty, .inl rfl⟩
    · rintro ⟨happend, -⟩
      have hchars := congrArg String.toList happend
      rw [String.toList_append, List.append_right_eq_self] at hchars
      exact (String.toList_eq_nil_iff.1 hchars).symm
  · next hne =>
    rw [Option.map_eq_some_iff]
    constructor
    · rintro ⟨cs, hbelow, rfl⟩
      obtain ⟨hpath, more, rfl⟩ := below?_eq_some_iff.1 hbelow
      refine ⟨String.toList_injective ?_, .inr ⟨more, String.toList_ofList⟩⟩
      rw [String.toList_append, String.toList_ofList, hpath]
    · rintro ⟨rfl, rfl | ⟨more, hmore⟩⟩
      · exact absurd String.append_empty hne
      · refine ⟨rest.toList, below?_eq_some_iff.2 ⟨String.toList_append, more, hmore⟩, ?_⟩
        exact String.ofList_toList

theorem mem_lineage_iff_relative? {above : String} :
    above ∈ lineage path ↔ ∃ rest, relative? path above = some rest := by
  rw [mem_lineage_iff, isWithin_iff, isBelow, Option.isSome_iff_exists, relative?]
  by_cases heq : path = above
  · rw [if_pos heq]
    exact iff_of_true (.inl heq) ⟨"", rfl⟩
  · rw [if_neg heq, or_iff_right heq]
    constructor
    · rintro ⟨rest, hbelow⟩
      exact ⟨_, Option.map_eq_some_iff.2 ⟨rest, hbelow, rfl⟩⟩
    · rintro ⟨_, hrest⟩
      obtain ⟨rest, hbelow, -⟩ := Option.map_eq_some_iff.1 hrest
      exact ⟨rest, hbelow⟩

end Pointer

end HyperSchema
