import HyperSchema.Proofs.Pointer.Resolution
import HyperSchema.Proofs.Text.Utf8

/-!
# Subtrees of pointers

Whether a pointer lies within another is seen from their texts: the text of the other stands in
front, and a slash or nothing comes behind it. As no token has a slash in it when it is written, a
slash is where a token begins. So a pointer that is written from tokens lies within those that are
written from the first of these tokens, and within no other text. On the bytes of the texts the test
comes to the same, as encoded characters can be read back whatever stands behind them.
-/

namespace HyperSchema.Pointer

variable {path above : String} {way way' rest : List String}

/-! ### Texts written from tokens -/

/-- A text that is what its tokens are written as. -/
def Spelled (path : String) : Prop := join (tokens path) = path

theorem spelled_join (way : List String) : Spelled (join way) := by
  rw [Spelled, tokens_join]

theorem join_injective (h : join way = join way') : way = way' := by
  rw [← tokens_join way, h, tokens_join]

theorem join_concat (way : List String) (token : String) :
    join (way ++ [token]) = child (join way) token := by
  rw [join_append, child_eq_append_join]

theorem Spelled.child (h : Spelled path) (token : String) : Spelled (child path token) := by
  rw [← h, ← join_concat]
  exact spelled_join _

theorem rooted_join (way : List String) : Rooted (join way) := by
  cases way with
  | nil => exact .inl rfl
  | cons token rest => exact .inr ⟨_, String.toList_ofList⟩

/-! ### Beginnings -/

/-- The lineage of a pointer is written from the beginnings of its tokens. -/
theorem mem_lineage_join_iff :
    above ∈ lineage (join way) ↔ ∃ front, front <+: way ∧ join front = above := by
  induction way using List.reverseRecOn with
  | nil =>
      rw [lineage_of_parent?_eq_none rfl, List.mem_singleton]
      constructor
      · rintro rfl
        exact ⟨[], List.nil_prefix, rfl⟩
      · rintro ⟨front, hfront, rfl⟩
        rw [List.prefix_nil.1 hfront]
  | append_singleton way token ih =>
      rw [join_concat, mem_lineage_of_parent? (parent?_child _ _), ih, ← join_concat]
      simp only [List.prefix_concat_iff, or_and_right, exists_or, exists_eq_left]
      rw [eq_comm]

theorem join_mem_lineage (h : way <+: way') : join way ∈ lineage (join way') :=
  mem_lineage_join_iff.2 ⟨way, h, rfl⟩

/-- Only pointers written from tokens have one of these within them. -/
theorem isWithin_join_iff :
    isWithin (join way) above = true ↔ ∃ front, front <+: way ∧ join front = above := by
  rw [← mem_lineage_iff, mem_lineage_join_iff]

theorem isWithin_join_join : isWithin (join way) (join way') = true ↔ way' <+: way := by
  rw [isWithin_join_iff]
  constructor
  · rintro ⟨front, hfront, heq⟩
    rwa [← join_injective heq]
  · exact fun h => ⟨way', h, rfl⟩

theorem isBelow_iff_isWithin_and_ne :
    isBelow path above = true ↔ isWithin path above = true ∧ above ≠ path := by
  rw [isWithin_iff]
  constructor
  · intro h
    refine ⟨.inr h, ?_⟩
    rintro rfl
    rw [not_isBelow_self] at h
    cases h
  · rintro ⟨rfl | h, hne⟩
    · exact absurd rfl hne
    · exact h

theorem isBelow_join_join :
    isBelow (join way) (join way') = true ↔ way' <+: way ∧ way' ≠ way := by
  rw [isBelow_iff_isWithin_and_ne, isWithin_join_join]
  exact and_congr_right fun _ => not_congr ⟨join_injective, congrArg join⟩

theorem relative?_join_join :
    relative? (join way) (join way') = some (join rest) ↔ way = way' ++ rest := by
  rw [relative?_eq_some_iff, ← join_append, and_iff_left (rooted_join rest)]
  exact ⟨fun h => (join_injective h).symm, fun h => h ▸ rfl⟩

theorem relative?_join_join_eq_none_iff :
    relative? (join way) (join way') = none ↔ ¬ way' <+: way := by
  rw [← isWithin_join_join, ← mem_lineage_iff, mem_lineage_iff_relative?,
    ← Option.isSome_iff_exists, Option.not_isSome_iff_eq_none]

/-! ### The test on bytes -/

/-- The bytes of the text above stand in front, and the byte behind them is that of a slash. -/
theorem isBelow_iff_utf8Bytes :
    isBelow path above = true
      ↔ (Text.utf8Bytes above.toList).length < (Text.utf8Bytes path.toList).length
        ∧ Text.utf8Bytes above.toList <+: Text.utf8Bytes path.toList
        ∧ (Text.utf8Bytes path.toList)[(Text.utf8Bytes above.toList).length]?
          = some '/'.toNat := by
  have hslash : ∀ cs, Text.utf8Bytes ('/' :: cs) = '/'.toNat :: Text.utf8Bytes cs := fun _ => rfl
  rw [isBelow_iff]
  constructor
  · rintro ⟨cs, hcs⟩
    rw [hcs, Text.utf8Bytes_append, hslash]
    refine ⟨?_, List.prefix_append _ _, ?_⟩
    · rw [List.length_append, List.length_cons]
      omega
    · rw [List.getElem?_append_right (Nat.le_refl _), Nat.sub_self]
      rfl
  · rintro ⟨-, ⟨bytes, hbytes⟩, hnext⟩
    rw [← hbytes, List.getElem?_append_right (Nat.le_refl _), Nat.sub_self] at hnext
    cases bytes with
    | nil => cases hnext
    | cons byte bytes =>
        obtain rfl := Option.some.inj hnext
        refine ⟨Text.decodeLossy bytes, ?_⟩
        rw [← Text.decodeLossy_utf8Bytes path.toList, ← hbytes, Text.decodeLossy_utf8Bytes_append,
          Text.decodeLossy_one (by decide)]
        rfl

/-- What leads on is cut off behind as many bytes as the text above has. -/
theorem utf8Bytes_of_relative? {leading : String} (h : relative? path above = some leading) :
    Text.utf8Bytes leading.toList
      = (Text.utf8Bytes path.toList).drop (Text.utf8Bytes above.toList).length := by
  obtain ⟨rfl, -⟩ := relative?_eq_some_iff.1 h
  rw [String.toList_append, Text.utf8Bytes_append, List.drop_left]

end HyperSchema.Pointer
