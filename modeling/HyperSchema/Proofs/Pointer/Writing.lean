import HyperSchema.Proofs.Pointer.Subtrees
import HyperSchema.Proofs.SchemaUri

/-!
# What a write changes

A write changes what is read at the place that it reaches, above it and below it, and nothing
elsewhere. Pointers show this in their texts, as long as they have no second spelling: a sign before
the digits of an array position, a tilde that starts no escape, or a missing slash at the beginning
give a place another name.
-/

namespace HyperSchema.Pointer

variable {v v' x : Json} {token other : String} {front rest : List String}

/-! ### Plain tokens -/

/-- Whether a token that names a position of an array is a dash or the digits of the position. -/
def isPlain (v : Json) (token : String) : Bool :=
  match v with
  | .array items =>
    match index? token items.length with
    | some i => token == "-" || token == Text.natText i
    | none => true
  | _ => true

/-- Whether all tokens on a way are plain, as far as it leads. -/
def arePlain : Json → List String → Bool
  | _, [] => true
  | v, token :: rest =>
    isPlain v token && match step? v token with
      | some next => arePlain next rest
      | none => true

/-- The token of the place that is written: a dash stands for the position behind the last item. -/
def reached (v : Json) (token : String) : String :=
  match v with
  | .array items => if token = "-" then Text.natText items.length else token
  | _ => token

theorem eq_of_isPlain {items : List Json} {i : Nat} (hplain : isPlain (.array items) token = true)
    (hindex : index? token items.length = some i) (hdash : token ≠ "-") :
    token = Text.natText i := by
  rw [isPlain, hindex] at hplain
  dsimp only at hplain
  rw [Bool.or_eq_true, beq_iff_eq, beq_iff_eq] at hplain
  exact hplain.resolve_left hdash

theorem index?_dash (length : Nat) : index? "-" length = some length := rfl

/-- Only a dash depends on the length of the array. -/
theorem index?_eq_of_ne (hdash : token ≠ "-") (length length' : Nat) :
    index? token length = index? token length' := by
  rw [index?, index?]
  split
  · next hchars => exact absurd (String.toList_injective hchars) hdash
  · rfl
  · rfl

theorem step?_array (items : List Json) (token : String) :
    step? (.array items) token = (index? token items.length).bind (fun i => items[i]?) := rfl

theorem step?_dash (items : List Json) : step? (.array items) "-" = none := by
  rw [step?_array, index?_dash, Option.bind_some]
  exact List.getElem?_eq_none (Nat.le_refl _)

theorem arePlain_cons {next : Json} (h : arePlain v (token :: rest) = true)
    (hstep : step? v token = some next) : isPlain v token = true ∧ arePlain next rest = true := by
  rw [arePlain, hstep] at h
  exact Bool.and_eq_true_iff.1 h

theorem isPlain_of_arePlain (h : arePlain v (token :: rest) = true) : isPlain v token = true := by
  rw [arePlain] at h
  exact (Bool.and_eq_true_iff.1 h).1

/-! ### Writing next to what is read -/

theorem put?_array {items : List Json} (h : put? (.array items) token x = some v') :
    ∃ i, index? token items.length = some i
      ∧ (i < items.length ∧ v' = .array (items.set i x)
        ∨ i = items.length ∧ v' = .array (items ++ [x])) := by
  rw [put?] at h
  split at h
  · next i hindex =>
    refine ⟨i, hindex, ?_⟩
    split at h
    · next hlt => exact .inl ⟨hlt, (Option.some.inj h).symm⟩
    · split at h
      · next heq => exact .inr ⟨heq, (Option.some.inj h).symm⟩
      · cases h
  · cases h

/-- What is read at another token than the one that is written is as before. -/
theorem step?_put? (hput : put? v token x = some v') (hplain : isPlain v token = true)
    (hother : isPlain v other = true) :
    other = reached v token ∧ step? v' other = some x ∨ step? v' other = step? v other := by
  cases v with
  | object members =>
      obtain rfl := Option.some.inj hput
      rw [step?, step?, Table.get?_insert]
      split
      · next heq => exact .inl ⟨heq, rfl⟩
      · exact .inr rfl
  | array items =>
      obtain ⟨i, hindex, ⟨hlt, rfl⟩ | ⟨rfl, rfl⟩⟩ := put?_array hput
      · have hdash : token ≠ "-" := by
          rintro rfl
          exact Nat.lt_irrefl _ (Option.some.inj hindex ▸ hlt)
        rw [step?_array, step?_array, List.length_set, reached, if_neg hdash]
        cases hj : index? other items.length with
        | none => exact .inr rfl
        | some j =>
            rw [Option.bind_some, Option.bind_some]
            by_cases heq : j = i
            · subst heq
              have hdash' : other ≠ "-" := by
                rintro rfl
                exact Nat.lt_irrefl _ (Option.some.inj hj ▸ hlt)
              refine .inl ⟨?_, List.getElem?_set_self hlt⟩
              rw [eq_of_isPlain hplain hindex hdash, eq_of_isPlain hother hj hdash']
            · exact .inr (List.getElem?_set_ne (Ne.symm heq))
      · by_cases hdash' : other = "-"
        · rw [hdash', step?_dash, step?_dash]
          exact .inr rfl
        · rw [step?_array, step?_array, index?_eq_of_ne hdash' _ items.length]
          cases hj : index? other items.length with
          | none => exact .inr rfl
          | some j =>
              rw [Option.bind_some, Option.bind_some]
              by_cases heq : j = items.length
              · refine .inl ⟨?_, ?_⟩
                · rw [eq_of_isPlain hother hj hdash', heq, reached]
                  split
                  · rfl
                  · next hdash => exact (eq_of_isPlain hplain hindex hdash).symm
                · rw [heq]
                  exact List.getElem?_concat_length ..
              · refine .inr ?_
                rcases Nat.lt_or_ge j items.length with hlt | hge
                · exact List.getElem?_append_left hlt
                · rw [List.getElem?_eq_none hge, List.getElem?_eq_none]
                  rw [List.length_append, List.length_singleton]
                  omega
  | null => cases hput
  | bool _ => cases hput
  | number _ => cases hput
  | string _ => cases hput

/-- A write further down is a write in the part that the first token leads to. -/
theorem write?_cons_concat (v : Json) (token : String) (front : List String) (last : String)
    (x : Json) :
    write? v (token :: (front ++ [last])) x
      = (step? v token).bind (fun next =>
        (write? next (front ++ [last]) x).bind (put? v token)) := by
  cases front <;> rfl

theorem exists_walk?_of_write? {last : String} (h : write? v (front ++ [last]) x = some v') :
    ∃ w, walk? v front = some w := by
  induction front generalizing v v' with
  | nil => exact ⟨v, rfl⟩
  | cons token rest ih =>
      rw [List.cons_append, write?_cons_concat] at h
      obtain ⟨next, hstep, hrest⟩ := Option.bind_eq_some_iff.1 h
      obtain ⟨next', hwrite, -⟩ := Option.bind_eq_some_iff.1 hrest
      obtain ⟨w, hw⟩ := ih hwrite
      exact ⟨w, by rw [walk?, hstep, Option.bind_some, hw]⟩

theorem reached_of_step? {next : Json} (h : step? v token = some next) :
    reached v token = token := by
  cases v with
  | array items =>
      rw [reached]
      refine if_neg ?_
      rintro rfl
      rw [step?_dash] at h
      cases h
  | _ => rfl

/-- Where something else is read after a write, the way there and the way to the place that was
written are one and the same, or one is the beginning of the other. -/
theorem prefix_or_prefix_of_differs {last : String} {w : Json} {way : List String}
    (hwrite : write? v (front ++ [last]) x = some v') (hwalk : walk? v front = some w)
    (hplain : arePlain v (front ++ [last]) = true) (hway : arePlain v way = true)
    (hdiffers : walk? v' way ≠ walk? v way) :
    way <+: front ++ [reached w last] ∨ front ++ [reached w last] <+: way := by
  induction front generalizing v v' way with
  | nil =>
      cases way with
      | nil => exact .inl List.nil_prefix
      | cons other way =>
          obtain rfl := Option.some.inj hwalk
          rcases step?_put? hwrite (isPlain_of_arePlain hplain) (isPlain_of_arePlain hway) with
            ⟨rfl, -⟩ | hsame
          · exact .inr (List.prefix_append [reached v last] way)
          · rw [walk?, walk?, hsame] at hdiffers
            exact absurd rfl hdiffers
  | cons token rest ih =>
      rw [List.cons_append, write?_cons_concat] at hwrite
      obtain ⟨next, hstep, hrest⟩ := Option.bind_eq_some_iff.1 hwrite
      obtain ⟨next', hnext, hput⟩ := Option.bind_eq_some_iff.1 hrest
      obtain ⟨htoken, hplain'⟩ := arePlain_cons hplain hstep
      cases way with
      | nil => exact .inl List.nil_prefix
      | cons other way =>
          rcases step?_put? hput htoken (isPlain_of_arePlain hway) with ⟨hsame, hstep'⟩ | hsame
          · rw [reached_of_step? hstep] at hsame
            subst hsame
            rw [walk?, walk?, hstep, hstep'] at hdiffers
            rw [walk?, hstep] at hwalk
            have hway' := (arePlain_cons hway hstep).2
            rw [List.cons_append, List.cons_prefix_cons, List.cons_prefix_cons]
            exact (ih hnext hwalk hplain' hway' hdiffers).imp (⟨rfl, ·⟩) (⟨rfl, ·⟩)
          · rw [walk?, walk?, hsame] at hdiffers
            exact absurd rfl hdiffers

/-! ### Pointers with one spelling -/

/-- A pointer without a second spelling: it is put together from its tokens, and they are plain. -/
structure Canonical (v : Json) (pointer : String) : Prop where
  spelled : join (tokens pointer) = pointer
  plain : arePlain v (tokens pointer) = true

/-- The path that a write reaches is the way that it takes, with the last dash resolved. -/
theorem writtenPath_join {last : String} {w : Json} (hwalk : walk? v front = some w) :
    writtenPath v (join (front ++ [last])) = join (front ++ [reached w last]) := by
  have hchars : (join (front ++ [last])).toList
      = (join front).toList ++ '/' :: escapeChars last.toList := by
    rw [join_concat, toList_child]
  rw [writtenPath]
  split
  · next parent hparent =>
    rw [Text.before?_eq_some_iff, hchars] at hparent
    obtain ⟨hfront, hlast⟩ := append_cons_inj_of_not_mem (slash_not_mem_escapeChars _)
      (by decide) hparent
    have hdash : last = "-" := String.toList_injective (escapeChars_injective hlast)
    rw [← hfront, String.ofList_toList, get?_join, hwalk, hdash]
    cases w with
    | array items => exact (join_concat _ _).symm
    | _ => rfl
  · next hnone =>
    have hdash : last ≠ "-" := by
      rintro rfl
      have hsome := Text.before?_eq_some_iff.2 hchars
      rw [show '/' :: escapeChars "-".toList = ['/', '-'] from rfl, hnone] at hsome
      cases hsome
    cases w with
    | array items => rw [reached, if_neg hdash]
    | _ => rfl

/-! ### The path that is reached -/

/-- The path that a write at a path reaches. A last dash behind an array is the position behind the
last item; any other path is reached as it is written. -/
inductive Reaches (v : Json) : String → String → Prop where
  | appended {parent : String} {items : List Json} (harray : get? v parent = some (.array items)) :
      Reaches v (parent ++ "/-") (parent ++ "/" ++ Text.natText items.length)
  | itself {path : String}
      (hother : ∀ parent items, path = parent ++ "/-" → get? v parent ≠ some (.array items)) :
      Reaches v path path

theorem escapeChars_eq_self {cs : List Char} (htilde : '~' ∉ cs) (hslash : '/' ∉ cs) :
    escapeChars cs = cs := by
  induction cs with
  | nil => rfl
  | cons c rest ih =>
      rw [List.mem_cons, not_or] at htilde hslash
      rw [escapeChars, if_neg (Ne.symm htilde.1), if_neg (Ne.symm hslash.1), ih htilde.2 hslash.2]

theorem child_natText (parent : String) (n : Nat) :
    child parent (Text.natText n) = parent ++ "/" ++ Text.natText n := by
  have hdigits : ∀ c, c.isDigit = false → c ∉ (Text.natText n).toList := by
    intro c hc hmem
    rw [Text.natText, String.toList_ofList] at hmem
    rw [Text.isDigit_of_mem_toDigits hmem] at hc
    cases hc
  apply String.toList_injective
  rw [toList_child, escapeChars_eq_self (hdigits '~' (by decide)) (hdigits '/' (by decide)),
    String.toList_append, String.toList_append, List.append_assoc]
  rfl

theorem before?_dash_iff {path : String} {parent : List Char} :
    Text.before? ['/', '-'] path.toList = some parent ↔ path = String.ofList parent ++ "/-" := by
  rw [Text.before?_eq_some_iff, ← String.toList_inj, String.toList_append, String.toList_ofList]
  rfl

theorem writtenPath_appended {parent : String} {items : List Json}
    (harray : get? v parent = some (.array items)) :
    writtenPath v (parent ++ "/-") = parent ++ "/" ++ Text.natText items.length := by
  have hparent : Text.before? ['/', '-'] (parent ++ "/-").toList = some parent.toList :=
    before?_dash_iff.2 (by rw [String.ofList_toList])
  rw [writtenPath, hparent]
  dsimp only
  rw [String.ofList_toList, harray, ← child_natText]

theorem writtenPath_itself {path : String}
    (hother : ∀ parent items, path = parent ++ "/-" → get? v parent ≠ some (.array items)) :
    writtenPath v path = path := by
  rw [writtenPath]
  split
  · next parent hparent =>
    split
    · next items harray => exact absurd harray (hother _ items (before?_dash_iff.1 hparent))
    · rfl
  · rfl

theorem reaches_iff {path written : String} :
    Reaches v path written ↔ written = writtenPath v path := by
  constructor
  · intro h
    cases h with
    | appended harray => exact (writtenPath_appended harray).symm
    | itself hother => exact (writtenPath_itself hother).symm
  · rintro rfl
    by_cases harray : ∃ parent items, path = parent ++ "/-" ∧ get? v parent = some (.array items)
    · obtain ⟨parent, items, rfl, harray⟩ := harray
      rw [writtenPath_appended harray]
      exact .appended harray
    · have hother : ∀ parent items, path = parent ++ "/-" → get? v parent ≠ some (.array items) :=
        fun parent items hpath hitems => harray ⟨parent, items, hpath, hitems⟩
      rw [writtenPath_itself hother]
      exact .itself hother

/-! ### Where something else is read -/

/-- Where something else is read after a write at a path, the place lies above the path that was
written or below it. -/
theorem mem_lineage_of_differs {path pointer : String} (hset : set? v path x = some v')
    (hpath : Canonical v path) (hpointer : Canonical v pointer)
    (hdiffers : get? v' pointer ≠ get? v pointer) :
    pointer ∈ lineage (writtenPath v path) ∨ writtenPath v path ∈ lineage pointer := by
  rw [← hpointer.spelled]
  rcases List.eq_nil_or_concat' (tokens path) with hnil | ⟨front, last, hconcat⟩
  · have hroot : path = "" := hpath.spelled.symm.trans (congrArg join hnil)
    subst hroot
    exact .inr (join_mem_lineage List.nil_prefix)
  · have hplain := hpath.plain
    rw [set?, hconcat] at hset
    rw [hconcat] at hplain
    obtain ⟨w, hwalk⟩ := exists_walk?_of_write? hset
    rw [← hpath.spelled, hconcat, writtenPath_join hwalk]
    exact (prefix_or_prefix_of_differs hset hwalk hplain hpointer.plain hdiffers).imp
      join_mem_lineage join_mem_lineage

end HyperSchema.Pointer
