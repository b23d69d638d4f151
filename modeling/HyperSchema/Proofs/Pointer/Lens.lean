import HyperSchema.Proofs.Pointer.Writing

/-!
# Writing and reading again

What is written at a pointer is read there afterwards, a second write replaces the first, and what
lies elsewhere is read as before. Where "there" is, the written path tells: its tokens are those of
the pointer, with a last dash in an array resolved to the position that it appends at. Each law is
one about a single container first, and then follows down the way by induction on its tokens.

A write is made in place, container by container. If it fails further down, what was put back on the
way up is what was there, so the value is as before.
-/

namespace HyperSchema.Pointer

variable {v v' w x : Json} {path token last : String} {front way : List String}

/-! ### One container -/

theorem countable_of_step? (hcount : v.Countable) (hstep : step? v token = some w) :
    w.Countable := by
  cases v with
  | object members => exact Json.Countable.of_get? hcount hstep
  | array items =>
      obtain ⟨i, -, hitem⟩ := Option.bind_eq_some_iff.1 hstep
      rw [Json.Countable] at hcount
      exact Json.Countable.of_getElem? hcount.2 hitem
  | _ => cases hstep

theorem put?_of_step? (hstep : step? v token = some w) : put? v token w = some v := by
  cases v with
  | object members =>
      rw [put?, Table.insert_of_get? hstep]
  | array items =>
      obtain ⟨i, hindex, hitem⟩ := Option.bind_eq_some_iff.1 hstep
      obtain ⟨hlt, rfl⟩ := List.getElem?_eq_some_iff.1 hitem
      rw [put?, hindex]
      dsimp only
      rw [if_pos hlt, List.set_getElem_self]
  | _ => cases hstep

theorem index?_reached {items : List Json} {i : Nat}
    (hcount : (Json.array items).Countable) (hindex : index? token items.length = some i)
    (length : Nat) : index? (reached (.array items) token) length = some i := by
  rw [reached]
  split
  · next hdash =>
    subst hdash
    obtain rfl := Option.some.inj hindex
    rw [Json.Countable] at hcount
    rw [index?_natText, if_pos hcount.1]
  · next hdash => rw [index?_eq_of_ne hdash length items.length, hindex]

theorem step?_put?_reached (hcount : v.Countable) (hput : put? v token x = some v') :
    step? v' (reached v token) = some x := by
  cases v with
  | object members =>
      obtain rfl := Option.some.inj hput
      exact Table.get?_insert_self members token x
  | array items =>
      obtain ⟨i, hindex, ⟨hlt, rfl⟩ | ⟨rfl, rfl⟩⟩ := put?_array hput
      · rw [step?_array, index?_reached hcount hindex, Option.bind_some]
        exact List.getElem?_set_self hlt
      · rw [step?_array, index?_reached hcount hindex, Option.bind_some]
        exact List.getElem?_concat_length ..
  | _ => cases hput

/-- Whether something can be put does not depend on what, and the second time replaces the first. -/
theorem put?_put?_reached (hcount : v.Countable) (hput : put? v token x = some v') (y : Json) :
    ∃ u, put? v token y = some u ∧ put? v' (reached v token) y = some u := by
  cases v with
  | object members =>
      obtain rfl := Option.some.inj hput
      exact ⟨_, rfl, congrArg (some ∘ Json.object) (Table.insert_insert members token x y)⟩
  | array items =>
      obtain ⟨i, hindex, ⟨hlt, rfl⟩ | ⟨rfl, rfl⟩⟩ := put?_array hput
      · refine ⟨.array (items.set i y), ?_, ?_⟩
        · rw [put?, hindex]
          exact if_pos hlt
        · rw [put?, index?_reached hcount hindex]
          dsimp only
          rw [List.length_set, if_pos hlt, List.set_set]
      · refine ⟨.array (items ++ [y]), ?_, ?_⟩
        · rw [put?, hindex]
          dsimp only
          rw [if_neg (Nat.lt_irrefl _), if_pos rfl]
        · rw [put?, index?_reached hcount hindex]
          dsimp only
          rw [List.length_append, List.length_singleton, if_pos (Nat.lt_succ_self _),
            List.set_append_right _ _ (Nat.le_refl _), Nat.sub_self, List.set_cons_zero]
  | _ => cases hput

/-! ### A way of containers -/

/-- What a write further down comes to: the part is written, and put back where it was. -/
theorem write?_cons_concat_eq_some :
    write? v (token :: (front ++ [last])) x = some v' ↔
      ∃ next next', step? v token = some next ∧ write? next (front ++ [last]) x = some next'
        ∧ put? v token next' = some v' := by
  rw [write?_cons_concat]
  simp only [Option.bind_eq_some_iff]
  constructor
  · rintro ⟨next, hstep, next', hnext, hput⟩
    exact ⟨next, next', hstep, hnext, hput⟩
  · rintro ⟨next, next', hstep, hnext, hput⟩
    exact ⟨next, hstep, next', hnext, hput⟩

theorem walk?_write? (hcount : v.Countable) (hwrite : write? v (front ++ [last]) x = some v')
    (hwalk : walk? v front = some w) : walk? v' (front ++ [reached w last]) = some x := by
  induction front generalizing v v' with
  | nil =>
      obtain rfl := Option.some.inj hwalk
      rw [List.nil_append, walk?, step?_put?_reached hcount hwrite]
      rfl
  | cons token rest ih =>
      obtain ⟨next, next', hstep, hnext, hput⟩ := write?_cons_concat_eq_some.1 hwrite
      rw [walk?, hstep] at hwalk
      have hstep' := step?_put?_reached hcount hput
      rw [reached_of_step? hstep] at hstep'
      rw [List.cons_append, walk?, hstep']
      exact ih (countable_of_step? hcount hstep) hnext hwalk

theorem write?_write? (hcount : v.Countable) (hwrite : write? v (front ++ [last]) x = some v')
    (hwalk : walk? v front = some w) (y : Json) :
    ∃ u, write? v (front ++ [last]) y = some u
      ∧ write? v' (front ++ [reached w last]) y = some u := by
  induction front generalizing v v' with
  | nil =>
      obtain rfl := Option.some.inj hwalk
      exact put?_put?_reached hcount hwrite y
  | cons token rest ih =>
      obtain ⟨next, next', hstep, hnext, hput⟩ := write?_cons_concat_eq_some.1 hwrite
      rw [walk?, hstep] at hwalk
      obtain ⟨part, hpart, hpart'⟩ := ih (countable_of_step? hcount hstep) hnext hwalk
      have hstep' := step?_put?_reached hcount hput
      obtain ⟨u, hu, hu'⟩ := put?_put?_reached hcount hput part
      rw [reached_of_step? hstep] at hstep' hu'
      exact ⟨u, write?_cons_concat_eq_some.2 ⟨next, part, hstep, hpart, hu⟩,
        write?_cons_concat_eq_some.2 ⟨next', part, hstep', hpart', hu'⟩⟩

theorem arePlain_of_reached (hwalk : walk? v front = some w)
    (hplain : arePlain v (front ++ [reached w last]) = true) :
    arePlain v (front ++ [last]) = true := by
  induction front generalizing v with
  | nil =>
      obtain rfl := Option.some.inj hwalk
      cases v with
      | array items =>
          rw [reached] at hplain
          split at hplain
          · next hdash =>
            rw [hdash, List.nil_append, arePlain, step?_dash]
            rfl
          · exact hplain
      | _ => exact hplain
  | cons token rest ih =>
      obtain ⟨next, hstep, hrest⟩ := Option.bind_eq_some_iff.1 hwalk
      obtain ⟨htoken, hplain'⟩ := arePlain_cons hplain hstep
      rw [List.cons_append, arePlain, hstep, htoken]
      exact ih hrest hplain'

/-! ### Writing in place -/

/-- A write made in place: whether anything was written, and the value that stands there afterwards.
The container gets back what has become of its part, also when nothing was written there. -/
def overwrite : Json → List String → Json → Bool × Json
  | _, [], x => (true, x)
  | v, [token], x =>
    match put? v token x with
    | some v' => (true, v')
    | none => (false, v)
  | v, token :: rest, x =>
    match step? v token with
    | some next =>
      let (written, next') := overwrite next rest x
      (written, (put? v token next').getD v)
    | none => (false, v)

theorem overwrite_cons_concat (v : Json) (token : String) (front : List String) (last : String)
    (x : Json) :
    overwrite v (token :: (front ++ [last])) x
      = match step? v token with
        | some next =>
          let (written, next') := overwrite next (front ++ [last]) x
          (written, (put? v token next').getD v)
        | none => (false, v) := by
  cases front <;> rfl

theorem exists_put?_of_step? (hstep : step? v token = some w) (x : Json) :
    ∃ v', put? v token x = some v' := by
  cases v with
  | object members => exact ⟨_, rfl⟩
  | array items =>
      obtain ⟨i, hindex, hitem⟩ := Option.bind_eq_some_iff.1 hstep
      refine ⟨.array (items.set i x), ?_⟩
      rw [put?, hindex]
      exact if_pos (List.getElem?_eq_some_iff.1 hitem).1
  | _ => cases hstep

/-- In place, a write that fails leaves the value as it was. -/
theorem overwrite_eq (v : Json) (way : List String) (x : Json) :
    overwrite v way x = ((write? v way x).isSome, (write? v way x).getD v) := by
  rcases List.eq_nil_or_concat' way with rfl | ⟨front, last, rfl⟩
  · rfl
  induction front generalizing v with
  | nil =>
      rw [List.nil_append, overwrite, write?]
      cases put? v last x <;> rfl
  | cons token rest ih =>
      rw [List.cons_append, overwrite_cons_concat, write?_cons_concat]
      cases hstep : step? v token with
      | none => rfl
      | some next =>
          dsimp only
          rw [ih next, Option.bind_some]
          cases write? next (rest ++ [last]) x with
          | none => rw [Option.getD_none, put?_of_step? hstep]; rfl
          | some next' =>
              obtain ⟨v', hput⟩ := exists_put?_of_step? hstep next'
              rw [Option.getD_some, Option.bind_some, hput]
              rfl

/-! ### The tokens of the written path -/

/-- A dash has no second spelling. -/
theorem eq_dash_of_tokenOf {piece : List Char} (h : tokenOf piece = "-") : piece = ['-'] := by
  have hchars : unescapeChars piece = ['-'] := by
    rw [← String.toList_ofList (l := unescapeChars piece)]
    exact congrArg String.toList h
  unfold unescapeChars at hchars
  split at hchars
  · cases hchars
  · next rest => exact absurd (List.cons.inj hchars).1 (by decide)
  · next rest => exact absurd (List.cons.inj hchars).1 (by decide)
  · next c rest h0 h1 =>
    obtain ⟨rfl, hrest⟩ := List.cons.inj hchars
    cases rest with
    | nil => rfl
    | cons d more =>
        unfold unescapeChars at hrest
        split at hrest <;> simp_all

theorem exists_eq_append_dash (hpath : Rooted path) (htokens : tokens path = front ++ ["-"]) :
    ∃ parent, path = parent ++ "/-" ∧ tokens parent = front := by
  rcases hpath with rfl | ⟨rest, hrest⟩
  · exact absurd htokens.symm (by simp [tokens, tokensOfChars])
  have hslash : '/' ∈ path.toList := hrest ▸ List.mem_cons_self
  cases hbefore : Text.beforeLast? '/' path.toList with
  | none => exact absurd hslash (beforeLast?_eq_none_iff.1 hbefore)
  | some parent =>
      obtain ⟨piece, hpiece, hsplit⟩ := beforeLast?_eq_some_iff.1 hbefore
      rw [tokens, hsplit, tokensOfChars_append_slash parent hpiece] at htokens
      obtain ⟨hfront, hlast⟩ := List.append_inj' htokens rfl
      have hdash := eq_dash_of_tokenOf (List.singleton_inj.1 hlast)
      refine ⟨String.ofList parent, ?_, ?_⟩
      · rw [← String.toList_inj, String.toList_append, String.toList_ofList, hsplit, hdash]
        rfl
      · rw [tokens, String.toList_ofList, hfront]

/-- The tokens of the written path lead to the place that is reached. -/
theorem tokens_writtenPath (hpath : Rooted path) (htokens : tokens path = front ++ [last])
    (hwalk : walk? v front = some w) :
    tokens (writtenPath v path) = front ++ [reached w last] := by
  obtain ⟨written, hreaches⟩ : ∃ written, Reaches v path written := ⟨_, reaches_iff.2 rfl⟩
  rw [← reaches_iff.1 hreaches]
  cases hreaches with
  | @appended parent items harray =>
      rw [show "/-" = join ["-"] from rfl, tokens_append_join] at htokens
      obtain ⟨hfront, hlast⟩ := List.append_inj' htokens rfl
      rw [get?, hfront, hwalk] at harray
      rw [← child_natText, child_eq_append_join, tokens_append_join, hfront,
        ← List.singleton_inj.1 hlast, Option.some.inj harray, reached, if_pos rfl]
  | itself hother =>
      rw [htokens]
      cases w with
      | array items =>
          have hdash : last ≠ "-" := by
            rintro rfl
            obtain ⟨parent, hparent, hfront⟩ := exists_eq_append_dash hpath htokens
            exact hother parent items hparent (by rw [get?, hfront, hwalk])
          rw [reached, if_neg hdash]
      | _ => rfl

/-! ### The laws -/

/-- A write that fails leaves the value as it was. One that succeeds is read at the written path, is
replaced by a second write there, and leaves alone what lies neither above that path nor below it,
provided that array positions are written in plain digits. -/
theorem set?_is_lens (hcount : v.Countable) (hpath : Rooted path) (x : Json) :
    (set? v path x = none → overwrite v (tokens path) x = (false, v))
      ∧ ∀ v', set? v path x = some v' →
        overwrite v (tokens path) x = (true, v')
        ∧ get? v' (writtenPath v path) = some x
        ∧ (∀ y, ∃ u, set? v path y = some u ∧ set? v' (writtenPath v path) y = some u)
        ∧ (arePlain v (tokens (writtenPath v path)) = true → ∀ way, arePlain v way = true →
            ¬way <+: tokens (writtenPath v path) → ¬tokens (writtenPath v path) <+: way →
            get? v' (join way) = get? v (join way)) := by
  refine ⟨fun hnone => ?_, fun v' hset => ⟨?_, ?_⟩⟩
  · rw [overwrite_eq, ← set?, hnone]
    rfl
  · rw [overwrite_eq, ← set?, hset]
    rfl
  rcases List.eq_nil_or_concat' (tokens path) with hnil | ⟨front, last, htokens⟩
  · -- at the root, everything is replaced and everything lies below
    have hroot : path = "" := by
      rcases hpath with h | ⟨rest, hrest⟩
      · exact h
      · rw [tokens, hrest, tokensOfChars_slash, List.map_eq_nil_iff] at hnil
        exact absurd hnil (Text.pieces_ne_nil _ _)
    subst hroot
    obtain rfl := Option.some.inj hset
    exact ⟨rfl, fun y => ⟨y, rfl, rfl⟩, fun _ way _ _ hbelow => absurd List.nil_prefix hbelow⟩
  · rw [set?, htokens] at hset
    obtain ⟨w, hwalk⟩ := exists_walk?_of_write? hset
    have hwritten := tokens_writtenPath hpath htokens hwalk
    refine ⟨?_, fun y => ?_, fun hplain way hway habove hbelow => ?_⟩
    · rw [get?, hwritten]
      exact walk?_write? hcount hset hwalk
    · rw [set?, set?, htokens, hwritten]
      exact write?_write? hcount hset hwalk y
    · rw [hwritten] at hplain habove hbelow
      rw [get?_join, get?_join]
      by_contra hdiffers
      rcases prefix_or_prefix_of_differs hset hwalk (arePlain_of_reached hwalk hplain) hway
        hdiffers with h | h
      · exact habove h
      · exact hbelow h

def shelf : Json :=
  .object [("a", .array [.string "x", .object [("b", .null)]]), ("~/", .bool false)]

/-- A write at the dash behind the list is read at the third position. -/
theorem set?_is_lens_shelf :
    shelf.Countable ∧ Rooted "/a/-"
      ∧ ∃ v', set? shelf "/a/-" (.bool true) = some v'
        ∧ overwrite shelf (tokens "/a/-") (.bool true) = (true, v')
        ∧ get? v' "/a/2" = some (.bool true)
        ∧ (∃ u, set? shelf "/a/-" .null = some u ∧ set? v' "/a/2" .null = some u)
        ∧ get? v' "/a/1/b" = get? shelf "/a/1/b"
        ∧ overwrite shelf (tokens "/c/d") (.bool true) = (false, shelf) := by
  have hcount : shelf.Countable := by
    simp [shelf, Json.Countable, Json.CountableMembers, Json.CountableItems, Text.maxCount]
  have hpath : Rooted "/a/-" := .inr ⟨_, rfl⟩
  have hfails : Rooted "/c/d" := .inr ⟨_, rfl⟩
  obtain ⟨hwritten, hread, hagain, hframe⟩ :=
    (set?_is_lens hcount hpath (.bool true)).2 _ rfl
  refine ⟨hcount, hpath, _, rfl, hwritten, hread, hagain .null, ?_,
    (set?_is_lens hcount hfails (.bool true)).1 rfl⟩
  exact hframe (by decide +kernel) ["a", "1", "b"] (by decide +kernel) (by decide +kernel)
    (by decide +kernel)

end HyperSchema.Pointer
