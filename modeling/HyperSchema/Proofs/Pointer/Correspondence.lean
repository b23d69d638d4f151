import HyperSchema.Proofs.Pointer.Lineage
import HyperSchema.Proofs.Pointer.Writing

/-!
# Pointers and lists of tokens

A list of tokens is written as a pointer and read back from it. The other way round, a pointer is
what its tokens are written as if it begins at the root and every tilde in it begins an escape: any
other tilde is read as itself, and would be written as an escape. As an escape has no slash in it,
cutting at the slashes and taking out the escapes do not disturb each other.
-/

namespace HyperSchema

namespace Pointer

variable {path : String} {cs ds : List Char}

/-! ### Escapes -/

/-- Every tilde has a zero or a one behind it. -/
def Escaped (cs : List Char) : Prop :=
  ∀ front behind, cs = front ++ '~' :: behind → behind.head? = some '0' ∨ behind.head? = some '1'

theorem escaped_nil : Escaped [] := by
  intro front behind h
  exact absurd h.symm (List.append_ne_nil_of_right_ne_nil _ (List.cons_ne_nil _ _))

theorem escaped_cons_iff {c : Char} {rest : List Char} :
    Escaped (c :: rest)
      ↔ (c = '~' → rest.head? = some '0' ∨ rest.head? = some '1') ∧ Escaped rest := by
  constructor
  · intro h
    refine ⟨fun hc => h [] rest (by rw [hc, List.nil_append]), fun front behind heq => ?_⟩
    exact h (c :: front) behind (by rw [heq, List.cons_append])
  · rintro ⟨hc, hrest⟩ front behind heq
    cases front with
    | nil =>
        obtain ⟨htilde, rfl⟩ := List.cons.inj heq
        exact hc htilde
    | cons d front =>
        obtain ⟨-, hbehind⟩ := List.cons.inj heq
        exact hrest front behind hbehind

theorem Escaped.append (hcs : Escaped cs) (hds : Escaped ds) : Escaped (cs ++ ds) := by
  induction cs with
  | nil => exact hds
  | cons c rest ih =>
      obtain ⟨hc, hrest⟩ := escaped_cons_iff.1 hcs
      rw [List.cons_append, escaped_cons_iff]
      refine ⟨fun htilde => ?_, ih hrest⟩
      rw [List.head?_append]
      exact (hc htilde).imp (fun h => by rw [h]; rfl) (fun h => by rw [h]; rfl)

/-- A slash comes between escapes only. -/
theorem Escaped.of_append_slash (h : Escaped (cs ++ '/' :: ds)) : Escaped cs ∧ Escaped ds := by
  induction cs with
  | nil => exact ⟨escaped_nil, (escaped_cons_iff.1 h).2⟩
  | cons c rest ih =>
      rw [List.cons_append, escaped_cons_iff] at h
      obtain ⟨hc, hrest⟩ := h
      refine ⟨escaped_cons_iff.2 ⟨fun htilde => ?_, (ih hrest).1⟩, (ih hrest).2⟩
      cases rest with
      | nil => exact absurd (hc htilde) (by simp)
      | cons d rest => exact hc htilde

theorem escaped_escapeChars (cs : List Char) : Escaped (escapeChars cs) := by
  induction cs with
  | nil => exact escaped_nil
  | cons c rest ih =>
      rw [escapeChars]
      split
      · exact escaped_cons_iff.2 ⟨fun _ => .inl rfl, escaped_cons_iff.2 ⟨(absurd · (by decide)), ih⟩⟩
      · split
        · exact escaped_cons_iff.2 ⟨fun _ => .inr rfl, escaped_cons_iff.2 ⟨(absurd · (by decide)), ih⟩⟩
        · next htilde _ => exact escaped_cons_iff.2 ⟨fun h => absurd h htilde, ih⟩

/-- A text with escapes and no slash is a token written. -/
theorem escapeChars_unescapeChars (h : Escaped cs) (hslash : '/' ∉ cs) :
    escapeChars (unescapeChars cs) = cs := by
  induction cs using unescapeChars.induct with
  | case1 => rfl
  | case2 rest ih =>
      have hrest := (escaped_cons_iff.1 (escaped_cons_iff.1 h).2).2
      rw [unescapeChars, escapeChars, if_pos rfl, ih hrest (by simp_all)]
  | case3 rest ih =>
      have hrest := (escaped_cons_iff.1 (escaped_cons_iff.1 h).2).2
      rw [unescapeChars, escapeChars, if_neg (by decide), if_pos rfl, ih hrest (by simp_all)]
  | case4 c rest hzero hone ih =>
      rw [List.mem_cons, not_or] at hslash
      obtain ⟨hc, hrest⟩ := escaped_cons_iff.1 h
      have htilde : c ≠ '~' := by
        rintro rfl
        cases rest with
        | nil => exact absurd (hc rfl) (by decide)
        | cons d rest =>
            rcases hc rfl with hd | hd
            · exact hzero rest rfl (by rw [Option.some.inj hd])
            · exact hone rest rfl (by rw [Option.some.inj hd])
      rw [unescapeChars, escapeChars, if_neg htilde, if_neg (Ne.symm hslash.1), ih hrest hslash.2]
      · exact hzero
      · exact hone

/-! ### Escaping as replacements -/

def replaced (c : Char) (replacement cs : List Char) : List Char :=
  cs.flatMap (fun d => if d = c then replacement else [d])

/-- A text with a character for every pair of two others, from the front. -/
def replacedPair (first second c : Char) : List Char → List Char
  | d :: e :: rest =>
    if d = first ∧ e = second then c :: replacedPair first second c rest
    else d :: replacedPair first second c (e :: rest)
  | cs => cs

theorem replaced_cons (c : Char) (replacement : List Char) (d : Char) (rest : List Char) :
    replaced c replacement (d :: rest)
      = (if d = c then replacement else [d]) ++ replaced c replacement rest := List.flatMap_cons

theorem replaced_append (c : Char) (replacement cs ds : List Char) :
    replaced c replacement (cs ++ ds) = replaced c replacement cs ++ replaced c replacement ds :=
  List.flatMap_append

/-- Tildes are replaced first, so that those of the escapes for slashes stay. -/
theorem escapeChars_eq_replaced (cs : List Char) :
    escapeChars cs = replaced '/' ['~', '1'] (replaced '~' ['~', '0'] cs) := by
  induction cs with
  | nil => rfl
  | cons c rest ih =>
      rw [escapeChars, replaced_cons, replaced_append, ← ih]
      by_cases htilde : c = '~'
      · rw [if_pos htilde, if_pos htilde]
        rfl
      · rw [if_neg htilde, if_neg htilde, replaced_cons]
        by_cases hslash : c = '/'
        · rw [if_pos hslash, if_pos hslash]
          rfl
        · rw [if_neg hslash, if_neg hslash]
          rfl

section

variable {first second c d : Char} {rest : List Char}

theorem replacedPair_cons (h : d ≠ first ∨ rest.head? ≠ some second) :
    replacedPair first second c (d :: rest) = d :: replacedPair first second c rest := by
  cases rest with
  | nil => rfl
  | cons e rest =>
      rw [replacedPair, if_neg]
      rintro ⟨hd, he⟩
      rcases h with h | h
      · exact h hd
      · exact h (congrArg some he)

theorem head?_replacedPair (rest : List Char) :
    (replacedPair first second c rest).head? = some c
      ∨ (replacedPair first second c rest).head? = rest.head? := by
  match rest with
  | [] => exact .inr rfl
  | [_] => exact .inr rfl
  | d :: e :: rest =>
      rw [replacedPair]
      split
      · exact .inl rfl
      · exact .inr rfl

end

/-- Escapes for slashes are taken out first, so that none arises from an escape for a tilde. -/
theorem unescapeChars_eq_replacedPair (cs : List Char) :
    unescapeChars cs = replacedPair '~' '0' '~' (replacedPair '~' '1' '/' cs) := by
  induction cs using unescapeChars.induct with
  | case1 => rfl
  | case2 rest ih =>
      have htilde : replacedPair '~' '1' '/' ('~' :: '0' :: rest)
          = '~' :: '0' :: replacedPair '~' '1' '/' rest := by
        rw [replacedPair_cons (.inr (by simp)), replacedPair_cons (.inl (by decide))]
      rw [unescapeChars, ih, htilde, replacedPair, if_pos ⟨rfl, rfl⟩]
  | case3 rest ih =>
      have hslash : replacedPair '~' '1' '/' ('~' :: '1' :: rest)
          = '/' :: replacedPair '~' '1' '/' rest := by rw [replacedPair, if_pos ⟨rfl, rfl⟩]
      rw [unescapeChars, ih, hslash, replacedPair_cons (.inl (by decide))]
  | case4 c rest hzero hone ih =>
      have hbehind : ∀ d, (∀ rest', c = '~' → rest ≠ d :: rest') →
          c ≠ '~' ∨ rest.head? ≠ some d := by
        intro d hd
        by_cases hc : c = '~'
        · refine .inr fun hhead => ?_
          obtain ⟨tail, htail⟩ := List.head?_eq_some_iff.1 hhead
          exact hd tail hc htail
        · exact .inl hc
      rw [unescapeChars, ih, replacedPair_cons (hbehind '1' hone), replacedPair_cons]
      · refine (hbehind '0' hzero).imp_right fun hhead => ?_
        rcases head?_replacedPair rest with h | h
        · rw [h]
          decide
        · rw [h]
          exact hhead
      · exact hzero
      · exact hone

/-! ### Tokens -/

theorem joinChars_eq_flatMap (way : List String) :
    joinChars way = way.flatMap (fun token => '/' :: escapeChars token.toList) := by
  induction way with
  | nil => rfl
  | cons token rest ih => rw [joinChars, List.flatMap_cons, ih, List.cons_append]

theorem escaped_joinChars (way : List String) : Escaped (joinChars way) := by
  induction way with
  | nil => exact escaped_nil
  | cons token rest ih =>
      rw [joinChars, List.cons_append, escaped_cons_iff]
      exact ⟨(absurd · (by decide)), (escaped_escapeChars _).append ih⟩

theorem Escaped.of_mem_pieces {piece : List Char} (h : Escaped cs)
    (hpiece : piece ∈ Text.pieces '/' cs) : Escaped piece := by
  induction cs using Text.pieces_induction '/' with
  | whole first hfirst =>
      rw [Text.pieces_of_not_mem hfirst, List.mem_singleton] at hpiece
      rw [hpiece]
      exact h
  | cut first rest hfirst ih =>
      obtain ⟨hescaped, hrest⟩ := h.of_append_slash
      rw [Text.pieces_cut hfirst, List.mem_cons] at hpiece
      rcases hpiece with rfl | hpiece
      · exact hescaped
      · exact ih hrest hpiece

/-- What the tokens of a pointer are written as is the pointer. -/
theorem join_tokens (hpath : Rooted path) (h : Escaped path.toList) :
    join (tokens path) = path := by
  rcases hpath with rfl | ⟨rest, hrest⟩
  · rfl
  · rw [hrest] at h
    have hpieces : (Text.pieces '/' rest).flatMap
        (fun piece => '/' :: escapeChars (tokenOf piece).toList) = '/' :: rest := by
      rw [← Text.flatMap_pieces]
      refine List.flatMap_congr fun piece hpiece => ?_
      rw [tokenOf, String.toList_ofList, escapeChars_unescapeChars
        ((escaped_cons_iff.1 h).2.of_mem_pieces hpiece) (Text.not_mem_of_mem_pieces hpiece)]
    rw [join, tokens, hrest, tokensOfChars_slash, joinChars_eq_flatMap, List.flatMap_map, hpieces,
      ← hrest, String.ofList_toList]

theorem tokens_child (path token : String) :
    tokens (child path token) = tokens path ++ [token] := by
  rw [tokens, toList_child, tokensOfChars_append_slash _ (slash_not_mem_escapeChars _),
    tokenOf_escapeChars, tokens]

/-- Lists of tokens correspond to the pointers that begin at the root and have no tildes but those
of escapes. One more token is one more at the end of the list, and leads back to its parent. -/
theorem tokens_correspond :
    (∀ way, Rooted (join way) ∧ Escaped (join way).toList ∧ tokens (join way) = way)
      ∧ (∀ path, Rooted path → Escaped path.toList → join (tokens path) = path)
      ∧ ∀ path token, tokens (child path token) = tokens path ++ [token]
        ∧ parent? (child path token) = some path := by
  refine ⟨fun way => ⟨rooted_join way, ?_, tokens_join way⟩, fun path => join_tokens,
    fun path token => ⟨tokens_child path token, parent?_child path token⟩⟩
  rw [join, String.toList_ofList]
  exact escaped_joinChars way

/-- Escapes side by side, a tilde in front of a digit, and an empty token. -/
theorem tokens_correspond_adjacent :
    Rooted "/~01//~0~1/~1~00" ∧ Escaped "/~01//~0~1/~1~00".toList
      ∧ tokens "/~01//~0~1/~1~00" = ["~1", "", "~/", "/~0"]
      ∧ join (tokens "/~01//~0~1/~1~00") = "/~01//~0~1/~1~00" := by
  have hpath : Rooted "/~01//~0~1/~1~00" := .inr ⟨_, rfl⟩
  have hjoin : join ["~1", "", "~/", "/~0"] = "/~01//~0~1/~1~00" := by decide +kernel
  have hescaped : Escaped "/~01//~0~1/~1~00".toList :=
    hjoin ▸ (tokens_correspond.1 ["~1", "", "~/", "/~0"]).2.1
  exact ⟨hpath, hescaped, by decide +kernel, tokens_correspond.2.1 _ hpath hescaped⟩

end Pointer

end HyperSchema
