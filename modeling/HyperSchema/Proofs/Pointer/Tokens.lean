import HyperSchema.Proofs.Pointer.Escape
import HyperSchema.Proofs.SchemaUri
import HyperSchema.Proofs.Text.Cut

/-!
# Going further down

A pointer with tokens written behind it has these tokens behind its own. So the URI of a place
further down names the same document, with a longer way. Putting such a URI in its canonical form
can at most take a hash sign from the last token, whatever URI the tokens stand behind.
-/

namespace HyperSchema

namespace Pointer

variable {token : String} {tokens' : List String} {cs ds : List Char}

def tokenOf (piece : List Char) : String := String.ofList (unescapeChars piece)

theorem tokenOf_escapeChars (token : String) : tokenOf (escapeChars token.toList) = token := by
  rw [tokenOf, unescapeChars_escapeChars, String.ofList_toList]

theorem tokensOfChars_slash (cs : List Char) :
    tokensOfChars ('/' :: cs) = (Text.pieces '/' cs).map tokenOf := rfl

theorem tokensOfChars_cons {c : Char} (hc : c ≠ '/') (cs : List Char) :
    tokensOfChars (c :: cs) = (Text.pieces '/' (c :: cs)).map tokenOf := by
  rw [tokensOfChars]
  · rfl
  · exact List.cons_ne_nil _ _
  · exact fun rest h => hc (List.cons.inj h).1

theorem tokensOfChars_append_slash (cs : List Char) {piece : List Char} (h : '/' ∉ piece) :
    tokensOfChars (cs ++ '/' :: piece) = tokensOfChars cs ++ [tokenOf piece] := by
  cases cs with
  | nil =>
      rw [List.nil_append, tokensOfChars_slash, Text.pieces_of_not_mem h]
      rfl
  | cons c rest =>
      rw [List.cons_append]
      by_cases hc : c = '/'
      · rw [hc, tokensOfChars_slash, tokensOfChars_slash, Text.pieces_append_cons,
          Text.pieces_of_not_mem h, List.map_append]
        rfl
      · rw [tokensOfChars_cons hc, tokensOfChars_cons hc, ← List.cons_append,
          Text.pieces_append_cons, Text.pieces_of_not_mem h, List.map_append]
        rfl

theorem tokensOfChars_append_joinChars (cs : List Char) (tokens : List String) :
    tokensOfChars (cs ++ joinChars tokens) = tokensOfChars cs ++ tokens := by
  induction tokens generalizing cs with
  | nil => rw [joinChars, List.append_nil, List.append_nil]
  | cons token rest ih =>
      rw [joinChars, ← List.append_assoc, ih, tokensOfChars_append_slash _
        (slash_not_mem_escapeChars _), tokenOf_escapeChars, List.append_assoc,
        List.singleton_append]

theorem tokens_append_join (pointer : String) (way : List String) :
    tokens (pointer ++ join way) = tokens pointer ++ way := by
  rw [tokens, String.toList_append, join, String.toList_ofList, tokensOfChars_append_joinChars]
  rfl

theorem tokens_join (way : List String) : tokens (join way) = way := by
  have htokens := tokens_append_join "" way
  rw [String.empty_append] at htokens
  exact htokens

theorem escapeChars_append (cs ds : List Char) :
    escapeChars (cs ++ ds) = escapeChars cs ++ escapeChars ds := by
  induction cs with
  | nil => rfl
  | cons c rest ih =>
      simp only [List.cons_append, escapeChars]
      split
      · rw [ih]
        rfl
      · split
        · rw [ih]
          rfl
        · rw [ih]
          rfl

theorem joinChars_append (front back : List String) :
    joinChars (front ++ back) = joinChars front ++ joinChars back := by
  induction front with
  | nil => rfl
  | cons token rest ih =>
      rw [List.cons_append, joinChars, ih, joinChars, List.append_assoc]

/-- A hash sign is at the end of an escaped token only if it is at the end of the token. -/
theorem eq_concat_of_escapeChars_eq_concat (h : escapeChars cs = ds ++ ['#']) :
    ∃ front, cs = front ++ ['#'] := by
  rcases List.eq_nil_or_concat' cs with rfl | ⟨front, last, rfl⟩
  · rw [escapeChars] at h
    exact absurd h.symm (by simp)
  · rw [escapeChars_append, escapeChars] at h
    refine ⟨front, ?_⟩
    split at h
    · have hlast := congrArg List.getLast? h
      simp [escapeChars] at hlast
    · split at h
      · have hlast := congrArg List.getLast? h
        simp [escapeChars] at hlast
      · have hlast := congrArg List.getLast? h
        simp only [escapeChars, List.getLast?_append, List.getLast?_singleton, Option.some_or,
          Option.some.injEq] at hlast
        rw [hlast]

end Pointer

namespace SchemaUri

variable {uri : String} {way : List String}

theorem toList_child (uri : String) (way : List String) :
    (child uri way).toList
      = uri.toList ++ (if uri.toList.contains '#' then [] else ['#']) ++ Pointer.joinChars way := by
  rw [child]
  split
  · rw [String.toList_append, Pointer.join, String.toList_ofList, List.append_nil]
  · rw [String.toList_append, String.toList_append, Pointer.join, String.toList_ofList]
    simp

theorem hash_mem_child (uri : String) (way : List String) : '#' ∈ (child uri way).toList := by
  rw [toList_child, List.mem_append, List.mem_append]
  split
  · next h => exact .inl (.inl (List.contains_iff_mem.1 h))
  · exact .inl (.inr (List.mem_singleton_self _))

theorem split_child (uri : String) (way : List String) :
    split (child uri way) = (base uri, (split uri).2 ++ Pointer.join way) := by
  rw [split, toList_child]
  cases hcut : Text.cutFirst? '#' uri.toList with
  | none =>
      have hhash := Text.cutFirst?_eq_none_iff.1 hcut
      rw [if_neg (by rwa [List.contains_iff_mem]), List.append_assoc, List.singleton_append,
        Text.cutFirst?_append hhash, base, split, hcut]
      dsimp only
      rw [String.ofList_toList, String.empty_append]
      rfl
  | some parts =>
      obtain ⟨before, behind⟩ := parts
      obtain ⟨hsplit, hbefore⟩ := Text.cutFirst?_eq_some hcut
      have hmem : '#' ∈ uri.toList := by
        rw [hsplit]
        exact List.mem_append_right _ List.mem_cons_self
      rw [if_pos (List.contains_iff_mem.2 hmem), List.append_nil, hsplit, List.append_assoc,
        List.cons_append, Text.cutFirst?_append hbefore, base, split, hsplit,
        Text.cutFirst?_append hbefore]
      dsimp only
      rw [String.ofList_append]
      rfl

theorem tokens_split_child (uri : String) (way : List String) :
    Pointer.tokens (split (child uri way)).2 = Pointer.tokens (split uri).2 ++ way := by
  rw [split_child, Pointer.tokens_append_join]

theorem normalize_of_concat {front : List Char} (h : uri.toList = front ++ ['#']) :
    normalize uri = String.ofList front := by
  rw [normalize, Text.before?_eq_some_iff.2 h]

theorem normalize_of_not_concat (h : ∀ front, uri.toList ≠ front ++ ['#']) :
    normalize uri = uri := by
  rcases normalize_cases uri with ⟨heq, -⟩ | hend
  · exact heq
  · exact absurd hend (h _)

/-- The canonical form can take a hash sign from the last token, whatever stands before. -/
theorem exists_normalize_child (hway : way ≠ []) :
    ∃ way', way' ≠ [] ∧ ∀ uri, normalize (child uri way) = child uri way' := by
  rcases List.eq_nil_or_concat' way with rfl | ⟨front, last, rfl⟩
  · exact absurd rfl hway
  have hend : ∀ (last : String) (uri : String), (child uri (front ++ [last])).toList
      = (uri.toList ++ (if uri.toList.contains '#' then [] else ['#'])
        ++ Pointer.joinChars front) ++ '/' :: Pointer.escapeChars last.toList := by
    intro last uri
    rw [toList_child, Pointer.joinChars_append, Pointer.joinChars, Pointer.joinChars,
      List.append_nil]
    simp only [List.append_assoc]
  by_cases hhash : ∃ cs, last.toList = cs ++ ['#']
  · obtain ⟨cs, hlast⟩ := hhash
    refine ⟨front ++ [String.ofList cs], by simp, fun uri => ?_⟩
    have hchars : (child uri (front ++ [last])).toList
        = (child uri (front ++ [String.ofList cs])).toList ++ ['#'] := by
      rw [hend, hend, hlast, Pointer.escapeChars_append, String.toList_ofList]
      simp [Pointer.escapeChars]
    rw [normalize_of_concat hchars, String.ofList_toList]
  · refine ⟨front ++ [last], by simp, fun uri => normalize_of_not_concat fun cs hcs => ?_⟩
    rw [hend] at hcs
    rcases List.eq_nil_or_concat' (Pointer.escapeChars last.toList) with hnil | ⟨ds, c, hds⟩
    · have hchar := congrArg List.getLast? hcs
      rw [hnil, List.getLast?_concat, List.getLast?_concat] at hchar
      exact absurd hchar (by decide)
    · have hchar := congrArg List.getLast? hcs
      rw [hds, ← List.cons_append, ← List.append_assoc, List.getLast?_concat,
        List.getLast?_concat] at hchar
      obtain rfl := Option.some.inj hchar
      exact hhash (Pointer.eq_concat_of_escapeChars_eq_concat hds)

end SchemaUri

end HyperSchema
