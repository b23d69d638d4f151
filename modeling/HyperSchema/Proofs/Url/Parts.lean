import HyperSchema.Proofs.Url.Hosts
import HyperSchema.Url.Parser

/-!
# No hash signs in the parts of a URL

A URL is read from the front, part by part, and what is left is always an end of the input. Paths
and authorities are read up to a delimiter and escape the hash signs they are given, so they hold
none.
-/

namespace HyperSchema

namespace Url

variable {kind : SchemeKind} {path segment input rest : List Char} {slash special : Bool}
  {scheme : String}

/-! ### Paths -/

theorem pop_subset (kind : SchemeKind) (path : List Char) : pop kind path ⊆ path := by
  rw [pop]
  split
  · exact List.Subset.refl _
  · intro c hc
    rw [List.mem_reverse] at hc
    exact List.mem_reverse.1 ((List.dropWhile_suffix _).subset hc)

theorem shorten_subset (kind : SchemeKind) (path : List Char) : shorten kind path ⊆ path := by
  rw [shorten]
  split
  · exact List.Subset.refl _
  · exact pop_subset kind path

theorem dropLastSlash_subset (path : List Char) : dropLastSlash path ⊆ path := by
  rw [dropLastSlash]
  split
  · dsimp only
    split
    · exact List.dropLast_subset path
    · exact List.Subset.refl _
  · exact List.Subset.refl _

theorem hash_not_mem_addSegment (hpath : '#' ∉ path) (hsegment : '#' ∉ segment) :
    '#' ∉ addSegment kind path segment slash := by
  rw [addSegment]
  split
  · have hshort : '#' ∉ shorten kind (dropLastSlash path) :=
      fun h => hpath (dropLastSlash_subset path (shorten_subset kind _ h))
    dsimp only
    split
    · simp [hshort]
    · exact hshort
  · split
    · split
      · exact hpath
      · simp [hpath]
    · dsimp only
      have hdrive : '#' ∉ segment.take 1 ++ [':'] := by
        rw [List.mem_append, not_or]
        exact ⟨fun h => hsegment (List.mem_of_mem_take h), by decide⟩
      split <;> split <;> simp_all

/-- A part without hash signs that was read off the front of the input, and the rest. -/
structure Part (input : List Char) (read : List Char × List Char) : Prop where
  unhashed : '#' ∉ read.1
  rest : read.2 <:+ input

theorem Part.of_suffix {read : List Char × List Char} (h : Part rest read)
    (hrest : rest <:+ input) : Part input read := ⟨h.unhashed, h.rest.trans hrest⟩

theorem nextSegment_suffix (special : Bool) (input : List Char) :
    (nextSegment special input).2.2 <:+ input := by
  induction input with
  | nil => exact List.suffix_refl _
  | cons c rest ih =>
      rw [nextSegment]
      split
      · exact List.suffix_cons _ _
      · split
        · exact List.suffix_refl _
        · exact ih.trans (List.suffix_cons _ _)

theorem part_addSegments (fuel : Nat) (hpath : '#' ∉ path) :
    Part input (addSegments kind fuel path input) := by
  induction fuel generalizing path input with
  | zero => exact ⟨hpath, List.suffix_refl _⟩
  | succ fuel ih =>
      have hnext : '#' ∉ addSegment kind path
          (encode pathEscapes (nextSegment kind.isSpecial input).1)
          (nextSegment kind.isSpecial input).2.1 :=
        hash_not_mem_addSegment hpath (hash_not_mem_encode (.inl rfl))
      have hrest := nextSegment_suffix kind.isSpecial input
      rw [addSegments]
      dsimp only
      split
      · exact (ih hnext).of_suffix hrest
      · exact ⟨hnext, hrest⟩

theorem part_readPath (hpath : '#' ∉ path) : Part input (readPath kind path input) := by
  have hpart : Part input (addSegments kind (input.length + 1) path input) :=
    part_addSegments (input.length + 1) hpath
  rw [readPath]
  refine ⟨?_, hpart.rest⟩
  dsimp only
  split
  · rw [List.mem_cons, not_or]
    exact ⟨by decide, fun h => hpart.unhashed ((List.dropWhile_suffix _).subset h)⟩
  · exact hpart.unhashed

theorem part_readPathStart (kind : SchemeKind) (input : List Char) :
    Part input (readPathStart kind input) := by
  have hslash : ∀ rest : List Char, Part rest (readPath kind ['/'] rest) :=
    fun rest => part_readPath (by decide)
  unfold readPathStart
  split
  · split
    · exact (hslash _).of_suffix (List.suffix_cons _ _)
    · exact (hslash _).of_suffix (List.suffix_cons _ _)
    · exact hslash _
  · split
    · exact ⟨List.not_mem_nil, List.suffix_refl _⟩
    · exact ⟨List.not_mem_nil, List.suffix_refl _⟩
    · exact ⟨List.not_mem_nil, List.suffix_refl _⟩
    · exact part_readPath List.not_mem_nil
    · exact hslash _

/-! ### Authorities -/

theorem hash_not_mem_credentialChars (cs : List Char) : '#' ∉ credentialChars cs := by
  have hencode : ∀ ds : List Char, '#' ∉ encode credentialEscapes ds :=
    fun ds => hash_not_mem_encode (.inl rfl)
  have hmarked : ∀ body : List Char, '#' ∉ body →
      '#' ∉ (if body.isEmpty then [] else body ++ ['@']) := by
    intro body hbody
    split
    · exact List.not_mem_nil
    · rw [List.mem_append, not_or]
      exact ⟨hbody, by decide⟩
  unfold credentialChars
  apply hmarked
  split
  · exact hencode cs
  · rw [List.mem_append, not_or]
    refine ⟨hencode _, ?_⟩
    split
    · exact List.not_mem_nil
    · simp [hencode]

theorem part_readCredentials {read : List Char × List Char}
    (h : readCredentials? special input = some read) : Part input read := by
  rw [readCredentials?] at h
  dsimp only at h
  split at h
  · obtain rfl := Option.some.inj h
    exact ⟨List.not_mem_nil, List.suffix_refl _⟩
  · next user _ =>
    have hdrop := List.drop_suffix (user.length + 1) input
    split at h
    · split at h
      · split at h
        · cases h
        · next hrest _ =>
          obtain rfl := Option.some.inj h
          exact ⟨List.not_mem_nil, hdrop⟩
      · obtain rfl := Option.some.inj h
        exact ⟨List.not_mem_nil, hdrop⟩
    · obtain rfl := Option.some.inj h
      exact ⟨hash_not_mem_credentialChars user, hdrop⟩

theorem readPort_suffix {port : Option Nat} (h : readPort? scheme input = some (port, rest)) :
    rest <:+ input := by
  unfold readPort? at h
  dsimp only at h
  rw [Option.ite_none_left_eq_some] at h
  obtain ⟨-, h⟩ := h
  split at h
  · obtain ⟨-, rfl⟩ := Prod.mk.inj (Option.some.inj h)
    exact List.drop_suffix _ _
  · obtain ⟨-, rfl⟩ := Prod.mk.inj (Option.some.inj h)
    exact List.drop_suffix _ _

theorem hash_not_mem_authority {credentials host : List Char} (port : Option Nat)
    (hcredentials : '#' ∉ credentials) (hhost : '#' ∉ host) :
    '#' ∉ (Authority.mk credentials host port).chars := by
  rw [Authority.chars]
  simp only [List.mem_append, not_or]
  refine ⟨⟨hcredentials, hhost⟩, ?_⟩
  split
  · rw [List.mem_cons, not_or]
    exact ⟨by decide, hash_not_mem_toDigits (by decide) _⟩
  · exact List.not_mem_nil

/-- What the port and the rest of the input add to credentials and host. -/
theorem authority_of_host {credentials host behind : List Char} {a : Authority}
    (hcredentials : '#' ∉ credentials) (hhost : '#' ∉ host)
    (h : (do
      if host.isEmpty && (behind.head? == some ':' || !credentials.isEmpty) then none
      let (port, rest) ← match behind with
        | ':' :: rest => readPort? scheme rest
        | rest => some (none, rest)
      some ((⟨credentials, host, port⟩ : Authority), rest)) = some (a, rest)) :
    '#' ∉ a.chars ∧ rest <:+ behind := by
  split at h
  · split at h
    · cases h
    · obtain ⟨⟨port, rest'⟩, hport, h⟩ := Option.bind_eq_some_iff.1 h
      obtain ⟨rfl, rfl⟩ := Prod.mk.inj (Option.some.inj h)
      exact ⟨hash_not_mem_authority port hcredentials hhost,
        (readPort_suffix hport).trans (List.suffix_cons _ _)⟩
  · split at h
    · cases h
    · obtain ⟨rfl, rfl⟩ := Prod.mk.inj (Option.some.inj h)
      exact ⟨hash_not_mem_authority none hcredentials hhost, List.suffix_refl _⟩

theorem readAuthority_spec {a : Authority} (h : readAuthority? scheme input = some (a, rest)) :
    '#' ∉ a.chars ∧ rest <:+ input := by
  unfold readAuthority? at h
  obtain ⟨⟨credentials, behind⟩, hcredentials, h⟩ := Option.bind_eq_some_iff.1 h
  have hpart := part_readCredentials hcredentials
  have hdrop := List.drop_suffix (hostLength (schemeKind scheme).isSpecial false behind) behind
  have hrest := hdrop.trans hpart.rest
  dsimp only at h
  split at h
  · cases h
  · split at h
    · obtain ⟨host, hhost, h⟩ := Option.bind_eq_some_iff.1 h
      have hauthority := authority_of_host hpart.unhashed (hash_not_mem_specialHost hhost) h
      exact ⟨hauthority.1, hauthority.2.trans hrest⟩
    · obtain ⟨host, hhost, h⟩ := Option.bind_eq_some_iff.1 h
      have hauthority := authority_of_host hpart.unhashed (hash_not_mem_opaqueHost hhost) h
      exact ⟨hauthority.1, hauthority.2.trans hrest⟩

end Url

end HyperSchema
