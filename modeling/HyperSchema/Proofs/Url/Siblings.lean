import HyperSchema.Proofs.Text.Cut
import HyperSchema.Proofs.Text.Utf8
import HyperSchema.Proofs.Url.Joining

/-!
# References to siblings

A reference that is a name with a fragment, read against a web URL, takes the name in the place of
the last segment of the path. The fragment is escaped on the way: it loses the blanks at its end and
all tabs and line breaks, and every other character that a fragment may not hold is written in
escapes. So the fragment of the URL that comes out holds plain characters only.
-/

namespace HyperSchema

namespace Url

variable {u : Url} {kind : SchemeKind} {scheme text : String} {special : Bool} {c : Char}
  {cs dir name segment fragment input path rest : List Char}

/-! ### Web URLs have an authority -/

theorem scheme_readAfterSlashes? (h : readAfterSlashes? scheme input = some u) :
    u.scheme = scheme ∧ u.authority.isSome := by
  rw [readAfterSlashes?] at h
  obtain ⟨⟨a, behind⟩, -, h⟩ := Option.bind_eq_some_iff.1 h
  obtain rfl := Option.some.inj h
  exact ⟨rfl, rfl⟩

theorem scheme_readPlain? (h : readPlain? scheme input = some u) : u.scheme = scheme := by
  unfold readPlain? at h
  split at h
  · exact (scheme_readAfterSlashes? h).1
  · obtain rfl := Option.some.inj h
    rfl
  · obtain rfl := Option.some.inj h
    rfl

theorem scheme_readFileHost? (h : readFileHost? input = some u) : u.scheme = "file" := by
  unfold readFileHost? at h
  dsimp only at h
  split at h
  · obtain rfl := Option.some.inj h
    rfl
  · split at h
    · obtain rfl := Option.some.inj h
      rfl
    · obtain ⟨host, -, h⟩ := Option.bind_eq_some_iff.1 h
      obtain rfl := Option.some.inj h
      rfl

theorem scheme_readFile? (h : readFile? none input = some u) : u.scheme = "file" := by
  unfold readFile? at h
  split at h
  · split at h
    · split at h
      · split at h
        · exact scheme_readFileHost? h
        · obtain rfl := Option.some.inj h
          rfl
      · obtain rfl := Option.some.inj h
        rfl
    · obtain rfl := Option.some.inj h
      rfl
  · obtain rfl := Option.some.inj h
    rfl

theorem isSome_authority_of_parse? (h : parse? text = some u) (hkind : u.kind = .special) :
    u.authority.isSome := by
  unfold parse? readWith? at h
  dsimp only at h
  split at h
  · next scheme rest _ =>
    unfold readWithScheme? at h
    split at h
    · rw [kind, scheme_readFile? h] at hkind
      cases hkind
    · exact (scheme_readAfterSlashes? h).2
    · next hplain =>
      rw [kind, scheme_readPlain? h, hplain] at hkind
      cases hkind
  · cases h

/-! ### Names -/

structure IsName (name : List Char) : Prop where
  nonempty : name ≠ []
  letters : ∀ c ∈ name, c.isAlpha = true

theorem ne_of_isAlpha {d : Char} (hc : c.isAlpha = true) (hd : d.isAlpha = false) : c ≠ d := by
  rintro rfl
  rw [hc] at hd
  cases hd

theorem toNat_of_isAlpha (h : c.isAlpha = true) : 65 ≤ c.toNat ∧ c.toNat ≤ 122 := by
  delta Char.isAlpha Char.isUpper Char.isLower at h
  simp only [Bool.or_eq_true, Bool.and_eq_true, decide_eq_true_eq, UInt32.le_iff_toNat_le,
    ge_iff_le] at h
  change (65 ≤ c.toNat ∧ c.toNat ≤ 90) ∨ (97 ≤ c.toNat ∧ c.toNat ≤ 122) at h
  omega

theorem le_toNat_toLower (h : 65 ≤ c.toNat) : 65 ≤ c.toLower.toNat := by
  rcases toLower_cases c with hsame | ⟨-, -, hmoved⟩
  · rwa [hsame]
  · omega

theorem pathEscapes_of_isAlpha (h : c.isAlpha = true) : pathEscapes c = false := by
  obtain ⟨hlow, hhigh⟩ := toNat_of_isAlpha h
  have hne := fun d hd => ne_of_isAlpha (d := d) h hd
  have hcontrol : isControl c = false := by
    rw [isControl, Bool.or_eq_false_iff, decide_eq_false_iff_not, decide_eq_false_iff_not]
    omega
  simp [pathEscapes, fragmentEscapes, hcontrol, hne]

theorem encode_eq_self {escapes : Char → Bool} (h : ∀ c ∈ cs, escapes c = false) :
    encode escapes cs = cs := by
  induction cs with
  | nil => rfl
  | cons c rest ih =>
      rw [List.forall_mem_cons] at h
      rw [encode, List.flatMap_cons, h.1, ← encode, ih h.2]
      rfl

section

variable (h : IsName name)

include h

theorem IsName.nextSegment (special : Bool) (fragment : List Char) :
    nextSegment special (name ++ '#' :: fragment) = (name, false, '#' :: fragment) := by
  have hletters := h.letters
  clear h
  induction name with
  | nil =>
      rw [List.nil_append, Url.nextSegment]
      simp
  | cons c rest ih =>
      rw [List.forall_mem_cons] at hletters
      have hne := fun d hd => ne_of_isAlpha (d := d) hletters.1 hd
      rw [List.cons_append, Url.nextSegment, ih hletters.2]
      simp [hne]

theorem IsName.addSegment (hkind : kind ≠ .file) (path : List Char) :
    addSegment kind path name false = path ++ name := by
  obtain ⟨c, rest, rfl⟩ := List.exists_cons_of_ne_nil h.nonempty
  have hlow := le_toNat_toLower (toNat_of_isAlpha (h.letters c List.mem_cons_self)).1
  have hlower : ∀ d : Char, d.toNat < 65 → c.toLower ≠ d := by
    rintro d hd rfl
    omega
  have hsingle : isSingleDot (c :: rest) = false := by
    have hc := ne_of_isAlpha (d := '.') (h.letters c List.mem_cons_self) (by decide)
    simp [isSingleDot, hc, hlower]
  have hdouble : isDoubleDot (c :: rest) = false := by
    simp [isDoubleDot, hlower]
  rw [Url.addSegment, hdouble, hsingle]
  simp [hkind]

theorem IsName.readPath (hkind : kind ≠ .file) (path fragment : List Char) :
    readPath kind path (name ++ '#' :: fragment) = (path ++ name, '#' :: fragment) := by
  have hencode : encode pathEscapes name = name :=
    encode_eq_self fun c hc => pathEscapes_of_isAlpha (h.letters c hc)
  rw [Url.readPath, addSegments, h.nextSegment]
  dsimp only
  rw [hencode, h.addSegment hkind, if_neg Bool.false_ne_true, if_neg hkind]

theorem IsName.scheme? (fragment : List Char) : scheme? (name ++ '#' :: fragment) = none := by
  have htake : (name ++ '#' :: fragment).takeWhile
      (fun c => c.isAlphanum || c == '+' || c == '-' || c == '.') = name := by
    rw [List.takeWhile_append_of_pos, List.takeWhile_cons_of_neg, List.append_nil]
    · decide
    · intro c hc
      simp [Char.isAlphanum, h.letters c hc]
  obtain ⟨c, rest, rfl⟩ := List.exists_cons_of_ne_nil h.nonempty
  have hc := h.letters c List.mem_cons_self
  rw [List.cons_append, Url.scheme?, hc]
  rw [List.cons_append] at htake
  simp [htake]

end

theorem pop_slash (hkind : kind ≠ .file) (hsegment : '/' ∉ segment) (dir : List Char) :
    pop kind (dir ++ '/' :: segment) = dir ++ ['/'] := by
  rw [pop, decide_eq_false hkind]
  have hback : (dir ++ '/' :: segment).reverse = segment.reverse ++ '/' :: dir.reverse := by
    simp
  have hdrop : (dir ++ '/' :: segment).reverse.dropWhile (· != '/') = '/' :: dir.reverse := by
    rw [hback, List.dropWhile_append_of_pos, List.dropWhile_cons_of_neg]
    · simp
    · intro c hc
      have hne : c ≠ '/' := fun heq => hsegment (heq ▸ List.mem_reverse.1 hc)
      simpa using hne
  rw [hdrop]
  simp

/-- The URL of a document with a name of its own, in a directory of a URL. -/
def sibling (u : Url) (dir name : List Char) : Url :=
  { u with path := dir ++ '/' :: name, query := none, fragment := none }

/-- A name with a fragment is joined to a web URL in the place of the last segment. -/
theorem join?_name {reference : String} (hparse : parse? text = some u) (hkind : u.kind = .special)
    (hpath : u.path = dir ++ '/' :: segment) (hsegment : '/' ∉ segment) (hname : IsName name)
    (hreference : significantChars reference = name ++ '#' :: fragment) :
    join? u reference
      = some { u.sibling dir name with fragment := some (encode fragmentEscapes fragment) } := by
  have hfile : u.kind ≠ .file := by
    rw [hkind]
    exact SchemeKind.noConfusion
  have hhierarchical : u.isHierarchical = true := by
    rw [isHierarchical, isSome_authority_of_parse? hparse hkind, Bool.true_or]
  obtain ⟨c, rest, rfl⟩ := List.exists_cons_of_ne_nil hname.nonempty
  have hne := fun d hd => ne_of_isAlpha (d := d) (hname.letters c List.mem_cons_self) hd
  have hread : readRelative? u (c :: rest ++ '#' :: fragment) = some
      { u.sibling dir (c :: rest) with fragment := some (encode fragmentEscapes fragment) } := by
    rw [List.cons_append, readRelative?]
    have hslash : isSlash c = false := by simp [isSlash, hne]
    rw [if_neg (hne '?' (by decide)), if_neg (hne '#' (by decide)), hslash, hpath,
      pop_slash hfile hsegment, if_neg Bool.false_ne_true]
    have hsome : (dir ++ ['/']).isEmpty = false := by simp
    dsimp only
    rw [hsome, if_neg Bool.false_ne_true, ← List.cons_append, hname.readPath hfile,
      List.append_assoc]
    rfl
  rw [join?, readWith?, hreference, hname.scheme?]
  dsimp only
  split
  · next heq =>
    exact absurd (List.cons.inj heq).1 (hne '#' (by decide))
  · rw [hhierarchical, if_neg hfile]
    exact hread

theorem hash_not_mem_sibling (hparse : parse? text = some u)
    (hpath : u.path = dir ++ '/' :: segment) (hname : IsName name) :
    '#' ∉ (u.sibling dir name).text.toList := by
  have hreads : Reads (significantChars text) u := reads_with (fun _ hnone => by cases hnone) hparse
  have hdir := hreads.path
  rw [hpath, List.mem_append, not_or] at hdir
  have hletters : '#' ∉ name := fun hmem => absurd (hname.letters '#' hmem) (by decide)
  rw [Url.text, String.toList_ofList, chars, sibling]
  simp only [List.mem_append, List.mem_cons, not_or]
  refine ⟨⟨⟨⟨⟨hreads.scheme, by decide⟩, ?_⟩, hdir.1, by decide, hletters⟩, List.not_mem_nil⟩,
    List.not_mem_nil⟩
  cases ha : u.authority with
  | some a => simp [hreads.authority a ha]
  | none =>
      dsimp only
      split <;> decide

theorem text_of_fragment (v : Url) (fragment : List Char) (h : v.fragment = none) :
    Url.text { v with fragment := some fragment } = v.text ++ ("#" ++ String.ofList fragment) := by
  apply String.toList_injective
  have hfragment : (String.ofList fragment).toList = fragment := String.toList_ofList
  rw [String.toList_append, String.toList_append, Url.text, Url.text, String.toList_ofList,
    String.toList_ofList, hfragment, chars, chars, h, List.append_nil]
  rfl

/-! ### Fragments -/

def significantEnd (cs : List Char) : List Char :=
  (Text.trimEnd (fun c => c.toNat ≤ 32) cs).filter (fun c => c != '\t' && c != '\n' && c != '\r')

theorem significantEnd_subset (cs : List Char) : significantEnd cs ⊆ cs :=
  (List.filter_sublist.trans (Text.trimEnd_sublist _ cs)).subset

theorem filter_visible (h : ∀ c ∈ cs, 32 < c.toNat) :
    cs.filter (fun c => c != '\t' && c != '\n' && c != '\r') = cs := by
  rw [List.filter_eq_self]
  intro c hc
  have hne : ∀ d : Char, d.toNat ≤ 32 → c ≠ d := by
    rintro d hd rfl
    exact absurd (h c hc) (by omega)
  simp [hne]

theorem significantChars_append {front : List Char} (hne : front ≠ [])
    (h : ∀ c ∈ front, 32 < c.toNat) (htext : text.toList = front ++ cs) :
    significantChars text = front ++ significantEnd cs := by
  have hdrop : ∀ c ∈ front, decide (c.toNat ≤ 32) = false := fun c hc =>
    decide_eq_false (Nat.not_le.2 (h c hc))
  have htrim : Text.trim (fun c => c.toNat ≤ 32) (front ++ cs)
      = front ++ Text.trimEnd (fun c => c.toNat ≤ 32) cs := by
    obtain ⟨c, rest, rfl⟩ := List.exists_cons_of_ne_nil hne
    rw [List.cons_append, Text.trim_cons_of_kept (hdrop c List.mem_cons_self), ← List.cons_append,
      Text.trimEnd_append hdrop]
  rw [significantChars, htext, htrim, List.filter_append, filter_visible h, significantEnd]

def Unescaped (cs : List Char) : Prop := ∀ c ∈ cs, fragmentEscapes c = false

instance (cs : List Char) : Decidable (Unescaped cs) :=
  decidable_of_iff (cs.all (fun c => !fragmentEscapes c)) (by simp [Unescaped])

theorem lt_toNat_of_fragmentEscapes (h : fragmentEscapes c = false) : 32 < c.toNat := by
  rw [fragmentEscapes, Bool.or_eq_false_iff, isControl, Bool.or_eq_false_iff,
    decide_eq_false_iff_not, decide_eq_false_iff_not] at h
  obtain ⟨⟨hlow, -⟩, hlisted⟩ := h
  have hspace : c.toNat ≠ 32 := by
    intro heq
    have hc : c = ' ' := Char.toNat_inj.1 heq
    rw [hc] at hlisted
    exact absurd hlisted (by decide)
  omega

theorem Unescaped.significantEnd (h : Unescaped cs) : significantEnd cs = cs := by
  have hvisible : ∀ c ∈ cs, 32 < c.toNat := fun c hc => lt_toNat_of_fragmentEscapes (h c hc)
  have htrim : Text.trimEnd (fun c => c.toNat ≤ 32) cs = cs :=
    Text.trimEnd_of_forall fun c hc => decide_eq_false (Nat.not_le.2 (hvisible c hc))
  rw [Url.significantEnd, htrim, filter_visible hvisible]

theorem mem_escapeChar {d : Char} (h : c ∈ Text.escapeChar d) :
    c = '%' ∨ ∃ n < 16, c = Text.upperHex n := by
  obtain ⟨b, hb, hc⟩ := List.mem_flatMap.1 h
  have hlt := Text.lt_of_mem_utf8 hb
  rw [Text.escapeByte, List.mem_cons, List.mem_cons, List.mem_singleton] at hc
  rcases hc with rfl | rfl | rfl
  · exact .inl rfl
  · exact .inr ⟨b / 16, by omega, rfl⟩
  · exact .inr ⟨b % 16, by omega, rfl⟩

theorem mem_encode {escapes : Char → Bool} (h : c ∈ encode escapes cs) :
    c ∈ cs ∧ escapes c = false ∨ c = '%' ∨ ∃ n < 16, c = Text.upperHex n := by
  obtain ⟨d, hd, hc⟩ := List.mem_flatMap.1 h
  split at hc
  · exact .inr (mem_escapeChar hc)
  · next hplain =>
    obtain rfl := List.mem_singleton.1 hc
    exact .inl ⟨hd, Bool.eq_false_iff.2 hplain⟩

theorem unescaped_encode (cs : List Char) : Unescaped (encode fragmentEscapes cs) := by
  intro c hc
  rcases mem_encode hc with ⟨-, hplain⟩ | rfl | ⟨n, hn, rfl⟩
  · exact hplain
  · decide
  · exact (by decide : ∀ n < 16, fragmentEscapes (Text.upperHex n) = false) n hn

theorem slash_not_mem_encode {escapes : Char → Bool} (h : '/' ∉ cs) : '/' ∉ encode escapes cs := by
  intro hmem
  rcases mem_encode hmem with ⟨hslash, -⟩ | hpercent | ⟨n, hn, hdigit⟩
  · exact h hslash
  · exact absurd hpercent (by decide)
  · exact (by decide : ∀ n < 16, '/' ≠ Text.upperHex n) n hn hdigit

end Url

namespace SchemaUri

open Url (IsName)

/-- A reference to a sibling leads to the URL of the sibling, with the fragment escaped. -/
theorem resolve_sibling {u : Url} {text reference : String}
    {dir segment name cs fragment : List Char} (hparse : Url.parse? text = some u)
    (hkind : u.kind = .special) (hpath : u.path = dir ++ '/' :: segment)
    (hsegment : '/' ∉ segment) (hname : IsName name) (hreference : reference.toList = name ++ cs)
    (hsignificant : Url.significantChars reference = name ++ '#' :: fragment) :
    resolve text reference = normalize
      ((u.sibling dir name).text
        ++ ("#" ++ String.ofList (Url.encode Url.fragmentEscapes fragment))) := by
  obtain ⟨c, rest, rfl⟩ := List.exists_cons_of_ne_nil hname.nonempty
  have hrelative : (Url.parse? reference).isSome = false := by
    rw [Url.parse?, Url.readWith?, hsignificant, hname.scheme?]
    rfl
  rw [List.cons_append] at hreference
  have hhash : c ≠ '#' := Url.ne_of_isAlpha (hname.letters c List.mem_cons_self) (by decide)
  rw [resolve, hreference]
  split
  · next hnil => cases hnil
  · next heq => exact absurd (List.cons.inj heq).1 hhash
  · rw [hrelative, if_neg Bool.false_ne_true, hparse]
    dsimp only
    rw [Url.join?_name hparse hkind hpath hsegment hname hsignificant]
    dsimp only
    rw [Url.text_of_fragment _ _ rfl]

end SchemaUri

end HyperSchema
