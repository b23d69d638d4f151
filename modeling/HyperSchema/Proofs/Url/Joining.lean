import HyperSchema.Proofs.SchemaUri
import HyperSchema.Proofs.Url.Parts

/-!
# Joining adds no hash signs

Only the fragment of a URL begins at a hash sign. It is the end of the input, so it holds another
one only if the input does. The other parts come from the input before the first hash sign, or from
a base that was read the same way. So resolving a reference with one hash sign at most gives a URI
with one at most.
-/

namespace HyperSchema

namespace Url

variable {path input rest : List Char} {scheme : String} {u base : Url}

/-- A URL whose parts other than the fragment hold no hash sign, and whose fragment holds one only
if the input has several. -/
structure Reads (input : List Char) (u : Url) : Prop where
  scheme : '#' ∉ u.scheme.toList
  authority : ∀ a, u.authority = some a → '#' ∉ a.chars
  path : '#' ∉ u.path
  query : ∀ q, u.query = some q → '#' ∉ q
  fragment : input.count '#' ≤ 1 → ∀ f, u.fragment = some f → '#' ∉ f

theorem Reads.of_suffix (h : Reads rest u) (hrest : rest <:+ input) : Reads input u where
  scheme := h.scheme
  authority := h.authority
  path := h.path
  query := h.query
  fragment := fun hcount => h.fragment (Nat.le_trans (hrest.sublist.count_le '#') hcount)

theorem hash_not_mem_fragment {fragment : List Char} (hcount : ('#' :: fragment).count '#' ≤ 1) :
    '#' ∉ encode fragmentEscapes fragment := by
  rw [List.count_cons_self] at hcount
  exact hash_not_mem_encode (.inr (List.count_eq_zero.1 (by omega)))

theorem drop_length_takeWhile (p : Char → Bool) (cs : List Char) :
    cs.drop (cs.takeWhile p).length = cs.dropWhile p := by
  induction cs with
  | nil => rfl
  | cons c rest ih =>
      by_cases hc : p c <;> simp [hc, ih]

/-- What stops at the first hash sign leaves it at the front of the rest. -/
theorem dropWhile_eq_hash_cons {c : Char} {fragment : List Char}
    (h : input.dropWhile (· != '#') = c :: fragment) : c = '#' := by
  have hhead := List.head?_dropWhile_not (· != '#') input
  rw [h] at hhead
  simpa using hhead

theorem readEnd_spec (special : Bool) (input : List Char) :
    (∀ q, (readEnd special input).1 = some q → '#' ∉ q)
      ∧ (input.count '#' ≤ 1 → ∀ f, (readEnd special input).2 = some f → '#' ∉ f) := by
  unfold readEnd
  split
  · next rest =>
    refine ⟨fun q hq => ?_, fun hcount f hf => ?_⟩
    · rw [← Option.some.inj hq]
      exact hash_not_mem_encode (.inl (by cases special <;> decide))
    · dsimp only at hf
      rw [drop_length_takeWhile] at hf
      split at hf
      · next c fragment hbehind =>
        obtain rfl := dropWhile_eq_hash_cons hbehind
        rw [← Option.some.inj hf]
        have hsuffix : '#' :: fragment <:+ '?' :: rest := by
          rw [← hbehind]
          exact (List.dropWhile_suffix _).trans (List.suffix_cons _ _)
        exact hash_not_mem_fragment (Nat.le_trans (hsuffix.sublist.count_le '#') hcount)
      · cases hf
  · next fragment =>
    refine ⟨fun q hq => (nomatch hq), fun hcount f hf => ?_⟩
    rw [← Option.some.inj hf]
    exact hash_not_mem_fragment hcount
  · exact ⟨fun q hq => (nomatch hq), fun _ f hf => (nomatch hf)⟩

theorem reads_withEnd (hscheme : '#' ∉ u.scheme.toList)
    (hauthority : ∀ a, u.authority = some a → '#' ∉ a.chars) (hpath : '#' ∉ u.path)
    (input : List Char) : Reads input (withEnd u input) :=
  ⟨hscheme, hauthority, hpath, (readEnd_spec _ input).1, (readEnd_spec _ input).2⟩

/-- A path that is read behind a part of it, and then the end. -/
theorem reads_path (u : Url) (kind : SchemeKind) (hscheme : '#' ∉ u.scheme.toList)
    (hauthority : ∀ a, u.authority = some a → '#' ∉ a.chars) (hpath : '#' ∉ path)
    (input : List Char) :
    Reads input (withEnd { u with path := (readPath kind path input).1 }
      (readPath kind path input).2) := by
  have hpart : Part input (readPath kind path input) := part_readPath hpath
  refine Reads.of_suffix (reads_withEnd ?_ ?_ ?_ _) hpart.rest
  · exact hscheme
  · exact hauthority
  · exact hpart.unhashed

theorem Reads.fragmentOnly {fragment : List Char} (h : Reads rest base) :
    Reads ('#' :: fragment) (fragmentOnly base fragment) where
  scheme := h.scheme
  authority := h.authority
  path := h.path
  query := h.query
  fragment := fun hcount f hf => by
    rw [← Option.some.inj hf]
    exact hash_not_mem_fragment hcount

theorem Reads.withoutFragment (h : Reads rest base) (input : List Char) :
    Reads input { base with fragment := none } :=
  ⟨h.scheme, h.authority, h.path, h.query, fun _ _ hf => (nomatch hf)⟩

theorem reads_afterSlashes (hscheme : '#' ∉ scheme.toList)
    (h : readAfterSlashes? scheme input = some u) : Reads input u := by
  rw [readAfterSlashes?] at h
  obtain ⟨⟨a, behind⟩, ha, h⟩ := Option.bind_eq_some_iff.1 h
  obtain rfl := Option.some.inj h
  obtain ⟨hauthority, hbehind⟩ := readAuthority_spec ha
  have hpath := part_readPathStart (schemeKind scheme) behind
  refine (reads_withEnd hscheme (fun b hb => ?_) hpath.unhashed _).of_suffix
    (hpath.rest.trans hbehind)
  obtain rfl := Option.some.inj hb
  exact hauthority

/-! ### Files -/

theorem hash_not_mem_fileAuthority {host path : List Char} (hhost : '#' ∉ host) :
    ∀ a, (fileUrl host path).authority = some a → '#' ∉ a.chars := by
  intro a ha
  obtain rfl := Option.some.inj ha
  exact hash_not_mem_authority none List.not_mem_nil hhost

theorem hash_not_mem_fileScheme : '#' ∉ "file".toList := by decide

theorem reads_fileHost (h : readFileHost? input = some u) : Reads input u := by
  have hend : ∀ {host behind : List Char}, '#' ∉ host → behind <:+ input →
      (let read := if host.isEmpty then readPath .file ['/'] behind else readPathStart .file behind
      some (withEnd (fileUrl host read.1) read.2)) = some u → Reads input u := by
    intro host behind hhost hbehind h
    have hpart : Part behind (if host.isEmpty then readPath .file ['/'] behind
        else readPathStart .file behind) := by
      split
      · exact part_readPath (by decide)
      · exact part_readPathStart .file behind
    obtain rfl := Option.some.inj h
    exact (reads_withEnd hash_not_mem_fileScheme (hash_not_mem_fileAuthority hhost)
      hpart.unhashed _).of_suffix (hpart.rest.trans hbehind)
  unfold readFileHost? at h
  dsimp only at h
  split at h
  · exact hend List.not_mem_nil (List.suffix_refl _) h
  · split at h
    · exact hend List.not_mem_nil (List.suffix_refl _) h
    · obtain ⟨name, hname, h⟩ := Option.bind_eq_some_iff.1 h
      refine hend ?_ (List.drop_suffix _ _) h
      split
      · exact List.not_mem_nil
      · exact hash_not_mem_specialHost hname

/-- The head that an absolute path of a file takes over. -/
theorem hash_not_mem_fileBaseHead {base : Option Url}
    (hbase : ∀ b, base = some b → ∃ rest, Reads rest b) (input : List Char) :
    '#' ∉ (fileBaseHead base input).1 ∧ '#' ∉ (fileBaseHead base input).2 := by
  unfold fileBaseHead
  split
  · exact ⟨List.not_mem_nil, List.not_mem_nil⟩
  · next b =>
    obtain ⟨rest, hb⟩ := hbase b rfl
    split
    · exact ⟨List.not_mem_nil, List.not_mem_nil⟩
    · dsimp only
      split
      · refine ⟨List.not_mem_nil, ?_⟩
        rw [List.mem_cons, not_or]
        refine ⟨by decide, fun h => hb.path ?_⟩
        exact List.mem_of_mem_drop ((List.takeWhile_sublist _).subset h)
      · refine ⟨?_, List.not_mem_nil⟩
        rw [host?]
        split
        · next a ha =>
          have hchars := hb.authority a ha
          split
          · exact List.not_mem_nil
          · rw [Authority.chars] at hchars
            simp only [List.mem_append, not_or] at hchars
            exact hchars.1.2
        · exact List.not_mem_nil

theorem reads_filePath {host : List Char} (hhost : '#' ∉ host) (hpath : '#' ∉ path)
    (input : List Char) :
    Reads input (withEnd (fileUrl host (readPath .file path input).1)
      (readPath .file path input).2) :=
  reads_path (fileUrl host []) .file hash_not_mem_fileScheme
    (hash_not_mem_fileAuthority hhost) hpath input

theorem reads_file {base : Option Url} (hbase : ∀ b, base = some b → ∃ rest, Reads rest b)
    (h : readFile? base input = some u) : Reads input u := by
  have habsolute : ∀ rest : List Char,
      Reads input (withEnd (fileUrl (fileBaseHead base rest).1
        (readPath .file (fileBaseHead base rest).2 input).1)
        (readPath .file (fileBaseHead base rest).2 input).2) := fun rest =>
    reads_filePath (hash_not_mem_fileBaseHead hbase rest).1
      (hash_not_mem_fileBaseHead hbase rest).2 input
  unfold readFile? at h
  split at h
  · next c rest =>
    split at h
    · split at h
      · next d rest' =>
        split at h
        · exact (reads_fileHost h).of_suffix
            ((List.suffix_cons d rest').trans (List.suffix_cons c _))
        · obtain rfl := Option.some.inj h
          exact habsolute _
      · obtain rfl := Option.some.inj h
        exact habsolute _
    · split at h
      · obtain rfl := Option.some.inj h
        exact reads_filePath List.not_mem_nil (by decide) _
      · next b =>
        obtain ⟨_, hb⟩ := hbase b rfl
        split at h
        · obtain rfl := Option.some.inj h
          exact reads_withEnd hb.scheme hb.authority hb.path _
        · split at h
          · next hc =>
            obtain rfl := Option.some.inj h
            rw [hc]
            exact hb.fragmentOnly
          · split at h
            · obtain rfl := Option.some.inj h
              exact reads_filePath List.not_mem_nil (by decide) _
            · obtain rfl := Option.some.inj h
              refine reads_path b .file hb.scheme hb.authority ?_ _
              have hshort : '#' ∉ shorten .file b.path :=
                fun hmem => hb.path (shorten_subset .file b.path hmem)
              split
              · simp [hshort]
              · exact hshort
  · split at h
    · next b =>
      obtain ⟨_, hb⟩ := hbase b rfl
      obtain rfl := Option.some.inj h
      exact hb.withoutFragment []
    · obtain rfl := Option.some.inj h
      refine ⟨hash_not_mem_fileScheme, hash_not_mem_fileAuthority List.not_mem_nil, by decide,
        fun q hq => (nomatch hq), fun _ f hf => (nomatch hf)⟩

/-! ### References and schemes -/

theorem reads_relative (hb : Reads rest base) (h : readRelative? base input = some u) :
    Reads input u := by
  unfold readRelative? at h
  dsimp only at h
  split at h
  · obtain rfl := Option.some.inj h
    exact hb.withoutFragment []
  · next c tail =>
    split at h
    · obtain rfl := Option.some.inj h
      exact reads_withEnd hb.scheme hb.authority hb.path _
    · split at h
      · next hc =>
        obtain rfl := Option.some.inj h
        rw [hc]
        exact hb.fragmentOnly
      · split at h
        · split at h
          · split at h
            · next tail' heq =>
              rw [heq]
              exact (reads_afterSlashes hb.scheme h).of_suffix
                ((List.suffix_cons _ _).trans (List.suffix_cons _ _))
            · exact (reads_afterSlashes hb.scheme h).of_suffix (List.drop_suffix _ _)
          · obtain rfl := Option.some.inj h
            exact (reads_path base base.kind hb.scheme hb.authority (by decide) tail).of_suffix
              (List.suffix_cons c tail)
        · obtain rfl := Option.some.inj h
          refine reads_path base base.kind hb.scheme hb.authority ?_ _
          split
          · decide
          · exact fun hmem => hb.path (pop_subset base.kind base.path hmem)

theorem reads_plain (hscheme : '#' ∉ scheme.toList) (h : readPlain? scheme input = some u) :
    Reads input u := by
  unfold readPlain? at h
  split at h
  · next rest =>
    exact (reads_afterSlashes hscheme h).of_suffix
      ((List.suffix_cons _ _).trans (List.suffix_cons _ _))
  · next rest _ =>
    obtain rfl := Option.some.inj h
    exact (reads_path ⟨scheme, none, [], none, none⟩ .plain hscheme
      (fun _ ha => by cases ha) (by decide) rest).of_suffix (List.suffix_cons _ _)
  · obtain rfl := Option.some.inj h
    refine Reads.of_suffix (reads_withEnd hscheme (fun _ ha => by cases ha) ?_ _)
      (List.drop_suffix _ _)
    refine hash_not_mem_encode (.inr fun hmem => ?_)
    have hkept := List.all_eq_true.1 List.all_takeWhile _ hmem
    simp at hkept

/-- A character is in lower case already, or a letter that moves 32 places. -/
theorem toLower_cases (c : Char) : c.toLower = c
    ∨ 65 ≤ c.toNat ∧ c.toNat ≤ 90 ∧ c.toLower.toNat = c.toNat + 32 := by
  delta Char.toLower
  split
  · next hupper =>
    have hlow : 65 ≤ c.val.toNat := UInt32.le_iff_toNat_le.1 hupper.1
    have hhigh : c.val.toNat ≤ 90 := UInt32.le_iff_toNat_le.1 hupper.2
    refine .inr ⟨hlow, hhigh, ?_⟩
    change (c.val + ('a'.val - 'A'.val)).toNat = c.val.toNat + 32
    rw [UInt32.toNat_add]
    have hstep : ('a'.val - 'A'.val).toNat = 32 := by decide
    rw [hstep]
    omega
  · exact .inl rfl

theorem toLower_ne_hash {c : Char} (h : c ≠ '#') : c.toLower ≠ '#' := by
  rcases toLower_cases c with hsame | ⟨hlow, -, hmoved⟩
  · rwa [hsame]
  · intro heq
    have hhash : '#'.toNat = 35 := by decide
    rw [heq, hhash] at hmoved
    omega

/-- A scheme is written in letters, digits and three signs. -/
theorem scheme_spec (h : scheme? input = some (scheme, rest)) :
    '#' ∉ scheme.toList ∧ rest <:+ input := by
  unfold scheme? at h
  split at h
  · cases h
  · next c tail =>
    split at h
    · cases h
    · dsimp only at h
      split at h
      · next behind hbehind =>
        obtain ⟨rfl, rfl⟩ := Prod.mk.inj (Option.some.inj h)
        refine ⟨fun hmem => ?_, ?_⟩
        · rw [String.toList_ofList] at hmem
          obtain ⟨d, hd, hlower⟩ := List.mem_map.1 hmem
          have hkept := List.all_eq_true.1 List.all_takeWhile d hd
          refine toLower_ne_hash (fun heq => ?_) hlower
          rw [heq] at hkept
          exact absurd hkept (by decide)
        · exact (List.suffix_cons _ _).trans (hbehind ▸ List.drop_suffix _ _)
      · cases h

theorem reads_withScheme {base : Option Url} (hbase : ∀ b, base = some b → ∃ rest, Reads rest b)
    (hscheme : '#' ∉ scheme.toList) (h : readWithScheme? base scheme input = some u) :
    Reads input u := by
  unfold readWithScheme? at h
  split at h
  · refine reads_file (fun b hb => hbase b ?_) h
    exact (Option.filter_eq_some_iff.1 hb).1
  · dsimp only at h
    split at h
    · next b =>
      obtain ⟨_, hb⟩ := hbase b rfl
      split at h
      · exact reads_relative hb h
      · exact (reads_afterSlashes hscheme h).of_suffix (List.drop_suffix _ _)
    · exact (reads_afterSlashes hscheme h).of_suffix (List.drop_suffix _ _)
  · exact reads_plain hscheme h

theorem reads_with {base : Option Url} {reference : String}
    (hbase : ∀ b, base = some b → ∃ rest, Reads rest b)
    (h : readWith? base reference = some u) : Reads (significantChars reference) u := by
  unfold readWith? at h
  dsimp only at h
  split at h
  · next scheme rest hsplit =>
    obtain ⟨hscheme, hrest⟩ := scheme_spec hsplit
    exact (reads_withScheme hbase hscheme h).of_suffix hrest
  · split at h
    · cases h
    · next b =>
      obtain ⟨_, hb⟩ := hbase b rfl
      split at h
      · next fragment heq =>
        obtain rfl := Option.some.inj h
        rw [heq]
        exact hb.fragmentOnly
      · split at h
        · cases h
        · split at h
          · exact reads_file hbase h
          · exact reads_relative hb h

theorem reads_join {text reference : String} (hbase : parse? text = some base)
    (h : join? base reference = some u) : Reads (significantChars reference) u := by
  refine reads_with (fun b hb => ?_) h
  obtain rfl := Option.some.inj hb
  exact ⟨_, reads_with (fun _ hnone => by cases hnone) hbase⟩

theorem count_significantChars_le (text : String) :
    (significantChars text).count '#' ≤ text.toList.count '#' :=
  (List.filter_sublist.trans (Text.trim_sublist _ _)).count_le '#'

theorem Reads.count_chars_le (h : Reads input u) (hcount : input.count '#' ≤ 1) :
    u.chars.count '#' ≤ 1 := by
  rw [chars, List.count_append, List.count_eq_zero.2, Nat.zero_add]
  · split
    · next f hf =>
      have hnone := List.count_eq_zero.2 (h.fragment hcount f hf)
      exact Nat.le_of_eq (by rw [List.count_cons_self, hnone])
    · exact Nat.zero_le 1
  · simp only [List.mem_append, not_or]
    refine ⟨⟨⟨⟨h.scheme, by decide⟩, ?_⟩, h.path⟩, ?_⟩
    · split
      · next a ha => simp [h.authority a ha]
      · split <;> decide
    · split
      · next q hq => simp [h.query q hq]
      · exact List.not_mem_nil

end Url

namespace SchemaUri

variable {reference : String}

theorem single_ofList {cs : List Char} (h : cs.count '#' ≤ 1) : Single (String.ofList cs) := by
  rwa [Single, String.toList_ofList]

/-- Resolving a reference with one hash sign at most gives a URI with one at most, in canonical
form. -/
theorem Single.exists_resolve (h : Single reference) (baseUri : String) :
    ∃ uri, Single uri ∧ SchemaUri.resolve baseUri reference = SchemaUri.normalize uri := by
  have hjoined : ∀ {text : String} {base u : Url}, Url.parse? text = some base →
      Url.join? base reference = some u → u.chars.count '#' ≤ 1 := by
    intro text base u hbase hjoin
    refine (Url.reads_join hbase hjoin).count_chars_le ?_
    exact Nat.le_trans (Url.count_significantChars_le reference) h
  have hplain : ∃ uri, Single uri ∧ resolvePlain baseUri reference = SchemaUri.normalize uri := by
    unfold resolvePlain
    dsimp only
    split
    · exact ⟨reference, h, rfl⟩
    · next joined hbind =>
      obtain ⟨base, hbase, hjoin⟩ := Option.bind_eq_some_iff.1 hbind
      have hcount := hjoined hbase hjoin
      have hend : ∀ cs : List Char, cs <:+ joined.chars → Single (String.ofList cs) :=
        fun cs hcs => single_ofList (Nat.le_trans (hcs.sublist.count_le '#') hcount)
      have hdrop := List.drop_suffix placeholder.length joined.chars
      split
      · exact ⟨_, hend _ (List.suffix_refl _), rfl⟩
      · split
        · exact ⟨_, hend _ hdrop, rfl⟩
        · split
          · next tail htail =>
            rw [htail] at hdrop
            exact ⟨_, hend _ ((List.suffix_cons _ _).trans hdrop), rfl⟩
          · exact ⟨_, hend _ hdrop, rfl⟩
  unfold SchemaUri.resolve
  split
  · have hbase := hash_not_mem_base baseUri
    exact ⟨_, single_of_no_hash hbase, (normalize_of_no_hash hbase).symm⟩
  · refine ⟨_, ?_, rfl⟩
    rw [Single, String.toList_append, List.count_append,
      List.count_eq_zero.2 (hash_not_mem_base baseUri), Nat.zero_add]
    exact h
  · split
    · exact ⟨reference, h, rfl⟩
    · split
      · split
        · next joined hjoin =>
          exact ⟨joined.text, single_ofList (hjoined ‹_› hjoin), rfl⟩
        · exact ⟨reference, h, rfl⟩
      · exact hplain

theorem Single.resolve (h : Single reference) (baseUri : String) :
    Single (SchemaUri.resolve baseUri reference) := by
  obtain ⟨uri, huri, heq⟩ := h.exists_resolve baseUri
  rw [heq]
  exact huri.normalize

theorem Single.normalize_resolve (h : Single reference) (baseUri : String) :
    SchemaUri.normalize (SchemaUri.resolve baseUri reference)
      = SchemaUri.resolve baseUri reference := by
  obtain ⟨uri, huri, heq⟩ := h.exists_resolve baseUri
  rw [heq]
  exact huri.normalize_normalize

end SchemaUri

end HyperSchema
