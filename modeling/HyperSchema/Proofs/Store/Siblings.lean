import HyperSchema.Proofs.Store.Corpus
import HyperSchema.Proofs.Store.Ids
import HyperSchema.Proofs.Store.Local
import HyperSchema.Proofs.Store.Substitution
import HyperSchema.Proofs.Store.Unreferenced
import HyperSchema.Proofs.Url.Siblings

/-!
# Definitions in a sibling document

A document refers to a definition of another document next to it, by the name of that document with
a pointer behind it. The reference is joined to the URL of the document, and the pointer is escaped
like any fragment. The way down takes the pointer as it is, and no escape is ever undone. So the
definition is found if and only if nothing in its name is escaped and nothing at its end is cut; the
same pointer finds it from within its own document, where nothing is escaped.
-/

namespace HyperSchema

namespace Pointer

variable {k : String} {piece cs : List Char}

/-! ### Pointers to definitions -/

/-- What stands before the name in a pointer to a definition. -/
def definitionsChars : List Char := '/' :: "definitions".toList ++ ['/']

/-- The pointer to a definition with the given escaped name. -/
def toDefinition (piece : List Char) : String := String.ofList (definitionsChars ++ piece)

theorem join_definitions (k : String) :
    join ["definitions", k] = toDefinition (escapeChars k.toList) := by
  have hescape : escapeChars "definitions".toList = "definitions".toList := by decide +kernel
  rw [join, joinChars, joinChars, joinChars, List.append_nil, hescape, toDefinition,
    definitionsChars, List.append_assoc, List.singleton_append]

theorem tokens_toDefinition (h : '/' ∉ piece) :
    tokens (toDefinition piece) = ["definitions", tokenOf piece] := by
  have hname : Text.pieces '/' "definitions".toList = ["definitions".toList] := by decide +kernel
  have htoken : tokenOf "definitions".toList = "definitions" := by decide +kernel
  rw [tokens, toDefinition, String.toList_ofList, definitionsChars, List.append_assoc,
    List.singleton_append, List.cons_append, tokensOfChars_slash, Text.pieces_append_cons, hname,
    Text.pieces_of_not_mem h, List.map_append, List.map_singleton, List.map_singleton, htoken,
    List.singleton_append]

theorem normalize_toDefinition (uri : String) (piece : List Char) :
    SchemaUri.normalize (uri ++ ("#" ++ toDefinition piece))
      = uri ++ ("#" ++ toDefinition (Text.stem piece)) := by
  have hnonempty : toDefinition piece ≠ "" := by
    intro hempty
    have hchars := congrArg String.toList hempty
    rw [toDefinition, String.toList_ofList, definitionsChars] at hchars
    cases hchars
  have hstem : Text.stem (definitionsChars ++ piece) = definitionsChars ++ Text.stem piece := by
    cases piece with
    | nil => decide +kernel
    | cons c rest => exact Text.stem_append _ (List.cons_ne_nil c rest)
  rw [SchemaUri.normalize_fragment uri hnonempty, toDefinition, String.toList_ofList, hstem,
    ← toDefinition]

theorem getLast?_escapeChars :
    (escapeChars k.toList).getLast? = some '#' ↔ k.toList.getLast? = some '#' := by
  rw [List.getLast?_eq_some_iff, List.getLast?_eq_some_iff]
  constructor
  · intro h
    obtain ⟨cs, hcs⟩ := h
    exact eq_concat_of_escapeChars_eq_concat hcs
  · intro h
    obtain ⟨cs, hcs⟩ := h
    exact ⟨escapeChars cs, by rw [hcs, escapeChars_append]; rfl⟩

/-- A pointer that went through no URL leads to its definition, unless a hash sign is cut from its
end. -/
theorem tokenOf_stem_escapeChars (h : k.toList.getLast? ≠ some '#') :
    tokenOf (Text.stem (escapeChars k.toList)) = k := by
  rw [Text.stem_of_getLast? (fun hend => h (getLast?_escapeChars.1 hend)), tokenOf_escapeChars]

/-- The escaped name at the end of a pointer that has become the fragment of a URL. -/
def transported (k : String) : List Char :=
  Text.stem (Url.encode Url.fragmentEscapes (Url.significantEnd (escapeChars k.toList)))

/-- A name that arrives as it is when its pointer becomes the fragment of a URL. -/
def Portable (k : String) : Prop := Url.Unescaped k.toList ∧ k.toList.getLast? ≠ some '#'

instance (k : String) : Decidable (Portable k) := inferInstanceAs (Decidable (_ ∧ _))

theorem mem_of_mem_unescapeChars {c : Char} (h : c ∈ unescapeChars cs) :
    c ∈ cs ∨ c = '~' ∨ c = '/' := by
  induction cs using unescapeChars.induct with
  | case1 => cases h
  | case2 rest ih =>
      rw [unescapeChars] at h
      rcases List.mem_cons.1 h with rfl | h
      · exact .inr (.inl rfl)
      · exact (ih h).imp_left fun hmem => List.mem_cons_of_mem _ (List.mem_cons_of_mem _ hmem)
  | case3 rest ih =>
      rw [unescapeChars] at h
      rcases List.mem_cons.1 h with rfl | h
      · exact .inr (.inr rfl)
      · exact (ih h).imp_left fun hmem => List.mem_cons_of_mem _ (List.mem_cons_of_mem _ hmem)
  | case4 d rest _ _ ih =>
      rw [unescapeChars] at h
      · rcases List.mem_cons.1 h with rfl | h
        · exact .inl List.mem_cons_self
        · exact (ih h).imp_left (List.mem_cons_of_mem _)
      · assumption
      · assumption

theorem mem_of_mem_escapeChars {c : Char} (h : c ∈ escapeChars cs) :
    c ∈ cs ∨ c = '~' ∨ c = '0' ∨ c = '1' := by
  induction cs with
  | nil => cases h
  | cons d rest ih =>
      have hrest : c ∈ escapeChars rest → c ∈ d :: rest ∨ c = '~' ∨ c = '0' ∨ c = '1' :=
        fun h => (ih h).imp_left (List.mem_cons_of_mem d)
      rw [escapeChars] at h
      split at h
      · rcases List.mem_cons.1 h with rfl | h
        · exact .inr (.inl rfl)
        · rcases List.mem_cons.1 h with rfl | h
          · exact .inr (.inr (.inl rfl))
          · exact hrest h
      · split at h
        · rcases List.mem_cons.1 h with rfl | h
          · exact .inr (.inl rfl)
          · rcases List.mem_cons.1 h with rfl | h
            · exact .inr (.inr (.inr rfl))
            · exact hrest h
        · rcases List.mem_cons.1 h with rfl | h
          · exact .inl List.mem_cons_self
          · exact hrest h

theorem unescaped_transported (k : String) : Url.Unescaped (tokenOf (transported k)).toList := by
  intro c hc
  rw [tokenOf, String.toList_ofList] at hc
  rcases mem_of_mem_unescapeChars hc with hmem | rfl | rfl
  · exact Url.unescaped_encode _ c (Text.stem_subset _ hmem)
  · decide
  · decide

theorem unescaped_escapeChars (h : Url.Unescaped k.toList) :
    Url.Unescaped (escapeChars k.toList) := by
  intro c hc
  rcases mem_of_mem_escapeChars hc with hmem | rfl | rfl | rfl
  · exact h c hmem
  · decide
  · decide
  · decide

/-- Only portable names arrive as they are. -/
theorem tokenOf_transported_eq_self_iff : tokenOf (transported k) = k ↔ Portable k := by
  have hkept : Url.Unescaped k.toList → transported k = Text.stem (escapeChars k.toList) := by
    intro h
    have hescape := unescaped_escapeChars h
    rw [transported, hescape.significantEnd, Url.encode_eq_self hescape]
  constructor
  · intro heq
    have hplain : Url.Unescaped k.toList := heq ▸ unescaped_transported k
    refine ⟨hplain, fun hend => ?_⟩
    obtain ⟨front, hfront⟩ := List.getLast?_eq_some_iff.1 hend
    have hshort : tokenOf (transported k) = String.ofList front := by
      have hhash : escapeChars ['#'] = ['#'] := by decide
      rw [hkept hplain, hfront, escapeChars_append, hhash, Text.stem_concat, tokenOf,
        unescapeChars_escapeChars]
    rw [← heq, hshort, String.toList_ofList] at hfront
    exact absurd hfront (by simp)
  · intro h
    rw [hkept h.1, tokenOf_stem_escapeChars h.2]

end Pointer

/-! ### Filling a store -/

namespace Corpus

def store (docs : Corpus) : Store := docs.foldl (fun s d => s.add d.1 d.2) Store.empty

theorem Separate.fills {docs : Corpus} (h : Separate docs) : Fills docs docs.store := by
  induction docs using List.reverseRecOn with
  | nil => exact ⟨rfl, rfl⟩
  | append_singleton docs d ih =>
      rw [store, List.foldl_append]
      exact (ih h.of_append.1).add h

theorem Fills.find?_of_mem {docs : Corpus} {s : Store} {d : String × Json} (h : Fills docs s)
    (hdocs : Separate docs) (hmem : d ∈ docs) : s.find? d.1 = some (d.2.scan d.1).value := by
  rw [h.find?_eq]
  refine Table.get?_of_mem ?_ (List.mem_map_of_mem hmem)
  rw [Table.Distinct, keys_stored]
  exact hdocs.distinct

end Corpus

namespace Store

variable {s : Store} {a b n k uri target : String} {v w x : Json} {tokens : List String}
  {piece : List Char} {members : Table Json}

theorem resolution_of_reference? (hfind : s.find? uri = some v) (href : v.reference? = some target)
    (hentrance : s.entrance? target = some (w, tokens)) : s.resolution uri
      = (s.walk (s.references.length + 1) target w tokens [target]).getD .nodeAbsent := by
  have hfollow : s.follow? uri target [] = some (target, w, tokens) := by
    rw [follow?, hentrance, Option.map_some]
  have honward : s.walk (s.references.length + 1 + 1) uri v [] []
      = s.walk (s.references.length + 1) target w tokens [target] :=
    walk_onward (advance?_of_reference? href []) href List.not_mem_nil hfollow
  rw [resolution, entrance?, hfind]
  dsimp only
  rw [honward]

def defining (k : String) (members : Table Json) : Json :=
  .object [("definitions", .object [(k, .object members)])]

def pointing (reference : String) : Json := .object [("$ref", .string reference)]

theorem references_defining (hrefs : (Json.object members).references = []) (k : String) :
    (defining k members).references = [] := by
  rw [Json.references] at hrefs
  simp [defining, Json.references, Json.referencesOfMembers, hrefs]

theorem ids_defining (hids : (Json.object members).ids = []) (k : String) :
    (defining k members).ids = [] := by
  rw [Json.ids] at hids
  simp [defining, Json.ids, Json.idsOfMembers, Json.asString?, hids]

/-- Down the way to a definition only its own name is found. -/
theorem advance?_defining (k token : String) (members : Table Json) :
    advance? (defining k members) ["definitions", token]
      = if token = k then some (.object members, []) else none := by
  have hroot : (defining k members).reference? = none := rfl
  have hinner : (Json.object [(k, .object members)]).reference? = none := by
    rw [Json.reference?, Json.member?, Table.get?_cons]
    split <;> rfl
  rw [advance?, hroot]
  dsimp only
  have hstep : step? (defining k members) "definitions"
      = some (.object [(k, .object members)]) := rfl
  rw [hstep, Option.bind_some, advance?, hinner]
  dsimp only
  rw [step?, Table.get?_cons]
  split
  · next heq =>
    rw [if_pos heq.symm, Option.bind_some, advance?]
  · next hne =>
    rw [if_neg (Ne.symm hne)]
    rfl

/-- The documents: at b the definition of k, and at a a reference to it by the name n. -/
def siblings (a b n k : String) (members : Table Json) : Corpus :=
  [(b, defining k members), (a, pointing (n ++ ("#" ++ Pointer.join ["definitions", k])))]

theorem separate_siblings (ha : '#' ∉ a.toList) (hb : '#' ∉ b.toList) (hne : a ≠ b)
    (hids : (Json.object members).ids = []) : (siblings a b n k members).Separate where
  distinct := by
    rw [Table.Distinct, Table.keys, siblings]
    simp [Ne.symm hne]
  plain := by
    rw [siblings, List.forall_mem_cons, List.forall_mem_singleton]
    exact ⟨hb, ha⟩
  unnamed := by
    rw [siblings, List.forall_mem_cons, List.forall_mem_singleton]
    exact ⟨Json.named_scan _ (ids_defining hids k), Json.named_scan _ rfl⟩

theorem scan_pointing (uri reference : String) :
    ((pointing reference).scan uri).value = pointing (SchemaUri.resolve uri reference) := by
  rw [Json.scan, pointing, Scan.value_object]
  rfl

/-- A store with just these documents, whichever came first. -/
structure Holds (s : Store) (a b n k : String) (members : Table Json) : Prop where
  defining : s.find? b = some (defining k members)
  pointing : s.find? a = some
    (pointing (SchemaUri.resolve a (n ++ ("#" ++ Pointer.join ["definitions", k]))))
  plain : s.Plain

theorem holds_store {docs : Corpus} (ha : '#' ∉ a.toList) (hb : '#' ∉ b.toList) (hne : a ≠ b)
    (hrefs : (Json.object members).references = []) (hids : (Json.object members).ids = [])
    (hdocs : docs.Perm (siblings a b n k members)) : Holds docs.store a b n k members := by
  have hseparate : docs.Separate := (separate_siblings ha hb hne hids).of_perm hdocs.symm
  have hfills := hseparate.fills
  refine ⟨?_, ?_, fun uri hhash => hfills.find?_of_hash hseparate hhash⟩
  · rw [hfills.find?_of_mem hseparate (hdocs.mem_iff.2 List.mem_cons_self), Json.scan,
      (Scan.untouched_value true b _ (references_defining hrefs k)).value]
  · rw [hfills.find?_of_mem hseparate
      (hdocs.mem_iff.2 (List.mem_cons_of_mem _ (List.mem_singleton_self _))), scan_pointing]

namespace Holds

variable (h : s.Holds a b n k members) (hb : '#' ∉ b.toList)

include h hb

theorem entrance? (hpiece : '/' ∉ piece) :
    s.entrance? (b ++ ("#" ++ Pointer.toDefinition piece))
      = some (Store.defining k members, ["definitions", Pointer.tokenOf piece]) := by
  have hhash : '#' ∈ (b ++ ("#" ++ Pointer.toDefinition piece)).toList := by
    rw [SchemaUri.toList_fragment]
    exact List.mem_append_right _ List.mem_cons_self
  rw [entrance?_of_find?_eq_none (h.plain _ hhash), SchemaUri.base, SchemaUri.split_fragment hb,
    h.defining, Option.map_some, Pointer.tokens_toDefinition hpiece]

theorem lookup?_local (hrefs : (Json.object members).references = [])
    (hend : k.toList.getLast? ≠ some '#') :
    s.lookup? (SchemaUri.resolve b ("#" ++ Pointer.join ["definitions", k]))
      = .ok (some (.object members)) := by
  have hstem : Text.stem (Pointer.escapeChars k.toList) = Pointer.escapeChars k.toList :=
    Text.stem_of_getLast? fun hlast => hend (Pointer.getLast?_escapeChars.1 hlast)
  have hcanonical := Pointer.normalize_toDefinition b (Pointer.escapeChars k.toList)
  rw [hstem] at hcanonical
  have hadvance := advance?_defining k k members
  rw [if_pos rfl] at hadvance
  rw [SchemaUri.resolve_fragment, SchemaUri.base_of_no_hash hb, Pointer.join_definitions,
    hcanonical, lookup?, hcanonical, resolution,
    h.entrance? hb (Pointer.slash_not_mem_escapeChars _), Pointer.tokenOf_escapeChars]
  dsimp only
  rw [walk_here hadvance (reference?_eq_none hrefs)]
  rfl

/-- Behind a reference the definition is found under the name that the reference arrives with. -/
theorem lookup?_of_resolve (ha : '#' ∉ a.toList) (hrefs : (Json.object members).references = [])
    (hpiece : '/' ∉ piece)
    (hresolve : SchemaUri.resolve a (n ++ ("#" ++ Pointer.join ["definitions", k]))
      = b ++ ("#" ++ Pointer.toDefinition piece)) :
    s.lookup? a = .ok (if Pointer.tokenOf piece = k then some (.object members) else none) := by
  have hpointing := h.pointing
  rw [hresolve] at hpointing
  have hadvance := advance?_defining k (Pointer.tokenOf piece) members
  rw [lookup?, SchemaUri.normalize_of_no_hash ha,
    resolution_of_reference? hpointing rfl (h.entrance? hb hpiece)]
  split at hadvance
  · next heq =>
    rw [walk_here hadvance (reference?_eq_none hrefs), if_pos heq]
    rfl
  · next hne =>
    rw [walk_lost hadvance, if_neg hne]
    rfl

end Holds

/-! ### References between siblings -/

section

variable {u : Url} {dir segment : List Char} (hparse : Url.parse? a = some u)
  (hkind : u.kind = .special) (hpath : u.path = dir ++ '/' :: segment) (hsegment : '/' ∉ segment)
  (hname : Url.IsName n.toList)

include hparse hkind hpath hsegment hname

/-- The pointer behind the name of a sibling goes through a URL. -/
theorem resolve_definition (k : String) :
    SchemaUri.resolve a (n ++ ("#" ++ Pointer.join ["definitions", k]))
      = (u.sibling dir n.toList).text
        ++ ("#" ++ Pointer.toDefinition (Pointer.transported k)) := by
  have hchars : (n ++ ("#" ++ Pointer.join ["definitions", k])).toList
      = (n.toList ++ '#' :: Pointer.definitionsChars) ++ Pointer.escapeChars k.toList := by
    rw [SchemaUri.toList_fragment, Pointer.join_definitions, Pointer.toDefinition,
      String.toList_ofList, List.append_assoc, List.cons_append]
  have hvisible : ∀ c ∈ n.toList ++ '#' :: Pointer.definitionsChars, 32 < c.toNat := by
    have hfixed : ('#' :: Pointer.definitionsChars).all (fun c => 32 < c.toNat) = true := by
      decide +kernel
    rw [List.forall_mem_append]
    refine ⟨fun c hc => ?_, fun c hc => of_decide_eq_true (List.all_eq_true.1 hfixed c hc)⟩
    have hletter := (Url.toNat_of_isAlpha (hname.letters c hc)).1
    omega
  have hsignificant := Url.significantChars_append (by simp) hvisible hchars
  have hfixed : Url.encode Url.fragmentEscapes Pointer.definitionsChars
      = Pointer.definitionsChars := by decide +kernel
  rw [List.append_assoc, List.cons_append] at hchars hsignificant
  rw [SchemaUri.resolve_sibling hparse hkind hpath hsegment hname hchars hsignificant, Url.encode,
    List.flatMap_append, ← Url.encode, hfixed, ← Url.encode, ← Pointer.toDefinition,
    Pointer.normalize_toDefinition, Pointer.transported]

end

theorem slash_not_mem_transported (k : String) : '/' ∉ Pointer.transported k := by
  intro hmem
  refine Url.slash_not_mem_encode (fun hslash => ?_) (Text.stem_subset _ hmem)
  exact Pointer.slash_not_mem_escapeChars _ (Url.significantEnd_subset _ hslash)

/-- A definition of a sibling is found if and only if its name arrives as it is. -/
theorem lookup?_sibling {u : Url} {dir segment : List Char} {docs : Corpus}
    (hparse : Url.parse? a = some u) (hscheme : u.scheme = "http")
    (hpath : u.path = dir ++ '/' :: segment) (hsegment : '/' ∉ segment) (ha : '#' ∉ a.toList)
    (hname : Url.IsName n.toList) (hb : (u.sibling dir n.toList).text = b) (hne : a ≠ b)
    (hrefs : (Json.object members).references = []) (hids : (Json.object members).ids = [])
    (hdocs : docs.Perm (siblings a b n k members)) :
    docs.store.lookup? a = .ok (if Pointer.Portable k then some (.object members) else none)
      ∧ (k.toList.getLast? ≠ some '#' →
        docs.store.lookup? (SchemaUri.resolve b ("#" ++ Pointer.join ["definitions", k]))
          = .ok (some (.object members))) := by
  have hkind : u.kind = .special := by
    rw [Url.kind, hscheme]
    decide
  have hhash : '#' ∉ b.toList := hb ▸ Url.hash_not_mem_sibling hparse hpath hname
  have hholds := holds_store ha hhash hne hrefs hids hdocs
  refine ⟨?_, hholds.lookup?_local hhash hrefs⟩
  have hresolve := resolve_definition hparse hkind hpath hsegment hname k
  rw [hb] at hresolve
  rw [hholds.lookup?_of_resolve hhash ha hrefs (slash_not_mem_transported k) hresolve]
  simp only [Pointer.tokenOf_transported_eq_self_iff]

def neighbours (k : String) : Corpus :=
  siblings "http://x/dir/a" "http://x/dir/b" "b" k definition

def neighbourUrl : Url := ⟨"http", some ⟨[], ['x'], none⟩, "/dir/a".toList, none, none⟩

theorem lookup?_sibling_neighbours :
    Url.parse? "http://x/dir/a" = some neighbourUrl
      ∧ (Corpus.store (neighbours "a/b~c").reverse).lookup? "http://x/dir/a"
        = .ok (some (.object definition)) := by
  have hparse : Url.parse? "http://x/dir/a" = some neighbourUrl := by decide +kernel
  have hpath : neighbourUrl.path = "/dir".toList ++ '/' :: ['a'] := by decide +kernel
  have hname : Url.IsName "b".toList :=
    ⟨by decide +kernel, List.all_eq_true.1 (by decide +kernel)⟩
  have hb : (neighbourUrl.sibling "/dir".toList "b".toList).text = "http://x/dir/b" := by
    decide +kernel
  have hdocs : (neighbours "a/b~c").reverse.Perm (siblings "http://x/dir/a" "http://x/dir/b" "b"
      "a/b~c" definition) := List.reverse_perm _
  have hlookup := lookup?_sibling hparse rfl hpath (by decide) (by decide +kernel) hname hb
    (by decide +kernel) rfl rfl hdocs
  rw [if_pos (by decide +kernel)] at hlookup
  exact ⟨hparse, hlookup.1⟩

/-- A blank in the name is escaped on the way to the sibling, and not found there. -/
theorem neighbours_lose_blank :
    Url.parse? "http://x/dir/a" = some neighbourUrl
      ∧ (neighbourUrl.sibling "/dir".toList "b".toList).text = "http://x/dir/b"
      ∧ (neighbours "a b").store.lookup? "http://x/dir/a" = .ok none
      ∧ (neighbours "a b").store.lookup?
          (SchemaUri.resolve "http://x/dir/b" ("#" ++ Pointer.join ["definitions", "a b"]))
        = .ok (some (.object definition)) := by
  have hb : '#' ∉ "http://x/dir/b".toList := by decide +kernel
  have ha : '#' ∉ "http://x/dir/a".toList := by decide +kernel
  have hholds : Holds (neighbours "a b").store "http://x/dir/a" "http://x/dir/b" "b" "a b"
      definition := holds_store ha hb (by decide +kernel) rfl rfl (List.Perm.refl _)
  have hresolve : SchemaUri.resolve "http://x/dir/a"
      ("b" ++ ("#" ++ Pointer.join ["definitions", "a b"]))
        = "http://x/dir/b" ++ ("#" ++ Pointer.toDefinition (Pointer.transported "a b")) := by
    decide +kernel
  have hlookup := hholds.lookup?_of_resolve hb ha rfl (slash_not_mem_transported _) hresolve
  rw [if_neg (by decide +kernel)] at hlookup
  refine ⟨by decide +kernel, by decide +kernel, hlookup, ?_⟩
  exact hholds.lookup?_local hb rfl (by decide +kernel)

end Store

end HyperSchema
