import HyperSchema.Proofs.Text.Cut
import HyperSchema.Proofs.Transport.WebLink

/-!
# Schemas named by links

A link that is written is read back, with one exception. Commas are told apart by the quotes and
brackets they stand in, semicolons and equals signs are not: a semicolon ends a parameter even in
quotes, so that of a value only what stands before it is read, and what stands behind it is read as
a parameter of its own if it has an equals sign. Of the words of a list of relations some are lost
then, or a list is found where there is none. Without such semicolons the schemas of a document are
the targets of the links that describe it.
-/

namespace HyperSchema

/-! ### Words -/

namespace HeaderLink

theorem words_cons_of_ne_nil {c : Char} {rest : List Char} (hc : Unicode.isWhitespace c = false)
    (h : words rest ≠ []) : words (c :: rest) = (words rest).modifyHead (c :: ·) := by
  rw [words, hc, if_neg Bool.false_ne_true]
  split
  · next hnil => exact absurd hnil h
  · next word more hwords => rw [hwords, List.modifyHead_cons]

/-- The words of a text are its pieces between blanks, but for an empty one at the end. -/
theorem splitOnP_eq_words (cs : List Char) :
    cs.splitOnP Unicode.isWhitespace = words cs
      ∨ cs.splitOnP Unicode.isWhitespace = words cs ++ [[]] := by
  induction cs with
  | nil => exact .inr rfl
  | cons c rest ih =>
      rw [List.splitOnP_cons_eq_if_modifyHead]
      cases hc : Unicode.isWhitespace c with
      | true =>
          rw [if_pos rfl, words, hc, if_pos rfl]
          exact ih.imp (fun h => by rw [h]) (fun h => by rw [h, List.cons_append])
      | false =>
          rw [if_neg Bool.false_ne_true]
          by_cases hwords : words rest = []
          · refine .inl ?_
            have hempty := ih.resolve_left (by
              rw [hwords]
              exact List.splitOnP_ne_nil _ rest)
            rw [hempty, words, hc, if_neg Bool.false_ne_true, hwords]
            rfl
          · rw [words_cons_of_ne_nil hc hwords]
            refine ih.imp (fun h => by rw [h]) (fun h => ?_)
            rw [h]
            obtain ⟨word, more, hcons⟩ := List.exists_cons_of_ne_nil hwords
            rw [hcons, List.cons_append, List.modifyHead_cons, List.modifyHead_cons,
              List.cons_append]

theorem any_words (text : List Char) {word : String} (hword : word ≠ "") :
    (words text).any (fun listed => Text.sameIgnoringCase (String.ofList listed) word)
      = decide (WebLink.Lists text word) := by
  have hempty : Text.sameIgnoringCase (String.ofList []) word = false := by
    rw [Text.sameIgnoringCase, beq_eq_false_iff_ne, String.toList_ofList, List.map_nil]
    intro h
    exact hword (String.toList_eq_nil_iff.1 (List.map_eq_nil_iff.1 h.symm))
  rw [Bool.eq_iff_iff, List.any_eq_true, decide_eq_true_iff, WebLink.Lists]
  rcases splitOnP_eq_words text with h | h
  · rw [h]
  · rw [h]
    constructor
    · rintro ⟨listed, hlisted, hsame⟩
      exact ⟨listed, List.mem_append_left _ hlisted, hsame⟩
    · rintro ⟨listed, hlisted, hsame⟩
      refine ⟨listed, (List.mem_append.1 hlisted).resolve_right fun hlast => ?_, hsame⟩
      rw [List.mem_singleton.1 hlast, hempty] at hsame
      cases hsame

end HeaderLink

/-! ### Links read back -/

namespace WebLink

def Parameter.read (p : Parameter) : List (List Char × List Char) :=
  (Text.pieces ';' (' ' :: p.written)).filterMap HeaderLink.parameter?

def read (l : WebLink) : HeaderLink := ⟨l.target, l.parameters.flatMap Parameter.read⟩

theorem isWhitespace_blank : Unicode.isWhitespace ' ' = true := by decide

theorem isWhitespace_quote : Unicode.isWhitespace '"' = false := by decide

theorem Parameter.trim_name (p : Parameter) : HeaderLink.trim (' ' :: p.name) = p.name := by
  rw [HeaderLink.trim, Text.trim_cons_of_dropped isWhitespace_blank]
  exact Text.trim_of_forall fun c hc => (of_isTokenChar (p.token c hc)).1

theorem Parameter.not_mem_name (p : Parameter) {c : Char} (hc : isTokenChar c = false) :
    c ∉ p.name := by
  intro hmem
  rw [p.token c hmem] at hc
  cases hc

/-- The name of a parameter is read whatever is behind it. -/
theorem Parameter.parameter?_name (p : Parameter) (rest : List Char) :
    HeaderLink.parameter? (' ' :: (p.name ++ '=' :: rest))
      = some (p.name, HeaderLink.unquote (HeaderLink.trim rest)) := by
  have hequals : '=' ∉ ' ' :: p.name := by
    rw [List.mem_cons, not_or]
    exact ⟨by decide, p.not_mem_name (by decide)⟩
  rw [HeaderLink.parameter?, ← List.cons_append, Text.cutFirst?_append hequals, Option.map_some]
  dsimp only
  rw [p.trim_name]

theorem unquote_trim {value : List Char} (h : '"' ∉ value) :
    HeaderLink.unquote (HeaderLink.trim ('"' :: (value ++ ['"']))) = value := by
  rw [HeaderLink.trim, Text.trim_enclosed isWhitespace_quote isWhitespace_quote,
    HeaderLink.unquote]
  refine Text.trim_wrapped (beq_self_eq_true _) fun c hc => ?_
  exact beq_eq_false_iff_ne.2 fun heq => h (heq ▸ hc)

/-- A parameter whose value has no semicolon is read back. -/
theorem Parameter.read_of_not_mem {p : Parameter} (h : ';' ∉ p.value) :
    p.read = [(p.name, p.value)] := by
  have hwhole : ';' ∉ ' ' :: p.written := by
    simp only [written, List.mem_cons, List.mem_append, List.not_mem_nil, or_false, not_or]
    exact ⟨by decide, p.not_mem_name (by decide), by decide, by decide, h, by decide⟩
  rw [Parameter.read, Text.pieces_of_not_mem hwhole, Parameter.written, List.filterMap_cons,
    p.parameter?_name, unquote_trim p.unquoted.1, List.filterMap_nil]

/-- Of any other parameter only the name is sure to be read back. -/
theorem Parameter.read_of_cut {p : Parameter} {front behind : List Char}
    (hvalue : p.value = front ++ ';' :: behind) (hfront : ';' ∉ front) :
    p.read = (p.name, HeaderLink.unquote (HeaderLink.trim ('"' :: front)))
      :: (Text.pieces ';' (behind ++ ['"'])).filterMap HeaderLink.parameter? := by
  have hpiece : ';' ∉ ' ' :: (p.name ++ '=' :: '"' :: front) := by
    simp only [List.mem_cons, List.mem_append, not_or]
    exact ⟨by decide, p.not_mem_name (by decide), by decide, by decide, hfront⟩
  have hwritten : ' ' :: p.written
      = ' ' :: (p.name ++ '=' :: '"' :: front) ++ ';' :: (behind ++ ['"']) := by
    rw [Parameter.written, hvalue]
    simp only [List.append_assoc, List.cons_append]
  rw [Parameter.read, hwritten, Text.pieces_cut hpiece, List.filterMap_cons, p.parameter?_name]

/-- Without an equals sign there is no parameter. -/
theorem filterMap_parameter?_of_not_mem {cs : List Char} (h : '=' ∉ cs) :
    (Text.pieces ';' cs).filterMap HeaderLink.parameter? = [] := by
  rw [List.filterMap_eq_nil_iff]
  intro piece hpiece
  have hequals : '=' ∉ piece := fun hmem => h (Text.mem_of_mem_pieces hpiece hmem)
  rw [HeaderLink.parameter?, Text.cutFirst?_eq_none_iff.2 hequals, Option.map_none]

theorem Parameter.any_read {p : Parameter} (h : p.Harmless) (word : String) (hword : word ≠ "") :
    p.read.any (fun parameter => Text.sameIgnoringCase (String.ofList parameter.1) "rel"
        && (HeaderLink.words parameter.2).any
          (fun listed => Text.sameIgnoringCase (String.ofList listed) word))
      = decide (p.NamesRelations ∧ Lists p.value word) := by
  have hname : Text.sameIgnoringCase (String.ofList p.name) "rel" = decide p.NamesRelations :=
    Bool.eq_iff_iff.2 (decide_eq_true_iff (p := p.NamesRelations)).symm
  by_cases hmem : ';' ∈ p.value
  · obtain ⟨front, behind, hvalue, hfront⟩ := List.eq_append_cons_of_mem hmem
    obtain ⟨hrel, hequals⟩ := h front behind hvalue
    have hbehind : '=' ∉ behind ++ ['"'] := by
      rw [List.mem_append, not_or]
      exact ⟨hequals, by decide⟩
    rw [Parameter.read_of_cut hvalue hfront, filterMap_parameter?_of_not_mem hbehind,
      List.any_cons, List.any_nil, hname, decide_eq_false hrel, Bool.false_and, Bool.false_or]
    exact (decide_eq_false fun hboth => hrel hboth.1).symm
  · rw [Parameter.read_of_not_mem hmem, List.any_cons, List.any_nil, Bool.or_false, hname,
      HeaderLink.any_words p.value hword, Bool.decide_and]

theorem isDescribedBy_read {l : WebLink} (h : ∀ p ∈ l.parameters, p.Harmless) :
    l.read.isDescribedBy = decide l.Describes := by
  rw [HeaderLink.isDescribedBy, read, List.any_flatMap, Bool.eq_iff_iff, List.any_eq_true,
    decide_eq_true_iff, Describes]
  refine exists_congr fun p => and_congr_right fun hp => ?_
  rw [← decide_eq_true_iff (p := _ ∧ _), ← Parameter.any_read (h p hp) "describedby" (by decide)]

/-! ### Headers read back -/

theorem trim_written (l : WebLink) : HeaderLink.trim l.written = l.written := by
  have hopen : Unicode.isWhitespace '<' = false := by decide
  have hclose : Unicode.isWhitespace '>' = false := by decide
  rcases List.eq_nil_or_concat l.parameters with hnil | ⟨before, p, hlast⟩
  · rw [written, hnil, List.flatMap_nil, HeaderLink.trim, Text.trim_enclosed hopen hclose]
  · have hwritten : l.written = '<' :: ((l.target
        ++ '>' :: (before.flatMap (fun p => ';' :: ' ' :: p.written)
          ++ ';' :: ' ' :: (p.name ++ '=' :: '"' :: p.value))) ++ ['"']) := by
      rw [written, hlast, List.concat_eq_append, List.flatMap_append, List.flatMap_singleton,
        Parameter.written]
      simp only [List.append_assoc, List.cons_append]
    rw [hwritten, HeaderLink.trim, Text.trim_enclosed hopen isWhitespace_quote]

theorem parse?_of_trim {l : WebLink} {cs : List Char} (h : HeaderLink.trim cs = l.written) :
    HeaderLink.parse? cs = some l.read := by
  have hpieces : Text.pieces ';' (l.parameters.flatMap (fun p => ';' :: ' ' :: p.written))
      = [] :: l.parameters.flatMap (fun p => Text.pieces ';' (' ' :: p.written)) :=
    Text.pieces_append_flatMap (fun p => ' ' :: Parameter.written p) l.parameters []
  have hnone : HeaderLink.parameter? [] = none := rfl
  rw [HeaderLink.parse?, h, written]
  simp only [Text.cutFirst?_append l.unbracketed.2, Option.map_some, hpieces,
    List.filterMap_cons_none hnone, List.filterMap_flatMap]
  rfl

theorem filterMap_parse?_header (links : List WebLink) :
    (HeaderLink.splitLinks false false (header links).toList).filterMap HeaderLink.parse?
      = links.map read := by
  rw [header, String.toList_ofList]
  cases links with
  | nil => rfl
  | cons first more =>
      have hcarried : ∀ text ∈ first.written :: more.map written,
          HeaderLink.Carries false false text false false := by
        rw [← List.map_cons]
        intro text htext
        obtain ⟨l, -, rfl⟩ := List.mem_map.1 htext
        exact HeaderLink.carries_written l
      have hblank : ∀ l : WebLink, HeaderLink.parse? (' ' :: l.written) = some l.read := by
        intro l
        refine parse?_of_trim ?_
        rw [HeaderLink.trim, Text.trim_cons_of_dropped isWhitespace_blank]
        exact trim_written l
      rw [List.map_cons, HeaderLink.splitLinks_intercalate hcarried,
        List.filterMap_cons_some (parse?_of_trim (trim_written first)), List.map_map,
        List.filterMap_map, List.map_cons]
      congr 1
      rw [← List.filterMap_eq_map]
      congr 1
      funext l
      exact hblank l

end WebLink

namespace Headers

variable {h : Headers} {groups : List (List WebLink)}

/-- Whatever stands in quotes, as many links are read as were written, and with their targets. -/
theorem links_written (hlinks : h.getAll "link" = groups.map WebLink.header) :
    h.links = groups.flatten.map WebLink.read := by
  rw [links, hlinks, List.flatMap_map, List.map_flatten, List.flatMap_def]
  congr 1
  exact List.map_congr_left fun links _ => WebLink.filterMap_parse?_header links

/-- What is taken in one by one unless it is there already is taken in once, where it is met
first. -/
theorem foldl_eq_eraseDups (uris found : List String) :
    uris.foldl (fun found uri => if found.contains uri then found else found ++ [uri]) found
      = found ++ (uris.filter (fun uri => !found.contains uri)).eraseDups := by
  induction uris generalizing found with
  | nil => rw [List.foldl_nil, List.filter_nil, List.eraseDups_nil, List.append_nil]
  | cons uri rest ih =>
      rw [List.foldl_cons, ih]
      cases huri : found.contains uri with
      | true => rw [if_pos rfl, List.filter_cons_of_neg (by rw [huri]; exact Bool.false_ne_true)]
      | false =>
          rw [if_neg Bool.false_ne_true, List.filter_cons_of_pos (by rw [huri]; rfl),
            List.eraseDups_cons, List.filter_filter, List.append_assoc, List.singleton_append]
          congr 4
          funext other
          rw [List.contains_eq_mem, List.contains_eq_mem]
          by_cases hmem : other ∈ found <;> by_cases heq : other = uri <;> simp [hmem, heq]

/-- The schemas of a document whose response has no content type are the targets of the links that
describe it. -/
theorem describedBy_written (url : String) (hlinks : h.getAll "link" = groups.map WebLink.header)
    (hcontent : h.get? "content-type" = none)
    (hharmless : ∀ l ∈ groups.flatten, ∀ p ∈ l.parameters, p.Harmless) :
    h.describedBy url
      = ((groups.flatten.filter (fun l => l.Describes)).map
          (fun l => SchemaUri.resolve url (String.ofList l.target))).eraseDups := by
  have hfilter : h.links.filter HeaderLink.isDescribedBy
      = (groups.flatten.filter (fun l => l.Describes)).map WebLink.read := by
    rw [links_written hlinks, List.filter_map]
    congr 1
    exact List.filter_congr fun l hl => WebLink.isDescribedBy_read (hharmless l hl)
  have hprofiles : h.profiles = [] := by rw [profiles, hcontent]
  rw [describedBy, hfilter, hprofiles, List.append_nil, List.map_map, List.map_map,
    foldl_eq_eraseDups, List.nil_append]
  congr 1
  exact List.filter_eq_self.2 fun _ _ => rfl

/-- A link to the schema `a,b`, with a comma, brackets and a semicolon in its title. -/
def titledLink : WebLink where
  target := "a,b".toList
  parameters :=
    [.ofStrings "title" "x, <y>; z" (by decide),
      .ofStrings "Rel" "alternate DescribedBy" (by decide)]
  unbracketed := by decide

def nextLink : WebLink where
  target := "c".toList
  parameters := [.ofStrings "rel" "next" (by decide)]
  unbracketed := by decide

def rootedLink : WebLink where
  target := "/d".toList
  parameters := [.ofStrings "rel" "describedby" (by decide)]
  unbracketed := by decide

def linking : Headers :=
  [("Link", "<a,b>; title=\"x, <y>; z\"; Rel=\"alternate DescribedBy\", <c>; rel=\"next\""),
    ("link", "</d>; rel=\"describedby\", "
      ++ "<a,b>; title=\"x, <y>; z\"; Rel=\"alternate DescribedBy\"")]

theorem describedBy_written_linking :
    linking.getAll "link"
        = [[titledLink, nextLink], [rootedLink, titledLink]].map WebLink.header
      ∧ linking.get? "content-type" = none
      ∧ (∀ l ∈ [[titledLink, nextLink], [rootedLink, titledLink]].flatten,
          ∀ p ∈ l.parameters, p.Harmless)
      ∧ linking.describedBy "http://x/s/d" = ["http://x/s/a,b", "http://x/d"] := by
  have hlinks : linking.getAll "link"
      = [[titledLink, nextLink], [rootedLink, titledLink]].map WebLink.header := by
    decide +kernel
  have hcontent : linking.get? "content-type" = none := by decide +kernel
  have hharmless : ∀ l ∈ [[titledLink, nextLink], [rootedLink, titledLink]].flatten,
      ∀ p ∈ l.parameters, p.Harmless := by
    decide +kernel
  refine ⟨hlinks, hcontent, hharmless, ?_⟩
  rw [describedBy_written "http://x/s/d" hlinks hcontent hharmless]
  decide +kernel

/-- A link to the schema `a`. Its other relation is a URI with a semicolon. -/
def dividedLink : WebLink where
  target := "a".toList
  parameters := [.ofStrings "rel" "http://x/r;1 describedby" (by decide)]
  unbracketed := by decide

/-- A link to the next document, with a title that tells of another relation. -/
def quotingLink : WebLink where
  target := "b".toList
  parameters :=
    [.ofStrings "rel" "next" (by decide),
      .ofStrings "title" "as in; rel=describedby" (by decide)]
  unbracketed := by decide

def quoting : Headers :=
  [("Link", "<a>; rel=\"http://x/r;1 describedby\", "
      ++ "<b>; rel=\"next\"; title=\"as in; rel=describedby\"")]

/-- The schema is lost, and the next document is taken for it. -/
theorem next_taken_for_schema :
    quoting.getAll "link" = [[dividedLink, quotingLink]].map WebLink.header
      ∧ quoting.get? "content-type" = none
      ∧ quoting.describedBy "http://x/d" = ["http://x/b"]
      ∧ (([[dividedLink, quotingLink]].flatten.filter (fun l => l.Describes)).map
            (fun l => SchemaUri.resolve "http://x/d" (String.ofList l.target))).eraseDups
          = ["http://x/a"] := by
  decide +kernel

end Headers

end HyperSchema
