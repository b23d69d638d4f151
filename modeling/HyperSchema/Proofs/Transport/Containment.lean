import HyperSchema.Proofs.SchemaUri
import HyperSchema.Proofs.Text.Cut
import HyperSchema.Transport.Directory
import Mathlib.Data.List.DropRight
import Mathlib.Data.Set.List

/-!
# No way out of a directory

A path is a list of components: the root directory if it begins with a slash, and what the pieces
between its slashes stand for. What a URL stands for is a path below the root of its directory, in
which names follow the components of the root and nothing else does: no second beginning, and
nothing that leads up. A URL that stands for no path is outside of the base, or asks for such a
thing.
-/

namespace HyperSchema

namespace FilePath

variable {front path : List Char}

/-- The root directory, the directory that a path is relative to, the one above, or a name. -/
inductive Component where
  | root
  | current
  | parent
  | name (text : List Char)
  deriving DecidableEq

/-- What a piece between slashes stands for; nothing if it is empty or a single dot. -/
def componentOf? (piece : List Char) : Option Component :=
  if piece = [] ∨ piece = ['.'] then none
  else if piece = ['.', '.'] then some .parent
  else some (.name piece)

def named (path : List Char) : List Component := (Text.pieces '/' path).filterMap componentOf?

/-- The components of a path. A single dot counts only at the beginning. -/
def components (path : List Char) : List Component :=
  if path.head? = some '/' then .root :: named path
  else if (Text.pieces '/' path).head? = some ['.'] then .current :: named path
  else named path

structure IsName (name : List Char) : Prop where
  nonempty : name ≠ []
  notCurrent : name ≠ ['.']
  notParent : name ≠ ['.', '.']
  noSlash : '/' ∉ name

theorem isName_of_mem_named {text : List Char} (h : .name text ∈ named path) : IsName text := by
  obtain ⟨piece, hpiece, htext⟩ := List.mem_filterMap.1 h
  rw [componentOf?] at htext
  split at htext
  · cases htext
  · next hsome =>
    split at htext
    · cases htext
    · next hparent =>
      rw [not_or] at hsome
      obtain rfl := Component.name.inj (Option.some.inj htext)
      exact ⟨hsome.1, hsome.2, hparent, Text.not_mem_of_mem_pieces hpiece⟩

theorem named_append_slash (front path : List Char) :
    named (front ++ '/' :: path) = named front ++ named path := by
  rw [named, Text.pieces_append_cons, List.filterMap_append]
  rfl

theorem head?_pieces_append_slash (front path : List Char) :
    (Text.pieces '/' (front ++ '/' :: path)).head? = (Text.pieces '/' front).head? := by
  rw [Text.pieces_append_cons]
  exact List.head?_append_of_ne_nil _ (Text.pieces_ne_nil '/' front)

/-- What follows a slash adds what its pieces stand for. -/
theorem components_append_slash (front path : List Char) :
    components (front ++ '/' :: path) = components (front ++ ['/']) ++ named path := by
  have hnamed : named (front ++ '/' :: path) = named (front ++ ['/']) ++ named path := by
    rw [named_append_slash, named_append_slash]
    exact congrArg (· ++ named path) (List.append_nil _).symm
  have hhead : (front ++ '/' :: path).head? = (front ++ ['/']).head? := by
    cases front <;> rfl
  rw [components, components, hnamed, hhead, head?_pieces_append_slash, head?_pieces_append_slash]
  split
  · rfl
  · split
    · rfl
    · rfl

/-- A slash at the end makes no difference. -/
theorem components_concat_slash (h : front ≠ []) :
    components (front ++ ['/']) = components front := by
  have hnamed : named (front ++ ['/']) = named front := by
    rw [named_append_slash]
    exact List.append_nil _
  rw [components, components, hnamed, head?_pieces_append_slash, List.head?_append_of_ne_nil _ h]

def OnlyNames (path : List Char) : Prop := ∀ c ∈ components path, ∃ text, c = .name text

theorem components_of_onlyNames (h : OnlyNames path) : components path = named path := by
  rw [OnlyNames, components] at h
  rw [components]
  split at h
  · obtain ⟨_, hroot⟩ := h .root List.mem_cons_self
    cases hroot
  · next hslash =>
    rw [if_neg hslash]
    split at h
    · obtain ⟨_, hcurrent⟩ := h .current List.mem_cons_self
      cases hcurrent
    · next hdot => rw [if_neg hdot]

theorem exists_names (h : OnlyNames path) :
    ∃ names : List (List Char),
      (∀ name ∈ names, IsName name) ∧ components path = names.map .name := by
  obtain ⟨names, hnames⟩ : components path ∈ Set.range (List.map Component.name) := by
    rw [Set.range_list_map]
    intro c hc
    obtain ⟨text, htext⟩ := h c hc
    exact ⟨text, htext.symm⟩
  refine ⟨names, fun name hname => ?_, hnames.symm⟩
  have hmem := List.mem_map_of_mem (f := Component.name) hname
  rw [hnames, components_of_onlyNames h] at hmem
  exact isName_of_mem_named hmem

theorem onlyNames_iff (hslash : path.head? ≠ some '/') :
    OnlyNames path ↔ (Text.pieces '/' path).head? ≠ some ['.']
      ∧ ['.', '.'] ∉ Text.pieces '/' path := by
  rw [OnlyNames, components, if_neg hslash]
  constructor
  · intro h
    split at h
    · obtain ⟨_, hcurrent⟩ := h .current List.mem_cons_self
      cases hcurrent
    · next hdot =>
      refine ⟨hdot, fun hparent => ?_⟩
      obtain ⟨_, htext⟩ := h .parent (List.mem_filterMap.2 ⟨['.', '.'], hparent, rfl⟩)
      cases htext
  · rintro ⟨hdot, hparent⟩
    rw [if_neg hdot]
    intro c hc
    obtain ⟨piece, hpiece, hcomponent⟩ := List.mem_filterMap.1 hc
    have hup : piece ≠ ['.', '.'] := fun heq => hparent (heq ▸ hpiece)
    rw [componentOf?, if_neg hup] at hcomponent
    split at hcomponent
    · cases hcomponent
    · exact ⟨piece, (Option.some.inj hcomponent).symm⟩

/-- A path that begins with no slash begins with its first piece that is not empty, if any. -/
theorem head?_filter_pieces (hslash : path.head? ≠ some '/') :
    ((Text.pieces '/' path).filter (fun name => !name.isEmpty)).head? = some ['.']
      ↔ (Text.pieces '/' path).head? = some ['.'] := by
  cases path with
  | nil => decide
  | cons c rest =>
      have hc : c ≠ '/' := fun heq => hslash (congrArg some heq)
      cases hrest : Text.pieces '/' rest with
      | nil => exact absurd hrest (Text.pieces_ne_nil '/' rest)
      | cons piece more =>
          rw [Text.pieces_cons_of_ne hc hrest, List.filter_cons_of_pos rfl, List.head?_cons,
            List.head?_cons]

end FilePath

namespace DirectoryTransport

open FilePath

variable {base root url : String} {path rest : List Char}

def stem (base : String) : List Char := base.toList.rdropWhile (· == '/')

def document (url : String) : List Char := url.toList.takeWhile (· != '#')

/-- What stands behind the stem of a base in the URLs that it is the beginning of: nothing, or a
slash and more. -/
def Follows (base url : String) (rest : List Char) : Prop :=
  document url = stem base ++ rest ∧ (rest = [] ∨ rest.head? = some '/')

theorem head?_trimStart_ne (rest : List Char) :
    (Text.trimStart (· == '/') rest).head? ≠ some '/' := by
  intro h
  have hnot := List.head?_dropWhile_not (· == '/') rest
  rw [Text.trimStart] at h
  rw [h] at hnot
  cases hnot

theorem refused_iff (hslash : path.head? ≠ some '/') :
    (((Text.pieces '/' path).filter (fun name => !name.isEmpty)).contains ['.', '.']
      || ((Text.pieces '/' path).filter (fun name => !name.isEmpty)).head? == some ['.']) = true
      ↔ ¬OnlyNames path := by
  have hparent : ['.', '.'] ∈ (Text.pieces '/' path).filter (fun name => !name.isEmpty)
      ↔ ['.', '.'] ∈ Text.pieces '/' path := List.mem_filter.trans (and_iff_left rfl)
  rw [Bool.or_eq_true, List.contains_iff_mem, beq_iff_eq, hparent, head?_filter_pieces hslash,
    onlyNames_iff hslash, not_and_or, not_not, not_not, or_comm]

theorem behind?_base_eq_some_iff :
    Text.behind? (new base root).base.toList (SchemaUri.base url).toList = some rest
      ↔ document url = stem base ++ rest := by
  rw [Text.behind?_eq_some_iff, SchemaUri.toList_base, new, String.toList_ofList]
  rfl

/-- What a URL stands for below the root: what follows the stem of the base, without the slashes in
front, if there are only names in it. -/
theorem relativePath?_eq_some_iff : (new base root).relativePath? url = some path
    ↔ ∃ rest, Follows base url rest ∧ path = Text.trimStart (· == '/') rest ∧ OnlyNames path := by
  have hstart : ∀ rest : List Char, (rest.isEmpty || rest.head? == some '/') = true
      ↔ rest = [] ∨ rest.head? = some '/' := by
    intro rest
    rw [Bool.or_eq_true, List.isEmpty_iff, beq_iff_eq]
  rw [relativePath?]
  constructor
  · intro h
    split at h
    · cases h
    · next rest hrest =>
      split at h
      · next hhead =>
        dsimp only at h
        split at h
        · cases h
        · next hnames =>
          obtain rfl := Option.some.inj h
          rw [refused_iff (head?_trimStart_ne rest), not_not] at hnames
          exact ⟨rest, ⟨behind?_base_eq_some_iff.1 hrest, (hstart rest).1 hhead⟩, rfl, hnames⟩
      · cases h
  · rintro ⟨rest, ⟨hdocument, hhead⟩, rfl, hnames⟩
    have hallowed := (refused_iff (head?_trimStart_ne rest)).not.2 (not_not.2 hnames)
    rw [behind?_base_eq_some_iff.2 hdocument]
    dsimp only
    rw [if_pos ((hstart rest).2 hhead), if_neg hallowed]

/-- A path of names below a root has the components of the root and these names. -/
theorem components_joinPath (root : String) (h : OnlyNames path) :
    components (joinPath root path).toList = components root.toList ++ components path := by
  rw [components_of_onlyNames h, joinPath]
  by_cases hempty : root = ""
  · have hbegin : (root.isEmpty || root.toList.getLast? == some '/') = true := by
      rw [hempty]
      rfl
    rw [if_pos hbegin, hempty, String.empty_append, String.toList_ofList,
      components_of_onlyNames h]
    rfl
  · have hne : root.toList ≠ [] := fun hnil => hempty (String.toList_eq_nil_iff.1 hnil)
    by_cases hlast : root.toList.getLast? = some '/'
    · obtain ⟨front, hfront⟩ := List.getLast?_eq_some_iff.1 hlast
      have hbegin : (root.isEmpty || root.toList.getLast? == some '/') = true := by
        rw [hlast, Bool.or_eq_true]
        exact .inr rfl
      rw [if_pos hbegin, String.toList_append, String.toList_ofList, hfront, List.append_assoc,
        List.singleton_append, components_append_slash]
    · have hbegin : ¬(root.isEmpty || root.toList.getLast? == some '/') = true := by
        rw [Bool.or_eq_true, beq_iff_eq, String.isEmpty_iff, not_or]
        exact ⟨hempty, hlast⟩
      have hchars : (root ++ "/" ++ String.ofList path).toList = root.toList ++ '/' :: path := by
        rw [String.toList_append, String.toList_append, String.toList_ofList, String.toList_ofList,
          List.append_assoc, List.singleton_append]
      rw [if_neg hbegin, hchars, components_append_slash, components_concat_slash hne]

/-- The path that a URL stands for is the root with names behind it. A URL stands for none if it is
no URL of the base or has something else than names behind it, and for no other reason. -/
theorem localPath?_contained (base root url : String) :
    (∀ p, (new base root).localPath? url = some p →
        ∃ (rest : List Char) (names : List (List Char)), Follows base url rest
        ∧ (∀ name ∈ names, IsName name)
        ∧ components (Text.trimStart (· == '/') rest) = names.map .name
        ∧ components p.toList = components root.toList ++ names.map .name)
      ∧ ((new base root).localPath? url = none
        ↔ ∀ rest, Follows base url rest → ¬OnlyNames (Text.trimStart (· == '/') rest)) := by
  constructor
  · intro p hp
    obtain ⟨path, hpath, rfl⟩ := Option.map_eq_some_iff.1 hp
    obtain ⟨rest, hfollows, rfl, hnames⟩ := relativePath?_eq_some_iff.1 hpath
    obtain ⟨names, hordinary, hcomponents⟩ := exists_names hnames
    refine ⟨rest, names, hfollows, hordinary, hcomponents, ?_⟩
    rw [← hcomponents]
    exact components_joinPath root hnames
  · rw [localPath?, Option.map_eq_none_iff, Option.eq_none_iff_forall_ne_some]
    constructor
    · intro h rest hfollows hnames
      exact h _ (relativePath?_eq_some_iff.2 ⟨rest, hfollows, rfl, hnames⟩)
    · intro h path hpath
      obtain ⟨rest, hfollows, rfl, hnames⟩ := relativePath?_eq_some_iff.1 hpath
      exact h rest hfollows hnames

/-- Slashes at the end of the base, between names and behind them, a dot, and a fragment with dots
in it. -/
theorem localPath?_contained_scattered :
    (new "http://x/s//" "/srv/").localPath? "http://x/s///a/./b//#/../.." = some "/srv/a/./b//"
      ∧ ∃ (rest : List Char) (names : List (List Char)),
        Follows "http://x/s//" "http://x/s///a/./b//#/../.." rest
        ∧ (∀ name ∈ names, IsName name)
        ∧ components (Text.trimStart (· == '/') rest) = names.map .name
        ∧ components "/srv/a/./b//".toList = components "/srv/".toList ++ names.map .name := by
  have hpath : (new "http://x/s//" "/srv/").localPath? "http://x/s///a/./b//#/../.."
      = some "/srv/a/./b//" := by decide +kernel
  exact ⟨hpath, (localPath?_contained _ _ _).1 _ hpath⟩

example : (new "http://x/s" "/srv").localPath? "http://x/s/a/../../b" = none := by decide +kernel

end DirectoryTransport

end HyperSchema
