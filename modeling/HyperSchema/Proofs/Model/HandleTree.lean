import HyperSchema.Model.Handles
import HyperSchema.Proofs.Pointer.Lineage
import HyperSchema.Proofs.Table

/-!
# The tree of handles

Every handle lists the handles right below it, each once, and has its parent registered. While a
lineage is being registered some handles are loose: they are there, but their parents do not list
them yet. A walk from the root visits every handle below the root exactly once.
-/

namespace HyperSchema

namespace Handles

open Table (get? has)

variable {h : Handles} {path parent : String} {handle : Handle} {loose : List String}

/-- Handles form a tree, but for loose ones that their parents do not list yet. -/
structure TreeBut (loose : List String) (h : Handles) : Prop where
  distinct : Table.Distinct h
  children : ∀ {path handle}, get? h path = some handle → ∀ c,
    c ∈ handle.children ↔ has h c = true ∧ Pointer.parent? c = some path ∧ c ∉ loose
  nodup : ∀ {path handle}, get? h path = some handle → handle.children.Nodup
  closed : ∀ {c p}, has h c = true → c ∉ loose → Pointer.parent? c = some p → has h p = true

abbrev Tree (h : Handles) : Prop := TreeBut [] h

theorem has_insert (h : Handles) (path : String) (handle : Handle) (x : String) :
    has (Table.insert h path handle) x = true ↔ x = path ∨ has h x = true := by
  rw [has, has, Table.get?_insert]
  by_cases hx : x = path
  · rw [if_pos hx]
    exact iff_of_true rfl (.inl hx)
  · rw [if_neg hx]
    exact (or_iff_right hx).symm

theorem has_insert_of_get? (hget : get? h path = some handle) (handle' : Handle) (x : String) :
    has (Table.insert h path handle') x = has h x := by
  rw [Bool.eq_iff_iff, has_insert, or_iff_right_of_imp]
  intro heq
  subst heq
  rw [has, hget]
  rfl

theorem listeners_of_get? (hget : get? h path = some handle) :
    h.listeners path = handle.listeners := by
  rw [listeners, hget]

theorem listeners_of_fresh (hfresh : get? h path = none) : h.listeners path = [] := by
  rw [listeners, hfresh]

theorem listeners_insert (h : Handles) (path : String) (handle : Handle) (x : String) :
    listeners (Table.insert h path handle) x
      = if x = path then handle.listeners else h.listeners x := by
  rw [listeners, listeners, Table.get?_insert]
  by_cases hx : x = path
  · rw [if_pos hx, if_pos hx]
  · rw [if_neg hx, if_neg hx]

/-! ### Registering a handle -/

namespace TreeBut

theorem insert (htree : TreeBut loose h) (hfresh : get? h path = none) :
    TreeBut (path :: loose) (Table.insert h path ⟨[], []⟩) := by
  have hnew : has h path = false := by rw [has, hfresh]; rfl
  have hold : ∀ {c}, has (Table.insert h path ⟨[], []⟩) c = true → c ∉ path :: loose →
      has h c = true ∧ c ∉ loose := by
    intro c hc hnot
    rw [List.mem_cons, not_or] at hnot
    exact ⟨((has_insert _ _ _ _).1 hc).resolve_left hnot.1, hnot.2⟩
  refine ⟨htree.distinct.insert _ _, ?_, ?_, ?_⟩
  · intro x handle hget c
    rw [Table.get?_insert] at hget
    split at hget
    · next hx =>
      obtain rfl := Option.some.inj hget
      apply iff_of_false List.not_mem_nil
      intro h
      obtain ⟨hc, hparent, hnot⟩ := h
      obtain ⟨hc, hnot⟩ := hold hc hnot
      have hthere := htree.closed hc hnot hparent
      rw [hx, hnew] at hthere
      cases hthere
    · rw [htree.children hget c]
      constructor
      · intro h
        obtain ⟨hc, hparent, hnot⟩ := h
        refine ⟨(has_insert _ _ _ _).2 (.inr hc), hparent, ?_⟩
        rw [List.mem_cons, not_or]
        refine ⟨?_, hnot⟩
        intro heq
        subst heq
        rw [hnew] at hc
        cases hc
      · intro h
        obtain ⟨hc, hparent, hnot⟩ := h
        obtain ⟨hc, hnot⟩ := hold hc hnot
        exact ⟨hc, hparent, hnot⟩
  · intro x handle hget
    rw [Table.get?_insert] at hget
    split at hget
    · obtain rfl := Option.some.inj hget
      exact List.nodup_nil
    · exact htree.nodup hget
  · intro c p hc hnot hparent
    obtain ⟨hc, hnot⟩ := hold hc hnot
    exact (has_insert _ _ _ _).2 (.inr (htree.closed hc hnot hparent))

/-- A topmost handle is never loose. -/
theorem of_top (htree : TreeBut (path :: loose) h) (htop : Pointer.parent? path = none) :
    TreeBut loose h := by
  have hloose : ∀ {c p}, Pointer.parent? c = some p → (c ∉ path :: loose ↔ c ∉ loose) := by
    intro c p hparent
    rw [List.mem_cons, not_or, and_iff_right]
    intro heq
    subst heq
    rw [htop] at hparent
    cases hparent
  refine ⟨htree.distinct, fun hget c => ?_, htree.nodup, fun hc hnot hparent => ?_⟩
  · rw [htree.children hget c]
    exact and_congr_right' (and_congr_right fun hparent => hloose hparent)
  · exact htree.closed hc ((hloose hparent).2 hnot) hparent

theorem addChild (htree : TreeBut (path :: loose) h) (hthere : has h path = true)
    (hloose : path ∉ loose) (hparent : Pointer.parent? path = some parent)
    (hget : get? h parent = some handle) : TreeBut loose (addChild h parent path) := by
  have hadd : Handles.addChild h parent path
      = Table.insert h parent { handle with children := handle.children ++ [path] } := by
    rw [Handles.addChild, hget]
  have hsplit : ∀ {c}, c ∉ loose ↔ c = path ∨ c ∉ path :: loose := by
    intro c
    rw [List.mem_cons, not_or]
    by_cases hc : c = path
    · exact iff_of_true (hc ▸ hloose) (.inl hc)
    · exact ⟨fun hnot => .inr ⟨hc, hnot⟩, fun hnot => (hnot.resolve_left hc).2⟩
  rw [hadd]
  refine ⟨htree.distinct.insert _ _, ?_, ?_, ?_⟩
  · intro x handle' hget' c
    rw [has_insert_of_get? hget]
    rw [Table.get?_insert] at hget'
    split at hget'
    · next hx =>
      obtain rfl := Option.some.inj hget'
      rw [List.mem_append, List.mem_singleton, htree.children hget c, hx, hsplit]
      constructor
      · intro h
        rcases h with ⟨hc, hp, hnot⟩ | rfl
        · exact ⟨hc, hp, .inr hnot⟩
        · exact ⟨hthere, hparent, .inl rfl⟩
      · intro h
        obtain ⟨hc, hp, rfl | hnot⟩ := h
        · exact .inr rfl
        · exact .inl ⟨hc, hp, hnot⟩
    · next hx =>
      rw [htree.children hget' c, hsplit]
      refine and_congr_right' (and_congr_right fun hp => (or_iff_right ?_).symm)
      intro heq
      subst heq
      rw [hparent] at hp
      exact hx (Option.some.inj hp).symm
  · intro x handle' hget'
    rw [Table.get?_insert] at hget'
    split at hget'
    · obtain rfl := Option.some.inj hget'
      refine List.nodup_append.2 ⟨htree.nodup hget, List.nodup_singleton _, fun c hc d hd => ?_⟩
      obtain rfl := List.mem_singleton.1 hd
      intro heq
      subst heq
      exact ((htree.children hget c).1 hc).2.2 List.mem_cons_self
    · exact htree.nodup hget'
  · intro c p hc hnot hp
    rw [has_insert_of_get? hget] at hc ⊢
    rcases hsplit.1 hnot with rfl | hnot
    · rw [hparent] at hp
      obtain rfl := Option.some.inj hp
      rw [has, hget]
      rfl
    · exact htree.closed hc hnot hp

theorem setListeners (htree : TreeBut loose h) (hget : get? h path = some handle)
    (ls : List Listener) :
    TreeBut loose (Table.insert h path { handle with listeners := ls }) := by
  have hbefore : ∀ {x handle'},
      get? (Table.insert h path { handle with listeners := ls }) x = some handle' →
        ∃ before, get? h x = some before ∧ before.children = handle'.children := by
    intro x handle' hget'
    rw [Table.get?_insert] at hget'
    split at hget'
    · next hx =>
      obtain rfl := Option.some.inj hget'
      exact ⟨handle, hx ▸ hget, rfl⟩
    · exact ⟨handle', hget', rfl⟩
  refine ⟨htree.distinct.insert _ _, fun hget' c => ?_, fun hget' => ?_, fun hc hnot hp => ?_⟩
  · obtain ⟨before, hbefore, heq⟩ := hbefore hget'
    rw [has_insert_of_get? hget, ← heq]
    exact htree.children hbefore c
  · obtain ⟨before, hbefore, heq⟩ := hbefore hget'
    rw [← heq]
    exact htree.nodup hbefore
  · rw [has_insert_of_get? hget] at hc ⊢
    exact htree.closed hc hnot hp

end TreeBut

/-- What registering a lineage does: the tree is a tree again, with the path in it, and nobody has
stopped or begun to listen. -/
structure Registers (loose : List String) (h h' : Handles) (path : String) : Prop where
  tree : TreeBut loose h'
  registered : has h' path = true
  kept : ∀ x, has h x = true → has h' x = true
  listeners : ∀ x, h'.listeners x = h.listeners x

theorem registers_of_has (htree : TreeBut loose h) (hthere : has h path = true) :
    Registers loose h h path := ⟨htree, hthere, fun _ hx => hx, fun _ => rfl⟩

theorem listeners_insert_fresh (hfresh : get? h path = none) (x : String) :
    listeners (Table.insert h path ⟨[], []⟩) x = h.listeners x := by
  rw [listeners_insert]
  split
  · next hx => rw [hx, listeners_of_fresh hfresh]
  · rfl

theorem listeners_addChild (h : Handles) (parent child x : String) :
    (addChild h parent child).listeners x = h.listeners x := by
  rw [addChild]
  split
  · next handle hget =>
    rw [listeners_insert]
    split
    · next hx => rw [hx, listeners_of_get? hget]
    · rfl
  · rfl

theorem has_addChild (h : Handles) (parent child x : String) :
    has (addChild h parent child) x = has h x := by
  rw [addChild]
  split
  · next handle hget => exact has_insert_of_get? hget _ x
  · rfl

theorem registers_lineage {rest : List String} (hascends : Pointer.Ascends (path :: rest))
    (htree : TreeBut loose h) (hfree : ∀ x ∈ path :: rest, x ∉ loose) :
    Registers loose h (registerLineage h (path :: rest)) path := by
  generalize hpaths : path :: rest = paths at hascends hfree ⊢
  induction hascends generalizing path rest h loose with
  | @top top htop =>
      obtain ⟨rfl, rfl⟩ := List.cons.inj hpaths
      rw [registerLineage]
      split
      · next hthere => exact registers_of_has htree hthere
      · next hnot =>
        have hfresh := Table.get?_eq_none_of_not_has hnot
        refine ⟨(htree.insert hfresh).of_top htop, (has_insert _ _ _ _).2 (.inl rfl),
          fun x hx => (has_insert _ _ _ _).2 (.inr hx), listeners_insert_fresh hfresh⟩
  | @next first parent above hparent habove ih =>
      obtain ⟨rfl, rfl⟩ := List.cons.inj hpaths
      rw [registerLineage]
      split
      · next hthere => exact registers_of_has htree hthere
      · next hnot =>
        have hfresh := Table.get?_eq_none_of_not_has hnot
        -- the path itself is loose while its lineage is registered
        have hfree' : ∀ x ∈ parent :: above, x ∉ path :: loose := by
          intro x hx
          rw [List.mem_cons, not_or]
          refine ⟨?_, hfree x (List.mem_cons_of_mem _ hx)⟩
          intro heq
          subst heq
          exact Nat.lt_irrefl _ ((Pointer.Ascends.next hparent habove).length_lt x hx)
        obtain ⟨htree', hthere', hkept, hlisteners⟩ := ih (htree.insert hfresh) rfl hfree'
        obtain ⟨handle, hget⟩ := Option.isSome_iff_exists.1 hthere'
        have hpath : has (registerLineage (Table.insert h path ⟨[], []⟩) (parent :: above)) path
            = true := hkept path ((has_insert _ _ _ _).2 (.inl rfl))
        refine ⟨htree'.addChild hpath (hfree path List.mem_cons_self) hparent hget, ?_, ?_, ?_⟩
        · rw [has_addChild]
          exact hpath
        · intro x hx
          rw [has_addChild]
          exact hkept x ((has_insert _ _ _ _).2 (.inr hx))
        · intro x
          rw [listeners_addChild, hlisteners, listeners_insert_fresh hfresh]

theorem registers_register (htree : Tree h) (path : String) :
    Registers [] h (h.register path) path := by
  obtain ⟨rest, hlineage, hascends⟩ := Pointer.ascends_lineage path
  rw [register, hlineage]
  exact registers_lineage hascends htree (fun _ _ => List.not_mem_nil)

theorem tree_nil : Tree [] :=
  ⟨List.nodup_nil, fun hget => (nomatch hget), fun hget => (nomatch hget), fun hc => (nomatch hc)⟩

/-! ### Listening -/

theorem registers_subscribe (htree : Tree h) (path : String) (l : Listener) :
    Tree (h.subscribe path l) ∧ (∀ x, x = path ∨ has h x = true → has (h.subscribe path l) x = true)
      ∧ ∀ x, (h.subscribe path l).listeners x
        = if x = path then h.listeners x ++ [l] else h.listeners x := by
  have hregisters := registers_register htree path
  obtain ⟨handle, hget⟩ := Option.isSome_iff_exists.1 hregisters.registered
  rw [subscribe, hget]
  dsimp only
  refine ⟨hregisters.tree.setListeners hget _,
    fun x hx => (has_insert _ _ _ _).2 (hx.imp_right (hregisters.kept x)), fun x => ?_⟩
  rw [listeners_insert, hregisters.listeners]
  split
  · next hx => rw [hx, ← hregisters.listeners, listeners_of_get? hget]
  · rfl

theorem tree_unsubscribe (htree : Tree h) (path : String) (number : Nat) :
    Tree (h.unsubscribe path number) ∧ (∀ x, has (h.unsubscribe path number) x = has h x)
      ∧ ∀ x, (h.unsubscribe path number).listeners x
        = if x = path then (h.listeners x).filter (fun l => l.number ≠ number)
          else h.listeners x := by
  rw [unsubscribe]
  cases hget : get? h path with
  | none =>
      refine ⟨htree, fun _ => rfl, fun x => ?_⟩
      dsimp only
      split
      · next hx =>
        rw [hx, listeners_of_fresh hget]
        rfl
      · rfl
  | some handle =>
      refine ⟨htree.setListeners hget _, fun x => has_insert_of_get? hget _ x, fun x => ?_⟩
      dsimp only
      rw [listeners_insert]
      split
      · next hx => rw [hx, listeners_of_get? hget]
      · rfl

/-! ### Walking from the root -/

/-- What a walk visits until its stack is empty. A path on top that is a handle gives way to the
children of the handle, and any other to nothing. -/
inductive Walks (h : Handles) : List String → List String → Prop where
  | done : Walks h [] []
  | visit {path : String} {handle : Handle} {stack order : List String}
      (hget : get? h path = some handle) (hrest : Walks h (handle.children ++ stack) order) :
      Walks h (path :: stack) (path :: order)
  | skip {path : String} {stack order : List String} (hget : get? h path = none)
      (hrest : Walks h stack order) : Walks h (path :: stack) order

/-- What has been seen on a walk from the root, and what is on the stack. -/
structure Visiting (h : Handles) (seen stack : List String) : Prop where
  root : "" ∈ seen ++ stack
  nodup : (seen ++ stack).Nodup
  registered : ∀ p ∈ seen ++ stack, has h p = true
  above : ∀ p ∈ seen ++ stack, p = "" ∨ ∃ q ∈ seen, Pointer.parent? p = some q
  below : ∀ q ∈ seen, ∀ c, has h c = true → Pointer.parent? c = some q → c ∈ seen ++ stack

namespace Visiting

variable {seen stack : List String}

theorem length_le (hvisiting : Visiting h seen stack) : (seen ++ stack).length ≤ h.length := by
  rw [← List.length_map Prod.fst]
  apply hvisiting.nodup.length_le_of_subset
  intro p hp
  have hthere := hvisiting.registered p hp
  rw [has, Option.isSome_iff_ne_none, Ne, Table.get?_eq_none_iff, not_not] at hthere
  exact hthere

/-- A handle that is visited gives way to its children, none of which has been met before. -/
theorem visit (htree : Tree h) (hvisiting : Visiting h seen (path :: stack))
    (hget : get? h path = some handle) :
    Visiting h (seen ++ [path]) (handle.children ++ stack) := by
  have hchildren : ∀ c, c ∈ handle.children ↔ has h c = true ∧ Pointer.parent? c = some path := by
    intro c
    rw [htree.children hget c]
    exact and_congr_right' (and_iff_left List.not_mem_nil)
  have hmem : ∀ c, c ∈ seen ++ [path] ++ (handle.children ++ stack)
      ↔ c ∈ handle.children ∨ c ∈ seen ++ path :: stack := by
    intro c
    simp only [List.mem_append, List.mem_cons, List.not_mem_nil, or_false]
    constructor
    · rintro ((hc | hc) | hc | hc) <;> simp [hc]
    · rintro (hc | hc | hc | hc) <;> simp [hc]
  have hpath : path ∉ seen := fun hseen =>
    (List.nodup_append.1 hvisiting.nodup).2.2 path hseen path List.mem_cons_self rfl
  have hfresh : ∀ c ∈ handle.children, c ∉ seen ++ path :: stack := by
    intro c hc hthere
    have hparent := ((hchildren c).1 hc).2
    rcases hvisiting.above c hthere with rfl | ⟨q, hq, hparent'⟩
    · cases hparent
    · rw [hparent] at hparent'
      obtain rfl := Option.some.inj hparent'
      exact hpath hq
  refine ⟨(hmem _).2 (.inr hvisiting.root), ?_, ?_, ?_, ?_⟩
  · have hperm : (handle.children ++ (seen ++ path :: stack)).Perm
        (seen ++ [path] ++ (handle.children ++ stack)) := by
      rw [List.append_assoc, List.singleton_append]
      refine List.perm_append_comm_assoc _ _ _ |>.trans (List.Perm.append_left seen ?_)
      exact List.perm_middle
    refine hperm.nodup (List.nodup_append.2 ⟨htree.nodup hget, hvisiting.nodup, ?_⟩)
    intro c hc d hd heq
    subst heq
    exact hfresh c hc hd
  · intro p hp
    rcases (hmem p).1 hp with hp | hp
    · exact ((hchildren p).1 hp).1
    · exact hvisiting.registered p hp
  · intro p hp
    rcases (hmem p).1 hp with hp | hp
    · exact .inr ⟨path, List.mem_append_right _ (List.mem_singleton_self _), ((hchildren p).1 hp).2⟩
    · rcases hvisiting.above p hp with hroot | ⟨q, hq, hparent⟩
      · exact .inl hroot
      · exact .inr ⟨q, List.mem_append_left _ hq, hparent⟩
  · intro q hq c hc hparent
    rw [hmem]
    rcases List.mem_append.1 hq with hq | hq
    · exact .inr (hvisiting.below q hq c hc hparent)
    · obtain rfl := List.mem_singleton.1 hq
      exact .inl ((hchildren c).2 ⟨hc, hparent⟩)

/-- With enough steps a walk comes to its end, as every step is for a handle not seen before. -/
theorem walks (htree : Tree h) (bound : Nat) (hvisiting : Visiting h seen stack)
    (hbound : h.length < seen.length + bound) : Walks h stack (h.visit bound stack) := by
  induction bound generalizing seen stack with
  | zero =>
      have hlength := hvisiting.length_le
      rw [List.length_append] at hlength
      omega
  | succ bound ih =>
      cases stack with
      | nil =>
          rw [Handles.visit]
          · exact .done
          · exact Nat.succ_ne_zero bound
      | cons path stack =>
          obtain ⟨handle, hget⟩ := Option.isSome_iff_exists.1
            (hvisiting.registered path (List.mem_append_right _ List.mem_cons_self))
          have hnext := ih (hvisiting.visit htree hget) (by
            rw [List.length_append, List.length_singleton]
            omega)
          rw [Handles.visit, hget]
          exact .visit hget hnext

variable {order : List String}

theorem of_walks (htree : Tree h) (hvisiting : Visiting h seen stack)
    (hwalks : Walks h stack order) : Visiting h (seen ++ order) [] := by
  induction hwalks generalizing seen with
  | done => rwa [List.append_nil]
  | visit hget _ ih =>
      have hnext := ih (hvisiting.visit htree hget)
      rwa [List.append_assoc, List.singleton_append] at hnext
  | skip hget _ =>
      have hthere := hvisiting.registered _ (List.mem_append_right _ List.mem_cons_self)
      rw [has, hget] at hthere
      cases hthere

theorem complete (htree : Tree h) (bound : Nat) (hvisiting : Visiting h seen stack)
    (hbound : h.length < seen.length + bound) : Visiting h (seen ++ h.visit bound stack) [] :=
  hvisiting.of_walks htree (hvisiting.walks htree bound hbound)

/-- With a handle, all above it has been seen. -/
theorem lineage_subset {path : String} (hvisiting : Visiting h seen stack) (hseen : path ∈ seen) :
    Pointer.lineage path ⊆ seen := by
  rcases hvisiting.above path (List.mem_append_left _ hseen) with rfl | ⟨parent, hparent, hup⟩
  · rw [Pointer.lineage_of_parent?_eq_none rfl]
    exact List.cons_subset.2 ⟨hseen, List.nil_subset _⟩
  · have hlt := Pointer.length_parent?_lt hup
    rw [Pointer.lineage_of_parent? hup]
    exact List.cons_subset.2 ⟨hseen, lineage_subset hvisiting hparent⟩
termination_by path.length
decreasing_by exact hlt

/-- What comes after a handle has not been seen with it, and what is above the handle has. -/
theorem parents_first (htree : Tree h) (hvisiting : Visiting h seen stack)
    (hwalks : Walks h stack order) : order.Pairwise (fun a b => Pointer.isBelow a b = false) := by
  induction hwalks generalizing seen with
  | done => exact .nil
  | @visit path handle stack order hget hrest ih =>
      have hnext := hvisiting.visit htree hget
      have hnodup := (hnext.of_walks htree hrest).nodup
      rw [List.append_nil] at hnodup
      refine List.pairwise_cons.2 ⟨fun later hlater => ?_, ih hnext⟩
      refine Bool.eq_false_iff.2 fun hbelow => ?_
      have habove : later ∈ Pointer.lineage path :=
        Pointer.mem_lineage_iff.2 (Pointer.isWithin_iff.2 (.inr hbelow))
      have hseen := hnext.lineage_subset
        (List.mem_append_right _ (List.mem_singleton_self path)) habove
      exact (List.nodup_append.1 hnodup).2.2 later hseen later hlater rfl
  | skip hget _ =>
      have hthere := hvisiting.registered _ (List.mem_append_right _ List.mem_cons_self)
      rw [has, hget] at hthere
      cases hthere

end Visiting

theorem walk_of_fresh (hfresh : has h path = false) : h.walk path = [] := by
  rw [walk, visit, Table.get?_eq_none_of_not_has (Bool.eq_false_iff.1 hfresh)]
  dsimp only
  cases h <;> rfl

theorem has_root {path : String} (htree : Tree h) (hrooted : Pointer.Rooted path)
    (hthere : has h path = true) : has h "" = true := by
  rcases hrooted.rooted_parent with rfl | ⟨parent, hparent, hrooted'⟩
  · exact hthere
  · have hlt := Pointer.length_parent?_lt hparent
    exact has_root htree hrooted' (htree.closed hthere List.not_mem_nil hparent)
termination_by path.length
decreasing_by exact hlt

theorem visiting_walk (htree : Tree h) (hroot : has h "" = true) : Visiting h (h.walk "") [] := by
  have hstart : Visiting h [] [""] := by
    refine ⟨List.mem_singleton_self _, List.nodup_singleton _, ?_, ?_, fun _ hq => nomatch hq⟩
    · intro p hp
      obtain rfl := List.mem_singleton.1 hp
      exact hroot
    · exact fun p hp => .inl (List.mem_singleton.1 hp)
  exact hstart.complete htree (h.length + 1) (by
    rw [List.length_nil]
    omega)

theorem nodup_walk (htree : Tree h) : (h.walk "").Nodup := by
  cases hroot : has h "" with
  | true =>
      have hnodup := (visiting_walk htree hroot).nodup
      rwa [List.append_nil] at hnodup
  | false =>
      rw [walk_of_fresh hroot]
      exact List.nodup_nil

/-- A walk that has come to its end has been at every handle below the root. -/
theorem Visiting.mem_of_rooted {path : String} {seen : List String} (htree : Tree h)
    (hvisiting : Visiting h seen []) (hrooted : Pointer.Rooted path) (hthere : has h path = true) :
    path ∈ seen := by
  rcases hrooted.rooted_parent with rfl | ⟨parent, hparent, hrooted'⟩
  · have hroot := hvisiting.root
    rwa [List.append_nil] at hroot
  · have hlt := Pointer.length_parent?_lt hparent
    have hseen := mem_of_rooted htree hvisiting hrooted'
      (htree.closed hthere List.not_mem_nil hparent)
    have hmem := hvisiting.below parent hseen path hthere hparent
    rwa [List.append_nil] at hmem
termination_by path.length
decreasing_by exact hlt

theorem mem_walk {path : String} (htree : Tree h) (hrooted : Pointer.Rooted path)
    (hthere : has h path = true) : path ∈ h.walk "" :=
  (visiting_walk htree (has_root htree hrooted hthere)).mem_of_rooted htree hrooted hthere

end Handles

end HyperSchema
