import HyperSchema.Proofs.Model.SchemaChanges
import HyperSchema.Proofs.Model.Walks

/-!
# The handles of a model

Handles are registered in any order of depth, and each is put in before what is above it. So in the
middle of it a handle may be without its parent; when it is done, all hang together in one tree
below the root, and a walk from any of them comes to what is below it.
-/

namespace HyperSchema

namespace Handles

open Table (get? has)

variable {h : Handles} {path : String}

def listed (h : Handles) : List String := h.flatMap (fun e => e.2.children)

/-- One tree below the root: with every handle its parent is registered, which lists it once, and
nobody lists anything else. -/
structure OneTree (h : Handles) : Prop where
  rooted : ∀ path, has h path = true → Pointer.Rooted path
  closed : ∀ path parent, has h path = true → Pointer.parent? path = some parent →
    has h parent = true
  byParent : ∀ path, has h path = true → path ≠ "" →
    ∃ parent handle, Pointer.parent? path = some parent ∧ get? h parent = some handle
      ∧ path ∈ handle.children
  once : ∀ path, has h path = true → path ≠ "" → h.listed.count path = 1
  noOthers : ∀ path ∈ h.listed, has h path = true ∧ path ≠ ""

/-- The handles at and below a path in an order in which each stands once and behind its parent;
there are none if the path is not a handle itself. -/
structure Preorder (h : Handles) (start : String) (order : List String) : Prop where
  mem_iff : ∀ path, path ∈ order
    ↔ has h start = true ∧ has h path = true ∧ Pointer.isWithin path start = true
  nodup : order.Nodup
  afterParent : ∀ path ∈ order, path ≠ start → ∃ parent front back,
    Pointer.parent? path = some parent ∧ order = front ++ path :: back ∧ parent ∈ front
  absent : has h start = false → order = []

theorem mem_listed_iff (htree : Tree h) :
    path ∈ h.listed ↔ has h path = true ∧ ∃ parent, Pointer.parent? path = some parent := by
  rw [listed, List.mem_flatMap]
  constructor
  · rintro ⟨⟨parent, handle⟩, hentry, hchild⟩
    have hget := Table.get?_of_mem htree.distinct hentry
    obtain ⟨hthere, hparent, -⟩ := (htree.children hget path).1 hchild
    exact ⟨hthere, parent, hparent⟩
  · rintro ⟨hthere, parent, hparent⟩
    have hregistered := htree.closed hthere List.not_mem_nil hparent
    obtain ⟨handle, hget⟩ := Option.isSome_iff_exists.1 hregistered
    exact ⟨(parent, handle), Table.mem_of_get? hget,
      (htree.children hget path).2 ⟨hthere, hparent, List.not_mem_nil⟩⟩

theorem nodup_listed (htree : Tree h) : h.listed.Nodup := by
  rw [listed, List.nodup_flatMap]
  have hget : ∀ e ∈ h, get? h e.1 = some e.2 := fun e he => Table.get?_of_mem htree.distinct he
  refine ⟨fun e he => htree.nodup (hget e he), ?_⟩
  have hdistinct : h.Pairwise (fun a b => a.1 ≠ b.1) := List.pairwise_map.1 htree.distinct
  refine hdistinct.imp_of_mem fun {a b} ha hb hne => ?_
  rintro path hpath hpath'
  have hparent := ((htree.children (hget a ha) path).1 hpath).2.1
  have hparent' := ((htree.children (hget b hb) path).1 hpath').2.1
  rw [hparent] at hparent'
  exact hne (Option.some.inj hparent')

section

variable (htree : Tree h) (hrooted : ∀ path, has h path = true → Pointer.Rooted path)

include htree hrooted

theorem oneTree_of_tree : OneTree h := by
  have hparent : ∀ path, has h path = true → path ≠ "" →
      ∃ parent, Pointer.parent? path = some parent := by
    intro path hthere hne
    obtain ⟨parent, hparent, -⟩ := (hrooted path hthere).rooted_parent.resolve_left hne
    exact ⟨parent, hparent⟩
  refine ⟨hrooted, fun path parent hthere => htree.closed hthere List.not_mem_nil,
    fun path hthere hne => ?_, fun path hthere hne => ?_, fun path hlisted => ?_⟩
  · obtain ⟨parent, hparent⟩ := hparent path hthere hne
    obtain ⟨handle, hget⟩ := Option.isSome_iff_exists.1
      (htree.closed hthere List.not_mem_nil hparent)
    exact ⟨parent, handle, hparent, hget,
      (htree.children hget path).2 ⟨hthere, hparent, List.not_mem_nil⟩⟩
  · exact List.count_eq_one_of_mem (nodup_listed htree)
      ((mem_listed_iff htree).2 ⟨hthere, hparent path hthere hne⟩)
  · obtain ⟨hthere, parent, hparent⟩ := (mem_listed_iff htree).1 hlisted
    refine ⟨hthere, ?_⟩
    rintro rfl
    cases hparent

theorem preorder_walk (start : String) : Preorder h start (h.walk start) := by
  refine ⟨fun path => ?_, nodup_walk_from htree hrooted start,
    fun path => exists_parent_before htree hrooted, fun hfresh => walk_of_fresh hfresh⟩
  rw [mem_walk_iff htree hrooted, Pointer.mem_lineage_iff]
  constructor
  · rintro ⟨hthere, hwithin⟩
    exact ⟨has_of_mem_lineage htree hthere (Pointer.mem_lineage_iff.2 hwithin), hthere, hwithin⟩
  · exact fun h => h.2

end

/-- Registering a lineage puts in nothing else. -/
theorem has_of_has_registerLineage {paths : List String} {x : String}
    (hx : has (registerLineage h paths) x = true) : has h x = true ∨ x ∈ paths := by
  induction paths generalizing h with
  | nil => exact .inl hx
  | cons path rest ih =>
      have hinserted : has (Table.insert h path ⟨[], []⟩) x = true →
          has h x = true ∨ x ∈ path :: rest := by
        intro hx
        rcases (has_insert _ _ _ _).1 hx with rfl | hx
        · exact .inr List.mem_cons_self
        · exact .inl hx
      cases rest with
      | nil =>
          rw [registerLineage] at hx
          split at hx
          · exact .inl hx
          · exact hinserted hx
      | cons parent above =>
          rw [registerLineage] at hx
          split at hx
          · exact .inl hx
          · rw [has_addChild] at hx
            rcases ih hx with hx | hx
            · exact hinserted hx
            · exact .inr (List.mem_cons_of_mem _ hx)

theorem rooted_register (hrooted : ∀ path, has h path = true → Pointer.Rooted path)
    (hpath : Pointer.Rooted path) :
    ∀ x, has (h.register path) x = true → Pointer.Rooted x := by
  intro x hx
  rcases has_of_has_registerLineage hx with hx | hx
  · exact hrooted x hx
  · exact hpath.of_mem_lineage hx

theorem has_subscribe (h : Handles) (path : String) (l : Listener) (x : String) :
    has (h.subscribe path l) x = has (h.register path) x := by
  rw [subscribe]
  split
  · next handle hget => exact has_insert_of_get? hget _ x
  · rfl

end Handles

namespace Model

variable {m next : Model} {op : Operation} {notices : List Notice}

def Operation.registers? : Operation → Option String
  | .handle path => some path
  | .subscribe path _ => some path
  | _ => none

theorem rooted_effect (htree : m.handles.Tree)
    (hrooted : ∀ path, Table.has m.handles path = true → Pointer.Rooted path)
    (heffect : Effect m op next notices)
    (hop : ∀ path, op.registers? = some path → Pointer.Rooted path) :
    ∀ path, Table.has next.handles path = true → Pointer.Rooted path := by
  cases heffect with
  | rerun _ hhandles => rwa [hhandles]
  | quiet hhandles => rwa [hhandles]
  | handle path => exact Handles.rooted_register hrooted (hop path rfl)
  | subscribe path label =>
      intro x hx
      rw [subscribe, Handles.has_subscribe] at hx
      exact Handles.rooted_register hrooted (hop path rfl) x hx
  | unsubscribe path number =>
      intro x hx
      rw [unsubscribe, (Handles.tree_unsubscribe htree path number).2.1] at hx
      exact hrooted x hx

theorem rooted_applyAll {ops : List Operation} (hm : WellFormed m)
    (hrooted : ∀ path, Table.has m.handles path = true → Pointer.Rooted path)
    (hops : ∀ op ∈ ops, ∀ path, op.registers? = some path → Pointer.Rooted path) :
    ∀ path, Table.has (m.applyAll ops).1.handles path = true → Pointer.Rooted path := by
  induction ops generalizing m with
  | nil => exact hrooted
  | cons op rest ih =>
      rw [List.forall_mem_cons] at hops
      have heffect := m.effect_apply op
      exact ih (hm.effect heffect) (rooted_effect hm.tree hrooted heffect hops.1) hops.2

/-- Whatever is done with a model, its handles are one tree below the root, provided that they are
registered at paths that begin there. A walk from any path comes to an end, and what it has visited
then are the handles at and below the path, each once and behind its parent. -/
theorem handles_of_applyAll {value : Json} {url : Option String} {ops : List Operation}
    (hm : m = ((new value url).applyAll ops).1)
    (hops : ∀ op ∈ ops, ∀ path, op.registers? = some path → Pointer.Rooted path) :
    m.handles.OneTree ∧ ∀ start, m.handles.Preorder start (m.handles.walk start)
      ∧ ∀ order, m.handles.Walks [start] order ↔ order = m.handles.walk start := by
  have hwell : WellFormed m := hm ▸ (wellFormed_new value url).applyAll
  have hrooted : ∀ path, Table.has m.handles path = true → Pointer.Rooted path :=
    hm ▸ rooted_applyAll (wellFormed_new value url) (fun _ h => nomatch h) hops
  refine ⟨Handles.oneTree_of_tree hwell.tree hrooted, fun start =>
    ⟨Handles.preorder_walk hwell.tree hrooted start, fun order => ?_⟩⟩
  have hwalks := Handles.walks_walk hwell.tree hrooted start
  constructor
  · exact fun hwalks' => hwalks'.unique hwalks
  · rintro rfl
    exact hwalks

/-- A handle far down first, then some above it and beside it. -/
def planting : List Operation :=
  [.subscribe "/a/b~1/" "deep", .handle "/a", .subscribe "/a/b" "beside", .unsubscribe "/a/b" 1,
    .handle "/ab"]

/-- Handles of which one's path is the beginning of another's without being above it. -/
theorem handles_of_applyAll_planting :
    (∀ op ∈ planting, ∀ path, op.registers? = some path → Pointer.Rooted path)
      ∧ ((new .null none).applyAll planting).1.handles.OneTree
      ∧ ((new .null none).applyAll planting).1.handles.Preorder "/a"
        ["/a", "/a/b~1", "/a/b~1/", "/a/b"] := by
  have hops : ∀ op ∈ planting, ∀ path, op.registers? = some path → Pointer.Rooted path := by
    have hroots : ∀ op ∈ planting, ∀ path ∈ op.registers?, path.toList.head? = some '/' := by
      decide +kernel
    intro op hop path hpath
    obtain ⟨rest, hrest⟩ := List.head?_eq_some_iff.1 (hroots op hop path hpath)
    exact .inr ⟨rest, hrest⟩
  have hwalk : ((new .null none).applyAll planting).1.handles.walk "/a"
      = ["/a", "/a/b~1", "/a/b~1/", "/a/b"] := by decide +kernel
  obtain ⟨htree, hpreorder⟩ := handles_of_applyAll rfl hops
  exact ⟨hops, htree, hwalk ▸ (hpreorder "/a").1⟩

end Model

end HyperSchema
