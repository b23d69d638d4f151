import HyperSchema.Proofs.Model.Changes
import HyperSchema.Session.Basic

/-!
# What a write tells

A write is told once to each handle that it concerns. Those at the written path and above it are
found by cutting the path, from its end towards the root, and those below it by walking the tree of
handles from the written path. The walk comes to all of them although it begins at a handle only, as
a handle is registered with all that is above it; and it begins behind the written path itself,
which the way up has been to. The changes of the schemas follow, at whatever handle they are.
-/

namespace HyperSchema

/-! ### What there is to tell -/

namespace Model

/-- What a write tells to handles: the change at and above the written path, from the path upwards,
each with the way from the handle to the path; then the change of everything strictly below, parents
first; then the changes of the schemas, parents first. -/
structure Telling (h : Handles) (before after : PathMap String) (written : String) where
  above : List (String × String)
  below : List String
  schemas : List (String × ModelEvent)
  mem_above : ∀ handle relative, (handle, relative) ∈ above
    ↔ Table.has h handle = true ∧ handle ++ relative = written ∧ Pointer.Rooted relative
  mem_below : ∀ handle, handle ∈ below
    ↔ Table.has h handle = true ∧ Pointer.isBelow handle written = true
  mem_schemas : ∀ handle event, (handle, event) ∈ schemas
    ↔ Table.has h handle = true
      ∧ schemaEvent? (before.entries handle) (after.entries handle) = some event
  upwards : above.Pairwise (fun a b => Pointer.isBelow a.1 b.1 = true)
  downwards : below.Pairwise (fun a b => Pointer.isBelow a b = false)
  schemasDownwards : schemas.Pairwise (fun a b => Pointer.isBelow a.1 b.1 = false)
  once : (above.map Prod.fst ++ below).Nodup
  schemasOnce : (schemas.map Prod.fst).Nodup

namespace Telling

variable {h : Handles} {before after : PathMap String} {written : String}

def events (t : Telling h before after written) : List (String × ModelEvent) :=
  t.above.map (fun a => (a.1, .change a.2)) ++ t.below.map (fun handle => (handle, .change ""))
    ++ t.schemas

end Telling

/-- The handles at and above a path, with the ways from them to it. -/
def handlesAbove (h : Handles) (written : String) : List (String × String) :=
  ((Pointer.lineage written).filter (Table.has h)).map
    (fun path => (path, (Pointer.relative? written path).getD ""))

section

variable {h : Handles} {before after : PathMap String} {written handle relative : String}

theorem map_fst_handlesAbove (h : Handles) (written : String) :
    (handlesAbove h written).map Prod.fst = (Pointer.lineage written).filter (Table.has h) := by
  rw [handlesAbove, List.map_map]
  exact List.map_id _

theorem mem_handlesAbove_iff : (handle, relative) ∈ handlesAbove h written
    ↔ Table.has h handle = true ∧ handle ++ relative = written ∧ Pointer.Rooted relative := by
  rw [← Pointer.relative?_eq_some_iff, handlesAbove, List.mem_map]
  constructor
  · rintro ⟨path, hpath, heq⟩
    obtain ⟨rfl, rfl⟩ := Prod.mk.inj heq
    obtain ⟨hlineage, hthere⟩ := List.mem_filter.1 hpath
    obtain ⟨rest, hrest⟩ := Pointer.mem_lineage_iff_relative?.1 hlineage
    rw [hrest]
    exact ⟨hthere, rfl⟩
  · rintro ⟨hthere, hrelative⟩
    refine ⟨handle, List.mem_filter.2 ⟨?_, hthere⟩, by rw [hrelative]; rfl⟩
    exact Pointer.mem_lineage_iff_relative?.2 ⟨relative, hrelative⟩

theorem pairwise_handlesAbove (h : Handles) (written : String) :
    (handlesAbove h written).Pairwise (fun a b => Pointer.isBelow a.1 b.1 = true) := by
  rw [handlesAbove, List.pairwise_map]
  exact (Pointer.pairwise_lineage written).filter _

variable (htree : h.Tree) (hrooted : ∀ path, Table.has h path = true → Pointer.Rooted path)

include htree hrooted

/-- The way up and the walk below do not meet. -/
theorem nodup_told (written : String) :
    ((handlesAbove h written).map Prod.fst ++ (h.walk written).drop 1).Nodup := by
  have hirreflexive : ∀ a b : String, Pointer.isBelow a b = true → a ≠ b := by
    rintro a b hbelow rfl
    rw [Pointer.not_isBelow_self] at hbelow
    cases hbelow
  rw [map_fst_handlesAbove]
  refine List.nodup_append.2 ⟨?_, ?_, ?_⟩
  · exact ((Pointer.pairwise_lineage written).imp (hirreflexive _ _)).filter _
  · exact (Handles.nodup_walk_from htree hrooted written).sublist (List.drop_sublist 1 _)
  · rintro a ha b hb rfl
    have hle := Pointer.length_le_of_mem_lineage (List.mem_filter.1 ha).1
    have hlt := Pointer.length_lt_of_isBelow ((Handles.mem_drop_walk_iff htree hrooted).1 hb).2
    omega

end

variable {m next : Model} {s : Snapshot}

theorem mem_schemaEvents_iff {old : PathMap String} {handle : String} {event : ModelEvent} :
    (handle, event) ∈ m.schemaEvents old ↔ handle ∈ m.handles.walk ""
      ∧ schemaEvent? (old.entries handle) (m.schemasAt handle) = some event := by
  rw [schemaEvents, List.mem_filterMap]
  constructor
  · rintro ⟨path, hpath, htold⟩
    obtain ⟨event', hevent, heq⟩ := Option.map_eq_some_iff.1 htold
    obtain ⟨rfl, rfl⟩ := Prod.mk.inj heq
    exact ⟨hpath, hevent⟩
  · rintro ⟨hpath, hevent⟩
    exact ⟨handle, hpath, by rw [hevent]; rfl⟩

theorem sublist_schemaEvents (m : Model) (old : PathMap String) :
    ((m.schemaEvents old).map Prod.fst).Sublist (m.handles.walk "") := by
  rw [schemaEvents]
  induction m.handles.walk "" with
  | nil => exact .slnil
  | cons path rest ih =>
      rw [List.filterMap_cons]
      cases schemaEvent? (old.entries path) (m.schemasAt path) with
      | none => exact ih.cons _
      | some event => exact ih.cons_cons _

section

variable (m) (htree : m.handles.Tree)
  (hrooted : ∀ path, Table.has m.handles path = true → Pointer.Rooted path)

/-- What a model tells of a write. -/
def telling (old : PathMap String) (written : String) :
    Telling m.handles old m.schemaMap written where
  above := handlesAbove m.handles written
  below := (m.handles.walk written).drop 1
  schemas := m.schemaEvents old
  mem_above := fun _ _ => mem_handlesAbove_iff
  mem_below := fun _ => Handles.mem_drop_walk_iff htree hrooted
  mem_schemas := fun handle event => by
    rw [mem_schemaEvents_iff, Handles.mem_walk_iff htree hrooted]
    refine and_congr_left fun _ => and_iff_left_of_imp fun hthere => ?_
    exact Pointer.root_mem_lineage (hrooted handle hthere)
  upwards := pairwise_handlesAbove _ _
  downwards := (Handles.pairwise_walk htree hrooted written).sublist (List.drop_sublist 1 _)
  schemasDownwards := List.pairwise_map.1
    ((Handles.pairwise_walk htree hrooted "").sublist (m.sublist_schemaEvents old))
  once := nodup_told htree hrooted written
  schemasOnce := (Handles.nodup_walk_from htree hrooted "").sublist (m.sublist_schemaEvents old)

theorem events_telling (old : PathMap String) (written : String) :
    (m.telling htree hrooted old written).events
      = changeEvents m.handles written ++ m.schemaEvents old := by
  rw [Telling.events, changeEvents, telling]
  dsimp only
  rw [handlesAbove, List.map_map]
  rfl

end

theorem notices_congr (hhandles : next.handles = m.handles) (events : List (String × ModelEvent)) :
    next.notices events = m.notices events := by
  rw [notices, notices, hhandles]

theorem of_write? {path : String} {x : Json} {told : List Notice}
    (hwrite : m.write? s path x = some (next, told)) :
    Pointer.set? m.value path x = some next.value ∧ next.handles = m.handles
      ∧ told = next.notices (changeEvents next.handles (Pointer.writtenPath m.value path)
        ++ next.schemaEvents m.schemaMap) := by
  obtain ⟨value, hset, heq⟩ := Option.map_eq_some_iff.1 hwrite
  obtain ⟨rfl, rfl⟩ := Prod.mk.inj heq
  exact ⟨hset, rfl, rfl⟩

theorem exists_telling_of_write? {path : String} {x : Json} {told : List Notice}
    (htree : m.handles.Tree)
    (hrooted : ∀ handle, Table.has m.handles handle = true → Pointer.Rooted handle)
    (hwrite : m.write? s path x = some (next, told)) :
    ∃ written, ∃ t : Telling m.handles m.schemaMap next.schemaMap written,
      Pointer.Reaches m.value path written ∧ told = m.notices t.events := by
  obtain ⟨-, hhandles, rfl⟩ := of_write? hwrite
  rw [← hhandles] at htree hrooted ⊢
  refine ⟨_, next.telling htree hrooted m.schemaMap _, Pointer.reaches_iff.2 rfl, ?_⟩
  rw [events_telling, notices_congr hhandles]

end Model

/-! ### Writes of a session -/

/-- What a listener is told, by its label. -/
def Notice.delivery (n : Notice) : Delivery := .notice n.listener.label n.path n.event

namespace Session

variable {s : Session} {i : Nat} {m : Model} {path : String} {x : Json}

/-- Where nobody answers by a write, everybody is told in turn. -/
theorem deliveries_deliverAll {notices : List Notice} (hquiet : s.reactions = []) :
    (s.deliverAll i notices).deliveries = s.deliveries ++ notices.map Notice.delivery := by
  have htell : ∀ s : Session, (notices.foldl tellNotice s).deliveries
      = s.deliveries ++ notices.map Notice.delivery := by
    induction notices with
    | nil => exact fun s => (List.append_nil _).symm
    | cons n rest ih =>
        intro s
        rw [List.foldl_cons, ih, tellNotice, tell, List.append_assoc, List.map_cons]
        rfl
  rw [deliverAll, hquiet]
  exact htell s

/-- A write that finds no place leaves everything as it was. Any other write tells each handle at
and above the path that it reaches what leads on from there to the path, then each handle below it
that everything there has changed, and then the changes of the schemas. -/
theorem write_tells (hmodel : s.model? i = some m) (hreachable : m.Reachable)
    (hrooted : ∀ handle, Table.has m.handles handle = true → Pointer.Rooted handle) :
    (Pointer.set? m.value path x = none ∧ s.write i path x = (false, s))
      ∨ ∃ next written, ∃ told : Model.Telling m.handles m.schemaMap next.schemaMap written,
        Pointer.set? m.value path x = some next.value
        ∧ Pointer.Reaches m.value path written
        ∧ m.write? s.context.snapshot path x = some (next, m.notices told.events)
        ∧ s.write i path x = (true, (s.setModel i next).deliverAll i (m.notices told.events))
        ∧ (s.reactions = [] → (s.write i path x).2.deliveries
          = s.deliveries ++ (m.notices told.events).map Notice.delivery) := by
  rw [write, hmodel]
  dsimp only
  cases hwrite : m.write? s.context.snapshot path x with
  | none => exact .inl ⟨Option.map_eq_none_iff.1 hwrite, rfl⟩
  | some result =>
      obtain ⟨next, notices⟩ := result
      obtain ⟨written, told, hreaches, rfl⟩ :=
        Model.exists_telling_of_write? hreachable.wellFormed.tree hrooted hwrite
      exact .inr ⟨next, written, told, (Model.of_write? hwrite).1, hreaches, rfl, rfl,
        fun hquiet => deliveries_deliverAll (s := s.setModel i next) hquiet⟩

/-- A model of a list, with listeners at the root, at the list and below its second position. -/
def gathering : Model :=
  ((Model.new (.object [("a", .array [.null])]) none).applyAll
    [.subscribe "" "root", .subscribe "/a" "list", .subscribe "/a/1/x" "part"]).1

def gatheringSession : Session :=
  { new (Context.new none .standard) MemoryTransport.empty 0 false false with models := [gathering] }

/-- The position behind the last item is written. -/
theorem write_tells_gathering :
    gatheringSession.model? 0 = some gathering ∧ gathering.Reachable
      ∧ (∀ handle, Table.has gathering.handles handle = true → Pointer.Rooted handle)
      ∧ ∃ next : Model, ∃ told :
          Model.Telling gathering.handles gathering.schemaMap next.schemaMap "/a/1",
        (gathering.notices told.events).map Notice.delivery
          = [.notice "list" "/a" (.change "/1"), .notice "root" "" (.change "/a/1"),
            .notice "part" "/a/1/x" (.change "")] := by
  have hmodel : gatheringSession.model? 0 = some gathering := rfl
  have hreachable : gathering.Reachable := ⟨_, _, _, rfl⟩
  have hrooted : ∀ handle, Table.has gathering.handles handle = true → Pointer.Rooted handle := by
    have hkeys : Table.keys gathering.handles = ["", "/a", "/a/1/x", "/a/1"] := by decide +kernel
    intro handle hthere
    rw [Table.has, Option.isSome_iff_exists, ← Table.mem_keys_iff, hkeys] at hthere
    simp only [List.mem_cons, List.not_mem_nil, or_false] at hthere
    rcases hthere with rfl | rfl | rfl | rfl
    · exact .inl rfl
    all_goals exact .inr ⟨_, rfl⟩
  refine ⟨hmodel, hreachable, hrooted, ?_⟩
  have hdone : (gatheringSession.write 0 "/a/-" (.object [])).1 = true := by decide +kernel
  have hdeliveries : (gatheringSession.write 0 "/a/-" (.object [])).2.deliveries
      = [.notice "list" "/a" (.change "/1"), .notice "root" "" (.change "/a/1"),
        .notice "part" "/a/1/x" (.change "")] := by decide +kernel
  have hwritten : Pointer.writtenPath gathering.value "/a/-" = "/a/1" := by decide +kernel
  rcases write_tells (x := .object []) hmodel hreachable hrooted with
    ⟨-, hnone⟩ | ⟨next, written, told, -, hreaches, -, -, hquiet⟩
  · rw [hnone] at hdone
    cases hdone
  · obtain rfl := (Pointer.reaches_iff.1 hreaches).trans hwritten
    exact ⟨next, told, (hquiet rfl).symm.trans hdeliveries⟩

end Session

end HyperSchema
