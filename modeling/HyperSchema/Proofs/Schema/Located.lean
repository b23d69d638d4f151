import HyperSchema.Proofs.Schema.Segments

/-!
# Where the nodes of a schema are located

The segments behind which the nodes of a schema stand, one level after the other, are the places of
all nodes within it. Each has been read where the place leads to in the document. All places are
different, and a URI tells the place, so that the URIs of the nodes are different as well.
-/

namespace HyperSchema.Node

variable {node sub : Node} {way : List String} {uri : String} {e : List String × Node}
  {formats : Table Format} {document : Json}

/-- All nodes within a node, each with the segments that lead to it. -/
def located (node : Node) : List (List String × Node) :=
  ([], node) :: node.parts.attach.flatMap (fun e =>
    (located e.1.2).map (fun f => (e.1.1 ++ f.1, f.2)))
termination_by sizeOf node
decreasing_by exact (below_of_mem_parts e.2).sizeOf_lt

theorem located_eq (node : Node) :
    node.located = ([], node) :: node.parts.flatMap (fun e =>
      e.2.located.map (fun f => (e.1 ++ f.1, f.2))) := by
  rw [located]
  congr 1
  conv_rhs => rw [← List.attach_map_subtype_val node.parts, List.flatMap_map]

def uris (node : Node) : List String := node.located.filterMap (fun e => e.2.uri?)

theorem mem_located_append {inner : Node} {more : List String} (h : (way, inner) ∈ node.located)
    (hinner : (more, sub) ∈ inner.located) : (way ++ more, sub) ∈ node.located := by
  induction node using below_induction generalizing way with
  | h node ih =>
      rw [located_eq] at h
      rcases List.mem_cons.1 h with heq | h
      · obtain ⟨rfl, rfl⟩ := Prod.mk.inj heq
        exact hinner
      · obtain ⟨part, hpart, h⟩ := List.mem_flatMap.1 h
        obtain ⟨⟨rest, found⟩, hfound, heq⟩ := List.mem_map.1 h
        obtain ⟨rfl, rfl⟩ := Prod.mk.inj heq
        have hrest := ih part.2 (below_of_mem_parts hpart) hfound
        rw [located_eq, List.append_assoc]
        exact List.mem_cons_of_mem _
          (List.mem_flatMap.2 ⟨part, hpart, List.mem_map.2 ⟨_, hrest, rfl⟩⟩)

theorem exists_below_of_mem_located (h : (way, sub) ∈ node.located) (hway : way ≠ []) :
    ∃ inner, Below node inner := by
  rw [located_eq] at h
  rcases List.mem_cons.1 h with heq | h
  · exact absurd (congrArg Prod.fst heq) hway
  · obtain ⟨part, hpart, -⟩ := List.mem_flatMap.1 h
    exact ⟨part.2, below_of_mem_parts hpart⟩

theorem mem_located_self (node : Node) : ([], node) ∈ node.located := by
  rw [located_eq]
  exact List.mem_cons_self

theorem mem_located_of_mem_parts (h : (way, sub) ∈ node.parts) : (way, sub) ∈ node.located := by
  rw [located_eq]
  refine List.mem_cons_of_mem _ (List.mem_flatMap.2 ⟨_, h, ?_⟩)
  refine List.mem_map.2 ⟨_, sub.mem_located_self, ?_⟩
  rw [List.append_nil]

/-- Every node within a node is located somewhere. -/
theorem exists_mem_located_of_within (h : Within node sub) : ∃ way, (way, sub) ∈ node.located := by
  induction h with
  | whole => exact ⟨[], node.mem_located_self⟩
  | inner _ hbelow ih =>
      obtain ⟨way, hway⟩ := ih
      obtain ⟨segments, hpart⟩ := exists_mem_parts_of_below hbelow
      exact ⟨way ++ segments, mem_located_append hway (mem_located_of_mem_parts hpart)⟩

theorem LeadTo.append {w x : Json} {more : List String} (h : LeadTo document way w)
    (h' : LeadTo w more x) : LeadTo document (way ++ more) x := by
  refine ⟨fun y hy => ?_, fun hcount => ?_⟩
  · rw [Pointer.walk?_append] at hy
    obtain ⟨next, hnext, hy⟩ := Option.bind_eq_some_iff.1 hy
    exact h'.1 y (h.1 next hnext ▸ hy)
  · obtain ⟨hw, hwalk⟩ := h.2 hcount
    obtain ⟨hx, hmore⟩ := h'.2 hw
    exact ⟨hx, by rw [Pointer.walk?_append, hwalk, Option.bind_some, hmore]⟩

theorem ReadAt.append {w : Json} (hwalk : LeadTo document way w)
    (h : ReadAt formats (SchemaUri.below uri way) w e) :
    ReadAt formats uri document (way ++ e.1, e.2) := by
  obtain ⟨x, hkeys, hx, hread⟩ := h
  exact ⟨x, hkeys, hwalk.append hx, SchemaUri.below_below uri way e.1 ▸ hread⟩

/-- Each node within the node of a schema has been read where it is located. -/
theorem readAt_of_mem_located (hkeys : document.UniqueKeys)
    (h : ofSchema formats uri document = .ok node) (he : e ∈ node.located) :
    ReadAt formats uri document e := by
  induction node using below_induction generalizing uri document e with
  | h node ih =>
      rw [located_eq] at he
      rcases List.mem_cons.1 he with rfl | he
      · exact ⟨document, hkeys, .of_walk? rfl id, h⟩
      · obtain ⟨part, hpart, he⟩ := List.mem_flatMap.1 he
        obtain ⟨f, hf, rfl⟩ := List.mem_map.1 he
        obtain ⟨keywords, hreads⟩ := exists_reads hkeys h
        obtain ⟨w, hw, hwalk, hread⟩ := hreads.read part hpart
        exact (ih part.2 (below_of_mem_parts hpart) hw hread hf).append hwalk

/-- No two nodes within the node of a schema are located at the same place. -/
theorem nodup_located (hkeys : document.UniqueKeys)
    (h : ofSchema formats uri document = .ok node) : (node.located.map Prod.fst).Nodup := by
  induction node using below_induction generalizing uri document with
  | h node ih =>
      obtain ⟨keywords, hspread, hread⟩ := exists_reads hkeys h
      rw [located_eq, List.map_cons, List.map_flatMap, List.nodup_cons]
      constructor
      · intro hmem
        obtain ⟨part, hpart, hmem⟩ := List.mem_flatMap.1 hmem
        rw [List.map_map] at hmem
        obtain ⟨f, -, hnil⟩ := List.mem_map.1 hmem
        obtain ⟨keyword, -, rest, hway⟩ := hspread.headed part hpart
        rw [Function.comp_apply, hway] at hnil
        cases hnil
      · refine List.pairwise_flatMap.2 ⟨fun part hpart => ?_, hspread.apart.imp ?_⟩
        · obtain ⟨w, hw, -, hnode⟩ := hread part hpart
          have hnodup := ih part.2 (below_of_mem_parts hpart) hw hnode
          rw [List.map_map]
          refine List.pairwise_map.2 ((List.pairwise_map.1 hnodup).imp (fun hne heq => hne ?_))
          exact List.append_cancel_left heq
        · -- two parts on the way to the same place are on the way to one another
          rintro part part' ⟨hback, hforth⟩ way hway way' hway' rfl
          rw [List.map_map] at hway hway'
          obtain ⟨f, -, rfl⟩ := List.mem_map.1 hway
          obtain ⟨f', -, heq⟩ := List.mem_map.1 hway'
          have hprefix : part.1 <+: part.1 ++ f.1 := List.prefix_append _ _
          have hprefix' : part'.1 <+: part.1 ++ f.1 := ⟨f'.1, heq⟩
          rcases List.prefix_or_prefix_of_prefix hprefix hprefix' with hon | hon
          · exact hback hon
          · exact hforth hon

/-- The nodes of a schema have different URIs. -/
theorem nodup_uris (hkeys : document.UniqueKeys) (h : ofSchema formats uri document = .ok node) :
    node.uris.Nodup := by
  have huri : ∀ e ∈ node.located, ∀ target, e.2.uri? = some target →
      target = SchemaUri.below uri e.1 := by
    intro e he target htarget
    obtain ⟨w, -, -, hread⟩ := readAt_of_mem_located hkeys h he
    exact eq_of_uri?_eq_some hread htarget
  rw [uris]
  refine List.pairwise_filterMap.2
    ((List.pairwise_map.1 (nodup_located hkeys h)).imp_of_mem (fun {e f} he hf hne => ?_))
  intro target htarget target' htarget' heq
  rw [huri e he target htarget, huri f hf target' htarget'] at heq
  exact hne (SchemaUri.below_injective heq)

end HyperSchema.Node
