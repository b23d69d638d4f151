import HyperSchema.Proofs.Pointer.Resolution
import HyperSchema.Proofs.Schema.Reading

/-!
# Nodes behind keywords

A node directly below another stands behind a keyword, and in a list or a table behind a position or
a name as well. These segments lead from the document of the one to that of the other, and the URI
of the node has them at its end. Two nodes below the same one never stand behind the same segments,
nor does one stand on the way to the other.
-/

namespace HyperSchema

namespace SchemaUri

def below (uri : String) : List String → String
  | [] => uri
  | segment :: rest => child uri (segment :: rest)

variable {uri : String} {way more : List String}

theorem child_child (uri : String) (way more : List String) :
    child (child uri way) more = child uri (way ++ more) := by
  have hhash : (child uri way).toList.contains '#' = true :=
    List.contains_iff_mem.2 (hash_mem_child uri way)
  apply String.toList_injective
  rw [toList_child, if_pos hhash, toList_child, toList_child, Pointer.joinChars_append,
    List.append_nil, List.append_assoc]

theorem below_below (uri : String) (way more : List String) :
    below (below uri way) more = below uri (way ++ more) := by
  cases way with
  | nil => rfl
  | cons segment rest =>
      cases more with
      | nil => rw [List.append_nil, below]
      | cons next more => exact child_child uri (segment :: rest) (next :: more)

theorem tokens_split_below (uri : String) (way : List String) :
    Pointer.tokens (split (below uri way)).2 = Pointer.tokens (split uri).2 ++ way := by
  cases way with
  | nil => rw [below, List.append_nil]
  | cons segment rest => exact tokens_split_child uri (segment :: rest)

theorem below_injective (h : below uri way = below uri more) : way = more := by
  have htokens := tokens_split_below uri way
  rw [h, tokens_split_below] at htokens
  exact (List.append_cancel_left htokens).symm

end SchemaUri

def Additional.node? : Additional → Option Node
  | .schema node => some node
  | _ => none

def Dependency.node? : Dependency → Option Node
  | .schema node => some node
  | .keys _ => none

namespace Node

/-- Nodes that have names behind a keyword. -/
def behind (keyword : String) (named : List (String × Node)) : List (List String × Node) :=
  named.map (fun e => ([keyword, e.1], e.2))

def numbered (nodes : List Node) : List (String × Node) :=
  nodes.zipIdx.map (fun e => (Text.natText e.2, e.1))

def single (keyword : String) (node : Option Node) : List (List String × Node) :=
  node.toList.map (fun node => ([keyword], node))

end Node

/-- The nodes that a check applies, each with the segments it stands behind. -/
def Check.parts : Check → List (List String × Node)
  | .assertion _ => []
  | .items node => Node.single "items" (some node)
  | .tuple nodes rest =>
    Node.behind "items" (Node.numbered nodes) ++ Node.single "additionalItems" rest.node?
  | .members properties _ dependencies patterns rest =>
    Node.behind "properties" properties
      ++ Node.behind "dependencies"
        (dependencies.filterMap (fun d => d.2.node?.map (Prod.mk d.1)))
      ++ Node.behind "patternProperties" (patterns.map (fun p => (p.1.source, p.2)))
      ++ Node.single "additionalProperties" rest.node?

namespace Node

/-- The nodes directly below a node, each with the segments it stands behind. -/
def parts : Node → List (List String × Node)
  | .schema _ branches allOf anyOf oneOf negated =>
    (branches.flatMap Prod.snd).flatMap Check.parts ++ single "not" negated
      ++ behind "allOf" (numbered allOf) ++ behind "anyOf" (numbered anyOf)
      ++ behind "oneOf" (numbered oneOf)
  | _ => []

variable {node sub part : Node} {way : List String} {keyword name uri target : String}
  {named : List (String × Node)} {nodes : List Node} {e : List String × Node}

/-! ### The parts are below -/

theorem mem_behind :
    e ∈ behind keyword named ↔ ∃ name, (name, e.2) ∈ named ∧ e.1 = [keyword, name] := by
  obtain ⟨way, node⟩ := e
  rw [behind, List.mem_map]
  constructor
  · rintro ⟨entry, hentry, heq⟩
    obtain ⟨rfl, rfl⟩ := Prod.mk.inj heq
    exact ⟨entry.1, hentry, rfl⟩
  · rintro ⟨name, hname, rfl⟩
    exact ⟨(name, node), hname, rfl⟩

theorem mem_behind_of_mem (keyword : String) (h : (name, node) ∈ named) :
    ([keyword, name], node) ∈ behind keyword named := mem_behind.2 ⟨name, h, rfl⟩

theorem mem_single {node : Option Node} :
    e ∈ single keyword node ↔ node = some e.2 ∧ e.1 = [keyword] := by
  obtain ⟨way, part⟩ := e
  rw [single, List.mem_map]
  constructor
  · rintro ⟨other, hother, heq⟩
    obtain ⟨rfl, rfl⟩ := Prod.mk.inj heq
    exact ⟨Option.mem_toList.1 hother, rfl⟩
  · rintro ⟨rfl, rfl⟩
    exact ⟨part, List.mem_singleton_self part, rfl⟩

theorem exists_of_mem_numbered (h : (name, node) ∈ numbered nodes) :
    ∃ i : Nat, nodes[i]? = some node ∧ name = Text.natText i := by
  obtain ⟨⟨other, i⟩, hentry, heq⟩ := List.mem_map.1 h
  obtain ⟨rfl, rfl⟩ := Prod.mk.inj heq
  exact ⟨i, List.mem_zipIdx_iff_getElem?.1 hentry, rfl⟩

theorem mem_of_mem_behind_numbered (h : e ∈ behind keyword (numbered nodes)) : e.2 ∈ nodes := by
  obtain ⟨name, hname, -⟩ := mem_behind.1 h
  obtain ⟨i, hi, -⟩ := exists_of_mem_numbered hname
  exact List.mem_of_getElem? hi

theorem eq_schema_of_node? {rest : Additional} (h : rest.node? = some node) :
    rest = .schema node := by
  cases rest with
  | schema other => exact congrArg Additional.schema (Option.some.inj h)
  | _ => cases h

theorem mem_of_mem_filterMap_node? {dependencies : List (String × Dependency)}
    (h : (name, node) ∈ dependencies.filterMap (fun d => d.2.node?.map (Prod.mk d.1))) :
    (name, .schema node) ∈ dependencies := by
  obtain ⟨⟨key, dependency⟩, hmem, heq⟩ := List.mem_filterMap.1 h
  obtain ⟨other, hother, heq⟩ := Option.map_eq_some_iff.1 heq
  obtain ⟨rfl, rfl⟩ := Prod.mk.inj heq
  cases dependency with
  | keys names => cases hother
  | schema found =>
      obtain rfl := Option.some.inj hother
      exact hmem

theorem applies_of_mem_parts {check : Check} (h : e ∈ check.parts) : check.Applies e.2 := by
  cases check with
  | assertion a => cases h
  | items node =>
      obtain ⟨heq, -⟩ := mem_single.1 h
      obtain rfl := Option.some.inj heq
      exact .items
  | tuple nodes rest =>
      rw [Check.parts, List.mem_append] at h
      rcases h with h | h
      · exact .tuple (mem_of_mem_behind_numbered h)
      · obtain rfl := eq_schema_of_node? (mem_single.1 h).1
        exact .surplus
  | members properties required dependencies patterns rest =>
      rw [Check.parts, List.mem_append, List.mem_append, List.mem_append] at h
      rcases h with ((h | h) | h) | h
      · obtain ⟨name, hname, -⟩ := mem_behind.1 h
        exact .property hname
      · obtain ⟨name, hname, -⟩ := mem_behind.1 h
        exact .dependency (mem_of_mem_filterMap_node? hname)
      · obtain ⟨name, hname, -⟩ := mem_behind.1 h
        obtain ⟨⟨p, found⟩, hp, heq⟩ := List.mem_map.1 hname
        obtain ⟨-, rfl⟩ := Prod.mk.inj heq
        exact .pattern hp
      · obtain rfl := eq_schema_of_node? (mem_single.1 h).1
        exact .others

theorem below_of_mem_parts (h : e ∈ node.parts) : Below node e.2 := by
  cases node with
  | schema head branches allOf anyOf oneOf negated =>
      rw [parts, List.mem_append, List.mem_append, List.mem_append, List.mem_append] at h
      rcases h with (((h | h) | h) | h) | h
      · obtain ⟨check, hcheck, h⟩ := List.mem_flatMap.1 h
        obtain ⟨branch, hbranch, hcheck⟩ := List.mem_flatMap.1 hcheck
        exact .check hbranch hcheck (applies_of_mem_parts h)
      · obtain ⟨rfl, -⟩ := mem_single.1 h
        exact .negated
      · exact .allOf (mem_of_mem_behind_numbered h)
      · exact .anyOf (mem_of_mem_behind_numbered h)
      · exact .oneOf (mem_of_mem_behind_numbered h)
  | _ => cases h

theorem exists_mem_behind_numbered (keyword : String) (h : node ∈ nodes) :
    ∃ way, (way, node) ∈ behind keyword (numbered nodes) := by
  obtain ⟨i, hi⟩ := List.getElem?_of_mem h
  have hname : (Text.natText i, node) ∈ numbered nodes :=
    List.mem_map.2 ⟨(node, i), List.mem_zipIdx_iff_getElem?.2 hi, rfl⟩
  exact ⟨_, mem_behind_of_mem keyword hname⟩

theorem exists_mem_parts_of_applies {check : Check} (h : check.Applies node) :
    ∃ way, (way, node) ∈ check.parts := by
  cases h with
  | items => exact ⟨_, mem_single.2 ⟨rfl, rfl⟩⟩
  | tuple hnode =>
      obtain ⟨way, hway⟩ := exists_mem_behind_numbered "items" hnode
      exact ⟨way, List.mem_append_left _ hway⟩
  | surplus => exact ⟨_, List.mem_append_right _ (mem_single.2 ⟨rfl, rfl⟩)⟩
  | property hnode =>
      have hmem := mem_behind_of_mem "properties" hnode
      exact ⟨_, List.mem_append_left _ (List.mem_append_left _ (List.mem_append_left _ hmem))⟩
  | @dependency _ _ dependencies _ _ key _ hnode =>
      have hnamed : (key, node) ∈ dependencies.filterMap (fun d => d.2.node?.map (Prod.mk d.1)) :=
        List.mem_filterMap.2 ⟨_, hnode, rfl⟩
      have hmem := mem_behind_of_mem "dependencies" hnamed
      exact ⟨_, List.mem_append_left _ (List.mem_append_left _ (List.mem_append_right _ hmem))⟩
  | @pattern _ _ _ patterns _ p _ hnode =>
      have hnamed : (p.source, node) ∈ patterns.map (fun p => (p.1.source, p.2)) :=
        List.mem_map.2 ⟨_, hnode, rfl⟩
      have hmem := mem_behind_of_mem "patternProperties" hnamed
      exact ⟨_, List.mem_append_left _ (List.mem_append_right _ hmem)⟩
  | others => exact ⟨_, List.mem_append_right _ (mem_single.2 ⟨rfl, rfl⟩)⟩

theorem exists_mem_parts_of_below (h : Below node sub) : ∃ way, (way, sub) ∈ node.parts := by
  cases h with
  | check hbranch hcheck happlies =>
      obtain ⟨way, hway⟩ := exists_mem_parts_of_applies happlies
      refine ⟨way, List.mem_append_left _ (List.mem_append_left _ (List.mem_append_left _
        (List.mem_append_left _ ?_)))⟩
      exact List.mem_flatMap.2 ⟨_, List.mem_flatMap.2 ⟨_, hbranch, hcheck⟩, hway⟩
  | allOf hnode =>
      obtain ⟨way, hway⟩ := exists_mem_behind_numbered "allOf" hnode
      exact ⟨way, List.mem_append_left _ (List.mem_append_left _ (List.mem_append_right _ hway))⟩
  | anyOf hnode =>
      obtain ⟨way, hway⟩ := exists_mem_behind_numbered "anyOf" hnode
      exact ⟨way, List.mem_append_left _ (List.mem_append_right _ hway)⟩
  | oneOf hnode =>
      obtain ⟨way, hway⟩ := exists_mem_behind_numbered "oneOf" hnode
      exact ⟨way, List.mem_append_right _ hway⟩
  | negated =>
      refine ⟨["not"], List.mem_append_left _ (List.mem_append_left _ (List.mem_append_left _
        (List.mem_append_right _ ?_)))⟩
      exact mem_single.2 ⟨rfl, rfl⟩

/-! ### Parts that stand apart -/

/-- Parts behind some keywords, of which none is on the way to another. -/
structure Spread (keywords : List String) (parts : List (List String × Node)) : Prop where
  headed : ∀ e ∈ parts, ∃ keyword ∈ keywords, ∃ rest, e.1 = keyword :: rest
  apart : parts.Pairwise (fun e f => ¬e.1 <+: f.1 ∧ ¬f.1 <+: e.1)

namespace Spread

variable {keywords keywords' : List String} {parts parts' : List (List String × Node)}

theorem nil : Spread keywords [] := ⟨fun _ h => (by cases h), .nil⟩

theorem append (h : Spread keywords parts) (h' : Spread keywords' parts')
    (hdisjoint : ∀ keyword ∈ keywords, keyword ∉ keywords') :
    Spread (keywords ++ keywords') (parts ++ parts') := by
  constructor
  · intro e he
    rcases List.mem_append.1 he with he | he
    · obtain ⟨keyword, hkeyword, hrest⟩ := h.headed e he
      exact ⟨keyword, List.mem_append_left _ hkeyword, hrest⟩
    · obtain ⟨keyword, hkeyword, hrest⟩ := h'.headed e he
      exact ⟨keyword, List.mem_append_right _ hkeyword, hrest⟩
  · refine List.pairwise_append.2 ⟨h.apart, h'.apart, fun e he f hf => ?_⟩
    obtain ⟨keyword, hkeyword, rest, hway⟩ := h.headed e he
    obtain ⟨keyword', hkeyword', rest', hway'⟩ := h'.headed f hf
    have hne : keyword ≠ keyword' := fun heq => hdisjoint keyword hkeyword (heq ▸ hkeyword')
    rw [hway, hway', List.cons_prefix_cons, List.cons_prefix_cons]
    exact ⟨fun hprefix => hne hprefix.1, fun hprefix => hne hprefix.1.symm⟩

theorem perm (h : Spread keywords parts) (hperm : parts.Perm parts') : Spread keywords parts' where
  headed e he := h.headed e (hperm.mem_iff.2 he)
  apart := (hperm.pairwise_iff (fun ⟨hback, hforth⟩ => ⟨hforth, hback⟩)).1 h.apart

end Spread

theorem spread_behind (keyword : String) (hnodup : (named.map Prod.fst).Nodup) :
    Spread [keyword] (behind keyword named) := by
  constructor
  · intro e he
    obtain ⟨name, -, hway⟩ := mem_behind.1 he
    exact ⟨keyword, List.mem_singleton_self keyword, [name], hway⟩
  · rw [behind, List.pairwise_map]
    refine (List.pairwise_map.1 hnodup).imp (fun {e f} hne => ?_)
    simp [hne, Ne.symm hne]

theorem spread_single (keyword : String) (node : Option Node) :
    Spread [keyword] (single keyword node) := by
  constructor
  · intro e he
    exact ⟨keyword, List.mem_singleton_self keyword, [], (mem_single.1 he).2⟩
  · cases node with
    | none => exact .nil
    | some node => exact List.pairwise_singleton _ _

theorem nodup_numbered (nodes : List Node) : ((numbered nodes).map Prod.fst).Nodup := by
  have hpositions : (nodes.zipIdx.map Prod.snd).Nodup := by
    rw [List.zipIdx_map_snd]
    exact List.nodup_range'
  rw [numbered, List.map_map]
  exact (List.pairwise_map.1 hpositions).map _ (fun e f hne heq => hne (Text.natText_injective heq))

/-! ### Parts that are read -/

/-- Some segments lead to a value and to nothing else. They do lead there, unless a list is longer
than a count can tell. -/
def LeadTo (document : Json) (way : List String) (w : Json) : Prop :=
  (∀ x, Pointer.walk? document way = some x → x = w)
    ∧ (document.Countable → w.Countable ∧ Pointer.walk? document way = some w)

/-- What stands where some segments lead to has been read into a node, under the URI with these
segments at its end. -/
def ReadAt (formats : Table Format) (uri : String) (document : Json) (e : List String × Node) :
    Prop :=
  ∃ w, w.UniqueKeys ∧ LeadTo document e.1 w
    ∧ ofSchema formats (SchemaUri.below uri e.1) w = .ok e.2

theorem LeadTo.of_walk? {document w : Json} (hwalk : Pointer.walk? document way = some w)
    (hcount : document.Countable → w.Countable) : LeadTo document way w :=
  ⟨fun _ hx => Option.some.inj (hx.symm.trans hwalk), fun h => ⟨hcount h, hwalk⟩⟩

/-- Parts behind some keywords of a document that stand apart and have been read there. -/
structure Reads (formats : Table Format) (uri : String) (document : Json) (keywords : List String)
    (parts : List (List String × Node)) : Prop where
  spread : Spread keywords parts
  read : ∀ e ∈ parts, ReadAt formats uri document e

namespace Reads

variable {formats : Table Format} {document : Json} {keywords keywords' : List String}
  {parts parts' : List (List String × Node)}

theorem nil : Reads formats uri document keywords [] := ⟨.nil, fun _ h => (by cases h)⟩

theorem append (h : Reads formats uri document keywords parts)
    (h' : Reads formats uri document keywords' parts')
    (hdisjoint : ∀ keyword ∈ keywords, keyword ∉ keywords') :
    Reads formats uri document (keywords ++ keywords') (parts ++ parts') where
  spread := h.spread.append h'.spread hdisjoint
  read e he := (List.mem_append.1 he).elim (h.read e) (h'.read e)

theorem perm (h : Reads formats uri document keywords parts) (hperm : parts.Perm parts') :
    Reads formats uri document keywords parts' where
  spread := h.spread.perm hperm
  read e he := h.read e (hperm.mem_iff.2 he)

end Reads

section Keywords

variable {formats : Table Format} {keywords table : Table Json} {sub : Json}

theorem reads_single {node : Option Node} (hkeys : (Json.object keywords).UniqueKeys)
    (hread : ∀ part, node = some part → ∃ sub, Table.get? keywords keyword = some sub
      ∧ ofSchema formats (SchemaUri.child uri [keyword]) sub = .ok part) :
    Reads formats uri (.object keywords) [keyword] (single keyword node) := by
  refine ⟨spread_single keyword node, fun e he => ?_⟩
  obtain ⟨hnode, hway⟩ := mem_single.1 he
  obtain ⟨sub, hget, hnode⟩ := hread _ hnode
  refine ⟨sub, hkeys.of_get? hget, hway ▸ .of_walk? ?_ (fun h => h.of_get? hget), hway ▸ hnode⟩
  rw [Pointer.walk?, Pointer.step?, hget]
  rfl

/-- Schemas in a list are read behind the keyword of the list and their positions. -/
theorem reads_numbered (hkeys : (Json.object keywords).UniqueKeys)
    (h : nodesOf formats uri keyword 0 (Schema.listOf keywords keyword) = .ok nodes) :
    Reads formats uri (.object keywords) [keyword] (behind keyword (numbered nodes)) := by
  by_cases hsome : ∃ subs, Table.get? keywords keyword = some (.array subs)
  · obtain ⟨subs, hget⟩ := hsome
    rw [Schema.listOf_of_get? hget] at h
    refine ⟨spread_behind keyword (nodup_numbered nodes), fun e he => ?_⟩
    obtain ⟨name, hname, hway⟩ := mem_behind.1 he
    obtain ⟨i, hi, rfl⟩ := exists_of_mem_numbered hname
    obtain ⟨⟨sub, j⟩, hentry, hnode⟩ := exists_getElem?_of_forall₂ (nodesOf_forall₂ h) hi
    rw [List.getElem?_zipIdx, Nat.zero_add] at hentry
    obtain ⟨other, hsub, heq⟩ := Option.map_eq_some_iff.1 hentry
    obtain ⟨rfl, rfl⟩ := Prod.mk.inj heq
    have hlist := hkeys.of_get? hget
    rw [Json.UniqueKeys] at hlist
    have hwalk : Pointer.walk? (.object keywords) e.1
        = if i ≤ Text.maxCount then some other else none := by
      rw [hway, Pointer.walk?, Pointer.step?, hget, Option.bind_some, Pointer.walk?, Pointer.step?,
        Pointer.index?_natText]
      split
      · rw [Option.bind_some, hsub]
        rfl
      · rfl
    refine ⟨other, Json.UniqueKeys.of_getElem? hlist hsub, ⟨fun x hx => ?_, fun h => ?_⟩,
      hway ▸ hnode⟩
    · rw [hwalk] at hx
      split at hx
      · exact (Option.some.inj hx).symm
      · cases hx
    · have hcount := h.of_get? hget
      rw [Json.Countable] at hcount
      have hi := (List.getElem?_eq_some_iff.1 hsub).1
      refine ⟨Json.Countable.of_getElem? hcount.2 hsub, ?_⟩
      rw [hwalk, if_pos (by omega)]
  · rw [Schema.listOf_of_ne (fun subs hget => hsome ⟨subs, hget⟩), nodesOf] at h
    obtain rfl := Except.ok.inj h
    exact .nil

theorem reads_additional {rest : Additional} (hkeys : (Json.object keywords).UniqueKeys)
    (h : additional formats uri keyword keywords = .ok rest) :
    Reads formats uri (.object keywords) [keyword] (single keyword rest.node?) := by
  refine reads_single hkeys (fun part hpart => ?_)
  obtain rfl := eq_schema_of_node? hpart
  cases additionalReads_of_additional h with
  | schema hget hnode => exact ⟨_, hget, hnode⟩

theorem reads_negation {negated : Option Node} (hkeys : (Json.object keywords).UniqueKeys)
    (h : negation formats uri keywords = .ok negated) :
    Reads formats uri (.object keywords) ["not"] (single "not" negated) := by
  refine reads_single hkeys (fun part hpart => ?_)
  subst hpart
  cases negationReads_of_negation h with
  | schema hget hnode => exact ⟨_, hget, hnode⟩

theorem reads_itemChecks {checks : List Check} (hkeys : (Json.object keywords).UniqueKeys)
    (h : itemChecks formats uri keywords = .ok checks) :
    Reads formats uri (.object keywords) ["items", "additionalItems"]
      (checks.flatMap Check.parts) := by
  cases itemReads_of_itemChecks h with
  | tuple hget hnodes hrest =>
      rw [← Schema.listOf_of_get? hget] at hnodes
      rw [List.flatMap_singleton]
      exact (reads_numbered hkeys hnodes).append (reads_additional hkeys hrest) (by decide)
  | @each sub node _ hget hnode =>
      have hitems : Reads formats uri (.object keywords) ["items"]
          (single "items" (some node)) := by
        refine reads_single hkeys (fun part hpart => ⟨sub, hget, ?_⟩)
        rwa [← Option.some.inj hpart]
      have hrest : Reads formats uri (.object keywords) ["additionalItems"] [] := .nil
      rw [List.flatMap_singleton, ← List.append_nil (Check.parts _)]
      exact hitems.append hrest (by decide)
  | absent => exact .nil

/-- Schemas in a table are read behind the keyword of the table and their names. -/
theorem reads_behind (hkeys : (Json.object keywords).UniqueKeys)
    (hsublist : (named.map Prod.fst).Sublist
      ((Schema.tableOf keywords keyword).map Prod.fst))
    (hread : ∀ e ∈ named, ∃ sub, (e.1, sub) ∈ Schema.tableOf keywords keyword
      ∧ ofSchema formats (SchemaUri.child uri [keyword, e.1]) sub = .ok e.2) :
    Reads formats uri (.object keywords) [keyword] (behind keyword named) := by
  by_cases hsome : ∃ table, Table.get? keywords keyword = some (.object table)
  · obtain ⟨table, hget⟩ := hsome
    rw [Schema.tableOf_of_get? hget] at hsublist hread
    have htable := hkeys.of_get? hget
    rw [Json.UniqueKeys] at htable
    refine ⟨spread_behind keyword (htable.1.sublist hsublist), fun e he => ?_⟩
    obtain ⟨name, hname, hway⟩ := mem_behind.1 he
    obtain ⟨sub, hsub, hnode⟩ := hread _ hname
    have hmember := Table.get?_of_mem htable.1 hsub
    refine ⟨sub, Json.UniqueKeys.of_mem htable.2 hsub,
      hway ▸ .of_walk? ?_ (fun h => (h.of_get? hget).of_get? hmember), hway ▸ hnode⟩
    rw [Pointer.walk?, Pointer.step?, hget, Option.bind_some, Pointer.walk?, Pointer.step?, hmember]
    rfl
  · rw [Schema.tableOf_of_ne (fun table hget => hsome ⟨table, hget⟩)] at hsublist
    obtain rfl : named = [] := List.map_eq_nil_iff.1 (List.sublist_nil.1 hsublist)
    exact .nil

theorem map_fst_eq_of_forall₂ {α : Type} {R : String × α → String × Json → Prop}
    {l : List (String × α)} (h : List.Forall₂ (fun a b => a.1 = b.1 ∧ R a b) l table) :
    l.map Prod.fst = table.map Prod.fst := by
  induction h with
  | nil => rfl
  | cons hab _ ih => rw [List.map_cons, List.map_cons, hab.1, ih]

/-- Dependencies on keys only leave entries out. -/
theorem map_fst_filterMap_node?_sublist (dependencies : List (String × Dependency)) :
    ((dependencies.filterMap (fun d => d.2.node?.map (Prod.mk d.1))).map Prod.fst).Sublist
      (dependencies.map Prod.fst) := by
  induction dependencies with
  | nil => exact .slnil
  | cons d rest ih =>
      obtain ⟨name, dependency⟩ := d
      cases dependency with
      | keys names => exact ih.cons name
      | schema node => exact ih.cons_cons name

theorem source_of_compile? {source : String} {p : Pattern} (h : Pattern.compile? source = some p) :
    p.source = source := by
  obtain ⟨regex, -, rfl⟩ := Option.map_eq_some_iff.1 h
  rfl

theorem reads_properties {properties : List (String × Node)}
    (hkeys : (Json.object keywords).UniqueKeys)
    (h : namedNodes formats uri (Schema.tableOf keywords "properties") = .ok properties) :
    Reads formats uri (.object keywords) ["properties"] (behind "properties" properties) := by
  have hread := namedNodes_forall₂ h
  refine reads_behind hkeys (map_fst_eq_of_forall₂ hread ▸ .refl _) (fun e he => ?_)
  obtain ⟨entry, hentry, hname, hnode⟩ := exists_of_forall₂ hread he
  exact ⟨entry.2, hname ▸ hentry, hname ▸ hnode⟩

theorem reads_dependencies {dependencies : List (String × Dependency)}
    (hkeys : (Json.object keywords).UniqueKeys)
    (h : dependenciesOf formats uri (Schema.tableOf keywords "dependencies") = .ok dependencies) :
    Reads formats uri (.object keywords) ["dependencies"]
      (behind "dependencies" (dependencies.filterMap (fun d => d.2.node?.map (Prod.mk d.1)))) := by
  have hread := dependenciesOf_forall₂ h
  have hnames := map_fst_filterMap_node?_sublist dependencies
  rw [map_fst_eq_of_forall₂ hread] at hnames
  refine reads_behind hkeys hnames (fun e he => ?_)
  obtain ⟨entry, hentry, hname, hreads⟩ := exists_of_forall₂ hread (mem_of_mem_filterMap_node? he)
  exact ⟨entry.2, hname ▸ hentry, hname ▸ hreads.ofSchema_eq⟩

theorem reads_patternProperties {patterns : List (Pattern × Node)}
    (hkeys : (Json.object keywords).UniqueKeys)
    (h : patternNodes formats uri (Schema.tableOf keywords "patternProperties") = .ok patterns) :
    Reads formats uri (.object keywords) ["patternProperties"]
      (behind "patternProperties" (patterns.map (fun p => (p.1.source, p.2)))) := by
  have hread : List.Forall₂ (fun e (entry : String × Json) => e.1 = entry.1
      ∧ ofSchema formats (SchemaUri.child uri ["patternProperties", entry.1]) entry.2 = .ok e.2)
      (patterns.map (fun p => (p.1.source, p.2))) (Schema.tableOf keywords "patternProperties") :=
    List.forall₂_map_left_iff.2
      ((patternNodes_forall₂ h).imp (fun p entry hp => ⟨source_of_compile? hp.1, hp.2⟩))
  refine reads_behind hkeys (map_fst_eq_of_forall₂ hread ▸ .refl _) (fun e he => ?_)
  obtain ⟨entry, hentry, hname, hnode⟩ := exists_of_forall₂ hread he
  exact ⟨entry.2, hname ▸ hentry, hname ▸ hnode⟩

theorem reads_memberChecks {checks : List Check} (hkeys : (Json.object keywords).UniqueKeys)
    (h : memberChecks formats uri keywords = .ok checks) :
    Reads formats uri (.object keywords)
      ["properties", "dependencies", "patternProperties", "additionalProperties"]
      (checks.flatMap Check.parts) := by
  cases memberReads_of_memberChecks h with
  | members hprops hdeps hpats hrest =>
      rw [List.flatMap_singleton]
      exact (((reads_properties hkeys hprops).append (reads_dependencies hkeys hdeps)
        (by decide)).append (reads_patternProperties hkeys hpats) (by decide)).append
          (reads_additional hkeys hrest) (by decide)
  | unrestricted => exact .nil

/-! ### Type by type -/

def keywordsFor : Kind → List String
  | .array => ["items", "additionalItems"]
  | .object => ["properties", "dependencies", "patternProperties", "additionalProperties"]
  | _ => []

theorem keywordsFor_disjoint {kind kind' : Kind} (hne : kind ≠ kind') :
    ∀ keyword ∈ keywordsFor kind, keyword ∉ keywordsFor kind' := by
  cases kind <;> cases kind' <;> first | exact absurd rfl hne | decide

theorem flatMap_parts_assertions (assertions : List Assertion) :
    (assertions.map Check.assertion).flatMap Check.parts = [] := by
  rw [List.flatMap_map]
  exact List.flatMap_eq_nil_iff.2 (fun a _ => rfl)

theorem reads_checks {integer : Bool} {kind : Kind} {own : List Check}
    (hkeys : (Json.object keywords).UniqueKeys)
    (h : checks formats uri keywords integer kind = .ok own) :
    Reads formats uri (.object keywords) (keywordsFor kind) (own.flatMap Check.parts) := by
  cases kindReads_of_checks h with
  | null => exact .nil
  | boolean => exact .nil
  | number =>
      rw [flatMap_parts_assertions]
      exact .nil
  | string =>
      rw [flatMap_parts_assertions]
      exact .nil
  | array hitems =>
      rw [List.flatMap_append, List.flatMap_append, flatMap_parts_assertions,
        flatMap_parts_assertions, List.nil_append, List.append_nil]
      exact reads_itemChecks hkeys hitems
  | object hrules =>
      rw [List.flatMap_append, flatMap_parts_assertions, List.nil_append]
      exact reads_memberChecks hkeys hrules

theorem reads_kindChecks {kinds : List Kind} {integer : Bool} {list : List (Kind × List Check)}
    (hkeys : (Json.object keywords).UniqueKeys) (hnodup : kinds.Nodup)
    (h : kindChecks formats uri keywords kinds integer = .ok list) :
    Reads formats uri (.object keywords) (kinds.flatMap keywordsFor)
      ((list.flatMap Prod.snd).flatMap Check.parts) := by
  replace h := kindChecks_forall₂ h
  induction h with
  | nil => exact .nil
  | @cons entry kind list rest hown _ ih =>
      obtain ⟨hfresh, hrest⟩ := List.nodup_cons.1 hnodup
      rw [List.flatMap_cons, List.flatMap_cons, List.flatMap_append]
      refine (reads_checks hkeys hown.2).append (ih hrest) (fun keyword hkeyword hother => ?_)
      obtain ⟨other, hmem, hother⟩ := List.mem_flatMap.1 hother
      have hne : kind ≠ other := fun heq => hfresh (heq ▸ hmem)
      exact keywordsFor_disjoint hne keyword hkeyword hother

theorem not_mem_keywordsFor {keyword : String} {kinds : List Kind}
    (hkeyword : keyword ∈ kinds.flatMap keywordsFor) :
    keyword ∉ ["not", "allOf", "anyOf", "oneOf"] := by
  have hkinds : ∀ kind, ∀ keyword ∈ keywordsFor kind,
      keyword ∉ ["not", "allOf", "anyOf", "oneOf"] := by
    intro kind
    cases kind <;> decide
  obtain ⟨kind, -, hkind⟩ := List.mem_flatMap.1 hkeyword
  exact hkinds kind keyword hkind

end Keywords

/-- The nodes below the node of a schema stand apart, and each has been read where it stands. -/
theorem exists_reads {formats : Table Format} {document : Json} (hkeys : document.UniqueKeys)
    (h : ofSchema formats uri document = .ok node) :
    ∃ keywords, Reads formats uri document keywords node.parts := by
  cases readAs_of_ofSchema h with
  | reference => exact ⟨[], .nil⟩
  | @schema keywords list negated allOf anyOf oneOf _ hlist hnegated hallOf hanyOf honeOf =>
      rw [listed_eq] at hallOf hanyOf honeOf
      have htyped := (reads_kindChecks hkeys (nodup_allowedKinds _) hlist).perm
        ((flatMap_branches_perm list).flatMap_right Check.parts).symm
      have hcombined := (reads_negation hkeys hnegated).append
        ((reads_numbered hkeys hallOf).append
          ((reads_numbered hkeys hanyOf).append (reads_numbered hkeys honeOf) (by decide))
          (by decide)) (by decide)
      rw [parts, List.append_assoc, List.append_assoc, List.append_assoc]
      exact ⟨_, htyped.append hcombined (fun keyword => not_mem_keywordsFor)⟩
  | refusal => exact ⟨[], .nil⟩
  | other => exact ⟨[], .nil⟩

end Node

end HyperSchema
