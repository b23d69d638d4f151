import HyperSchema.Proofs.Registry.Absent
import HyperSchema.Proofs.Registry.Demand
import HyperSchema.Proofs.Schema.Located
import HyperSchema.Proofs.Store.Local

/-!
# Subschemas where they stand and by themselves

A subschema is read as a part of its document, and it can be compiled by itself, under the URI of
the document with the pointer of its place for a fragment. The first way puts the URI together while
it goes down, the second takes it apart again. Both come to the same node, as long as no reference
stands on the way and nothing else is stored under this URI.
-/

namespace HyperSchema

theorem Scan.Image.exists_object {members : Table Json} {v : Json} (h : Image (.object members) v) :
    ∃ members', v = .object members' := by
  rcases h with rfl | ⟨root, scope, rfl⟩
  · exact ⟨members, rfl⟩
  · exact ⟨_, value_object root scope members⟩

/-- In a document, the URI of a place has the place as its fragment. -/
theorem SchemaUri.below_eq_append {uri : String} {way : List String} (huri : '#' ∉ uri.toList)
    (hway : way ≠ []) : below uri way = uri ++ ("#" ++ Pointer.join way) := by
  cases way with
  | nil => exact absurd rfl hway
  | cons segment rest =>
      rw [below, child, if_neg (fun h => huri (List.contains_iff_mem.1 h)), String.append_assoc]

/-- A place in a document is found under the URI of the document with the place as its fragment, if
nothing is stored under this URI. -/
theorem Store.resolution_place {s : Store} {uri p : String} {stored v : Json}
    (huri : '#' ∉ uri.toList) (hstored : s.find? uri = some stored)
    (hnone : s.find? (uri ++ ("#" ++ p)) = none)
    (hadvance : advance? stored (Pointer.tokens p) = some (v, [])) (hv : v.reference? = none) :
    s.resolution (uri ++ ("#" ++ p)) = .found (uri ++ ("#" ++ p)) v := by
  rw [resolution, entrance?_fragment huri hstored hnone]
  dsimp only
  rw [walk_here hadvance hv]
  rfl

namespace Registry

variable {r r' : Registry} {uri : String} {v : Json} {schema : CompiledSchema}

/-! ### What is queued and found is compiled -/

theorem Compiles.compiled {error : Option PatternError} {waits : Bool}
    (h : Compiles r uri r' error waits)
    (hfound : r.store.resolution (SchemaUri.normalize uri) = .found uri v)
    (hread : r.readSchema uri v = .ok schema) :
    waits = false ∧ Table.get? r'.entries uri = some (.compiled schema) := by
  cases h with
  | schema hfound' hread' =>
      obtain ⟨-, rfl⟩ := Resolution.found.inj (hfound.symm.trans hfound')
      obtain rfl := Except.ok.inj (hread.symm.trans hread')
      exact ⟨rfl, Table.get?_insert_self _ _ _⟩
  | invalid hfound' hread' =>
      obtain ⟨-, rfl⟩ := Resolution.found.inj (hfound.symm.trans hfound')
      cases hread.symm.trans hread'
  | renamed hfound' hne =>
      obtain ⟨rfl, -⟩ := Resolution.found.inj (hfound.symm.trans hfound')
      exact absurd rfl hne
  | circular hother => cases hfound.symm.trans hother
  | documentAbsent hother => cases hfound.symm.trans hother
  | nodeAbsent hother => cases hfound.symm.trans hother

theorem Compiles.mem_queue {error : Option PatternError} {waits : Bool} {u : String}
    (h : Compiles r uri r' error waits) (hu : u ∈ r.queue) : u ∈ r'.queue := by
  rcases h.queue with ⟨-, hqueue, -⟩ | ⟨-, -, ⟨added, hqueue, -⟩, -⟩
  · rwa [hqueue]
  · rw [hqueue]
    exact List.mem_append_left _ hu

/-- A URI stands in the queue as long as it has not been compiled, and has its schema afterwards. -/
inductive InTurn (start : Registry) (uri : String) (schema : CompiledSchema) (r : Registry) :
    Prop where
  | queued (hground : SameGround start r uri) (hqueued : uri ∈ r.queue) (hfresh : uri ∉ r.handled)
  | compiled (hdone : uri ∈ r.handled)
      (hentry : Table.get? r.entries uri = some (.compiled schema))

namespace InTurn

variable {start : Registry} {u : String} {rest : List String}

theorem skip (h : InTurn start uri schema r) (hqueue : r.queue = u :: rest) (hu : u ∈ r.handled) :
    InTurn start uri schema { r with queue := rest } := by
  cases h with
  | queued hground hqueued hfresh =>
      rw [hqueue] at hqueued
      rcases List.mem_cons.1 hqueued with rfl | hqueued
      · exact absurd hu hfresh
      · exact .queued ⟨hground.resolution, hground.formats, hground.names⟩ hqueued hfresh
  | compiled hdone hentry => exact .compiled hdone hentry

theorem step {error : Option PatternError} {waits : Bool} (h : InTurn start uri schema r)
    (hfound : start.store.resolution (SchemaUri.normalize uri) = .found uri v)
    (hread : start.readSchema uri v = .ok schema) (hqueue : r.queue = u :: rest)
    (hu : u ∉ r.handled) (hcompiles : Compiles { r with queue := rest } u r' error waits) :
    InTurn start uri schema r' := by
  cases h with
  | queued hground hqueued hfresh =>
      have hrest : SameGround start { r with queue := rest } uri :=
        ⟨hground.resolution, hground.formats, hground.names⟩
      by_cases heq : uri = u
      · subst heq
        obtain ⟨hwaits, hentry⟩ := hcompiles.compiled (hrest.resolution.trans hfound)
          ((hrest.readSchema v).trans hread)
        exact .compiled (hcompiles.mem_handled.2 (.inr ⟨rfl, hwaits⟩)) hentry
      · rw [hqueue] at hqueued
        have hlater : uri ∈ rest := (List.mem_cons.1 hqueued).resolve_left heq
        refine .queued (hrest.trans (hcompiles.sameGround uri)) (hcompiles.mem_queue hlater) ?_
        rw [hcompiles.mem_handled]
        exact fun hdone => hdone.elim hfresh (fun hsame => heq hsame.1)
  | compiled hdone hentry =>
      have hne : uri ≠ u := fun heq => hu (heq ▸ hdone)
      exact .compiled (hcompiles.mem_handled.2 (.inl hdone))
        ((hcompiles.sameAt hne).1.trans hentry)

end InTurn

theorem compile_of_queued (hqueued : uri ∈ r.queue) (hfresh : uri ∉ r.handled)
    (hfound : r.store.resolution (SchemaUri.normalize uri) = .found uri v)
    (hread : r.readSchema uri v = .ok schema) :
    Table.get? r.compile.1.entries uri = some (.compiled schema) := by
  -- in the end the queue is empty, so that the turn of the URI has come
  obtain ⟨r', waiting, failure, hturn, hempty, hcompile⟩ :=
    compile_induction (P := fun r' _ _ => InTurn r uri schema r')
      (fun _ _ _ _ _ hqueue hu h => h.skip hqueue hu)
      (fun _ _ _ _ _ _ _ _ hqueue hu h hcompiles => h.step hfound hread hqueue hu hcompiles)
      (.queued ⟨rfl, rfl, rfl⟩ hqueued hfresh)
  rw [hcompile]
  cases hturn with
  | queued _ hqueued _ =>
      rw [hempty] at hqueued
      cases hqueued
  | compiled _ hentry => exact hentry

/-! ### Both ways -/

theorem exists_eq_object_of_located {formats : Table Format} {unit sub : Node} {way : List String}
    (hread : Node.ofSchema formats uri (schemaOf v) = .ok unit)
    (hlocated : (way, sub) ∈ unit.located) (hway : way ≠ []) : ∃ members, v = .object members := by
  obtain ⟨inner, hbelow⟩ := Node.exists_below_of_mem_located hlocated hway
  by_contra hnone
  rcases schemaOf_of_ne (fun members heq => hnone ⟨members, heq⟩) with heq | heq
  · rw [heq] at hread
    exact Node.not_below_of_ne hread (by simp) hbelow
  · rw [heq] at hread
    obtain ⟨keywords, hsub, -⟩ := hbelow.subReadsInto hread
    exact Schema.not_sub_nil keywords hsub

/-- A node within the unit of a document that has been read from an object further down, to which no
reference stands on the way. -/
structure InlineAt (document : Json) (unit : Node) (way : List String) (sub : Node) : Prop where
  located : (way, sub) ∈ unit.located
  below : way ≠ []
  object : ∃ keywords, Pointer.get? document (Pointer.join way) = some (.object keywords)
  clear : Store.Clear document way
  ending : (Pointer.join way).toList.getLast? ≠ some '#'

namespace InlineAt

variable {document : Json} {unit sub : Node} {way : List String} {formats : Table Format}

theorem normalize_eq (h : InlineAt document unit way sub) (uri : String) :
    SchemaUri.normalize (uri ++ ("#" ++ Pointer.join way)) = uri ++ ("#" ++ Pointer.join way) := by
  have hne : Pointer.join way ≠ "" := by
    intro hnil
    have htokens := Pointer.tokens_join way
    rw [hnil] at htokens
    exact h.below htokens.symm
  exact SchemaUri.normalize_fragment_self uri hne h.ending

theorem exists_eq_object (h : InlineAt document unit way sub)
    (hread : Node.ofSchema formats uri (schemaOf (document.scan uri).value) = .ok unit) :
    ∃ members, document = .object members := by
  obtain ⟨members, hmembers⟩ := exists_eq_object_of_located hread h.located h.below
  cases document with
  | object members => exact ⟨members, rfl⟩
  | array items =>
      rw [Json.scan, Scan.value_array] at hmembers
      cases hmembers
  | _ => cases hmembers

theorem exists_place (h : InlineAt document unit way sub) (huri : '#' ∉ uri.toList)
    (hkeys : document.UniqueKeys)
    (hread : Node.ofSchema formats uri (schemaOf (document.scan uri).value) = .ok unit) :
    ∃ members, Store.advance? (document.scan uri).value way = some (.object members, [])
      ∧ (Json.object members).reference? = none
      ∧ Node.ofSchema formats (uri ++ ("#" ++ Pointer.join way)) (.object members) = .ok sub := by
  obtain ⟨keywords, hobject⟩ := h.object
  rw [Pointer.get?_join] at hobject
  have himage : Scan.Image document (document.scan uri).value := .inr ⟨true, uri, rfl⟩
  obtain ⟨v, hmembers, hadvance, hend, hinner⟩ :=
    Store.exists_image_advance? h.clear hobject himage
  obtain ⟨members, rfl⟩ := hinner.exists_object
  refine ⟨members, hadvance, hend, ?_⟩
  obtain ⟨whole, rfl⟩ := h.exists_eq_object hread
  have hstored : (Json.scan uri (.object whole)).value.UniqueKeys :=
    Scan.uniqueKeys_value true uri _ hkeys
  obtain ⟨w, -, hwalk, hsub⟩ := Node.readAt_of_mem_located hstored hread h.located
  rw [hwalk.1 _ hmembers, ← SchemaUri.below_eq_append huri h.below]
  exact hsub

end InlineAt

variable {document : Json} {r₁ : Registry} {name : Option String} {unit : CompiledSchema}

theorem uniqueKeys_schemaOf {v : Json} (h : v.UniqueKeys) : (schemaOf v).UniqueKeys := by
  by_cases hobject : ∃ members, v = .object members
  · obtain ⟨members, rfl⟩ := hobject
    exact h
  · rcases schemaOf_of_ne (fun members heq => hobject ⟨members, heq⟩) with heq | heq
    · rw [heq]
      trivial
    · rw [heq]
      simp [Json.UniqueKeys, Json.UniqueKeysMembers, Table.Distinct, Table.keys]

theorem mem_queue_enrol (r : Registry) (name : Option String) (hfresh : uri ∉ r.handled) :
    uri ∈ (r.enrol uri name).queue := by
  have hqueue : (r.enrol uri name).queue = r.queue ++ [uri] :=
    if_neg (fun h => hfresh (List.contains_iff_mem.1 h))
  rw [hqueue]
  exact List.mem_append_right _ (List.mem_singleton_self uri)

theorem addSchema_some (huri : '#' ∉ uri.toList)
    (hadd : r.addSchema uri (some document) name = .ok r₁) :
    r₁.store = r.store.add uri document ∧ uri ∈ r₁.queue ∧ uri ∉ r₁.handled := by
  rw [addSchema, SchemaUri.normalize_of_no_hash huri] at hadd
  split at hadd
  · cases hadd
  · next hopen =>
    obtain rfl := Except.ok.inj hadd
    have hfresh : uri ∉ r.handled := by
      intro hdone
      refine hopen ?_
      rw [Option.isSome_some, Bool.true_and, handlesBase]
      exact List.any_eq_true.2 ⟨uri, hdone, beq_self_eq_true _⟩
    exact ⟨rfl, mem_queue_enrol (r.supply uri (some document)) name hfresh, hfresh⟩

theorem addSchema_none (hcanonical : SchemaUri.normalize uri = uri)
    (hbase : r.store.contains (SchemaUri.base uri) = true) (hfresh : uri ∉ r.handled)
    (name : Option String) :
    ∃ r', r.addSchema uri none name = .ok r' ∧ r'.store = r.store ∧ r'.formats = r.formats
      ∧ uri ∈ r'.queue ∧ uri ∉ r'.handled := by
  refine ⟨r.enrol uri name, ?_, rfl, rfl, mem_queue_enrol r name hfresh, hfresh⟩
  rw [addSchema, hcanonical, Option.isSome_none, Bool.false_and, if_neg Bool.false_ne_true, supply,
    hbase, Bool.or_true, if_pos rfl]

/-- A document without ids is added under a URI without fragment, and is read as a unit. -/
structure Adds (r : Registry) (uri : String) (document : Json) (r₁ : Registry)
    (unit : CompiledSchema) : Prop where
  plain : '#' ∉ uri.toList
  keys : document.UniqueKeys
  ids : document.ids = []
  added : ∃ name, r.addSchema uri (some document) name = .ok r₁
  read : r₁.readSchema uri (document.scan uri).value = .ok unit

namespace Adds

variable {r₁ : Registry} {document : Json} {unit : CompiledSchema} {way : List String} {sub : Node}

theorem store_eq (h : r.Adds uri document r₁ unit) : r₁.store = r.store.add uri document :=
  h.added.elim (fun _ hadd => (addSchema_some h.plain hadd).1)

theorem find? (h : r.Adds uri document r₁ unit) :
    r₁.store.find? uri = some (document.scan uri).value := by
  rw [h.store_eq, Store.find?_add_of_no_hash r.store document h.plain]

theorem get?_compile (h : r.Adds uri document r₁ unit) (hclear : document.reference? = none) :
    Table.get? r₁.compile.1.entries uri = some (.compiled unit) := by
  obtain ⟨name, hadd⟩ := h.added
  obtain ⟨-, hqueued, hfresh⟩ := addSchema_some h.plain hadd
  have himage : Scan.Image document (document.scan uri).value := .inr ⟨true, uri, rfl⟩
  refine compile_of_queued hqueued hfresh ?_ h.read
  rw [SchemaUri.normalize_of_no_hash h.plain]
  exact Store.resolution_self h.find? (himage.reference?_eq_none hclear)

/-- Nothing is stored under the URI of a place unless it has been there before. -/
theorem find?_place (h : r.Adds uri document r₁ unit) {p : String}
    (hnone : r.store.find? (uri ++ ("#" ++ p)) = none) :
    r₁.store.find? (uri ++ ("#" ++ p)) = none := by
  have hne : uri ++ ("#" ++ p) ≠ SchemaUri.normalize uri := by
    rw [SchemaUri.normalize_of_no_hash h.plain]
    exact SchemaUri.append_fragment_ne h.plain
  rw [h.store_eq, Store.find?_add_of_no_ids _ _ h.ids, if_neg hne, hnone]

/-- A place in the document can be registered by itself, and is compiled to the node that has been
read within the unit. -/
theorem exists_compile_place (h : r.Adds uri document r₁ unit)
    (hinline : InlineAt document unit.node way sub)
    (hnone : r.store.find? (uri ++ ("#" ++ Pointer.join way)) = none)
    (hsame : Store.SameDocuments r₁.store r'.store) (hformats : r'.formats = r₁.formats)
    (hfresh : uri ++ ("#" ++ Pointer.join way) ∉ r'.handled) (name : Option String) :
    ∃ r'' schema,
      r'.addSchema (uri ++ ("#" ++ Pointer.join way)) none name = .ok r''
        ∧ Table.get? r''.compile.1.entries (uri ++ ("#" ++ Pointer.join way))
          = some (.compiled schema)
        ∧ schema.node = sub := by
  obtain ⟨members, hadvance, hend, hsub⟩ :=
    hinline.exists_place h.plain h.keys (eq_of_readSchema h.read).2
  have htarget := hinline.normalize_eq uri
  have hstored : r'.store.find? uri = some (document.scan uri).value := by
    rw [hsame.find?, h.find?]
  have hbase : r'.store.contains (SchemaUri.base (uri ++ ("#" ++ Pointer.join way))) = true := by
    rw [SchemaUri.base, SchemaUri.split_fragment h.plain, Store.contains, hstored]
    rfl
  obtain ⟨r'', hadd', hstore'', hformats'', hqueued', hfresh'⟩ :=
    addSchema_none htarget hbase hfresh name
  have hread := readSchema_of_ofSchema (r := r'') (v := .object members)
    (hformats''.symm ▸ hformats.symm ▸ hsub)
  refine ⟨r'', _, hadd', compile_of_queued hqueued' hfresh' ?_ hread, rfl⟩
  rw [htarget, hstore'']
  refine Store.resolution_place h.plain hstored ?_ (by rwa [Pointer.tokens_join]) hend
  rw [hsame.find?, h.find?_place hnone]

end Adds

/-- A node that has been read within the unit of a document is, with all its URIs, the node of the
unit that its own URI has when it is registered and compiled by itself, be it in the same registry
or in any other with the same documents. In a unit every node is located somewhere, and no two nodes
have the same URI. -/
theorem compile_inline (r : Registry) :
    (∀ (uri : String) (v : Json) (unit : CompiledSchema), v.UniqueKeys →
        r.readSchema uri v = .ok unit → unit.node.uris.Nodup
          ∧ ∀ sub, Node.Within unit.node sub → ∃ way, (way, sub) ∈ unit.node.located)
      ∧ ∀ (uri : String) (document : Json) (r₁ : Registry) (unit : CompiledSchema),
        r.Adds uri document r₁ unit → ∀ way sub, InlineAt document unit.node way sub →
          r.store.find? (uri ++ ("#" ++ Pointer.join way)) = none →
            Table.get? r₁.compile.1.entries uri = some (.compiled unit)
              ∧ ∀ (r' : Registry) (name : Option String), Store.SameDocuments r₁.store r'.store →
                r'.formats = r₁.formats → uri ++ ("#" ++ Pointer.join way) ∉ r'.handled →
                  ∃ r'' schema,
                    r'.addSchema (uri ++ ("#" ++ Pointer.join way)) none name = .ok r''
                      ∧ Table.get? r''.compile.1.entries (uri ++ ("#" ++ Pointer.join way))
                        = some (.compiled schema)
                      ∧ schema.node = sub := by
  refine ⟨fun uri v unit hv hread => ?_, fun uri document r₁ unit h way sub hinline hnone => ?_⟩
  · exact ⟨Node.nodup_uris (uniqueKeys_schemaOf hv) (eq_of_readSchema hread).2,
      fun sub hwithin => Node.exists_mem_located_of_within hwithin⟩
  · exact ⟨h.get?_compile hinline.clear.reference?_eq_none,
      fun r' name hsame hformats hfresh =>
        h.exists_compile_place hinline hnone hsame hformats hfresh name⟩

/-! ### A property with an unusual name -/

def nested : Table Json :=
  [("type", .string "object"),
    ("properties", .object [("b/~c#d", .object [("not", .object [])])])]

def openNode (uri : String) : Node :=
  .schema ⟨uri, Kind.all, [], none, none, []⟩ [(Kind.all, [])] [] [] [] none

def negatingNode (uri : String) : Node :=
  .schema ⟨uri, Kind.all, [], none, none, []⟩ [(Kind.all, [])] [] [] []
    (some (openNode (SchemaUri.child uri ["not"])))

def nestedNode : Node :=
  .schema ⟨"a", [.object], ["object"], none, none, []⟩
    [([.object], [.members
      [("b/~c#d", negatingNode (SchemaUri.child "a" ["properties", "b/~c#d"]))] [] [] []
      .allowed])] [] [] [] none

theorem ofSchema_negating (uri : String) :
    Node.ofSchema [] uri (.object [("not", .object [])]) = .ok (negatingNode uri) := by
  exact ofSchema_of_combining (by decide) (Node.negation_of_get? rfl (ofSchema_empty _))
    (Node.listed_eq_nil rfl) (Node.listed_eq_nil rfl) (Node.listed_eq_nil rfl)

theorem ofSchema_nested : Node.ofSchema [] "a" (.object nested) = .ok nestedNode :=
  Node.ofSchema_property [] "a" rfl (ofSchema_negating _)

theorem inlineAt_nested :
    InlineAt (.object nested) nestedNode ["properties", "b/~c#d", "not"]
      (openNode (SchemaUri.child (SchemaUri.child "a" ["properties", "b/~c#d"]) ["not"])) where
  located := by
    have hproperty : (["properties", "b/~c#d"],
        negatingNode (SchemaUri.child "a" ["properties", "b/~c#d"])) ∈ nestedNode.parts :=
      List.mem_singleton_self _
    have hnegated : (["not"],
        openNode (SchemaUri.child (SchemaUri.child "a" ["properties", "b/~c#d"]) ["not"]))
          ∈ (negatingNode (SchemaUri.child "a" ["properties", "b/~c#d"])).parts :=
      List.mem_singleton_self _
    exact Node.mem_located_append (Node.mem_located_of_mem_parts hproperty)
      (Node.mem_located_of_mem_parts hnegated)
  below := List.cons_ne_nil _ _
  object := ⟨[], by rw [Pointer.get?_join]; rfl⟩
  clear := by
    refine ⟨rfl, fun properties hproperties => ?_⟩
    obtain rfl := Option.some.inj hproperties
    refine ⟨rfl, fun property hproperty => ?_⟩
    obtain rfl := Option.some.inj hproperty
    refine ⟨rfl, fun sub hsub => ?_⟩
    obtain rfl := Option.some.inj hsub
    rfl
  ending := by decide +kernel

/-- Without formats, the empty registry with the document added. -/
def nestedAdded : Registry :=
  ((Registry.empty .standard).supply "a" (some (.object nested))).enrol "a" none

theorem adds_nested :
    (Registry.empty .standard).Adds "a" (.object nested) nestedAdded ⟨"a", none, nestedNode⟩ where
  plain := by decide +kernel
  keys := by
    simp [nested, Json.UniqueKeys, Json.UniqueKeysMembers, Table.Distinct, Table.keys]
  ids := rfl
  added := by
    have hnormal : SchemaUri.normalize "a" = "a" := by decide +kernel
    refine ⟨none, ?_⟩
    rw [addSchema, hnormal]
    rfl
  read := by
    have hvalue : ((Json.object nested).scan "a").value = .object nested := rfl
    rw [hvalue]
    exact readSchema_of_ofSchema ofSchema_nested

/-- A schema below `not` in a property whose name has a slash, a tilde and a hash. -/
theorem compile_inline_nested :
    nestedNode.uris.Nodup
      ∧ Table.get? nestedAdded.compile.1.entries "a"
        = some (.compiled ⟨"a", none, nestedNode⟩)
      ∧ ∃ r schema,
        (ofStore nestedAdded.store .standard).addSchema "a#/properties/b~1~0c#d/not" none none
            = .ok r
          ∧ Table.get? r.compile.1.entries "a#/properties/b~1~0c#d/not" = some (.compiled schema)
          ∧ schema.node = openNode "a#/properties/b~1~0c#d/not" := by
  have hfree : (Registry.empty .standard).store.find?
      ("a" ++ ("#" ++ Pointer.join ["properties", "b/~c#d", "not"])) = none := rfl
  have huri : "a" ++ ("#" ++ Pointer.join ["properties", "b/~c#d", "not"])
      = "a#/properties/b~1~0c#d/not" := by decide +kernel
  have hnode : SchemaUri.child (SchemaUri.child "a" ["properties", "b/~c#d"]) ["not"]
      = "a#/properties/b~1~0c#d/not" := by decide +kernel
  obtain ⟨hdistinct, hplaces⟩ := compile_inline (Registry.empty .standard)
  obtain ⟨hunit, halone⟩ := hplaces "a" (.object nested) nestedAdded _ adds_nested
    ["properties", "b/~c#d", "not"] _ inlineAt_nested hfree
  obtain ⟨r, schema, hadd, hentry, hsame⟩ :=
    halone (ofStore nestedAdded.store .standard) none .rfl rfl List.not_mem_nil
  rw [huri] at hadd hentry
  rw [hnode] at hsame
  have hread : (Registry.empty .standard).readSchema "a" (.object nested)
      = .ok ⟨"a", none, nestedNode⟩ := readSchema_of_ofSchema ofSchema_nested
  exact ⟨(hdistinct "a" _ _ adds_nested.keys hread).1, hunit, r, schema, hadd, hentry, hsame⟩

end Registry

end HyperSchema
