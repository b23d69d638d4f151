import HyperSchema.Proofs.Registry.Inline
import HyperSchema.Proofs.Store.Addresses
import HyperSchema.Proofs.Validation.Sources

/-!
# Looking up what is reported

A run reports the URIs of the schemas that it finds violated, and of those that it finds to apply.
Each is the URI of a compiled schema with the way to a part of its document, and the part has been
read into the node that has found it. Looked up in the store, the URI of the schema itself leads to
the document again, and that of a part further down to the part if it can be addressed.

A schema with an id like `#name` can be compiled under this id, but its parts cannot be addressed:
what stands behind the hash sign is no way down from the document that it stands in.
-/

namespace HyperSchema

/-! ### Schemas and their documents -/

/-- A schema that has been read from the document to which its URI leads in a store. -/
structure CompiledSchema.ReadFrom (schema : CompiledSchema) (s : Store) (document : Json) :
    Prop where
  found : s.resolution (SchemaUri.normalize schema.uri) = .found schema.uri document
  read : ∃ formats, Node.ofSchema formats schema.uri (Registry.schemaOf document) = .ok schema.node

theorem CompiledSchema.ReadFrom.of_sameDocuments {schema : CompiledSchema} {s s' : Store}
    {document : Json} (h : schema.ReadFrom s document) (hsame : Store.SameDocuments s s') :
    schema.ReadFrom s' document :=
  ⟨(hsame.resolution _).trans h.found, h.read⟩

namespace Registry

variable {r r' : Registry} {uri : String} {schema : CompiledSchema} {document : Json}

/-- The URIs of all compiled schemas still lead to the documents that these have been read from. -/
def Current (r : Registry) : Prop :=
  ∀ uri schema, Table.get? r.entries uri = some (.compiled schema) →
    ∃ document, schema.ReadFrom r.store document

theorem current_of_entries_eq_nil (h : r.entries = []) : r.Current := by
  intro uri schema hget
  rw [h] at hget
  cases hget

theorem Compiles.current {error : Option PatternError} {waits : Bool}
    (h : Compiles r uri r' error waits) (hcurrent : r.Current) : r'.Current := by
  have hsame := h.sameDocuments
  have hold : ∀ {u schema}, Table.get? r.entries u = some (.compiled schema) →
      ∃ document, schema.ReadFrom r'.store document := by
    intro u schema hget
    obtain ⟨document, hread⟩ := hcurrent u schema hget
    exact ⟨document, hread.of_sameDocuments hsame⟩
  intro u compiled hget
  by_cases hu : u = uri
  · subst hu
    cases h with
    | circular =>
        rw [Table.get?_insert_self] at hget
        cases hget
    | documentAbsent => exact hold hget
    | nodeAbsent => exact hold hget
    | renamed =>
        dsimp only at hget
        rw [(sameBut_enqueue _ _).entries] at hget
        exact hold hget
    | @schema v _ hfound hread =>
        rw [Table.get?_insert_self] at hget
        obtain rfl := Entry.compiled.inj (Option.some.inj hget)
        obtain ⟨rfl, hnode⟩ := eq_of_readSchema hread
        exact ⟨v, (hsame.resolution _).trans hfound, r.formats, hnode⟩
    | invalid => exact hold hget
  · rw [(h.sameAt hu).1] at hget
    exact hold hget

theorem current_compile (h : r.Current) : r.compile.1.Current := by
  obtain ⟨r', waiting, failure, hcurrent, -, hcompile⟩ :=
    compile_induction (P := fun r' _ _ => r'.Current)
      (fun _ _ _ _ _ _ _ hP => hP)
      (fun _ _ _ _ _ _ _ _ _ _ hP hcompiles => hcompiles.current hP) h
  rw [hcompile]
  exact hcurrent

/-- Schemas stay current when more is registered, as long as every document that comes is new. -/
theorem current_addSchema {supplied : Option Json} {name : Option String} (h : r.Current)
    (hnew : ∀ document, supplied = some document → r.store.New (SchemaUri.normalize uri) document)
    (hadd : r.addSchema uri supplied name = .ok r') : r'.Current := by
  have hentries : r'.entries = r.entries ∧ (Store.SameDocuments r.store r'.store
      ∨ Store.Keeps r.store r'.store) := by
    rw [addSchema] at hadd
    split at hadd
    · cases hadd
    · obtain rfl := Except.ok.inj hadd
      cases supplied with
      | some document => exact ⟨rfl, .inr (hnew document rfl).keeps_add⟩
      | none =>
          rw [supply]
          split
          · exact ⟨rfl, .inl .rfl⟩
          · exact ⟨rfl, .inl (r.store.sameDocuments_markMissing _)⟩
  intro u schema hget
  rw [hentries.1] at hget
  obtain ⟨document, hread⟩ := h u schema hget
  rcases hentries.2 with hsame | hkeeps
  · exact ⟨document, hread.of_sameDocuments hsame⟩
  · exact ⟨document, hkeeps.resolution_eq_found hread.found, hread.read⟩

theorem sameDocuments_compile (r : Registry) :
    Store.SameDocuments r.store r.compile.1.store := by
  obtain ⟨r', waiting, failure, hsame, -, hcompile⟩ :=
    compile_induction (P := fun r' _ _ => Store.SameDocuments r.store r'.store)
      (fun _ _ _ _ _ _ _ hP => hP)
      (fun _ _ _ _ _ _ _ _ _ _ hP hcompiles => hP.trans hcompiles.sameDocuments) .rfl
  rw [hcompile]
  exact hsame

/-- The documents of a registry are like those that are read from a text: no object has a key twice,
and no array is longer than a count can tell. -/
def Proper (r : Registry) : Prop :=
  ∀ uri document, r.store.find? uri = some document → document.UniqueKeys ∧ document.Countable

theorem Proper.of_readFrom (hproper : r.Proper) (h : schema.ReadFrom r.store document) :
    document.UniqueKeys ∧ document.Countable := by
  obtain ⟨uri, whole, place, hfind, hpart⟩ := Store.hasPart_of_resolution h.found
  obtain ⟨hkeys, hcount⟩ := hproper uri whole hfind
  exact ⟨hpart.uniqueKeys hkeys, hpart.countable hcount⟩

/-! ### Parts and their nodes -/

theorem schemaOf_of_uri? {formats : Table Format} {node : Node} {target : String}
    (h : Node.ofSchema formats uri document = .ok node) (huri : node.uri? = some target) :
    schemaOf document = document := by
  cases Node.readAs_of_ofSchema h with
  | reference => rfl
  | schema => rfl
  | refusal => rfl
  | other => cases huri

/-- A node that has a URI has been read from a part of the document, under the URI of this part. -/
theorem Proper.exists_part {sub : Node} {way : List String} (hproper : r.Proper)
    (h : schema.ReadFrom r.store document) (hlocated : (way, sub) ∈ schema.node.located)
    (huri : sub.uri? = some uri) :
    uri = SchemaUri.below schema.uri way ∧ ∃ part, Pointer.walk? document way = some part
      ∧ ∃ formats, Node.ofSchema formats uri (schemaOf part) = .ok sub := by
  obtain ⟨hkeys, hcount⟩ := hproper.of_readFrom h
  obtain ⟨formats, hread⟩ := h.read
  obtain ⟨w, -, hlead, hsub⟩ :=
    Node.readAt_of_mem_located (uniqueKeys_schemaOf hkeys) hread hlocated
  obtain rfl := Node.eq_of_uri?_eq_some hsub huri
  refine ⟨rfl, ?_⟩
  cases way with
  | nil =>
      obtain rfl := hlead.1 (schemaOf document) rfl
      exact ⟨document, rfl, formats, hsub⟩
  | cons segment rest =>
      obtain ⟨members, rfl⟩ := exists_eq_object_of_located hread hlocated (List.cons_ne_nil _ _)
      refine ⟨w, (hlead.2 hcount).2, formats, ?_⟩
      rwa [schemaOf_of_uri? hsub huri]

/-! ### Findings and their schemas -/

/-- Where a finding of a run comes from: a compiled schema, and the part of its document that has
been read into a node which the run evaluates, and which finds it by its own keywords. -/
structure Source (r : Registry) (uris : List String) (v : Json) (finding : Finding)
    (schema : CompiledSchema) (document : Json) (way : List String) (part : Json) : Prop where
  compiled : Table.get? r.entries schema.uri = some (.compiled schema)
  readFrom : schema.ReadFrom r.store document
  walk : Pointer.walk? document way = some part
  finds : ∃ root ∈ uris, ∃ formats node w place depth active,
    (way, node) ∈ schema.node.located
      ∧ Node.ofSchema formats (SchemaUri.below schema.uri way) (schemaOf part) = .ok node
      ∧ r.snapshot.Evaluates (.reference (SchemaUri.normalize root)) v "" node w place
      ∧ node.Finds (r.snapshot.below depth active) w place finding

variable {uris : List String} {v part : Json} {finding : Finding} {way : List String}

/-- Whatever a run reports comes from somewhere. -/
theorem exists_source (hkeyed : r.snapshot.Keyed) (hcurrent : r.Current) (hproper : r.Proper)
    (h : (r.snapshot.validateAll uris v).Reports finding) (huri : finding.schemaUri? = some uri) :
    ∃ schema document way part, r.Source uris v finding schema document way part := by
  obtain ⟨root, hroot, node, w, place, depth, active, hevaluates, hfinds⟩ :=
    Snapshot.exists_finds_of_reports h huri
  have hnode := hfinds.uri?_eq huri
  rcases hevaluates.within with hwithin | ⟨target, schema, htarget, hwithin⟩
  · rw [hwithin.eq_reference] at hnode
    cases hnode
  · have hentry := hkeyed.get? htarget
    obtain ⟨document, hread⟩ := hcurrent _ _ hentry
    obtain ⟨way, hlocated⟩ := Node.exists_mem_located_of_within hwithin
    obtain ⟨rfl, part, hwalk, formats, hpart⟩ := hproper.exists_part hread hlocated hnode
    exact ⟨schema, document, way, part, hentry, hread, hwalk,
      root, hroot, formats, node, w, place, depth, active, hlocated, hpart, hevaluates, hfinds⟩

theorem Source.uri_eq (h : r.Source uris v finding schema document way part)
    (huri : finding.schemaUri? = some uri) : uri = SchemaUri.below schema.uri way := by
  obtain ⟨root, -, formats, node, w, place, depth, active, -, hread, -, hfinds⟩ := h.finds
  exact Node.eq_of_uri?_eq_some hread (hfinds.uri?_eq huri)

/-- The part is looked up under its URI if it can be addressed; the whole document always is. -/
theorem Source.lookup? (h : r.Source uris v finding schema document way part)
    (haddress : way = [] ∨ r.store.Addressable schema.uri document way part) :
    r.store.lookup? (SchemaUri.below schema.uri way) = .ok (some part) := by
  have hself := Store.resolution_found h.readFrom.found
  cases way with
  | nil =>
      obtain rfl := Option.some.inj h.walk
      rw [SchemaUri.below, Store.lookup?, h.readFrom.found]
  | cons segment rest =>
      have haddressable := haddress.resolve_left (List.cons_ne_nil _ _)
      exact haddressable.lookup? (List.cons_ne_nil _ _) hself h.walk

/-- All that is reported after compiling, circles of references apart, comes from parts of
documents, and each schema URI that is reported leads to the part it comes from: always if the part
is a whole document, and otherwise if it can be addressed. -/
theorem lookup?_of_reports (hr : r.Reached) (hcurrent : r.Current) (hproper : r.Proper)
    (uris : List String) (v : Json) {finding : Finding} {uri : String}
    (h : (r.compile.1.snapshot.validateAll uris v).Reports finding)
    (huri : finding.schemaUri? = some uri) :
    (∃ schema document way part, r.compile.1.Source uris v finding schema document way part)
      ∧ ∀ schema document way part, r.compile.1.Source uris v finding schema document way part →
        uri = SchemaUri.below schema.uri way
          ∧ ((way = [] ∨ r.compile.1.store.Addressable schema.uri document way part) →
            r.compile.1.store.lookup? uri = .ok (some part)) := by
  have hproper' : r.compile.1.Proper := by
    intro u document hfind
    rw [r.sameDocuments_compile.find?] at hfind
    exact hproper u document hfind
  refine ⟨exists_source (keyed_compile hr.keyed) (current_compile hcurrent) hproper' h huri, ?_⟩
  intro schema document way part hsource
  obtain rfl := hsource.uri_eq huri
  exact ⟨rfl, hsource.lookup?⟩

/-! ### Parts of a schema with an id -/

def unmeetable (id : String) : Table Json :=
  [("id", .string id), ("allOf", .array [.bool false])]

def unmeetableNode (uri : String) : Node :=
  .schema ⟨uri, Kind.all, [], none, none, []⟩ [(Kind.all, [])]
    [.reject (SchemaUri.child uri ["allOf", "0"])] [] [] none

theorem ofSchema_unmeetable (uri id : String) :
    Node.ofSchema [] uri (.object (unmeetable id)) = .ok (unmeetableNode uri) := by
  have hreject : ∀ uri, Node.ofSchema [] uri (.bool false) = .ok (.reject uri) := fun uri => by
    rw [Node.ofSchema]
  have hkeys : ∀ key ∈ Table.keys (unmeetable id),
      key ∈ ["id", "allOf", "anyOf", "oneOf", "not"] := by
    simp [unmeetable, Table.keys]
  refine ofSchema_of_combining hkeys ?_ ?_ (Node.listed_eq_nil rfl) (Node.listed_eq_nil rfl)
  · rw [Node.negation]
    rfl
  · rw [Node.listed_eq, show Schema.listOf _ "allOf" = [.bool false] from rfl, Node.nodesOf,
      hreject, Node.nodesOf]
    rfl

/-- Whatever is validated against the schema, its part reports it. -/
theorem reports_unmeetable {s : Snapshot} (huri : SchemaUri.normalize uri = uri)
    (hentry : Table.get? s.entries uri = some (.compiled ⟨uri, none, unmeetableNode uri⟩)) :
    (s.validateAll [uri] .null).Reports
      (.violation "" (SchemaUri.child uri ["allOf", "0"]) .notPassed) := by
  refine Snapshot.reports_of_mem_findings (List.mem_singleton_self uri) ?_
  rw [Snapshot.findings, huri, Snapshot.depthBound, Snapshot.call, Snapshot.target?,
    Snapshot.targetWithin, hentry]
  exact List.mem_cons_of_mem _ List.mem_cons_self

theorem store_enrol (r : Registry) (uri : String) (name : Option String) :
    (r.enrol uri name).store = r.store := rfl

theorem supply_of_contains (h : r.store.contains uri = true) : r.supply uri none = r := by
  rw [supply, h]
  rfl

def enclosing (id : String) : Json := .object [("p", .object (unmeetable id))]

def entered (id : String) : Registry :=
  ((Registry.empty .standard).supply "b" (some (enclosing id))).enrol "b" none

def enrolled (id uri : String) : Registry := (entered id).enrol uri none

def enclosed (id uri : String) : Store :=
  ⟨⟨[("b", enclosing id), (uri, .object (unmeetable id))], []⟩, []⟩

section

variable {id : String} (hstore : (enrolled id uri).store = enclosed id uri)

include hstore

theorem proper_enrolled : (enrolled id uri).Proper := by
  intro u document hfind
  have hdocument : document = enclosing id ∨ document = .object (unmeetable id) := by
    rw [hstore] at hfind
    obtain ⟨layer, hlayer, hget⟩ := List.exists_of_findSome?_eq_some hfind
    obtain rfl := List.mem_singleton.1 hlayer
    rcases List.mem_cons.1 (Table.mem_of_get? hget) with hentry | hentry
    · exact .inl (Prod.mk.inj hentry).2
    · exact .inr (Prod.mk.inj (List.mem_singleton.1 hentry)).2
  rcases hdocument with rfl | rfl <;>
    simp [enclosing, unmeetable, Json.UniqueKeys, Json.UniqueKeysMembers, Json.UniqueKeysItems,
      Table.Distinct, Table.keys, Json.Countable, Json.CountableMembers, Json.CountableItems,
      Text.maxCount]

variable (hne : uri ≠ "b")

include hne

theorem find?_enrolled : (enrolled id uri).store.find? uri = some (.object (unmeetable id)) := by
  rw [hstore]
  simp [enclosed, Store.find?, Store.layers, Table.get?, hne.symm]

variable (huri : SchemaUri.normalize uri = uri)

include huri

theorem reached_enrolled : (enrolled id uri).Reached := by
  have hthere : (entered id).store.contains uri = true := by
    rw [Store.contains, ← store_enrol _ uri none, ← enrolled, find?_enrolled hstore hne]
    rfl
  have hdocument : (Registry.empty .standard).addSchema "b" (some (enclosing id)) none
      = .ok (entered id) := by
    rw [addSchema, show SchemaUri.normalize "b" = "b" by decide +kernel]
    rfl
  have hid : (entered id).addSchema uri none none = .ok (enrolled id uri) := by
    rw [addSchema, huri, supply_of_contains hthere]
    rfl
  exact (Reached.schema (.start Store.empty .standard) hdocument).schema hid

theorem get?_compile_enrolled :
    Table.get? (enrolled id uri).compile.1.entries uri
      = some (.compiled ⟨uri, none, unmeetableNode uri⟩) := by
  have hread : (enrolled id uri).readSchema uri (.object (unmeetable id))
      = .ok ⟨uri, none, unmeetableNode uri⟩ :=
    readSchema_of_ofSchema (ofSchema_unmeetable uri id)
  have hopen : uri ∉ (entered id).handled := List.not_mem_nil
  have hfresh : uri ∉ (enrolled id uri).handled := List.not_mem_nil
  refine compile_of_queued (mem_queue_enrol _ none hopen) hfresh ?_ hread
  rw [huri]
  exact Store.resolution_self (find?_enrolled hstore hne) rfl

theorem reports_enrolled :
    ((enrolled id uri).compile.1.snapshot.validateAll [uri] .null).Reports
      (.violation "" (SchemaUri.child uri ["allOf", "0"]) .notPassed) := by
  refine reports_unmeetable huri ?_
  dsimp only [snapshot]
  exact get?_compile_enrolled hstore hne huri

theorem source_enrolled :
    (enrolled id uri).compile.1.Source [uri] .null
      (.violation "" (SchemaUri.child uri ["allOf", "0"]) .notPassed)
      ⟨uri, none, unmeetableNode uri⟩ (.object (unmeetable id)) ["allOf", "0"]
      (.bool false) where
  compiled := get?_compile_enrolled hstore hne huri
  readFrom := by
    refine ⟨?_, [], ofSchema_unmeetable uri id⟩
    rw [(enrolled id uri).sameDocuments_compile.resolution, huri]
    exact Store.resolution_self (find?_enrolled hstore hne) rfl
  walk := rfl
  finds := by
    have hpart : (["allOf", "0"], Node.reject (SchemaUri.child uri ["allOf", "0"]))
        ∈ (unmeetableNode uri).parts := by
      have hparts : (unmeetableNode uri).parts
          = [(["allOf", Text.natText 0], .reject (SchemaUri.child uri ["allOf", "0"]))] := rfl
      rw [hparts, show Text.natText 0 = "0" by decide +kernel]
      exact List.mem_singleton_self _
    have htarget : (enrolled id uri).compile.1.snapshot.target? uri
        = some (.compiled ⟨uri, none, unmeetableNode uri⟩) := by
      rw [Snapshot.target?, Snapshot.targetWithin]
      dsimp only [snapshot]
      rw [get?_compile_enrolled hstore hne huri]
    refine ⟨uri, List.mem_singleton_self uri, [], .reject (SchemaUri.child uri ["allOf", "0"]),
      .null, "", 0, [], Node.mem_located_of_mem_parts hpart, ?_, ?_,
      .found List.mem_cons_self (List.mem_singleton_self _)⟩
    · rw [schemaOf, Node.ofSchema]
      rfl
    · have hjob : Job.apply (.reject (SchemaUri.child uri ["allOf", "0"])) .null ""
          ∈ (unmeetableNode uri).jobs .null "" := List.mem_cons_of_mem _ List.mem_cons_self
      rw [huri]
      exact .called List.mem_cons_self htarget (.applied hjob .apply .itself)

end

theorem addressable_enrolled :
    (enrolled "#/p" "b#/p").compile.1.store.Addressable "b#/p" (.object (unmeetable "#/p"))
      ["allOf", "0"] (.bool false) := by
  have hfind : ∀ u, (enrolled "#/p" "b#/p").compile.1.store.find? u
      = (enclosed "#/p" "b#/p").find? u := fun u => by
    rw [(enrolled "#/p" "b#/p").sameDocuments_compile.find?]
    rfl
  refine ⟨fun _ _ => ?_, ?_, by decide +kernel, fun stored hstored => ?_⟩
  · refine ⟨enclosing "#/p", [], ?_, ?_, List.nodup_nil, fun _ h => nomatch h⟩
    · rw [hfind, show SchemaUri.base "b#/p" = "b" by decide +kernel]
      rfl
    · rw [show Pointer.tokens (SchemaUri.split "b#/p").2 = ["p"] by decide +kernel]
      exact .here rfl rfl
  · refine ⟨rfl, fun parts hparts => ?_⟩
    obtain rfl := Option.some.inj hparts
    refine ⟨rfl, fun part hpart => ?_⟩
    obtain rfl : .bool false = part := Option.some.inj hpart
    rfl
  · have hnone : (enclosed "#/p" "b#/p").find? (SchemaUri.below "b#/p" ["allOf", "0"]) = none :=
      rfl
    rw [hfind, hnone] at hstored
    cases hstored

/-- A schema with a pointer to its own place for an id: its part is found. -/
theorem lookup?_of_reports_enrolled :
    (enrolled "#/p" "b#/p").Reached ∧ (enrolled "#/p" "b#/p").Current
      ∧ (enrolled "#/p" "b#/p").Proper
      ∧ ((enrolled "#/p" "b#/p").compile.1.snapshot.validateAll ["b#/p"] .null).Reports
        (.violation "" "b#/p/allOf/0" .notPassed)
      ∧ (Finding.violation "" "b#/p/allOf/0" .notPassed).schemaUri? = some "b#/p/allOf/0"
      ∧ (enrolled "#/p" "b#/p").compile.1.store.Addressable "b#/p" (.object (unmeetable "#/p"))
        ["allOf", "0"] (.bool false)
      ∧ (enrolled "#/p" "b#/p").compile.1.store.lookup? "b#/p/allOf/0"
        = .ok (some (.bool false)) := by
  have huri : SchemaUri.normalize "b#/p" = "b#/p" := by decide +kernel
  have hstore : (enrolled "#/p" "b#/p").store = enclosed "#/p" "b#/p" := rfl
  have hreached := reached_enrolled hstore (by decide) huri
  have hcurrent : (enrolled "#/p" "b#/p").Current := current_of_entries_eq_nil rfl
  have hproper := proper_enrolled hstore
  have hreports := reports_enrolled hstore (by decide) huri
  have hsource := source_enrolled hstore (by decide) huri
  rw [show SchemaUri.child "b#/p" ["allOf", "0"] = "b#/p/allOf/0" by decide +kernel]
    at hreports hsource
  obtain ⟨-, hlookup⟩ := lookup?_of_reports hreached hcurrent hproper ["b#/p"] .null hreports rfl
  exact ⟨hreached, hcurrent, hproper, hreports, rfl, addressable_enrolled,
    (hlookup _ _ _ _ hsource).2 (.inr addressable_enrolled)⟩

/-- A schema with a name for an id: its part is reported, and not found. -/
theorem named_part_lost :
    (enrolled "#n" "b#n").Reached ∧ (enrolled "#n" "b#n").Current ∧ (enrolled "#n" "b#n").Proper
      ∧ ((enrolled "#n" "b#n").compile.1.snapshot.validateAll ["b#n"] .null).Reports
        (.violation "" "b#n/allOf/0" .notPassed)
      ∧ (Finding.violation "" "b#n/allOf/0" .notPassed).schemaUri? = some "b#n/allOf/0"
      ∧ (enrolled "#n" "b#n").compile.1.store.lookup? "b#n/allOf/0" = .ok none := by
  have huri : SchemaUri.normalize "b#n" = "b#n" := by decide +kernel
  have hstore : (enrolled "#n" "b#n").store = enclosed "#n" "b#n" := rfl
  have hreports := reports_enrolled hstore (by decide) huri
  rw [show SchemaUri.child "b#n" ["allOf", "0"] = "b#n/allOf/0" by decide +kernel] at hreports
  refine ⟨reached_enrolled hstore (by decide) huri, current_of_entries_eq_nil rfl,
    proper_enrolled hstore, hreports, rfl, ?_⟩
  have hlost : (enclosed "#n" "b#n").lookup? "b#n/allOf/0" = .ok none := rfl
  rw [Store.lookup?, (enrolled "#n" "b#n").sameDocuments_compile.resolution, hstore]
  exact hlost

end Registry

end HyperSchema
