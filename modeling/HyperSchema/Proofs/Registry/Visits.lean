import HyperSchema.Proofs.Schema.Reading
import HyperSchema.Proofs.Store.Documents
import HyperSchema.Proofs.Store.Rewriting
import HyperSchema.Registry

/-!
# Reading meets absolute references

Schemas are read from stored documents: some place of a document is read by itself, and with it the
subschemas at places below. A reference that is met at a place is the one of the original document
at this place, made absolute, if no name of a data keyword leads to the place.

The scan takes such a name for the keyword wherever it stands, while the reading of schemas knows
keywords by their position. So below a property that has the name of a data keyword, references are
met as they were written.
-/

namespace HyperSchema

open Json (Step)

variable {formats : Table Format} {uri target : String} {document v : Json} {node inner : Node}
  {place : List Step}

theorem Node.ofSchema_of_reference? (formats : Table Format) (uri : String)
    (h : v.reference? = some target) : ofSchema formats uri v = .ok (.reference target) := by
  cases v with
  | object keywords =>
      have htext : text? keywords "$ref" = some target := h
      rw [ofSchema, htext]
  | _ => cases h

namespace Registry

theorem schemaOf_of_reference? (h : v.reference? = some target) : schemaOf v = v := by
  cases v with
  | object keywords => rfl
  | _ => cases h

theorem schemaOf_of_ne (h : ∀ keywords, v ≠ .object keywords) :
    schemaOf v = .bool false ∨ schemaOf v = .object [] := by
  cases v with
  | object keywords => exact absurd rfl (h keywords)
  | bool b =>
      cases b with
      | false => exact .inl rfl
      | true => exact .inr rfl
  | _ => exact .inr rfl

/-- The places at which schemas are met, with what is read there: places that are read by
themselves, and places of subschemas. -/
inductive Visits (formats : Table Format) (document : Json) : List Step → Node → Prop where
  | whole {place : List Step} {uri : String} {v : Json} {node : Node}
      (hat : document.at? place = some v)
      (hread : Node.ofSchema formats uri (schemaOf v) = .ok node) :
      Visits formats document place node
  | part {place steps : List Step} {uri : String} {keywords : Table Json} {sub : Json}
      {node inner : Node} (above : Visits formats document place node)
      (hat : document.at? place = some (.object keywords)) (hbelow : Node.Below node inner)
      (hsub : Schema.Sub keywords sub) (hsteps : (Json.object keywords).at? steps = some sub)
      (hread : Node.ofSchema formats uri sub = .ok inner) :
      Visits formats document (place ++ steps) inner

namespace Visits

theorem read (h : Visits formats document place node) :
    ∃ v uri, document.at? place = some v ∧ (Node.ofSchema formats uri v = .ok node
      ∨ Node.ofSchema formats uri (schemaOf v) = .ok node) := by
  cases h with
  | whole hat hread => exact ⟨_, _, hat, .inr hread⟩
  | part _ hat _ _ hsteps hread =>
      refine ⟨_, _, ?_, .inl hread⟩
      rw [Json.at?_append, hat, Option.bind_some, hsteps]

theorem eq_reference (h : Visits formats document place node) (hat : document.at? place = some v)
    (href : v.reference? = some target) : node = .reference target := by
  obtain ⟨w, uri, hw, hread⟩ := h.read
  obtain rfl := Option.some.inj (hat.symm.trans hw)
  rw [schemaOf_of_reference? href, or_self, Node.ofSchema_of_reference? formats uri href] at hread
  exact (Except.ok.inj hread).symm

theorem exists_object (h : Visits formats document place node) (hbelow : Node.Below node inner) :
    ∃ keywords uri, document.at? place = some (.object keywords)
      ∧ Node.ofSchema formats uri (.object keywords) = .ok node := by
  obtain ⟨v, uri, hat, hread⟩ := h.read
  by_cases hobject : ∃ keywords, v = .object keywords
  · obtain ⟨keywords, rfl⟩ := hobject
    exact ⟨keywords, uri, hat, hread.elim id id⟩
  · have hne : ∀ keywords, v ≠ .object keywords := fun keywords heq => hobject ⟨keywords, heq⟩
    exfalso
    rcases hread with hread | hread
    · exact Node.not_below_of_ne hread hne hbelow
    · rcases schemaOf_of_ne hne with heq | heq
      · rw [heq] at hread
        exact Node.not_below_of_ne hread (by simp) hbelow
      · rw [heq] at hread
        obtain ⟨sub, hsub, -⟩ := hbelow.subReadsInto hread
        exact Schema.not_sub_nil sub hsub

theorem exists_below (h : Visits formats document place node) (hkeys : document.UniqueKeys)
    (hbelow : Node.Below node inner) : ∃ steps, Visits formats document (place ++ steps) inner := by
  obtain ⟨keywords, uri, hat, hread⟩ := h.exists_object hbelow
  obtain ⟨sub, hsub, uri', hsubread⟩ := hbelow.subReadsInto hread
  obtain ⟨steps, hsteps⟩ := hsub.exists_at? (hkeys.at? hat)
  exact ⟨steps, .part h hat hbelow hsub hsteps hsubread⟩

theorem exists_within (h : Visits formats document place node) (hkeys : document.UniqueKeys)
    (hwithin : Node.Within node inner) :
    ∃ steps, Visits formats document (place ++ steps) inner := by
  induction hwithin with
  | whole => exact ⟨[], by rwa [List.append_nil]⟩
  | inner _ hbelow ih =>
      obtain ⟨steps, hsteps⟩ := ih
      obtain ⟨more, hmore⟩ := hsteps.exists_below hkeys hbelow
      exact ⟨steps ++ more, by rwa [← List.append_assoc]⟩

end Visits

end Registry

/-- After an addition, whatever the store holds: the schemas under ids of their own stand in the
stored document; whatever is read from it or from a part of it is met at some place; and a reference
that is met at a place refers to the target of the original at this place, resolved against the
innermost accepted id if no name of a data keyword leads there, and as it was written if one
does. -/
theorem Store.eq_reference_of_visits (s : Store) (uri : String) {document : Json}
    (hkeys : document.UniqueKeys) (formats : Table Format) :
    ∃ stored, (s.add uri document).find? (SchemaUri.normalize uri) = some stored
      ∧ (∀ entry ∈ (document.scan (SchemaUri.normalize uri)).named,
          ∃ place, stored.at? place = some entry.2)
      ∧ (∀ place node inner, Registry.Visits formats stored place node → node.Within inner →
          ∃ steps, Registry.Visits formats stored (place ++ steps) inner)
      ∧ ∀ place node v r, Registry.Visits formats stored place node →
          document.at? place = some v → v.reference? = some r →
            (Scan.Plain place → node = .reference
              (SchemaUri.resolve (Scan.scopeAt (SchemaUri.normalize uri) document place) r))
            ∧ (¬Scan.Plain place → node = .reference r) := by
  refine ⟨_, s.find?_add_self uri document, ?_, ?_, ?_⟩
  · exact Scan.exists_at?_of_mem_named true _ document hkeys
  · intro place node inner hvisits hwithin
    exact hvisits.exists_within (Scan.uniqueKeys_value true _ document hkeys) hwithin
  · intro place node v r hvisits hat href
    refine ⟨fun hplain => ?_, fun hplain => ?_⟩
    · obtain ⟨w, hw, htarget⟩ := Scan.exists_reference?_at? true _ hplain hat href
      exact hvisits.eq_reference hw htarget
    · exact hvisits.eq_reference (Scan.at?_value_of_not_plain true _ hplain hat href) href

def enclosed : Json :=
  .object [("not", .object [("id", .string "a/b"), ("$ref", .string "#/x")])]

theorem Store.eq_reference_of_visits_enclosed :
    enclosed.UniqueKeys ∧ ∃ stored node, (empty.add "a" enclosed).find? "a" = some stored
      ∧ Registry.Visits [] stored [.member "not"] node ∧ node = .reference "a/b#/x" := by
  have hkeys : enclosed.UniqueKeys := by
    simp [enclosed, Json.UniqueKeys, Json.UniqueKeysMembers, Table.Distinct, Table.keys]
  have hplain : Scan.Plain [.member "not"] := by
    intro key hkey
    obtain rfl := Step.member.inj (List.mem_singleton.1 hkey)
    rfl
  have huri : SchemaUri.normalize "a" = "a" := by decide +kernel
  have hresolve : SchemaUri.resolve (Scan.scopeAt "a" enclosed [.member "not"]) "#/x"
      = "a/b#/x" := by decide +kernel
  obtain ⟨stored, hstored, -, -, h⟩ := eq_reference_of_visits empty "a" hkeys []
  have hscan := hstored.symm.trans (empty.find?_add_self "a" enclosed)
  rw [huri] at hstored hscan h
  have hat : enclosed.at? [.member "not"]
      = some (.object [("id", .string "a/b"), ("$ref", .string "#/x")]) := rfl
  obtain ⟨w, hw, href⟩ := Scan.exists_reference?_at? true "a" hplain hat rfl
  have hread : Node.ofSchema [] "a" (Registry.schemaOf w) = .ok (.reference "a/b#/x") := by
    rw [Registry.schemaOf_of_reference? href, Node.ofSchema_of_reference? [] "a" href, hresolve]
  have hvisits : Registry.Visits [] stored [.member "not"] (.reference "a/b#/x") := by
    refine .whole ?_ hread
    rwa [Option.some.inj hscan]
  refine ⟨hkeys, stored, _, hstored, hvisits, ?_⟩
  rw [(h _ _ _ _ hvisits rfl rfl).1 hplain, hresolve]

/-! ### A property with the name of a data keyword -/

/-- A schema for objects with a single property is read into a check of this property. -/
theorem Node.ofSchema_property (formats : Table Format) (uri : String) {keywords : Table Json}
    {name : String} {document : Json} {node : Node}
    (hkeywords : keywords
      = [("type", .string "object"), ("properties", .object [(name, document)])])
    (h : ofSchema formats (SchemaUri.child uri ["properties", name]) document = .ok node) :
    ofSchema formats uri (.object keywords)
      = .ok (.schema ⟨uri, [.object], ["object"], none, none, []⟩
        [([.object], [.members [(name, node)] [] [] [] .allowed])] [] [] [] none) := by
  have hproperties : properties formats uri keywords = .ok [(name, node)] := by
    have htable : Schema.tableOf keywords "properties" = [(name, document)] := hkeywords ▸ rfl
    rw [properties_eq, htable, namedNodes, namedNodes, h]
    rfl
  have hmembers : memberChecks formats uri keywords
      = .ok [.members [(name, node)] [] [] [] .allowed] := by
    have hdependencies : Schema.tableOf keywords "dependencies" = [] := hkeywords ▸ rfl
    have hpatterns : Schema.tableOf keywords "patternProperties" = [] := hkeywords ▸ rfl
    rw [memberChecks, hproperties, dependencies_eq, hdependencies, dependenciesOf,
      patternProperties_eq, hpatterns, patternNodes, additional, hkeywords]
    rfl
  have hnot : negation formats uri keywords = .ok none := by
    rw [negation, hkeywords]
    rfl
  have hall : Schema.listOf keywords "allOf" = [] := hkeywords ▸ rfl
  have hany : Schema.listOf keywords "anyOf" = [] := hkeywords ▸ rfl
  have hone : Schema.listOf keywords "oneOf" = [] := hkeywords ▸ rfl
  have htext : text? keywords "$ref" = none := hkeywords ▸ rfl
  have hallowed : (head formats uri keywords).allowed = [.object] := hkeywords ▸ rfl
  rw [ofSchema, htext]
  dsimp only
  rw [hallowed, kindChecks, kindChecks, checks, hmembers, hnot, listed_eq_nil hall,
    listed_eq_nil hany, listed_eq_nil hone, hkeywords]
  rfl

def defaulting : Table Json :=
  [("type", .string "object"),
    ("properties", .object [("default", .object [("$ref", .string "b")])])]

theorem exists_below_defaulting (uri : String) :
    ∃ node, Node.ofSchema [] uri (.object defaulting) = .ok node
      ∧ node.Below (.reference "b") := by
  have hproperty : Node.ofSchema [] (SchemaUri.child uri ["properties", "default"])
      (.object [("$ref", .string "b")]) = .ok (.reference "b") :=
    Node.ofSchema_of_reference? [] _ rfl
  have hread := Node.ofSchema_property [] uri rfl hproperty
  exact ⟨_, hread, .check (List.mem_singleton_self ([Kind.object], _)) (List.mem_singleton_self _)
    (.property (List.mem_singleton_self _))⟩

/-- Its reference is met as it was written. -/
theorem defaulting_stays_relative :
    ∃ stored place node v r,
      (Store.empty.add "http://x/a" (.object defaulting)).find? (SchemaUri.normalize "http://x/a")
          = some stored
        ∧ Registry.Visits [] stored place node
        ∧ (Json.object defaulting).at? place = some v ∧ v.reference? = some r
        ∧ node ≠ .reference (SchemaUri.resolve
          (Scan.scopeAt (SchemaUri.normalize "http://x/a") (.object defaulting) place) r) := by
  have huri : SchemaUri.normalize "http://x/a" = "http://x/a" := by decide +kernel
  have hscan : ((Json.object defaulting).scan "http://x/a").value = .object defaulting := rfl
  have hstored := Store.empty.find?_add_self "http://x/a" (.object defaulting)
  rw [huri, hscan] at hstored
  obtain ⟨node, hread, hbelow⟩ := exists_below_defaulting "http://x/a"
  have hroot : Registry.Visits [] (.object defaulting) [] node := .whole rfl hread
  refine ⟨_, [.member "properties", .member "default"], .reference "b", _, "b", huri ▸ hstored,
    hroot.part rfl hbelow (.named "properties" (by decide) rfl (List.mem_singleton_self _)) rfl
      (Node.ofSchema_of_reference? [] "http://x/a" rfl), rfl, rfl, fun heq => ?_⟩
  have hresolve : SchemaUri.resolve (Scan.scopeAt (SchemaUri.normalize "http://x/a")
      (.object defaulting) [.member "properties", .member "default"]) "b" = "http://x/b" := by
    decide +kernel
  rw [hresolve] at heq
  exact absurd (Node.reference.inj heq) (by decide)

end HyperSchema
