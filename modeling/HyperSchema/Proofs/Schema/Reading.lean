import HyperSchema.Proofs.Schema.Branches
import HyperSchema.Proofs.Schema.Parts
import HyperSchema.Proofs.Validation.Occurrences
import Mathlib.Data.List.Forall2

/-!
# What schemas are read into

Each keyword with subschemas is read from a list or a table of them, or from a single one. So a node
below another has been read from a subschema, and whatever a node refers to was a reference in its
document.
-/

namespace HyperSchema

theorem Except.exists_of_bind_eq_ok {ε α β : Type} {x : Except ε α} {f : α → Except ε β} {b : β}
    (h : x >>= f = .ok b) : ∃ a, x = .ok a ∧ f a = .ok b := by
  cases x with
  | error e => cases h
  | ok a => exact ⟨a, rfl, h⟩

namespace Node

variable {formats : Table Format} {uri : String} {keywords table : Table Json}

/-! ### Keyword by keyword -/

theorem listed_eq (keyword : String) :
    listed formats uri keyword keywords
      = nodesOf formats uri keyword 0 (Schema.listOf keywords keyword) := by
  rw [listed]
  split
  · next hget => rw [Schema.listOf_of_get? hget]
  · next hno => rw [Schema.listOf_of_ne hno, nodesOf]

theorem properties_eq :
    properties formats uri keywords
      = namedNodes formats uri (Schema.tableOf keywords "properties") := by
  rw [properties]
  split
  · next hget => rw [Schema.tableOf_of_get? hget]
  · next hno => rw [Schema.tableOf_of_ne hno, namedNodes]

theorem dependencies_eq :
    dependencies formats uri keywords
      = dependenciesOf formats uri (Schema.tableOf keywords "dependencies") := by
  rw [dependencies]
  split
  · next hget => rw [Schema.tableOf_of_get? hget]
  · next hno => rw [Schema.tableOf_of_ne hno, dependenciesOf]

theorem patternProperties_eq :
    patternProperties formats uri keywords
      = patternNodes formats uri (Schema.tableOf keywords "patternProperties") := by
  rw [patternProperties]
  split
  · next hget => rw [Schema.tableOf_of_get? hget]
  · next hno => rw [Schema.tableOf_of_ne hno, patternNodes]

theorem compile?_of_pattern {source : String} {p : Pattern} (h : pattern uri source = .ok p) :
    Pattern.compile? source = some p := by
  rw [pattern] at h
  split at h
  · next read hread => rw [hread, Except.ok.inj h]
  · cases h

/-! ### Entry by entry

Lists and tables of schemas are read one after the other, each schema under the URI of its place. -/

section Forall₂

variable {α β : Type} {R : α → β → Prop} {l : List α} {m : List β}

theorem exists_getElem?_of_forall₂ (h : List.Forall₂ R l m) {i : Nat} {a : α}
    (ha : l[i]? = some a) : ∃ b, m[i]? = some b ∧ R a b := by
  induction h generalizing i with
  | nil => simp at ha
  | @cons x y _ _ hxy _ ih =>
      cases i with
      | zero =>
          obtain rfl : x = a := by simpa using ha
          exact ⟨y, rfl, hxy⟩
      | succ i => exact ih (by simpa using ha)

theorem exists_of_forall₂ (h : List.Forall₂ R l m) {a : α} (ha : a ∈ l) : ∃ b ∈ m, R a b := by
  obtain ⟨i, hi⟩ := List.getElem?_of_mem ha
  obtain ⟨b, hb, hab⟩ := exists_getElem?_of_forall₂ h hi
  exact ⟨b, List.mem_of_getElem? hb, hab⟩

theorem forall₂_imp_of_mem {S : α → β → Prop} (h : List.Forall₂ R l m)
    (himp : ∀ a, ∀ b ∈ m, R a b → S a b) : List.Forall₂ S l m := by
  induction h with
  | nil => exact .nil
  | cons hab _ ih =>
      exact .cons (himp _ _ List.mem_cons_self hab)
        (ih (fun a b hb => himp a b (List.mem_cons_of_mem _ hb)))

end Forall₂

theorem nodesOf_forall₂ {keyword : String} {i : Nat} {subs : List Json} {nodes : List Node}
    (h : nodesOf formats uri keyword i subs = .ok nodes) :
    List.Forall₂ (fun node (entry : Json × Nat) =>
      ofSchema formats (SchemaUri.child uri [keyword, Text.natText entry.2]) entry.1 = .ok node)
      nodes (subs.zipIdx i) := by
  induction subs generalizing i nodes with
  | nil =>
      rw [nodesOf] at h
      obtain rfl := Except.ok.inj h
      exact .nil
  | cons sub rest ih =>
      rw [nodesOf] at h
      obtain ⟨first, hfirst, h⟩ := Except.exists_of_bind_eq_ok h
      obtain ⟨more, hmore, h⟩ := Except.exists_of_bind_eq_ok h
      obtain rfl := Except.ok.inj h
      exact .cons hfirst (ih hmore)

theorem namedNodes_forall₂ {properties : List (String × Node)}
    (h : namedNodes formats uri table = .ok properties) :
    List.Forall₂ (fun property (entry : String × Json) => property.1 = entry.1
      ∧ ofSchema formats (SchemaUri.child uri ["properties", entry.1]) entry.2 = .ok property.2)
      properties table := by
  induction table generalizing properties with
  | nil =>
      rw [namedNodes] at h
      obtain rfl := Except.ok.inj h
      exact .nil
  | cons entry rest ih =>
      obtain ⟨name, sub⟩ := entry
      rw [namedNodes] at h
      obtain ⟨first, hfirst, h⟩ := Except.exists_of_bind_eq_ok h
      obtain ⟨more, hmore, h⟩ := Except.exists_of_bind_eq_ok h
      obtain rfl := Except.ok.inj h
      exact .cons ⟨rfl, hfirst⟩ (ih hmore)

theorem patternNodes_forall₂ {patterns : List (Pattern × Node)}
    (h : patternNodes formats uri table = .ok patterns) :
    List.Forall₂ (fun p (entry : String × Json) => Pattern.compile? entry.1 = some p.1
      ∧ ofSchema formats (SchemaUri.child uri ["patternProperties", entry.1]) entry.2 = .ok p.2)
      patterns table := by
  induction table generalizing patterns with
  | nil =>
      rw [patternNodes] at h
      obtain rfl := Except.ok.inj h
      exact .nil
  | cons entry rest ih =>
      obtain ⟨source, sub⟩ := entry
      rw [patternNodes] at h
      obtain ⟨own, hown, h⟩ := Except.exists_of_bind_eq_ok h
      obtain ⟨first, hfirst, h⟩ := Except.exists_of_bind_eq_ok h
      obtain ⟨more, hmore, h⟩ := Except.exists_of_bind_eq_ok h
      obtain rfl := Except.ok.inj h
      exact .cons ⟨compile?_of_pattern hown, hfirst⟩ (ih hmore)

/-- A dependency is on keys, and then it is no schema that could refuse a value, or it is on a
schema, and then it asks for no keys. -/
inductive DependencyReads (formats : Table Format) (uri : String) (sub : Json) :
    Dependency → Prop where
  | keys (hfalse : sub ≠ .bool false) (hobject : ∀ keywords, sub ≠ .object keywords) :
      DependencyReads formats uri sub (.keys (Schema.dependentKeys sub))
  | schema {node : Node} (hkeys : Schema.dependentKeys sub = [])
      (hnode : ofSchema formats uri sub = .ok node) :
      DependencyReads formats uri sub (.schema node)

theorem DependencyReads.ofSchema_eq {sub : Json} {node : Node}
    (h : DependencyReads formats uri sub (.schema node)) : ofSchema formats uri sub = .ok node := by
  cases h with
  | schema _ hnode => exact hnode

theorem dependenciesOf_forall₂ {dependencies : List (String × Dependency)}
    (h : dependenciesOf formats uri table = .ok dependencies) :
    List.Forall₂ (fun d (entry : String × Json) => d.1 = entry.1
      ∧ DependencyReads formats (SchemaUri.child uri ["dependencies", entry.1]) entry.2 d.2)
      dependencies table := by
  induction table generalizing dependencies with
  | nil =>
      rw [dependenciesOf] at h
      obtain rfl := Except.ok.inj h
      exact .nil
  | cons entry rest ih =>
      obtain ⟨name, sub⟩ := entry
      by_cases harray : ∃ names, sub = .array names
      · obtain ⟨names, rfl⟩ := harray
        rw [dependenciesOf] at h
        obtain ⟨dependency, hdependency, h⟩ := Except.exists_of_bind_eq_ok h
        obtain ⟨more, hmore, h⟩ := Except.exists_of_bind_eq_ok h
        obtain rfl := Except.ok.inj h
        obtain rfl := Except.ok.inj hdependency
        exact .cons ⟨rfl, .keys (by simp) (by simp)⟩ (ih hmore)
      · by_cases hstring : ∃ key, sub = .string key
        · obtain ⟨key, rfl⟩ := hstring
          rw [dependenciesOf] at h
          obtain ⟨dependency, hdependency, h⟩ := Except.exists_of_bind_eq_ok h
          obtain ⟨more, hmore, h⟩ := Except.exists_of_bind_eq_ok h
          obtain rfl := Except.ok.inj h
          obtain rfl := Except.ok.inj hdependency
          exact .cons ⟨rfl, .keys (by simp) (by simp)⟩ (ih hmore)
        · have hnames : ∀ names, sub = .array names → False := fun names heq => harray ⟨names, heq⟩
          have hkey : ∀ key, sub = .string key → False := fun key heq => hstring ⟨key, heq⟩
          rw [dependenciesOf] at h
          rotate_left
          · exact hnames
          · exact hkey
          obtain ⟨dependency, hdependency, h⟩ := Except.exists_of_bind_eq_ok h
          obtain ⟨more, hmore, h⟩ := Except.exists_of_bind_eq_ok h
          obtain rfl := Except.ok.inj h
          have hnone : Schema.dependentKeys sub = [] := by
            rw [Schema.dependentKeys]
            · exact hkey
            · exact hnames
          cases hnode : ofSchema formats (SchemaUri.child uri ["dependencies", name]) sub with
          | error e =>
              rw [hnode] at hdependency
              cases hdependency
          | ok node =>
              rw [hnode] at hdependency
              obtain rfl := Except.ok.inj hdependency
              exact .cons ⟨rfl, .schema hnone hnode⟩ (ih hmore)

/-! ### Type by type -/

theorem nodup_allowedKinds (declared : List String) : (allowedKinds declared).Nodup := by
  have hall : Kind.all.Nodup := by decide
  rw [allowedKinds]
  split
  · exact hall
  · exact hall.filter _

theorem kindChecks_forall₂ {kinds : List Kind} {integer : Bool} {list : List (Kind × List Check)}
    (h : kindChecks formats uri keywords kinds integer = .ok list) :
    List.Forall₂ (fun (entry : Kind × List Check) kind => entry.1 = kind
      ∧ checks formats uri keywords integer kind = .ok entry.2) list kinds := by
  induction kinds generalizing list with
  | nil =>
      rw [kindChecks] at h
      obtain rfl := Except.ok.inj h
      exact .nil
  | cons kind rest ih =>
      rw [kindChecks] at h
      obtain ⟨own, hown, h⟩ := Except.exists_of_bind_eq_ok h
      obtain ⟨more, hmore, h⟩ := Except.exists_of_bind_eq_ok h
      obtain rfl := Except.ok.inj h
      exact .cons ⟨rfl, hown⟩ (ih hmore)

theorem kindChecks_spec {kinds : List Kind} {integer : Bool} {list : List (Kind × List Check)}
    (h : kindChecks formats uri keywords kinds integer = .ok list) :
    (∀ kind ∈ kinds, ∃ own, (kind, own) ∈ list)
      ∧ ∀ entry ∈ list, checks formats uri keywords integer entry.1 = .ok entry.2 := by
  have hread := kindChecks_forall₂ h
  refine ⟨fun kind hkind => ?_, fun entry hentry => ?_⟩
  · obtain ⟨entry, hentry, rfl, -⟩ := exists_of_forall₂ hread.flip hkind
    exact ⟨entry.2, hentry⟩
  · obtain ⟨kind, -, hkind, hown⟩ := exists_of_forall₂ hread hentry
    rwa [hkind]

/-! ### Single schemas -/

theorem listed_eq_nil {keyword : String} (hnone : Schema.listOf keywords keyword = []) :
    listed formats uri keyword keywords = .ok [] := by
  rw [listed_eq, hnone, nodesOf]

/-- What is left over is forbidden, or judged by a schema, or allowed. -/
inductive AdditionalReads (formats : Table Format) (uri keyword : String) (keywords : Table Json) :
    Additional → Prop where
  | forbidden (hget : Table.get? keywords keyword = some (.bool false)) :
      AdditionalReads formats uri keyword keywords .forbidden
  | schema {sub : Table Json} {node : Node}
      (hget : Table.get? keywords keyword = some (.object sub))
      (hnode : ofSchema formats (SchemaUri.child uri [keyword]) (.object sub) = .ok node) :
      AdditionalReads formats uri keyword keywords (.schema node)
  | allowed (hfalse : Table.get? keywords keyword ≠ some (.bool false))
      (hobject : ∀ sub, Table.get? keywords keyword ≠ some (.object sub)) :
      AdditionalReads formats uri keyword keywords .allowed

theorem additionalReads_of_additional {keyword : String} {rest : Additional}
    (h : additional formats uri keyword keywords = .ok rest) :
    AdditionalReads formats uri keyword keywords rest := by
  rw [additional] at h
  split at h
  · next hget =>
    obtain rfl := Except.ok.inj h
    exact .forbidden hget
  · next sub hget =>
    obtain ⟨node, hnode, h⟩ := Except.exists_of_bind_eq_ok h
    obtain rfl := Except.ok.inj h
    exact .schema hget hnode
  · next hfalse hobject =>
    obtain rfl := Except.ok.inj h
    exact .allowed hfalse hobject

/-- Items are judged by a schema for each position and one for the others, or all by one. -/
inductive ItemReads (formats : Table Format) (uri : String) (keywords : Table Json) :
    List Check → Prop where
  | tuple {subs : List Json} {nodes : List Node} {rest : Additional}
      (hget : Table.get? keywords "items" = some (.array subs))
      (hnodes : nodesOf formats uri "items" 0 subs = .ok nodes)
      (hrest : additional formats uri "additionalItems" keywords = .ok rest) :
      ItemReads formats uri keywords [.tuple nodes rest]
  | each {sub : Json} {node : Node} (hlist : ∀ subs, sub ≠ .array subs)
      (hget : Table.get? keywords "items" = some sub)
      (hnode : ofSchema formats (SchemaUri.child uri ["items"]) sub = .ok node) :
      ItemReads formats uri keywords [.items node]
  | absent (hnone : Table.get? keywords "items" = none) : ItemReads formats uri keywords []

theorem itemReads_of_itemChecks {checks : List Check}
    (h : itemChecks formats uri keywords = .ok checks) : ItemReads formats uri keywords checks := by
  rw [itemChecks] at h
  split at h
  · next subs hget =>
    obtain ⟨nodes, hnodes, h⟩ := Except.exists_of_bind_eq_ok h
    obtain ⟨rest, hrest, h⟩ := Except.exists_of_bind_eq_ok h
    obtain rfl := Except.ok.inj h
    exact .tuple hget hnodes hrest
  · next sub hlist hget =>
    obtain ⟨node, hnode, h⟩ := Except.exists_of_bind_eq_ok h
    obtain rfl := Except.ok.inj h
    exact .each hlist hget hnode
  · next hnone =>
    obtain rfl := Except.ok.inj h
    exact .absent hnone

/-- There is one check of the members with all that their keywords are read into, or none if these
keywords restrict nothing. -/
inductive MemberReads (formats : Table Format) (uri : String) (keywords : Table Json) :
    List Check → Prop where
  | members {props : List (String × Node)} {deps : List (String × Dependency)}
      {pats : List (Pattern × Node)} {rest : Additional}
      (hprops : namedNodes formats uri (Schema.tableOf keywords "properties") = .ok props)
      (hdeps : dependenciesOf formats uri (Schema.tableOf keywords "dependencies") = .ok deps)
      (hpats : patternNodes formats uri (Schema.tableOf keywords "patternProperties") = .ok pats)
      (hrest : additional formats uri "additionalProperties" keywords = .ok rest) :
      MemberReads formats uri keywords [.members props (requiredKeys keywords) deps pats rest]
  | unrestricted
      (hprops : namedNodes formats uri (Schema.tableOf keywords "properties") = .ok [])
      (hrequired : requiredKeys keywords = [])
      (hdeps : dependenciesOf formats uri (Schema.tableOf keywords "dependencies") = .ok [])
      (hpats : patternNodes formats uri (Schema.tableOf keywords "patternProperties") = .ok [])
      (hrest : additional formats uri "additionalProperties" keywords = .ok .allowed) :
      MemberReads formats uri keywords []

theorem memberReads_of_memberChecks {checks : List Check}
    (h : memberChecks formats uri keywords = .ok checks) :
    MemberReads formats uri keywords checks := by
  rw [memberChecks, properties_eq, dependencies_eq, patternProperties_eq] at h
  obtain ⟨props, hprops, h⟩ := Except.exists_of_bind_eq_ok h
  obtain ⟨deps, hdeps, h⟩ := Except.exists_of_bind_eq_ok h
  obtain ⟨pats, hpats, h⟩ := Except.exists_of_bind_eq_ok h
  obtain ⟨rest, hrest, h⟩ := Except.exists_of_bind_eq_ok h
  dsimp only at h
  generalize hrequired : requiredKeys keywords = required at h
  split at h
  · obtain rfl := Except.ok.inj h
    exact .unrestricted hprops hrequired hdeps hpats hrest
  · obtain rfl := Except.ok.inj h
    rw [← hrequired]
    exact .members hprops hdeps hpats hrest

/-- The keywords that concern a type are assertions, and for arrays and objects those that apply
schemas. -/
inductive KindReads (formats : Table Format) (uri : String) (keywords : Table Json)
    (integer : Bool) : Kind → List Check → Prop where
  | null : KindReads formats uri keywords integer .null []
  | boolean : KindReads formats uri keywords integer .boolean []
  | number : KindReads formats uri keywords integer .number
      ((numberAssertions keywords integer).map .assertion)
  | string {assertions : List Assertion} (hread : stringAssertions uri keywords = .ok assertions) :
      KindReads formats uri keywords integer .string (assertions.map .assertion)
  | array {items : List Check} (hitems : itemChecks formats uri keywords = .ok items) :
      KindReads formats uri keywords integer .array
        ((arrayAssertions keywords).map .assertion ++ items
          ++ (if flag keywords "uniqueItems" then [Assertion.uniqueItems] else []).map .assertion)
  | object {rules : List Check} (hrules : memberChecks formats uri keywords = .ok rules) :
      KindReads formats uri keywords integer .object
        ((objectAssertions keywords).map .assertion ++ rules)

theorem kindReads_of_checks {integer : Bool} {kind : Kind} {own : List Check}
    (h : checks formats uri keywords integer kind = .ok own) :
    KindReads formats uri keywords integer kind own := by
  rw [checks.eq_def] at h
  cases kind with
  | null =>
      obtain rfl := Except.ok.inj h
      exact .null
  | boolean =>
      obtain rfl := Except.ok.inj h
      exact .boolean
  | number =>
      obtain rfl := Except.ok.inj h
      exact .number
  | string =>
      obtain ⟨assertions, hread, h⟩ := Except.exists_of_bind_eq_ok h
      obtain rfl := Except.ok.inj h
      exact .string hread
  | array =>
      obtain ⟨items, hitems, h⟩ := Except.exists_of_bind_eq_ok h
      have hunique : (if flag keywords "uniqueItems" then [Check.assertion .uniqueItems] else [])
          = (if flag keywords "uniqueItems" then [Assertion.uniqueItems] else []).map
            .assertion := by
        split <;> rfl
      dsimp only at h
      rw [hunique] at h
      obtain rfl := Except.ok.inj h
      exact .array hitems
  | object =>
      obtain ⟨rules, hrules, h⟩ := Except.exists_of_bind_eq_ok h
      obtain rfl := Except.ok.inj h
      exact .object hrules

/-- There is nothing to negate, or a schema. -/
inductive NegationReads (formats : Table Format) (uri : String) (keywords : Table Json) :
    Option Node → Prop where
  | schema {sub : Json} {node : Node} (hget : Table.get? keywords "not" = some sub)
      (hnode : ofSchema formats (SchemaUri.child uri ["not"]) sub = .ok node) :
      NegationReads formats uri keywords (some node)
  | absent (hnone : Table.get? keywords "not" = none) : NegationReads formats uri keywords none

theorem negationReads_of_negation {negated : Option Node}
    (h : negation formats uri keywords = .ok negated) :
    NegationReads formats uri keywords negated := by
  rw [negation] at h
  split at h
  · next sub hget =>
    obtain ⟨node, hnode, h⟩ := Except.exists_of_bind_eq_ok h
    obtain rfl := Except.ok.inj h
    exact .schema hget hnode
  · next hnone =>
    obtain rfl := Except.ok.inj h
    exact .absent hnone

theorem negation_of_get? {sub : Json} {node : Node} (hget : Table.get? keywords "not" = some sub)
    (hnode : ofSchema formats (SchemaUri.child uri ["not"]) sub = .ok node) :
    negation formats uri keywords = .ok (some node) := by
  rw [negation]
  split
  · next other hother =>
    obtain rfl := Option.some.inj (hget.symm.trans hother)
    rw [hnode]
    rfl
  · next hnone =>
    rw [hnone] at hget
    cases hget

/-! ### Whole documents -/

inductive ReadAs (formats : Table Format) (uri : String) : Json → Node → Prop where
  | reference {keywords : Table Json} {target : String}
      (href : text? keywords "$ref" = some target) :
      ReadAs formats uri (.object keywords) (.reference target)
  | schema {keywords : Table Json} {list : List (Kind × List Check)} {negated : Option Node}
      {allOf anyOf oneOf : List Node} (href : text? keywords "$ref" = none)
      (hlist : kindChecks formats uri keywords (head formats uri keywords).allowed
        (integersOnly (head formats uri keywords).declared) = .ok list)
      (hnegated : negation formats uri keywords = .ok negated)
      (hallOf : listed formats uri "allOf" keywords = .ok allOf)
      (hanyOf : listed formats uri "anyOf" keywords = .ok anyOf)
      (honeOf : listed formats uri "oneOf" keywords = .ok oneOf) :
      ReadAs formats uri (.object keywords)
        (.schema (head formats uri keywords) (branches list) allOf anyOf oneOf negated)
  | refusal : ReadAs formats uri (.bool false) (.reject uri)
  | other {document : Json} (hobject : ∀ keywords, document ≠ .object keywords)
      (hfalse : document ≠ .bool false) : ReadAs formats uri document .accept

theorem readAs_of_ofSchema {document : Json} {node : Node}
    (h : ofSchema formats uri document = .ok node) : ReadAs formats uri document node := by
  by_cases hobject : ∃ keywords, document = .object keywords
  · obtain ⟨keywords, rfl⟩ := hobject
    rw [ofSchema] at h
    split at h
    · next target href =>
      obtain rfl := Except.ok.inj h
      exact .reference href
    · next href =>
      obtain ⟨list, hlist, h⟩ := Except.exists_of_bind_eq_ok h
      obtain ⟨negated, hnegated, h⟩ := Except.exists_of_bind_eq_ok h
      obtain ⟨allOf, hallOf, h⟩ := Except.exists_of_bind_eq_ok h
      obtain ⟨anyOf, hanyOf, h⟩ := Except.exists_of_bind_eq_ok h
      obtain ⟨oneOf, honeOf, h⟩ := Except.exists_of_bind_eq_ok h
      obtain rfl := Except.ok.inj h
      exact .schema href hlist hnegated hallOf hanyOf honeOf
  · have hne : ∀ keywords, document ≠ .object keywords := fun keywords heq =>
      hobject ⟨keywords, heq⟩
    by_cases hfalse : document = .bool false
    · rw [hfalse, ofSchema] at h
      obtain rfl := Except.ok.inj h
      exact hfalse ▸ .refusal
    · rw [ofSchema] at h
      · obtain rfl := Except.ok.inj h
        exact .other hne hfalse
      · exact hne
      · exact hfalse

/-! ### Keywords that are absent -/

/-- The keywords that are read for a type of value. -/
def keywordsOf : Kind → List String
  | .null => []
  | .boolean => []
  | .number => ["multipleOf", "divisibleBy", "minimum", "maximum"]
  | .string => ["minLength", "maxLength", "pattern"]
  | .array => ["items", "minItems", "maxItems", "uniqueItems"]
  | .object => ["properties", "patternProperties", "additionalProperties", "dependencies",
      "required", "minProperties", "maxProperties"]

theorem itemChecks_of_absent (hnone : Table.get? keywords "items" = none) :
    itemChecks formats uri keywords = .ok [] := by
  rw [itemChecks]
  split
  · next hget =>
    rw [hnone] at hget
    cases hget
  · next hget =>
    rw [hnone] at hget
    cases hget
  · rfl

theorem additional_of_absent {keyword : String} (hnone : Table.get? keywords keyword = none) :
    additional formats uri keyword keywords = .ok .allowed := by
  rw [additional]
  split
  · next hget =>
    rw [hnone] at hget
    cases hget
  · next hget =>
    rw [hnone] at hget
    cases hget
  · rfl

theorem negation_of_absent (hnone : Table.get? keywords "not" = none) :
    negation formats uri keywords = .ok none := by
  rw [negation]
  split
  · next hget =>
    rw [hnone] at hget
    cases hget
  · rfl

theorem memberChecks_of_absent (hproperties : Table.get? keywords "properties" = none)
    (hpatterns : Table.get? keywords "patternProperties" = none)
    (hrest : Table.get? keywords "additionalProperties" = none)
    (hdependencies : Table.get? keywords "dependencies" = none)
    (hrequired : Table.get? keywords "required" = none) :
    memberChecks formats uri keywords = .ok [] := by
  rw [memberChecks, properties_eq, Schema.tableOf_of_absent hproperties, namedNodes,
    dependencies_eq, Schema.tableOf_of_absent hdependencies, dependenciesOf, patternProperties_eq,
    Schema.tableOf_of_absent hpatterns, patternNodes, additional_of_absent hrest, requiredKeys,
    hrequired]
  rfl

theorem checks_of_absent {kind : Kind}
    (h : ∀ key ∈ keywordsOf kind, Table.get? keywords key = none) :
    checks formats uri keywords false kind = .ok [] := by
  cases kind with
  | null => rw [checks]
  | boolean => rw [checks]
  | number =>
      rw [checks]
      simp [numberAssertions, divisor?, float?, h "multipleOf" (by decide),
        h "divisibleBy" (by decide), h "minimum" (by decide), h "maximum" (by decide)]
  | string =>
      rw [checks]
      simp [stringAssertions, limit?, text?, h "minLength" (by decide),
        h "maxLength" (by decide), h "pattern" (by decide), bind, Except.bind, pure,
        Except.pure]
  | array =>
      rw [checks]
      simp [itemChecks_of_absent (h "items" (by decide)), arrayAssertions, limit?, flag,
        h "minItems" (by decide), h "maxItems" (by decide), h "uniqueItems" (by decide), bind,
        Except.bind, pure, Except.pure]
  | object =>
      have hmembers : memberChecks formats uri keywords = .ok [] :=
        memberChecks_of_absent (h "properties" (by decide)) (h "patternProperties" (by decide))
          (h "additionalProperties" (by decide)) (h "dependencies" (by decide))
          (h "required" (by decide))
      rw [checks]
      simp [hmembers, objectAssertions, limit?, h "minProperties" (by decide),
        h "maxProperties" (by decide), bind, Except.bind, pure, Except.pure]

theorem kindChecks_of_checks {kinds : List Kind} {integer : Bool} {own : Kind → List Check}
    (h : ∀ kind ∈ kinds, checks formats uri keywords integer kind = .ok (own kind)) :
    kindChecks formats uri keywords kinds integer
      = .ok (kinds.map (fun kind => (kind, own kind))) := by
  induction kinds with
  | nil =>
      rw [kindChecks]
      rfl
  | cons kind rest ih =>
      rw [List.forall_mem_cons] at h
      rw [kindChecks, h.1, ih h.2]
      rfl

/-- A schema with checks and combinations only. -/
theorem ofSchema_of_absent {list : List (Kind × List Check)} {negated : Option Node}
    {allOf anyOf oneOf : List Node}
    (h : ∀ key ∈ ["$ref", "type", "enum", "format", "links"], Table.get? keywords key = none)
    (hlist : kindChecks formats uri keywords Kind.all false = .ok list)
    (hnegated : negation formats uri keywords = .ok negated)
    (hallOf : listed formats uri "allOf" keywords = .ok allOf)
    (hanyOf : listed formats uri "anyOf" keywords = .ok anyOf)
    (honeOf : listed formats uri "oneOf" keywords = .ok oneOf) :
    ofSchema formats uri (.object keywords)
      = .ok (.schema ⟨uri, Kind.all, [], none, none, []⟩ (branches list) allOf anyOf oneOf
        negated) := by
  have hhead : head formats uri keywords = ⟨uri, Kind.all, [], none, none, []⟩ := by
    simp [head, declaredTypes, text?, h "type" (by decide), h "enum" (by decide),
      h "format" (by decide), h "links" (by decide), allowedKinds]
  have hreference : text? keywords "$ref" = none := by
    rw [text?, h "$ref" (by decide)]
    rfl
  rw [ofSchema, hreference]
  dsimp only
  rw [hhead, show integersOnly [] = false from rfl, hlist, hnegated, hallOf, hanyOf, honeOf]
  rfl

/-! ### Nodes below a node -/

def ReadsInto (formats : Table Format) (document : Json) (node : Node) : Prop :=
  ∃ uri, ofSchema formats uri document = .ok node

variable {node : Node}

theorem readsInto_of_mem_nodesOf {keyword : String} {i : Nat} {subs : List Json}
    {nodes : List Node} (h : nodesOf formats uri keyword i subs = .ok nodes)
    (hmem : node ∈ nodes) : ∃ sub ∈ subs, ReadsInto formats sub node := by
  obtain ⟨entry, hentry, hread⟩ := exists_of_forall₂ (nodesOf_forall₂ h) hmem
  exact ⟨entry.1, List.fst_mem_of_mem_zipIdx hentry, _, hread⟩

theorem readsInto_of_mem_namedNodes {properties : List (String × Node)} {key : String}
    (h : namedNodes formats uri table = .ok properties) (hmem : (key, node) ∈ properties) :
    ∃ entry ∈ table, ReadsInto formats entry.2 node := by
  obtain ⟨entry, hentry, -, hread⟩ := exists_of_forall₂ (namedNodes_forall₂ h) hmem
  exact ⟨entry, hentry, _, hread⟩

theorem readsInto_of_mem_patternNodes {patterns : List (Pattern × Node)} {p : Pattern}
    (h : patternNodes formats uri table = .ok patterns) (hmem : (p, node) ∈ patterns) :
    ∃ entry ∈ table, ReadsInto formats entry.2 node := by
  obtain ⟨entry, hentry, -, hread⟩ := exists_of_forall₂ (patternNodes_forall₂ h) hmem
  exact ⟨entry, hentry, _, hread⟩

theorem readsInto_of_mem_dependenciesOf {dependencies : List (String × Dependency)} {key : String}
    (h : dependenciesOf formats uri table = .ok dependencies)
    (hmem : (key, Dependency.schema node) ∈ dependencies) :
    ∃ entry ∈ table, ReadsInto formats entry.2 node := by
  obtain ⟨entry, hentry, -, hreads⟩ := exists_of_forall₂ (dependenciesOf_forall₂ h) hmem
  exact ⟨entry, hentry, _, hreads.ofSchema_eq⟩

theorem readsInto_of_additional {keyword : String}
    (h : additional formats uri keyword keywords = .ok (.schema node)) :
    ∃ sub, Table.get? keywords keyword = some sub ∧ ReadsInto formats sub node := by
  cases additionalReads_of_additional h with
  | schema hget hnode => exact ⟨_, hget, _, hnode⟩

def SubReadsInto (formats : Table Format) (keywords : Table Json) (node : Node) : Prop :=
  ∃ sub, Schema.Sub keywords sub ∧ ReadsInto formats sub node

theorem subReadsInto_of_table {key : String}
    (hkey : key ∈ ["properties", "patternProperties", "dependencies"])
    (h : ∃ entry ∈ Schema.tableOf keywords key, ReadsInto formats entry.2 node) :
    SubReadsInto formats keywords node := by
  obtain ⟨entry, hentry, hreads⟩ := h
  exact ⟨entry.2, Schema.sub_of_mem_tableOf hkey hentry, hreads⟩

theorem subReadsInto_of_single {key : String}
    (hkey : key ∈ ["not", "items", "additionalItems", "additionalProperties"])
    (h : ∃ sub, Table.get? keywords key = some sub ∧ ReadsInto formats sub node) :
    SubReadsInto formats keywords node := by
  obtain ⟨sub, hget, hreads⟩ := h
  exact ⟨sub, .single key hkey hget, hreads⟩

theorem subReadsInto_of_listed {keyword : String} {nodes : List Node}
    (hkeyword : keyword ∈ ["allOf", "anyOf", "oneOf", "items"])
    (h : listed formats uri keyword keywords = .ok nodes) (hmem : node ∈ nodes) :
    SubReadsInto formats keywords node := by
  rw [listed_eq] at h
  obtain ⟨sub, hsub, hreads⟩ := readsInto_of_mem_nodesOf h hmem
  exact ⟨sub, Schema.sub_of_mem_listOf hkeyword hsub, hreads⟩

theorem subReadsInto_of_negation (h : negation formats uri keywords = .ok (some node)) :
    SubReadsInto formats keywords node := by
  cases negationReads_of_negation h with
  | schema hget hnode => exact subReadsInto_of_single (by decide) ⟨_, hget, _, hnode⟩

theorem subReadsInto_of_itemChecks {checks : List Check} {check : Check}
    (h : itemChecks formats uri keywords = .ok checks) (hmem : check ∈ checks)
    (happlies : check.Applies node) : SubReadsInto formats keywords node := by
  cases itemReads_of_itemChecks h with
  | tuple hget hnodes hrest =>
      obtain rfl := List.mem_singleton.1 hmem
      cases happlies with
      | tuple hnode =>
          obtain ⟨sub, hsub, hreads⟩ := readsInto_of_mem_nodesOf hnodes hnode
          exact ⟨sub, .listed "items" (by decide) hget hsub, hreads⟩
      | surplus => exact subReadsInto_of_single (by decide) (readsInto_of_additional hrest)
  | each _ hget hread =>
      obtain rfl := List.mem_singleton.1 hmem
      cases happlies with
      | items => exact subReadsInto_of_single (by decide) ⟨_, hget, _, hread⟩
  | absent => cases hmem

theorem subReadsInto_of_memberChecks {checks : List Check} {check : Check}
    (h : memberChecks formats uri keywords = .ok checks) (hmem : check ∈ checks)
    (happlies : check.Applies node) : SubReadsInto formats keywords node := by
  cases memberReads_of_memberChecks h with
  | members hprops hdeps hpats hrest =>
      obtain rfl := List.mem_singleton.1 hmem
      cases happlies with
      | property hnode =>
          exact subReadsInto_of_table (by decide) (readsInto_of_mem_namedNodes hprops hnode)
      | dependency hnode =>
          exact subReadsInto_of_table (by decide) (readsInto_of_mem_dependenciesOf hdeps hnode)
      | pattern hnode =>
          exact subReadsInto_of_table (by decide) (readsInto_of_mem_patternNodes hpats hnode)
      | others => exact subReadsInto_of_single (by decide) (readsInto_of_additional hrest)
  | unrestricted => cases hmem

/-- Assertions apply no node to anything. -/
theorem not_applies_of_mem_assertions {assertions : List Assertion} {check : Check}
    (hmem : check ∈ assertions.map Check.assertion) : ¬check.Applies node := by
  obtain ⟨a, -, rfl⟩ := List.mem_map.1 hmem
  rintro ⟨⟩

theorem subReadsInto_of_checks {integer : Bool} {kind : Kind} {own : List Check} {check : Check}
    (h : checks formats uri keywords integer kind = .ok own) (hmem : check ∈ own)
    (happlies : check.Applies node) : SubReadsInto formats keywords node := by
  cases kindReads_of_checks h with
  | null => cases hmem
  | boolean => cases hmem
  | number => exact absurd happlies (not_applies_of_mem_assertions hmem)
  | string => exact absurd happlies (not_applies_of_mem_assertions hmem)
  | array hitems =>
      rw [List.mem_append, List.mem_append] at hmem
      rcases hmem with (hmem | hmem) | hmem
      · exact absurd happlies (not_applies_of_mem_assertions hmem)
      · exact subReadsInto_of_itemChecks hitems hmem happlies
      · exact absurd happlies (not_applies_of_mem_assertions hmem)
  | object hrules =>
      rcases List.mem_append.1 hmem with hmem | hmem
      · exact absurd happlies (not_applies_of_mem_assertions hmem)
      · exact subReadsInto_of_memberChecks hrules hmem happlies

theorem Below.subReadsInto {whole : Node} (hbelow : Below whole node)
    (h : ofSchema formats uri (.object keywords) = .ok whole) :
    SubReadsInto formats keywords node := by
  cases readAs_of_ofSchema h with
  | reference => cases hbelow
  | schema _ hlist hnegated hallOf hanyOf honeOf =>
      cases hbelow with
      | check hbranch hcheck happlies =>
          obtain ⟨kind, hkind⟩ := exists_checks_of_mem_branches hbranch
          exact subReadsInto_of_checks ((kindChecks_spec hlist).2 _ hkind) hcheck happlies
      | allOf hnode => exact subReadsInto_of_listed (by decide) hallOf hnode
      | anyOf hnode => exact subReadsInto_of_listed (by decide) hanyOf hnode
      | oneOf hnode => exact subReadsInto_of_listed (by decide) honeOf hnode
      | negated => exact subReadsInto_of_negation hnegated
  | other => cases hbelow

theorem not_below_of_ne {document : Json} {whole : Node}
    (h : ofSchema formats uri document = .ok whole)
    (hobject : ∀ keywords, document ≠ .object keywords) : ¬Below whole node := by
  intro hbelow
  cases readAs_of_ofSchema h with
  | reference => exact hobject _ rfl
  | schema => exact hobject _ rfl
  | refusal => cases hbelow
  | other => cases hbelow

theorem eq_of_uri?_eq_some {document : Json} {target : String}
    (h : ofSchema formats uri document = .ok node) (huri : node.uri? = some target) :
    target = uri := by
  cases readAs_of_ofSchema h with
  | reference => cases huri
  | schema => exact (Option.some.inj huri).symm
  | refusal => exact (Option.some.inj huri).symm
  | other => cases huri

/-! ### References -/

theorem exists_of_ofSchema_eq_reference {document : Json} {target : String}
    (h : ofSchema formats uri document = .ok (.reference target)) :
    ∃ keywords, document = .object keywords ∧ text? keywords "$ref" = some target := by
  cases readAs_of_ofSchema h with
  | reference href => exact ⟨_, rfl, href⟩

def RefersTo (formats : Table Format) (document : Json) (target : String) : Prop :=
  ∃ uri node, ofSchema formats uri document = .ok node ∧ target ∈ node.targets

/-- What the node of a document refers to, the text of the document does. -/
theorem mem_references_of_refersTo {document : Json} {target : String}
    (h : RefersTo formats document target) : target ∈ document.references := by
  obtain ⟨uri, node, hnode, ht⟩ := h
  rcases exists_below_of_mem_targets ht with rfl | ⟨inner, hbelow, ht⟩
  · obtain ⟨keywords, rfl, htext⟩ := exists_of_ofSchema_eq_reference hnode
    exact Schema.mem_references_of_text? htext
  · by_cases hobject : ∃ keywords, document = .object keywords
    · obtain ⟨keywords, rfl⟩ := hobject
      obtain ⟨sub, hsub, uri', hreads⟩ := hbelow.subReadsInto hnode
      have := hsub.sizeOf_lt
      exact Schema.references_subset_of_sub hsub
        (mem_references_of_refersTo ⟨uri', inner, hreads, ht⟩)
    · exact absurd hbelow (not_below_of_ne hnode fun keywords heq => hobject ⟨keywords, heq⟩)
termination_by sizeOf document

end Node

end HyperSchema
