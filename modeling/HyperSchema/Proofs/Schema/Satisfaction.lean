import HyperSchema.Proofs.Schema.Parts
import HyperSchema.Validation.Evaluation

/-!
# What a schema document means

A document is read here keyword by keyword, with nothing made ready beforehand: false rejects every
value, what is no object otherwise accepts every value, and an object accepts the values that all
its keywords accept. A keyword with a value that does not fit it says nothing. This is what compiled
schemas are measured against.
-/

namespace HyperSchema.Schema

open Node (limit? float? text? flag divisor? declaredTypes integersOnly requiredKeys itemsOf)

/-! ### Keywords without subschemas -/

/-- Whether a value is of a type by its name; an integer is a number without a fraction. -/
def IsOfType (v : Json) (name : String) : Prop :=
  if name = "integer" then ∃ n, v = .number n ∧ n.toFloat.isIntegral = true else v.typeName = name

def TypeKeyword (keywords : Table Json) (v : Json) : Prop :=
  declaredTypes keywords ≠ [] → ∃ name ∈ declaredTypes keywords, IsOfType v name

def EnumKeyword (keywords : Table Json) (v : Json) : Prop :=
  ∀ choices, Table.get? keywords "enum" = some (.array choices) →
    ∃ choice ∈ choices, Json.equal choice v = true

structure NumberKeywords (keywords : Table Json) (x : Binary64) : Prop where
  multiple : ∀ d, divisor? keywords = some d → x.isMultiple d = true
  minimum : ∀ limit, float? keywords "minimum" = some limit →
    x.less limit = false ∧ (flag keywords "exclusiveMinimum" = true → x.same limit = false)
  maximum : ∀ limit, float? keywords "maximum" = some limit →
    limit.less x = false ∧ (flag keywords "exclusiveMaximum" = true → x.same limit = false)

structure StringKeywords (unicode : Bool) (keywords : Table Json) (s : String) : Prop where
  minLength : ∀ n, limit? keywords "minLength" = some n → n ≤ Text.length unicode s
  maxLength : ∀ n, limit? keywords "maxLength" = some n → Text.length unicode s ≤ n
  pattern : ∀ source p, text? keywords "pattern" = some source → Pattern.compile? source = some p →
    p.isMatch s = true

structure ArrayKeywords (keywords : Table Json) (items : List Json) : Prop where
  minItems : ∀ n, limit? keywords "minItems" = some n → n ≤ items.length
  maxItems : ∀ n, limit? keywords "maxItems" = some n → items.length ≤ n
  uniqueItems : flag keywords "uniqueItems" = true →
    items.Pairwise (fun v w => Json.equal v w = false)

structure ObjectKeywords (keywords members : Table Json) : Prop where
  minProperties : ∀ n, limit? keywords "minProperties" = some n → n ≤ members.length
  maxProperties : ∀ n, limit? keywords "maxProperties" = some n → members.length ≤ n
  required : ∀ key ∈ requiredKeys keywords, Table.has members key = true

def KindKeywords (unicode : Bool) (keywords : Table Json) : Json → Prop
  | .number n => NumberKeywords keywords n.toFloat
  | .string s => StringKeywords unicode keywords s
  | .array items => ArrayKeywords keywords items
  | .object members => ObjectKeywords keywords members
  | _ => True

/-! ### Keywords with subschemas -/

def membersOf : Json → Table Json
  | .object members => members
  | _ => []

/-- Whether properties or patternProperties speak of a key. -/
def Mentions (keywords : Table Json) (key : String) : Prop :=
  (∃ table, Table.get? keywords "properties" = some (.object table) ∧ Table.has table key = true)
    ∨ ∃ table source sub p, Table.get? keywords "patternProperties" = some (.object table)
      ∧ (source, sub) ∈ table ∧ Pattern.compile? source = some p ∧ p.isMatch key = true

/-- Whether a value satisfies a schema document. A list under items is no schema, so that the clause
for a single schema asks nothing of it. -/
def Satisfies (unicode : Bool) (schema v : Json) : Prop :=
  match schema with
  | .bool false => False
  | .object keywords =>
    TypeKeyword keywords v ∧ EnumKeyword keywords v ∧ KindKeywords unicode keywords v
    ∧ (∀ subs, Table.get? keywords "allOf" = some (.array subs) →
        ∀ sub, sub ∈ subs → Satisfies unicode sub v)
    ∧ (∀ subs, Table.get? keywords "anyOf" = some (.array subs) → subs ≠ [] →
        ∃ sub, ∃ _ : sub ∈ subs, Satisfies unicode sub v)
    ∧ (∀ subs, Table.get? keywords "oneOf" = some (.array subs) → subs ≠ [] →
        ∃ (i : Nat) (sub : Json), ∃ _ : subs[i]? = some sub, Satisfies unicode sub v
          ∧ ∀ (j : Nat) (other : Json), subs[j]? = some other → Satisfies unicode other v → j = i)
    ∧ (∀ sub, Table.get? keywords "not" = some sub → ¬Satisfies unicode sub v)
    ∧ (∀ sub, Table.get? keywords "items" = some sub →
        ∀ item, item ∈ itemsOf v → Satisfies unicode sub item)
    ∧ (∀ subs, Table.get? keywords "items" = some (.array subs) →
        (∀ (i : Nat) (sub item : Json), subs[i]? = some sub → (itemsOf v)[i]? = some item →
          Satisfies unicode sub item)
        ∧ ∀ rest, Table.get? keywords "additionalItems" = some rest →
          ∀ item, item ∈ (itemsOf v).drop subs.length → Satisfies unicode rest item)
    ∧ (∀ table, Table.get? keywords "properties" = some (.object table) →
        ∀ key sub member, Table.get? table key = some sub →
          Table.get? (membersOf v) key = some member → Satisfies unicode sub member)
    ∧ (∀ table, Table.get? keywords "patternProperties" = some (.object table) →
        ∀ source sub p, (source, sub) ∈ table → Pattern.compile? source = some p →
          ∀ key member, (key, member) ∈ membersOf v → p.isMatch key = true →
            Satisfies unicode sub member)
    ∧ (∀ rest, Table.get? keywords "additionalProperties" = some rest →
        ∀ key member, (key, member) ∈ membersOf v → ¬Mentions keywords key →
          Satisfies unicode rest member)
    ∧ (∀ table, Table.get? keywords "dependencies" = some (.object table) →
        ∀ key dependency, Table.get? table key = some dependency →
          Table.has (membersOf v) key = true →
            (∀ name ∈ dependentKeys dependency, Table.has (membersOf v) name = true)
            ∧ Satisfies unicode dependency v)
  | _ => True
termination_by sizeOf schema
decreasing_by
  all_goals
    apply Sub.sizeOf_lt
  · exact .listed "allOf" (by decide) ‹_› ‹_›
  · exact .listed "anyOf" (by decide) ‹_› ‹_›
  · exact .listed "oneOf" (by decide) ‹_› (List.mem_of_getElem? ‹_›)
  · exact .listed "oneOf" (by decide) ‹_› (List.mem_of_getElem? ‹_›)
  · exact .single "not" (by decide) ‹_›
  · exact .single "items" (by decide) ‹_›
  · exact .listed "items" (by decide) ‹_› (List.mem_of_getElem? ‹_›)
  · exact .single "additionalItems" (by decide) ‹_›
  · exact .named "properties" (by decide) ‹_› (Table.mem_of_get? ‹_›)
  · exact .named "patternProperties" (by decide) ‹_› ‹_›
  · exact .single "additionalProperties" (by decide) ‹_›
  · exact .named "dependencies" (by decide) ‹_› (Table.mem_of_get? ‹_›)

/-! ### The keywords of a schema in groups -/

section

variable (unicode : Bool) (keywords : Table Json) (v : Json)

def AllOfKeyword : Prop :=
  ∀ subs, Table.get? keywords "allOf" = some (.array subs) →
    ∀ sub ∈ subs, Satisfies unicode sub v

def AnyOfKeyword : Prop :=
  ∀ subs, Table.get? keywords "anyOf" = some (.array subs) → subs ≠ [] →
    ∃ sub ∈ subs, Satisfies unicode sub v

def OneOfKeyword : Prop :=
  ∀ subs, Table.get? keywords "oneOf" = some (.array subs) → subs ≠ [] →
    ∃ (i : Nat) (sub : Json), subs[i]? = some sub ∧ Satisfies unicode sub v
      ∧ ∀ (j : Nat) (other : Json), subs[j]? = some other → Satisfies unicode other v → j = i

def NotKeyword : Prop :=
  ∀ sub, Table.get? keywords "not" = some sub → ¬Satisfies unicode sub v

structure ItemKeywords : Prop where
  each : ∀ sub, Table.get? keywords "items" = some sub →
    ∀ item ∈ itemsOf v, Satisfies unicode sub item
  tuple : ∀ subs, Table.get? keywords "items" = some (.array subs) →
    (∀ (i : Nat) (sub item : Json), subs[i]? = some sub → (itemsOf v)[i]? = some item →
      Satisfies unicode sub item)
    ∧ ∀ rest, Table.get? keywords "additionalItems" = some rest →
      ∀ item ∈ (itemsOf v).drop subs.length, Satisfies unicode rest item

structure MemberKeywords : Prop where
  properties : ∀ table, Table.get? keywords "properties" = some (.object table) →
    ∀ key sub member, Table.get? table key = some sub →
      Table.get? (membersOf v) key = some member → Satisfies unicode sub member
  patternProperties : ∀ table, Table.get? keywords "patternProperties" = some (.object table) →
    ∀ source sub p, (source, sub) ∈ table → Pattern.compile? source = some p →
      ∀ key member, (key, member) ∈ membersOf v → p.isMatch key = true →
        Satisfies unicode sub member
  additionalProperties : ∀ rest, Table.get? keywords "additionalProperties" = some rest →
    ∀ key member, (key, member) ∈ membersOf v → ¬Mentions keywords key →
      Satisfies unicode rest member
  dependencies : ∀ table, Table.get? keywords "dependencies" = some (.object table) →
    ∀ key dependency, Table.get? table key = some dependency →
      Table.has (membersOf v) key = true →
        (∀ name ∈ dependentKeys dependency, Table.has (membersOf v) name = true)
        ∧ Satisfies unicode dependency v

theorem satisfies_object_iff : Satisfies unicode (.object keywords) v
    ↔ TypeKeyword keywords v ∧ EnumKeyword keywords v ∧ KindKeywords unicode keywords v
      ∧ AllOfKeyword unicode keywords v ∧ AnyOfKeyword unicode keywords v
      ∧ OneOfKeyword unicode keywords v ∧ NotKeyword unicode keywords v
      ∧ ItemKeywords unicode keywords v ∧ MemberKeywords unicode keywords v := by
  rw [Satisfies]
  simp only [exists_prop]
  constructor
  · intro h
    obtain ⟨htype, henum, hkind, hall, hany, hone, hnot, heach, htuple, hproperties, hpatterns,
      hrest, hdependencies⟩ := h
    exact ⟨htype, henum, hkind, hall, hany, hone, hnot, ⟨heach, htuple⟩,
      ⟨hproperties, hpatterns, hrest, hdependencies⟩⟩
  · intro h
    obtain ⟨htype, henum, hkind, hall, hany, hone, hnot, ⟨heach, htuple⟩,
      ⟨hproperties, hpatterns, hrest, hdependencies⟩⟩ := h
    exact ⟨htype, henum, hkind, hall, hany, hone, hnot, heach, htuple, hproperties, hpatterns,
      hrest, hdependencies⟩

end

/-! ### Members and the tables they are judged by -/

section

variable {keywords : Table Json} {key : String}

theorem mentions_iff : Mentions keywords key
    ↔ Table.has (tableOf keywords "properties") key = true
      ∨ ∃ source sub p, (source, sub) ∈ tableOf keywords "patternProperties"
        ∧ Pattern.compile? source = some p ∧ p.isMatch key = true := by
  have hpatterns : (∃ table source sub p,
      Table.get? keywords "patternProperties" = some (.object table) ∧ (source, sub) ∈ table
        ∧ Pattern.compile? source = some p ∧ p.isMatch key = true)
      ↔ ∃ table, Table.get? keywords "patternProperties" = some (.object table)
        ∧ ∃ source sub p, (source, sub) ∈ table ∧ Pattern.compile? source = some p
          ∧ p.isMatch key = true := by
    simp only [exists_and_left]
  rw [Mentions, hpatterns, exists_table_iff (by simp [Table.has]), exists_table_iff (by simp)]

theorem memberKeywords_iff {unicode : Bool} {members : Table Json} :
    MemberKeywords unicode keywords (.object members)
      ↔ (∀ key sub member, Table.get? (tableOf keywords "properties") key = some sub →
          Table.get? members key = some member → Satisfies unicode sub member)
        ∧ (∀ source sub p, (source, sub) ∈ tableOf keywords "patternProperties" →
          Pattern.compile? source = some p → ∀ key member, (key, member) ∈ members →
            p.isMatch key = true → Satisfies unicode sub member)
        ∧ (∀ rest, Table.get? keywords "additionalProperties" = some rest →
          ∀ key member, (key, member) ∈ members → ¬Mentions keywords key →
            Satisfies unicode rest member)
        ∧ ∀ key dependency, Table.get? (tableOf keywords "dependencies") key = some dependency →
          Table.has members key = true →
            (∀ name ∈ dependentKeys dependency, Table.has members name = true)
            ∧ Satisfies unicode dependency (.object members) := by
  constructor
  · intro h
    obtain ⟨hproperties, hpatterns, hrest, hdependencies⟩ := h
    exact ⟨(forall_table_iff (by simp)).1 hproperties, (forall_table_iff (by simp)).1 hpatterns,
      hrest, (forall_table_iff (by simp)).1 hdependencies⟩
  · intro h
    obtain ⟨hproperties, hpatterns, hrest, hdependencies⟩ := h
    exact ⟨(forall_table_iff (by simp)).2 hproperties, (forall_table_iff (by simp)).2 hpatterns,
      hrest, (forall_table_iff (by simp)).2 hdependencies⟩

end

@[simp] theorem satisfies_false (unicode : Bool) (v : Json) :
    ¬Satisfies unicode (.bool false) v := by
  rw [Satisfies]
  exact not_false

theorem satisfies_of_not_object {schema : Json} (unicode : Bool) (v : Json)
    (hfalse : schema ≠ .bool false) (hobject : ∀ keywords, schema ≠ .object keywords) :
    Satisfies unicode schema v := by
  rw [Satisfies]
  · exact trivial
  · exact hfalse
  · exact hobject

end HyperSchema.Schema
