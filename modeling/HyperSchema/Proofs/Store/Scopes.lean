import HyperSchema.Proofs.SchemaUri
import HyperSchema.Proofs.Store.Documents

/-!
# What an addition can reach

An addition writes under the URI of its document and under ids that lie within this URI, whatever
the ids in the document are. Every id is compared with the scope around it only; that it lies within
the document follows because scopes that lie within each other form a chain.

How an id is made absolute plays no part in this. The scan is therefore taken with any resolution of
references here, and the scan of the store is the one with theirs.
-/

namespace HyperSchema

namespace Scan

variable (resolve : String → String → String)

/-- The id of an object under some resolution, if its scope accepts it. -/
def ownIdBy? (scope : String) (members : Table Json) : Option String :=
  match (Table.get? members "id").bind Json.asString? with
  | some id =>
    let resolved := resolve scope id
    if SchemaUri.isWithin resolved scope then some resolved else none
  | none => none

def scopeOfBy (scope : String) (members : Table Json) : String :=
  (ownIdBy? resolve scope members).getD scope

def namingBy (root : Bool) (scope : String) (members : Table Json) (value : Json) :
    List (String × Json) :=
  if root then []
  else
    match ownIdBy? resolve scope members with
    | some id => [(id, value)]
    | none => []

def targetBy? (scope key : String) (v : Json) : Option String :=
  if key = "$ref" then v.asString?.map (resolve scope) else none

mutual

/-- The scan of a value with references resolved in some way. -/
def valueBy (root : Bool) (scope : String) : Json → Scanned Json
  | .object ms =>
    let inner := membersBy (scopeOfBy resolve scope ms) ms
    ⟨.object inner.value, inner.targets,
      inner.named ++ namingBy resolve root scope ms (.object inner.value)⟩
  | .array items =>
    let inner := listBy scope items
    ⟨.array inner.value, inner.targets, inner.named⟩
  | v => ⟨v, [], []⟩

def listBy (scope : String) : List Json → Scanned (List Json)
  | [] => ⟨[], [], []⟩
  | v :: rest =>
    let first := valueBy false scope v
    let more := listBy scope rest
    ⟨first.value :: more.value, first.targets ++ more.targets, first.named ++ more.named⟩

def membersBy (scope : String) : List (String × Json) → Scanned (List (String × Json))
  | [] => ⟨[], [], []⟩
  | (key, v) :: rest =>
    let first : Scanned Json := match targetBy? resolve scope key v with
      | some target => ⟨.string target, [target], []⟩
      | none => if isData key then ⟨v, [], []⟩ else valueBy false scope v
    let more := membersBy scope rest
    ⟨(key, first.value) :: more.value, first.targets ++ more.targets, first.named ++ more.named⟩

end

/-! ### The scan of the store -/

theorem scopeOfBy_resolve : scopeOfBy SchemaUri.resolve = scopeOf := rfl

theorem namingBy_resolve : namingBy SchemaUri.resolve = naming := rfl

theorem targetBy?_resolve : targetBy? SchemaUri.resolve = target? := rfl

mutual

theorem valueBy_resolve (root : Bool) (scope : String) :
    ∀ v : Json, valueBy SchemaUri.resolve root scope v = value root scope v
  | .null => rfl
  | .bool _ => rfl
  | .number _ => rfl
  | .string _ => rfl
  | .array items => by rw [valueBy, value, listBy_resolve scope items]
  | .object ms => by
      rw [valueBy, value, scopeOfBy_resolve, namingBy_resolve, membersBy_resolve _ ms]

theorem listBy_resolve (scope : String) :
    ∀ items : List Json, listBy SchemaUri.resolve scope items = list scope items
  | [] => rfl
  | v :: rest => by
      rw [listBy, list, valueBy_resolve false scope v, listBy_resolve scope rest]

theorem membersBy_resolve (scope : String) :
    ∀ ms : List (String × Json), membersBy SchemaUri.resolve scope ms = members scope ms
  | [] => rfl
  | (key, v) :: rest => by
      rw [membersBy, members, targetBy?_resolve, membersBy_resolve scope rest]
      cases target? scope key v with
      | some target => rfl
      | none => simp only [valueBy_resolve false scope v]

end

/-! ### Ids stay within their scopes -/

variable {resolve} {scope : String} {ms : Table Json}

theorem isWithin_of_ownIdBy? {id : String} (h : ownIdBy? resolve scope ms = some id) :
    SchemaUri.isWithin id scope = true := by
  rw [ownIdBy?] at h
  split at h
  · dsimp only at h
    split at h
    · next hwithin => rwa [Option.some.inj h] at hwithin
    · cases h
  · cases h

theorem isWithin_scopeOfBy (scope : String) (ms : Table Json) :
    SchemaUri.isWithin (scopeOfBy resolve scope ms) scope = true := by
  rw [scopeOfBy]
  cases hid : ownIdBy? resolve scope ms with
  | some id => exact isWithin_of_ownIdBy? hid
  | none => exact SchemaUri.isWithin_self scope

theorem isWithin_of_mem_namingBy {root : Bool} {v : Json} {entry : String × Json}
    (h : entry ∈ namingBy resolve root scope ms v) :
    SchemaUri.isWithin entry.1 scope = true := by
  rw [namingBy] at h
  split at h
  · cases h
  · split at h
    · next id hid =>
      obtain rfl := List.mem_singleton.1 h
      exact isWithin_of_ownIdBy? hid
    · cases h

mutual

theorem isWithin_of_mem_valueBy (root : Bool) (scope : String) :
    ∀ v : Json, ∀ entry ∈ (valueBy resolve root scope v).named,
      SchemaUri.isWithin entry.1 scope = true
  | .null, _, h => by cases h
  | .bool _, _, h => by cases h
  | .number _, _, h => by cases h
  | .string _, _, h => by cases h
  | .array items, entry, h => by
      rw [valueBy] at h
      exact isWithin_of_mem_listBy scope items entry h
  | .object ms, entry, h => by
      rw [valueBy] at h
      rcases List.mem_append.1 h with h | h
      · have hinner := isWithin_of_mem_membersBy (scopeOfBy resolve scope ms) ms entry h
        exact SchemaUri.isWithin_trans hinner (isWithin_scopeOfBy scope ms)
      · exact isWithin_of_mem_namingBy h

theorem isWithin_of_mem_listBy (scope : String) :
    ∀ items : List Json, ∀ entry ∈ (listBy resolve scope items).named,
      SchemaUri.isWithin entry.1 scope = true
  | [], _, h => by cases h
  | v :: rest, entry, h => by
      rw [listBy] at h
      rcases List.mem_append.1 h with h | h
      · exact isWithin_of_mem_valueBy false scope v entry h
      · exact isWithin_of_mem_listBy scope rest entry h

theorem isWithin_of_mem_membersBy (scope : String) :
    ∀ ms : List (String × Json), ∀ entry ∈ (membersBy resolve scope ms).named,
      SchemaUri.isWithin entry.1 scope = true
  | [], _, h => by cases h
  | (key, v) :: rest, entry, h => by
      rw [membersBy] at h
      rcases List.mem_append.1 h with h | h
      · split at h
        · cases h
        · split at h
          · cases h
          · exact isWithin_of_mem_valueBy false scope v entry h
      · exact isWithin_of_mem_membersBy scope rest entry h

end

end Scan

namespace Store

variable (resolve : String → String → String)

/-- The addition of a document with references resolved in some way. -/
def addBy (s : Store) (uri : String) (document : Json) : Store :=
  let uri := SchemaUri.normalize uri
  let scanned := Scan.valueBy resolve true uri document
  scanned.targets.foldl noteTarget (scanned.named.foldl addNamed (s.put uri scanned.value))

theorem addBy_resolve : addBy SchemaUri.resolve = add := by
  funext s uri document
  rw [addBy, add, Json.scan, Scan.valueBy_resolve]

theorem get?_addBy (s : Store) (uri : String) (document : Json) (key : String) :
    Table.get? (s.addBy resolve uri document).top.schemas key
      = if key = SchemaUri.normalize uri then
          some (Scan.valueBy resolve true (SchemaUri.normalize uri) document).value
        else (Table.get? s.top.schemas key).or (Table.get?
          (Scan.valueBy resolve true (SchemaUri.normalize uri) document).named key) := by
  rw [addBy, (sameDocuments_noteTargets _ _).schemas, get?_addNamed, put]
  dsimp only
  rw [Table.get?_insert]
  split
  · rw [Option.some_or]
  · rfl

/-- What an addition changes in the top layer stands under the URI of the document, or under a new
URI that lies within it, and what lies within a scope within a scope lies within the outer one. -/
theorem addBy_within :
    (∀ (s : Store) (uri : String) (document : Json) (key : String),
      Table.get? (s.addBy resolve uri document).top.schemas key ≠ Table.get? s.top.schemas key →
        key = SchemaUri.normalize uri
          ∨ Table.get? s.top.schemas key = none ∧ SchemaUri.isWithin key uri = true)
      ∧ (∀ candidate scope outer : String, SchemaUri.isWithin candidate scope = true →
        SchemaUri.isWithin scope outer = true → SchemaUri.isWithin candidate outer = true)
      ∧ addBy SchemaUri.resolve = add := by
  refine ⟨?_, fun _ _ _ => SchemaUri.isWithin_trans, addBy_resolve⟩
  intro s uri document key hchange
  rw [get?_addBy] at hchange
  by_cases hkey : key = SchemaUri.normalize uri
  · exact .inl hkey
  · rw [if_neg hkey] at hchange
    right
    cases hold : Table.get? s.top.schemas key with
    | some v =>
        rw [hold, Option.some_or] at hchange
        exact absurd rfl hchange
    | none =>
        rw [hold, Option.none_or] at hchange
        obtain ⟨v, hnamed⟩ := Option.ne_none_iff_exists'.1 hchange
        have hwithin := Scan.isWithin_of_mem_valueBy true (SchemaUri.normalize uri) document _
          (Table.mem_of_get? hnamed)
        rw [SchemaUri.isWithin_congr_base (SchemaUri.base_normalize uri)] at hwithin
        exact ⟨rfl, hwithin⟩

/-- Schemas in schemas with ids, each within the one around it, and one that leaves them. -/
def housed : Json :=
  .object [("a", .object [("id", .string "d/a#"), ("b", .object [("id", .string "d/a/b#c"),
    ("e", .object [("id", .string "d/a")])])])]

theorem addBy_within_housed :
    Table.get? (empty.addBy (fun _ id => id) "d#" housed).top.schemas "d/a/b#c"
        ≠ Table.get? empty.top.schemas "d/a/b#c"
      ∧ SchemaUri.isWithin "d/a/b#c" "d#" = true
      ∧ SchemaUri.isWithin "d/a/b#c" "d/a/b" = true ∧ SchemaUri.isWithin "d/a/b" "d/a#" = true
      ∧ SchemaUri.isWithin "d/a/b#c" "d/a#" = true := by
  obtain ⟨hreach, htrans, -⟩ := addBy_within (fun _ id => id)
  have hchange : Table.get? (empty.addBy (fun _ id => id) "d#" housed).top.schemas "d/a/b#c"
      ≠ Table.get? empty.top.schemas "d/a/b#c" := by
    intro hsame
    have hthere : (Table.get? (empty.addBy (fun _ id => id) "d#" housed).top.schemas
        "d/a/b#c").isSome = true := by decide +kernel
    rw [hsame] at hthere
    cases hthere
  have hother : "d/a/b#c" ≠ SchemaUri.normalize "d#" := by decide +kernel
  have hwithin := ((hreach empty "d#" housed "d/a/b#c" hchange).resolve_left hother).2
  have hinner : SchemaUri.isWithin "d/a/b#c" "d/a/b" = true := by decide +kernel
  have houter : SchemaUri.isWithin "d/a/b" "d/a#" = true := by decide +kernel
  exact ⟨hchange, hwithin, hinner, houter, htrans _ _ _ hinner houter⟩

end Store

end HyperSchema
