import HyperSchema.SchemaUri
import HyperSchema.Text.Quoted
import HyperSchema.Validation.Node

/-!
# Reading schemas

A schema document is read into a node. The only thing that can go wrong is a pattern that is no
regular expression; whatever else does not fit its keyword is taken as absent. Keywords that concern
types of value which the schema rules out are not read at all, so that a faulty pattern among them
does no harm.
-/

namespace HyperSchema

/-- A pattern that cannot be read, and the schema it stands in. -/
structure PatternError where
  uri : String
  pattern : String
  deriving DecidableEq

def PatternError.message (e : PatternError) : String :=
  "invalid regular expression " ++ Text.quoted e.pattern ++ " in " ++ e.uri ++ ":"

theorem Json.sizeOf_get?_lt {members : Table Json} {key : String} {v : Json}
    (h : Table.get? members key = some v) : sizeOf v < sizeOf members := by
  have := List.sizeOf_lt_of_mem (Table.mem_of_get? h)
  simp only [Prod.mk.sizeOf_spec] at this
  omega

namespace Node

/-- A limit that counts something; fractions are cut off. -/
def limit? (members : Table Json) (key : String) : Option Nat :=
  ((Table.get? members key).bind Json.asFloat?).bind Binary64.count?

def flag (members : Table Json) (key : String) : Bool :=
  ((Table.get? members key).bind Json.asBool?).getD false

def float? (members : Table Json) (key : String) : Option Binary64 :=
  (Table.get? members key).bind Json.asFloat?

def text? (members : Table Json) (key : String) : Option String :=
  (Table.get? members key).bind Json.asString?

/-- The names of types as written. -/
def declaredTypes (members : Table Json) : List String :=
  match Table.get? members "type" with
  | some (.string name) => [name]
  | some (.array names) => names.filterMap Json.asString?
  | _ => []

def kindsNamed : String → List Kind
  | "null" => [.null]
  | "boolean" => [.boolean]
  | "integer" => [.number]
  | "number" => [.number]
  | "string" => [.string]
  | "array" => [.array]
  | "object" => [.object]
  | "any" => Kind.all
  | _ => []

/-- The types that a list of names allows; a list without a known name allows all. -/
def allowedKinds (declared : List String) : List Kind :=
  let named := declared.flatMap kindsNamed
  if named.isEmpty then Kind.all else Kind.all.filter named.contains

/-- Whether the only numbers allowed are integers. -/
def integersOnly (declared : List String) : Bool :=
  declared.contains "integer" && !declared.contains "number"

/-- The divisor, where it is positive; the newer of its two names goes first. -/
def divisor? (members : Table Json) : Option Binary64 :=
  let named := match Table.get? members "multipleOf" with
    | some v => some v
    | none => Table.get? members "divisibleBy"
  (named.bind Json.asFloat?).filter Binary64.zero.less

/-- The assertions on numbers. A whole divisor lets only integers pass, so that they need no test of
their own. -/
def numberAssertions (members : Table Json) (integer : Bool) : List Assertion :=
  let divisor := divisor? members
  let whole := (divisor.map Binary64.isIntegral).getD false
  (if integer && !whole then [Assertion.integer] else [])
    ++ (divisor.map Assertion.multipleOf).toList
    ++ ((float? members "minimum").map (fun x =>
      Assertion.minimum x (flag members "exclusiveMinimum"))).toList
    ++ ((float? members "maximum").map (fun x =>
      Assertion.maximum x (flag members "exclusiveMaximum"))).toList

def pattern (uri source : String) : Except PatternError Pattern :=
  match Pattern.compile? source with
  | some p => .ok p
  | none => .error ⟨uri, source⟩

def stringAssertions (uri : String) (members : Table Json) :
    Except PatternError (List Assertion) := do
  let lengths :=
    ((limit? members "minLength").map Assertion.minLength).toList
      ++ ((limit? members "maxLength").map Assertion.maxLength).toList
  match text? members "pattern" with
  | some source =>
    let p ← pattern uri source
    return lengths ++ [Assertion.pattern p]
  | none => return lengths

def arrayAssertions (members : Table Json) : List Assertion :=
  ((limit? members "minItems").map Assertion.minItems).toList
    ++ ((limit? members "maxItems").map Assertion.maxItems).toList

def objectAssertions (members : Table Json) : List Assertion :=
  ((limit? members "minProperties").map Assertion.minProperties).toList
    ++ ((limit? members "maxProperties").map Assertion.maxProperties).toList

def requiredKeys (members : Table Json) : List String :=
  (((Table.get? members "required").bind Json.asArray?).getD []).filterMap Json.asString?

def linkTemplate? (v : Json) : Option LinkTemplate := do
  let href ← (v.member? "href").bind Json.asString?
  let rel := ((v.member? "rel").bind Json.asString?).getD ""
  let method := ((v.member? "method").bind Json.asString?).getD "GET"
  return ⟨rel, method.map Char.toUpper, Template.parse href⟩

def head (formats : Table Format) (uri : String) (members : Table Json) : Head :=
  let declared := declaredTypes members
  { uri := uri
    allowed := allowedKinds declared
    declared := declared
    choices := (Table.get? members "enum").bind Json.asArray?
    format := (text? members "format").bind (Table.get? formats)
    links := (((Table.get? members "links").bind Json.asArray?).getD []).filterMap linkTemplate? }

/-- Adds the checks for a type; types without checks share one branch. -/
def addBranch (kind : Kind) (checks : List Check) :
    List (List Kind × List Check) → List (List Kind × List Check)
  | [] => [([kind], checks)]
  | (kinds, present) :: rest =>
    if present.isEmpty && checks.isEmpty then (kinds ++ [kind], present) :: rest
    else (kinds, present) :: addBranch kind checks rest

/-- Puts a branch before the first that serves as many types or more. -/
def insertBranch (branch : List Kind × List Check) :
    List (List Kind × List Check) → List (List Kind × List Check)
  | [] => [branch]
  | other :: rest =>
    if branch.1.length ≤ other.1.length then branch :: other :: rest
    else other :: insertBranch branch rest

/-- The branches for the types that are allowed, those for fewer types first. The last one serves
every type that no other does. -/
def branches (checks : List (Kind × List Check)) : List (List Kind × List Check) :=
  (checks.foldl (fun found e => addBranch e.1 e.2 found) []).foldr insertBranch []

mutual

def ofSchema (formats : Table Format) (uri : String) (document : Json) : Except PatternError Node :=
  match document with
  | .object members =>
    match text? members "$ref" with
    | some target => .ok (.reference target)
    | none => do
      let head := head formats uri members
      let checks ← kindChecks formats uri members head.allowed (integersOnly head.declared)
      let negated ← negation formats uri members
      let allOf ← listed formats uri "allOf" members
      let anyOf ← listed formats uri "anyOf" members
      let oneOf ← listed formats uri "oneOf" members
      return Node.schema head (branches checks) allOf anyOf oneOf negated
  | .bool false => .ok (.reject uri)
  | _ => .ok .accept
termination_by (sizeOf document, 0, 0)

/-- The checks for each of the given types. -/
def kindChecks (formats : Table Format) (uri : String) (members : Table Json) (kinds : List Kind)
    (integer : Bool) : Except PatternError (List (Kind × List Check)) :=
  match kinds with
  | [] => .ok []
  | kind :: rest => do
    let checks ← checks formats uri members integer kind
    let more ← kindChecks formats uri members rest integer
    return (kind, checks) :: more
termination_by (sizeOf members, 3, kinds.length)

def checks (formats : Table Format) (uri : String) (members : Table Json) (integer : Bool)
    (kind : Kind) : Except PatternError (List Check) :=
  match kind with
  | .null => .ok []
  | .boolean => .ok []
  | .number => .ok ((numberAssertions members integer).map .assertion)
  | .string => do return (← stringAssertions uri members).map .assertion
  | .array => do
    let items ← itemChecks formats uri members
    let unique := if flag members "uniqueItems" then [Check.assertion .uniqueItems] else []
    return (arrayAssertions members).map .assertion ++ items ++ unique
  | .object => do
    let rules ← memberChecks formats uri members
    return (objectAssertions members).map .assertion ++ rules
termination_by (sizeOf members, 2, 0)

def itemChecks (formats : Table Format) (uri : String) (members : Table Json) :
    Except PatternError (List Check) :=
  match h : Table.get? members "items" with
  | some (.array schemas) => do
    have : sizeOf schemas < sizeOf members := by have := Json.sizeOf_get?_lt h; simp at this; omega
    let nodes ← nodesOf formats uri "items" 0 schemas
    let rest ← additional formats uri "additionalItems" members
    return [.tuple nodes rest]
  | some sub => do
    have := Json.sizeOf_get?_lt h
    let node ← ofSchema formats (SchemaUri.child uri ["items"]) sub
    return [.items node]
  | none => .ok []
termination_by (sizeOf members, 1, 0)

/-- The check of the members, unless there is nothing to check. -/
def memberChecks (formats : Table Format) (uri : String) (members : Table Json) :
    Except PatternError (List Check) := do
  let properties ← properties formats uri members
  let dependencies ← dependencies formats uri members
  let patterns ← patternProperties formats uri members
  let rest ← additional formats uri "additionalProperties" members
  let required := requiredKeys members
  match properties, required, dependencies, patterns, rest with
  | [], [], [], [], .allowed => return []
  | properties, required, dependencies, patterns, rest =>
    return [.members properties required dependencies patterns rest]
termination_by (sizeOf members, 1, 0)

def properties (formats : Table Format) (uri : String) (members : Table Json) :
    Except PatternError (List (String × Node)) :=
  match h : Table.get? members "properties" with
  | some (.object schemas) =>
    have : sizeOf schemas < sizeOf members := by have := Json.sizeOf_get?_lt h; simp at this; omega
    namedNodes formats uri schemas
  | _ => .ok []
termination_by (sizeOf members, 0, 0)

def dependencies (formats : Table Format) (uri : String) (members : Table Json) :
    Except PatternError (List (String × Dependency)) :=
  match h : Table.get? members "dependencies" with
  | some (.object schemas) =>
    have : sizeOf schemas < sizeOf members := by have := Json.sizeOf_get?_lt h; simp at this; omega
    dependenciesOf formats uri schemas
  | _ => .ok []
termination_by (sizeOf members, 0, 0)

def patternProperties (formats : Table Format) (uri : String) (members : Table Json) :
    Except PatternError (List (Pattern × Node)) :=
  match h : Table.get? members "patternProperties" with
  | some (.object schemas) =>
    have : sizeOf schemas < sizeOf members := by have := Json.sizeOf_get?_lt h; simp at this; omega
    patternNodes formats uri schemas
  | _ => .ok []
termination_by (sizeOf members, 0, 0)

/-- Only false and objects restrict what is left over. -/
def additional (formats : Table Format) (uri keyword : String) (members : Table Json) :
    Except PatternError Additional :=
  match h : Table.get? members keyword with
  | some (.bool false) => .ok .forbidden
  | some (.object sub) => do
    have : 1 + sizeOf sub < sizeOf members := by have := Json.sizeOf_get?_lt h; simp at this; omega
    return Additional.schema (← ofSchema formats (SchemaUri.child uri [keyword]) (.object sub))
  | _ => .ok .allowed
termination_by (sizeOf members, 0, 0)

def negation (formats : Table Format) (uri : String) (members : Table Json) :
    Except PatternError (Option Node) :=
  match h : Table.get? members "not" with
  | some sub => do
    have := Json.sizeOf_get?_lt h
    return some (← ofSchema formats (SchemaUri.child uri ["not"]) sub)
  | none => .ok none
termination_by (sizeOf members, 0, 0)

/-- The schemas in the list that a keyword gives. -/
def listed (formats : Table Format) (uri keyword : String) (members : Table Json) :
    Except PatternError (List Node) :=
  match h : Table.get? members keyword with
  | some (.array schemas) =>
    have : sizeOf schemas < sizeOf members := by have := Json.sizeOf_get?_lt h; simp at this; omega
    nodesOf formats uri keyword 0 schemas
  | _ => .ok []
termination_by (sizeOf members, 0, 0)

def nodesOf (formats : Table Format) (uri keyword : String) (i : Nat) (schemas : List Json) :
    Except PatternError (List Node) :=
  match schemas with
  | [] => .ok []
  | sub :: rest => do
    let node ← ofSchema formats (SchemaUri.child uri [keyword, Text.natText i]) sub
    let more ← nodesOf formats uri keyword (i + 1) rest
    return node :: more
termination_by (sizeOf schemas, 0, 0)

def namedNodes (formats : Table Format) (uri : String) (schemas : List (String × Json)) :
    Except PatternError (List (String × Node)) :=
  match schemas with
  | [] => .ok []
  | (key, sub) :: rest => do
    let node ← ofSchema formats (SchemaUri.child uri ["properties", key]) sub
    let more ← namedNodes formats uri rest
    return (key, node) :: more
termination_by (sizeOf schemas, 0, 0)

/-- A dependency is a key, a list of keys or a schema. -/
def dependenciesOf (formats : Table Format) (uri : String) (schemas : List (String × Json)) :
    Except PatternError (List (String × Dependency)) :=
  match schemas with
  | [] => .ok []
  | (key, sub) :: rest => do
    let dependency ← match sub with
      | .array names => .ok (Dependency.keys (names.filterMap Json.asString?))
      | .string name => .ok (Dependency.keys [name])
      | sub =>
        let uri := SchemaUri.child uri ["dependencies", key]
        (ofSchema formats uri sub).map Dependency.schema
    let more ← dependenciesOf formats uri rest
    return (key, dependency) :: more
termination_by (sizeOf schemas, 0, 0)

def patternNodes (formats : Table Format) (uri : String) (schemas : List (String × Json)) :
    Except PatternError (List (Pattern × Node)) :=
  match schemas with
  | [] => .ok []
  | (source, sub) :: rest => do
    let p ← pattern uri source
    let node ← ofSchema formats (SchemaUri.child uri ["patternProperties", source]) sub
    let more ← patternNodes formats uri rest
    return (p, node) :: more
termination_by (sizeOf schemas, 0, 0)

end

end Node

end HyperSchema
