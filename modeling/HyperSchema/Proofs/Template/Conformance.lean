import HyperSchema.Proofs.Template.Written

/-!
# Templates expand as the standard says

The loop over the variables of an expression carries a flag; what comes out of it are the texts of
the defined variables, in order, with the operator's marks in front and between. Each of these texts
is the one that the table gives for the value. Whether a value is empty is told by its encoded text,
which is empty as the value is, since a prefix has at least one character.
-/

namespace HyperSchema.Template.Standard

variable {cs : List Char} {subject : Subject} {assignment : String → Value}

/-! ### Values -/

/-- What a lookup finds for a variable with a value. An undefined one is not found, or is null. -/
inductive Represents : Option Json → Value → Prop where
  | missing : Represents none .undefined
  | null : Represents (some .null) .undefined
  | text (s : String) : Represents (some (.string s)) (.text s)
  | list (items : List String) : Represents (some (.array (items.map .string))) (.list items)
  | pairs (members : List (MemberName × String)) :
      Represents
        (some (.object (members.map (fun (name, s) => (name.text, .string s))))) (.pairs members)

def Assigns (subject : Subject) (assignment : String → Value) : Prop :=
  ∀ name, Represents (subject.lookup name) (assignment name)

/-! ### The table -/

theorem opening_eq (op : Operator) : op.opening = (row op).first := by cases op <;> rfl

theorem separator_eq (op : Operator) : op.separator = (row op).separator := by cases op <;> rfl

theorem named_eq (op : Operator) : op.named = (row op).named := by cases op <;> rfl

theorem behindEmpty_eq (op : Operator) : op.behindEmpty = (row op).ifEmpty := by cases op <;> rfl

theorem allowsReserved_eq (op : Operator) : op.allowsReserved = (row op).reservedToo := by
  cases op <;> rfl

theorem encode_eq_encoded (op : Operator) (s : String) :
    encode op.allowsReserved s.toList = (row op).encoded s := by
  rw [UriText.encode_eq_encoded, allowsReserved_eq, Row.encoded]

/-- A pair is told from a lone name by the encoded text, which is empty as the value is. -/
theorem pair_eq_assigned (op : Operator) (name : List Char) {s taken : String}
    (htaken : taken = "" ↔ s = "") :
    pair op name ((row op).encoded taken) = (row op).assigned name s taken := by
  have hempty : ((row op).encoded taken).isEmpty = true ↔ s = "" := by
    rw [List.isEmpty_iff, Row.encoded, UriText.encoded_eq_nil_iff, String.toList_eq_nil_iff, htaken]
  rw [pair, Row.assigned, behindEmpty_eq]
  by_cases hs : s = ""
  · rw [if_pos (hempty.2 hs), if_pos hs]
  · rw [if_neg (mt hempty.1 hs), if_neg hs]

/-! ### One variable -/

theorem taken_eq_empty_iff (m : Modifier) (s : String) : m.taken s = "" ↔ s = "" := by
  cases m with
  | cut length hpos _ =>
      rw [Modifier.taken, ← String.toList_eq_nil_iff, String.toList_ofList, List.take_eq_nil_iff,
        String.toList_eq_nil_iff]
      exact or_iff_right (Nat.ne_of_gt hpos)
  | _ => exact Iff.rfl

theorem encode_label (spec : VarSpec) : encode true spec.variable.label = literally spec.name :=
  UriText.encode_eq_encoded true spec.name

theorem expandScalar_eq (op : Operator) (spec : VarSpec) (s : String) :
    expandScalar op spec.variable (.string s) = (row op).valueText spec (.text s) := by
  rw [expandScalar, plainText, Row.valueText, encode_label, named_eq,
    ← pair_eq_assigned op _ (taken_eq_empty_iff spec.modifier s), ← encode_eq_encoded,
    VarSpec.variable]
  cases spec.modifier with
  | cut length _ _ =>
      rw [Modifier.taken, String.toList_ofList]
  | _ => rfl

theorem expandItems_eq (op : Operator) (spec : VarSpec) (items : List String) :
    expandItems op spec.variable (items.map .string)
      = (row op).valueText spec (.list items) := by
  have htexts : (items.map Json.string).map (fun item => encode op.allowsReserved (plainText item))
      = items.map (row op).encoded := by
    rw [List.map_map]
    exact List.map_congr_left fun s _ => encode_eq_encoded op s
  have hpairs : (items.map (row op).encoded).map (pair op (literally spec.name))
      = items.map (fun s => (row op).assigned (literally spec.name) s s) := by
    rw [List.map_map]
    exact List.map_congr_left fun s _ => pair_eq_assigned op _ Iff.rfl
  rw [expandItems, htexts, encode_label, hpairs, Text.joinWith_eq_intercalate,
    Text.joinWith_eq_intercalate, named_eq, separator_eq, Row.valueText]
  cases (row op).named <;> rfl

theorem expandMembers_eq (op : Operator) (spec : VarSpec) (members : List (MemberName × String)) :
    expandMembers op spec.variable (members.map (fun (name, s) => (name.text, .string s)))
      = (row op).valueText spec (.pairs members) := by
  have htexts : ∀ f : List Char × List Char → List Char,
      ((members.map (fun (name, s) => (name.text, Json.string s))).map (fun member =>
        (encode op.allowsReserved member.1.toList,
          encode op.allowsReserved (plainText member.2)))).map f
      = members.map (fun (name, s) => f ((row op).encoded name.text, (row op).encoded s)) := by
    intro f
    rw [List.map_map, List.map_map]
    refine List.map_congr_left fun member _ => ?_
    exact congrArg f (Prod.ext (encode_eq_encoded op _) (encode_eq_encoded op _))
  have hpair : ∀ (name : MemberName) (s : String),
      pair op ((row op).encoded name.text) ((row op).encoded s)
        = (row op).assigned (literally name.text.toList) s s := by
    intro name s
    rw [pair_eq_assigned op _ Iff.rfl, Row.encoded, literally,
      UriText.encoded_of_unreserved name.plain, UriText.encoded_of_unreserved name.plain]
  rw [expandMembers, encode_label, Text.joinWith_eq_intercalate, Text.joinWith_eq_intercalate,
    htexts, htexts, named_eq, separator_eq, Row.valueText]
  dsimp only
  simp only [hpair]
  rfl

/-- A defined value is expanded to what the table gives for it. -/
theorem expandValue_eq (op : Operator) (spec : VarSpec) {found : Json} {value : Value}
    (hvalue : Represents (some found) value) (hdefined : value.isDefined = true) :
    expandValue op spec.variable found = (row op).valueText spec value := by
  cases hvalue with
  | null => cases hdefined
  | text s => exact expandScalar_eq op spec s
  | list items => exact expandItems_eq op spec items
  | pairs members => exact expandMembers_eq op spec members

theorem isDefined_eq {found : Json} {value : Value} (hvalue : Represents (some found) value) :
    Template.isDefined found = value.isDefined := by
  cases hvalue with
  | null => rfl
  | text s => rfl
  | list items => rw [Template.isDefined, Value.isDefined, List.isEmpty_map]
  | pairs members => rw [Template.isDefined, Value.isDefined, List.isEmpty_map]

def Row.textOf? (r : Row) (assignment : String → Value) (spec : VarSpec) : Option (List Char) :=
  let value := assignment (String.ofList spec.name)
  if value.isDefined then some (r.valueText spec value) else none

theorem expandVariable_eq (op : Operator) (hassigns : Assigns subject assignment)
    (spec : VarSpec) :
    (spec.variable.value? subject).map (expandValue op spec.variable)
      = (row op).textOf? assignment spec := by
  have hvalue := hassigns (String.ofList spec.name)
  rw [Variable.value?, Row.textOf?, VarSpec.variable]
  dsimp only
  cases hfound : subject.lookup (String.ofList spec.name) with
  | none =>
      rw [hfound] at hvalue
      cases hmissing : assignment (String.ofList spec.name) with
      | undefined => rfl
      | _ => rw [hmissing] at hvalue; cases hvalue
  | some found =>
      rw [hfound] at hvalue
      rw [Option.filter_some, isDefined_eq hvalue]
      by_cases hdefined : (assignment (String.ofList spec.name)).isDefined = true
      · rw [if_pos hdefined, if_pos hdefined, Option.map_some]
        exact congrArg some (expandValue_eq op spec hvalue hdefined)
      · rw [if_neg hdefined, if_neg hdefined, Option.map_none]

/-! ### The variables of an expression -/

/-- Behind a first variable, each defined one comes with the separator. -/
theorem expandFrom_started (r : Row) (specs : List VarSpec) :
    r.expandFrom assignment true specs
      = (specs.filterMap (r.textOf? assignment)).flatMap (r.separator ++ ·) := by
  induction specs with
  | nil => rfl
  | cons spec rest ih =>
      rw [Row.expandFrom, List.filterMap_cons, Row.textOf?]
      by_cases hdefined : (assignment (String.ofList spec.name)).isDefined = true
      · rw [if_pos hdefined, if_pos hdefined, ih]
        rfl
      · rw [if_neg hdefined, if_neg hdefined, ih]

theorem expandFrom_start (r : Row) (specs : List VarSpec) :
    r.expandFrom assignment false specs
      = match specs.filterMap (r.textOf? assignment) with
        | [] => []
        | texts => r.first ++ r.separator.intercalate texts := by
  induction specs with
  | nil => rfl
  | cons spec rest ih =>
      rw [Row.expandFrom, List.filterMap_cons, Row.textOf?]
      by_cases hdefined : (assignment (String.ofList spec.name)).isDefined = true
      · rw [if_pos hdefined, if_pos hdefined, expandFrom_started]
        dsimp only
        rw [← Text.joinWith_eq_intercalate, Text.joinWith_cons, List.append_assoc]
        rfl
      · rw [if_neg hdefined, if_neg hdefined, ih]

theorem expandExpression_eq (op : Operator) (specs : List VarSpec)
    (hassigns : Assigns subject assignment) :
    expandExpression op (specs.map VarSpec.variable) subject
      = (row op).expandFrom assignment false specs := by
  have htexts : (specs.map VarSpec.variable).filterMap
      (fun v => (v.value? subject).map (expandValue op v))
        = specs.filterMap ((row op).textOf? assignment) := by
    rw [List.filterMap_map]
    exact List.filterMap_congr fun spec _ => expandVariable_eq op hassigns spec
  rw [expandExpression, htexts, expandFrom_start]
  cases specs.filterMap ((row op).textOf? assignment) with
  | nil => rfl
  | cons text more => dsimp only; rw [opening_eq, separator_eq, Text.joinWith_eq_intercalate]

/-! ### Templates -/

/-- A template of the grammar is expanded as the algorithm of the standard expands it, if the
subject gives every variable its value. -/
theorem expand_conforms (pieces : List Piece) (hassigns : Assigns subject assignment) :
    (parse (String.ofList (written pieces))).expand subject
      = String.ofList (expansion pieces assignment) := by
  have hpiece : ∀ piece ∈ pieces, piece.read subject = piece.expansion assignment := by
    intro piece _
    cases piece with
    | literal l => rfl
    | expression e => exact expandExpression_eq e.operator e.specs hassigns
  have hread := flatMap_expand_parseParts subject [] pieces
  rw [List.flatMap_nil, List.flatMap_nil, List.nil_append, List.nil_append] at hread
  rw [expand, expandChars, parse, String.toList_ofList]
  dsimp only
  rw [hread, expansion, List.flatMap_congr hpiece]

/-! ### A template with a value of each kind -/

/-- A literal triplet, a list that is spread out over a path, and a query of a string that is cut, a
variable that is undefined and a map. -/
def ordering : List Piece :=
  [.literal (.char '/' (by decide)), .literal (.triplet '2' 'F' (by decide) (by decide)),
    .expression ⟨.path, ⟨['l'], .char (by decide), .explode⟩, []⟩,
    .expression ⟨.query, ⟨['q'], .char (by decide), .cut 3 (by decide) (by decide)⟩,
      [⟨['n', '.', 'o'], .dotted (by decide) (.char (by decide)), .none⟩,
        ⟨['m'], .char (by decide), .none⟩]⟩]

def orderedValues (name : String) : Value :=
  if name = "l" then .list ["a b", ""]
  else if name = "q" then .text "é€xyz"
  else if name = "m" then .pairs [(⟨"k", List.all_eq_true.1 (by decide)⟩, "1&")]
  else .undefined

def orderedSubject : Subject where
  lookup name :=
    if name = "l" then some (.array [.string "a b", .string ""])
    else if name = "q" then some (.string "é€xyz")
    else if name = "m" then some (.object [("k", .string "1&")])
    else some .null
  current := none

theorem expand_conforms_ordering :
    Assigns orderedSubject orderedValues
      ∧ (parse "/%2F\x7b/l*\x7d\x7b?q:3,n.o,m\x7d").expand orderedSubject
        = "/%2F/a%20b/?q=%C3%A9%E2%82%ACx&m=k,1%26" := by
  have hassigns : Assigns orderedSubject orderedValues := by
    intro name
    rw [orderedSubject, orderedValues]
    dsimp only
    split
    · exact .list ["a b", ""]
    · split
      · exact .text "é€xyz"
      · split
        · exact .pairs [(⟨"k", List.all_eq_true.1 (by decide)⟩, "1&")]
        · exact .null
  have hwritten : String.ofList (written ordering) = "/%2F\x7b/l*\x7d\x7b?q:3,n.o,m\x7d" := by
    decide +kernel
  have hexpansion : String.ofList (expansion ordering orderedValues)
      = "/%2F/a%20b/?q=%C3%A9%E2%82%ACx&m=k,1%26" := by decide +kernel
  have hconforms := expand_conforms ordering hassigns
  rw [hwritten, hexpansion] at hconforms
  exact ⟨hassigns, hconforms⟩

end HyperSchema.Template.Standard
