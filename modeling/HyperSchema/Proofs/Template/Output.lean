import HyperSchema.Proofs.Template.Parsing

/-!
# What an expansion is written in

Whatever a template and its values are, each piece that is put into an expansion can stand in a URI:
literal text, names and values are encoded, and the operators' own marks are reserved or unreserved.
A triplet lies within one piece, so the pieces can be put side by side. Text of this kind has no
brace, and as a template it stays as it is; no other text does.
-/

namespace HyperSchema.Template

variable {cs : List Char}

/-! ### Pieces -/

theorem uriText_opening (op : Operator) : UriText op.opening := by
  cases op <;> exact UriText.of_plain (by decide)

theorem uriText_separator (op : Operator) : UriText op.separator := by
  cases op <;> exact UriText.of_plain (by decide)

theorem uriText_behindEmpty (op : Operator) : UriText op.behindEmpty := by
  cases op <;> exact UriText.of_plain (by decide)

theorem uriText_cons_equals (h : UriText cs) : UriText ('=' :: cs) := .plain (by decide) h

theorem uriText_pair (op : Operator) {name text : List Char} (hname : UriText name)
    (htext : UriText text) : UriText (pair op name text) := by
  rw [pair]
  split
  · exact hname.append (uriText_behindEmpty op)
  · exact hname.append (uriText_cons_equals htext)

/-- The name in front of a value that is not spread out. -/
theorem uriText_front (op : Operator) {name : List Char} (hname : UriText name) :
    UriText (if op.named then name ++ ['='] else []) := by
  split
  · exact hname.append (uriText_cons_equals .empty)
  · exact .empty

theorem uriText_expandItems (op : Operator) (v : Variable) (items : List Json) :
    UriText (expandItems op v items) := by
  have hname : UriText (encode true v.label) := UriText.of_encode _ _
  have htexts : ∀ text ∈ items.map (fun item => encode op.allowsReserved (plainText item)),
      UriText text := by
    rw [List.forall_mem_map]
    exact fun item _ => UriText.of_encode _ _
  rw [expandItems]
  split
  · refine UriText.of_joinWith (uriText_separator op) ?_
    split
    · rw [List.forall_mem_map]
      exact fun text htext => uriText_pair op hname (htexts text htext)
    · exact htexts
  · exact (uriText_front op hname).append
      (UriText.of_joinWith (UriText.of_plain (by decide)) htexts)

theorem uriText_expandMembers (op : Operator) (v : Variable) (members : Table Json) :
    UriText (expandMembers op v members) := by
  have hname : UriText (encode true v.label) := UriText.of_encode _ _
  rw [expandMembers]
  dsimp only
  split
  · refine UriText.of_joinWith (uriText_separator op) ?_
    rw [List.forall_mem_map, List.forall_mem_map]
    rintro ⟨key, value⟩ -
    dsimp only
    split
    · exact uriText_pair op (UriText.of_encode _ _) (UriText.of_encode _ _)
    · exact (UriText.of_encode _ _).append (uriText_cons_equals (UriText.of_encode _ _))
  · refine (uriText_front op hname).append
      (UriText.of_joinWith (UriText.of_plain (by decide)) ?_)
    rw [List.forall_mem_map, List.forall_mem_map]
    rintro ⟨key, value⟩ -
    exact (UriText.of_encode _ _).append (.plain (by decide) (UriText.of_encode _ _))

theorem uriText_expandScalar (op : Operator) (v : Variable) (value : Json) :
    UriText (expandScalar op v value) := by
  rw [expandScalar]
  split
  · exact uriText_pair op (UriText.of_encode _ _) (UriText.of_encode _ _)
  · exact UriText.of_encode _ _

theorem uriText_expandValue (op : Operator) (v : Variable) (value : Json) :
    UriText (expandValue op v value) := by
  cases value with
  | array items => exact uriText_expandItems op v items
  | object members => exact uriText_expandMembers op v members
  | _ => exact uriText_expandScalar op v _

theorem uriText_expandExpression (op : Operator) (vars : List Variable) (subject : Subject) :
    UriText (expandExpression op vars subject) := by
  rw [expandExpression]
  split
  · exact .empty
  · refine (uriText_opening op).append (UriText.of_joinWith (uriText_separator op) ?_)
    intro text htext
    obtain ⟨v, -, hv⟩ := List.mem_filterMap.1 htext
    obtain ⟨value, -, rfl⟩ := Option.map_eq_some_iff.1 hv
    exact uriText_expandValue op v value

theorem uriText_expandPart (subject : Subject) (part : Part) : UriText (part.expand subject) := by
  cases part with
  | literal text => exact UriText.of_encode _ _
  | expression op vars => exact uriText_expandExpression op vars subject

/-! ### Expansions -/

/-- An expansion can stand in a URI, whatever the template and the subject are. The texts that can
are those that, read as templates, have no expression and stay as they are. -/
theorem expand_is_uriText (source : String) (subject : Subject) :
    UriText ((parse source).expand subject).toList
      ∧ (UriText source.toList ↔
        (∀ part ∈ (parse source).parts, ∃ text, part = .literal text)
          ∧ (parse source).expand subject = source) := by
  have hexpansion : UriText ((parse source).expand subject).toList := by
    rw [expand, String.toList_ofList]
    exact UriText.of_flatMap fun part _ => uriText_expandPart subject part
  refine ⟨hexpansion, fun hsource => ?_, fun hfixed => ?_⟩
  · have hparts : (parse source).parts = literalPart source.toList :=
      parseParts_of_no_brace hsource.brace_not_mem
    constructor
    · rw [hparts, literalPart]
      split
      · exact fun part hpart => absurd hpart List.not_mem_nil
      · exact fun part hpart => ⟨_, List.mem_singleton.1 hpart⟩
    · rw [expand, expandChars, hparts, flatMap_expand_literalPart, hsource.encode_eq_self,
        String.ofList_toList]
  · rw [hfixed.2] at hexpansion
    exact hexpansion

end HyperSchema.Template
