import HyperSchema.Proofs.Store.Corpus

/-!
# References that are accounted for

The target of a reference is accounted for when it is there, when its document is there, or when its
document is recorded as missing. An addition accounts for the references it reads. What is there
stays; what is recorded stays recorded as long as nothing is stored under a URI of the document.

A schema may be stored under a URI with a fragment, as a document or under an id of its own, while
the document of this URI is absent. The document is then taken from the record although it has not
come.
-/

namespace HyperSchema

namespace Store

variable {s : Store} {uri target : String} {document : Json} {docs : Corpus}

def addAll (s : Store) (docs : Corpus) : Store := docs.foldl (fun s d => s.add d.1 d.2) s

def Noted (s : Store) (target : String) : Prop :=
  s.contains target = true ∨ s.contains (SchemaUri.base target) = true
    ∨ SchemaUri.base target ∈ s.missing

instance (s : Store) (target : String) : Decidable (s.Noted target) :=
  inferInstanceAs (Decidable (_ ∨ _ ∨ _))

/-- What is there needs no record. -/
theorem noted_iff : s.Noted target ↔ s.contains target = true
    ∨ s.contains (SchemaUri.base target) = true
    ∨ ∃ l ∈ s.layers, SchemaUri.base target ∈ l.missing := by
  rw [Noted, mem_missing_iff]
  cases s.contains (SchemaUri.base target) with
  | true => simp
  | false => simp

theorem noted_add_self
    (h : target ∈ (document.scan (SchemaUri.normalize uri)).targets) :
    (s.add uri document).Noted target := by
  rw [noted_iff]
  cases hthere : (s.add uri document).contains target with
  | true => exact .inl rfl
  | false =>
      cases hbase : (s.add uri document).contains (SchemaUri.base target) with
      | true => exact .inr (.inl rfl)
      | false =>
          refine .inr (.inr ⟨_, List.mem_cons_self, mem_missing_add.2 (.inr ?_)⟩)
          exact ⟨target, h, hthere, hbase, rfl⟩

/-- They stay so when nothing is stored under another URI of the same document. -/
theorem Noted.add (h : s.Noted target)
    (hnames : ∀ name ∈ names uri document, SchemaUri.base name ≠ SchemaUri.base target) :
    (s.add uri document).Noted target := by
  rw [noted_iff] at h ⊢
  rcases h with hthere | hbase | ⟨l, hl, hmissing⟩
  · exact .inl (contains_add uri document hthere)
  · exact .inr (.inl (contains_add uri document hbase))
  · refine .inr (.inr ?_)
    rcases List.mem_cons.1 hl with rfl | hl
    · refine ⟨_, List.mem_cons_self, mem_missing_add.2 (.inl ⟨hmissing, fun name hname => ?_⟩)⟩
      exact Ne.symm (hnames name hname)
    · refine ⟨l, List.mem_cons_of_mem _ ?_, hmissing⟩
      rwa [below_add]

theorem Noted.addAll (h : s.Noted target)
    (hnames : ∀ d ∈ docs, ∀ name ∈ names d.1 d.2,
      SchemaUri.base name = SchemaUri.base target →
        (s.addAll docs).contains (SchemaUri.base target) = true) :
    (s.addAll docs).Noted target := by
  cases hbase : (s.addAll docs).contains (SchemaUri.base target) with
  | true => exact .inr (.inl hbase)
  | false =>
      have hother : ∀ d ∈ docs, ∀ name ∈ names d.1 d.2,
          SchemaUri.base name ≠ SchemaUri.base target := by
        intro d hd name hname heq
        rw [hnames d hd name hname heq] at hbase
        cases hbase
      clear hnames hbase
      induction docs generalizing s with
      | nil => exact h
      | cons d rest ih =>
          rw [List.forall_mem_cons] at hother
          exact ih (h.add hother.1) hother.2

/-- Whatever was stored before, and whatever is added later: the references of a document that has
been added are accounted for, if nothing has been stored later under another URI of the document
that they lead into while this document did not come. -/
theorem noted_of_mem_targets (s : Store) {d : String × Json} {later : Corpus}
    (htarget : target ∈ (d.2.scan (SchemaUri.normalize d.1)).targets)
    (hlater : ∀ e ∈ later, ∀ name ∈ names e.1 e.2, SchemaUri.base name = SchemaUri.base target →
      (s.addAll (d :: later)).contains (SchemaUri.base target) = true) :
    (s.addAll (d :: later)).Noted target :=
  (noted_add_self htarget).addAll hlater

def referring : String × Json := ("a", .object [("not", .object [("$ref", .string "b#/x")])])

def latecomers : Corpus :=
  [("c#part", .object [("p", .object [("id", .string "#inner")])]), ("a", .object [])]

theorem noted_of_mem_targets_referring :
    "b#/x" ∈ (referring.2.scan (SchemaUri.normalize referring.1)).targets
      ∧ (empty.addAll (referring :: latecomers)).Noted "b#/x"
      ∧ (empty.addAll (referring :: latecomers)).missing = ["b"] := by
  have htarget : "b#/x" ∈ (referring.2.scan (SchemaUri.normalize referring.1)).targets := by
    decide +kernel
  refine ⟨htarget, noted_of_mem_targets empty htarget ?_, by decide +kernel⟩
  decide +kernel

def fragmentary : Corpus := [("b#part", .object [])]

/-- The part crosses the document off the record, and the reference is forgotten. -/
theorem fragmentary_forgets :
    "b#/x" ∈ (referring.2.scan (SchemaUri.normalize referring.1)).targets
      ∧ (empty.addAll [referring]).missing = ["b"]
      ∧ ¬(empty.addAll (referring :: fragmentary)).Noted "b#/x" := by
  decide +kernel

end Store

end HyperSchema
