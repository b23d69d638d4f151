import HyperSchema.Proofs.NameSet
import HyperSchema.Proofs.Store.Growth
import HyperSchema.Proofs.Store.Ids

/-!
# A layer over a store

A new layer over a store reads through to what is below it, and only the new layer is written to. A
lookup asks for whole URIs and for the documents of URIs, at each reference on its way, and what it
makes of them depends on what is found alone. So it is enough that the layered store finds what one
store finds into which everything was written.

That much holds as long as the documents in the upper layer are plain: their URIs have no fragment,
and no ids in them stand for further URIs. An id is stored only where the top layer has none like it
yet, and a document under a URI with a fragment takes the document of that URI from the record of
what is missing; for both it matters in which layer things are. A plain document is found where it
was put, and what is missing is crossed off the record exactly when it has come.
-/

namespace HyperSchema

namespace Store

/-- What can be done with a store. -/
inductive Use where
  | add (uri : String) (document : Json)
  | resolve (uri : String)
  | mark (uri : String)

/-- Plain documents are stored whole, under their own URI and under no other. -/
def Use.Plain : Use → Prop
  | .add uri document => '#' ∉ uri.toList ∧ document.ids = []
  | .resolve _ => True
  | .mark _ => True

def serve (s : Store) : Use → Store
  | .add uri document => s.add uri document
  | .resolve uri => (s.resolve? uri).2
  | .mark uri => s.markMissing uri

def serveAll (s : Store) (uses : List Use) : Store := uses.foldl serve s

def parent? (s : Store) : Option Store :=
  match s.below with
  | [] => none
  | top :: below => some ⟨top, below⟩

/-- Whatever is asked, two stores give the same answers. -/
structure AnswersAlike (s s' : Store) : Prop where
  contains : ∀ uri, s'.contains uri = s.contains uri
  lookup? : ∀ uri, s'.lookup? uri = s.lookup? uri
  resolve? : ∀ uri, (s'.resolve? uri).1 = (s.resolve? uri).1
  missing : s'.missing = s.missing

variable {s s' : Store} {uri base : String} {document : Json} {step : Use} {uses : List Use}

/-! ### What is missing -/

theorem sortedLT_missing (s : Store) : List.SortedLT s.missing := by
  have hall : ∀ (layers : List Layer) (all : NameSet), List.SortedLT all →
      List.SortedLT (layers.foldl (fun all l => NameSet.insertAll all l.missing) all) := by
    intro layers
    induction layers with
    | nil => exact fun all hall => hall
    | cons l rest ih => exact fun all hall => ih _ (NameSet.sortedLT_insertAll hall)
  exact ((hall s.layers [] List.Pairwise.nil.sortedLT).pairwise.filter _).sortedLT

theorem mem_missing_iff_top : base ∈ s.missing
    ↔ (base ∈ s.top.missing ∨ ∃ l ∈ s.below, base ∈ l.missing) ∧ s.contains base = false := by
  rw [mem_missing_iff, layers, List.exists_mem_cons_iff]

theorem mem_missing_recordMissing {name : String} : base ∈ (s.recordMissing name).missing
    ↔ base ∈ s.missing ∨ base = name ∧ s.contains base = false := by
  rw [mem_missing_iff_top, (s.sameDocuments_recordMissing name).contains, mem_missing_iff_top,
    ← or_and_right]
  apply and_congr_left'
  rw [recordMissing]
  dsimp only
  rw [NameSet.mem_insert, or_assoc, or_comm]

/-! ### Plain documents -/

section

variable (hhash : '#' ∉ uri.toList) (hids : document.ids = [])

include hhash hids

theorem find?_add_plain (u : String) : (s.add uri document).find? u
    = if u = uri then some (document.scan uri).value else s.find? u := by
  rw [find?_add_of_no_ids s uri hids, SchemaUri.normalize_of_no_hash hhash]

theorem contains_add_plain_eq_false_iff {u : String} :
    (s.add uri document).contains u = false ↔ u ≠ uri ∧ s.contains u = false := by
  rw [contains, find?_add_plain hhash hids, contains]
  by_cases heq : u = uri
  · rw [if_pos heq]
    refine iff_of_false (fun h => ?_) (fun h => h.1 heq)
    cases h
  · rw [if_neg heq]
    exact (and_iff_right heq).symm

/-- A plain document takes itself from the record of what is missing, and nothing else. -/
theorem mem_missing_add_plain : base ∈ (s.add uri document).missing
    ↔ (base ∈ s.missing ∧ base ≠ uri)
      ∨ ∃ target ∈ (document.scan uri).targets, (s.add uri document).contains target = false
        ∧ (s.add uri document).contains (SchemaUri.base target) = false
        ∧ base = SchemaUri.base target := by
  rw [mem_missing_iff_top, mem_missing_iff_top, mem_missing_add, below_add, names,
    SchemaUri.normalize_of_no_hash hhash, Json.named_scan uri hids, Table.keys, List.map_nil,
    List.forall_mem_singleton, SchemaUri.base_of_no_hash hhash]
  constructor
  · intro h
    obtain ⟨(⟨htop, hne⟩ | hread) | hbelow, habsent⟩ := h
    · exact .inl ⟨⟨.inl htop, ((contains_add_plain_eq_false_iff hhash hids).1 habsent).2⟩, hne⟩
    · exact .inr hread
    · obtain ⟨hne, hgone⟩ := (contains_add_plain_eq_false_iff hhash hids).1 habsent
      exact .inl ⟨⟨.inr hbelow, hgone⟩, hne⟩
  · intro h
    rcases h with ⟨⟨hrecorded, hgone⟩, hne⟩ | ⟨target, htarget, hthere, hbase, rfl⟩
    · refine ⟨?_, (contains_add_plain_eq_false_iff hhash hids).2 ⟨hne, hgone⟩⟩
      rcases hrecorded with htop | hbelow
      · exact .inl (.inl ⟨htop, hne⟩)
      · exact .inr hbelow
    · exact ⟨.inl (.inr ⟨target, htarget, hthere, hbase, rfl⟩), hbase⟩

end

/-! ### Stores that agree -/

/-- Two stores find the same and miss the same, in whatever layers they have it. -/
structure Agrees (s s' : Store) : Prop where
  find? : ∀ uri, s'.find? uri = s.find? uri
  missing : ∀ base, base ∈ s'.missing ↔ base ∈ s.missing

theorem agrees_layered (s : Store) : Agrees s s.layered where
  find? := fun _ => rfl
  missing := fun base => by
    have hcontains : s.layered.contains base = s.contains base := rfl
    rw [mem_missing_iff, mem_missing_iff, hcontains]
    apply and_congr_left'
    rw [layered, layers, List.exists_mem_cons_iff]
    exact or_iff_right List.not_mem_nil

namespace Agrees

theorem contains (h : Agrees s s') (uri : String) : s'.contains uri = s.contains uri := by
  rw [Store.contains, Store.contains, h.find?]

theorem resolution (h : Agrees s s') (uri : String) : s'.resolution uri = s.resolution uri :=
  resolution_congr h.find? uri

theorem recordMissing (h : Agrees s s') (name : String) :
    Agrees (s.recordMissing name) (s'.recordMissing name) where
  find? := h.find?
  missing := fun base => by
    rw [mem_missing_recordMissing, mem_missing_recordMissing, h.missing, h.contains]

theorem markMissing (h : Agrees s s') (uri : String) :
    Agrees (s.markMissing uri) (s'.markMissing uri) := by
  rw [Store.markMissing, Store.markMissing, h.contains]
  split
  · exact h
  · exact h.recordMissing _

theorem answer (h : Agrees s s') (outcome : Resolution) :
    Agrees (s.answer outcome).2 (s'.answer outcome).2 := by
  cases outcome with
  | documentAbsent name => exact h.recordMissing name
  | found found value => exact h
  | nodeAbsent => exact h
  | circular chain => exact h

theorem add (h : Agrees s s') (hhash : '#' ∉ uri.toList) (hids : document.ids = []) :
    Agrees (s.add uri document) (s'.add uri document) := by
  have hfind : ∀ u, (s'.add uri document).find? u = (s.add uri document).find? u := fun u => by
    rw [find?_add_plain hhash hids, find?_add_plain hhash hids, h.find?]
  have hcontains : ∀ u, (s'.add uri document).contains u = (s.add uri document).contains u :=
    fun u => by rw [Store.contains, Store.contains, hfind]
  refine ⟨hfind, fun base => ?_⟩
  rw [mem_missing_add_plain hhash hids, mem_missing_add_plain hhash hids, h.missing]
  simp only [hcontains]

theorem serve (h : Agrees s s') (hplain : step.Plain) : Agrees (s.serve step) (s'.serve step) := by
  cases step with
  | add uri document => exact h.add hplain.1 hplain.2
  | resolve uri =>
      rw [Store.serve, Store.serve, resolve?_eq_answer, resolve?_eq_answer, h.resolution]
      exact h.answer _
  | mark uri => exact h.markMissing uri

theorem serveAll (h : Agrees s s') (hplain : ∀ step ∈ uses, step.Plain) :
    Agrees (s.serveAll uses) (s'.serveAll uses) := by
  induction uses generalizing s s' with
  | nil => exact h
  | cons step rest ih =>
      rw [List.forall_mem_cons] at hplain
      exact ih (h.serve hplain.1) hplain.2

theorem answersAlike (h : Agrees s s') : AnswersAlike s s' where
  contains := h.contains
  lookup? := fun uri => by rw [Store.lookup?, Store.lookup?, h.resolution]
  resolve? := fun uri => by
    rw [resolve?_eq_answer, resolve?_eq_answer, h.resolution]
    cases s.resolution (SchemaUri.normalize uri) <;> rfl
  missing := (sortedLT_missing s').eq_of_mem_iff (sortedLT_missing s) h.missing

end Agrees

/-! ### Using a layer -/

theorem below_serve (s : Store) (step : Use) : (s.serve step).below = s.below := by
  cases step with
  | add uri document => exact below_add s uri document
  | resolve uri =>
      rw [serve, resolve?_eq_answer]
      cases s.resolution (SchemaUri.normalize uri) <;> rfl
  | mark uri => exact (s.sameDocuments_markMissing uri).below

theorem below_serveAll (s : Store) (uses : List Use) : (s.serveAll uses).below = s.below := by
  induction uses generalizing s with
  | nil => rfl
  | cons step rest ih => exact (ih (s.serve step)).trans (s.below_serve step)

theorem parent?_serveAll_layered (s : Store) (uses : List Use) :
    (s.layered.serveAll uses).parent? = some s := by
  rw [parent?, below_serveAll, layered]

/-- A store that was filled in two layers, plain documents being added to the upper one, answers
like a store of one layer that was filled with all of it, and the store below is as it was. -/
theorem layered_answersAlike (before after : List Use) (hplain : ∀ step ∈ after, step.Plain) :
    AnswersAlike (empty.serveAll (before ++ after)) ((empty.serveAll before).layered.serveAll after)
      ∧ ((empty.serveAll before).layered.serveAll after).parent? = some (empty.serveAll before) := by
  refine ⟨?_, parent?_serveAll_layered _ _⟩
  rw [serveAll, List.foldl_append]
  exact ((agrees_layered (empty.serveAll before)).serveAll hplain).answersAlike

/-- A document that refers into another one, and a reference to one that is not there. -/
def lower : List Use :=
  [.add "a" (.object [("$ref", .string "b#/x")]), .add "b" (.object [("x", .bool true)]),
    .add "c" (.object [("$ref", .string "d")])]

/-- A replacement for the other document, with a way on to the one that was not there. -/
def upper : List Use :=
  [.add "b" (.object [("x", .object [("$ref", .string "d#/y")])]), .resolve "a",
    .add "d" (.object [("y", .object [("type", .string "string")])])]

theorem layered_answersAlike_replacing :
    (∀ step ∈ upper, step.Plain)
      ∧ (((empty.serveAll lower).layered.serveAll upper).resolve? "a").1.toOption.map
        (Option.map Resolved.uri) = some (some "d#/y")
      ∧ ((empty.serveAll lower).layered.serveAll upper).missing = []
      ∧ (empty.serveAll lower).missing = ["d"] := by
  have hplain : ∀ step ∈ upper, step.Plain := by
    rw [upper, List.forall_mem_cons, List.forall_mem_cons, List.forall_mem_singleton]
    exact ⟨⟨by decide, rfl⟩, trivial, ⟨by decide, rfl⟩⟩
  obtain ⟨halike, -⟩ := layered_answersAlike lower upper hplain
  refine ⟨hplain, ?_, ?_, by decide +kernel⟩
  · rw [halike.resolve?]
    decide +kernel
  · rw [halike.missing]
    decide +kernel

end Store

end HyperSchema
