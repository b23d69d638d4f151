import HyperSchema.Proofs.Store.Growth
import HyperSchema.Proofs.Store.Ids
import HyperSchema.Proofs.Store.Rewriting
import HyperSchema.Proofs.Store.Trail
import HyperSchema.Proofs.Url.Joining

/-!
# Tidy stores

In a tidy store the URIs are canonical and the references have one hash sign at most. A store stays
tidy when documents are added whose ids and references have one hash sign at most. In a tidy store
the canonical form of a URI leads to where the URI leads: the hash sign that it drops stands before
an empty fragment.
-/

namespace HyperSchema

open SchemaUri (Single)

namespace Scan

/-- An entry under a canonical URI, whose references have one hash sign at most. -/
structure Canonical (entry : String × Json) : Prop where
  uri : SchemaUri.normalize entry.1 = entry.1
  references : ∀ target ∈ entry.2.references, Single target

/-- A scan that found canonical ids only, and left references with one hash sign at most. -/
structure Neat {α : Type} (references : α → List String) (scanned : Scanned α) : Prop where
  value : ∀ target ∈ references scanned.value, Single target
  named : ∀ entry ∈ scanned.named, Canonical entry

variable {scope : String}

theorem normalize_of_ownId? {ms : Table Json} {id : String} (h : ownId? scope ms = some id)
    (hids : ∀ i ∈ Json.idsOfMembers ms, Single i) : SchemaUri.normalize id = id := by
  unfold ownId? at h
  split at h
  · next written hwritten =>
    have hmem : written ∈ Json.idsOfMembers ms := by
      obtain ⟨v, hv, hstring⟩ := Option.bind_eq_some_iff.1 hwritten
      have hentry := Table.mem_of_get? hv
      clear hv hwritten hids
      induction ms with
      | nil => cases hentry
      | cons first rest ih =>
          obtain ⟨key, w⟩ := first
          rw [Json.idsOfMembers, List.mem_append, List.mem_append]
          rcases List.mem_cons.1 hentry with heq | hentry
          · obtain ⟨rfl, rfl⟩ := Prod.mk.inj heq
            rw [if_pos rfl, hstring]
            exact .inl (.inl (List.mem_singleton_self _))
          · exact .inr (ih hentry)
    dsimp only at h
    split at h
    · rw [← Option.some.inj h]
      exact (hids written hmem).normalize_resolve scope
    · cases h
  · cases h

theorem eq_string_of_asString? {v : Json} {text : String} (h : v.asString? = some text) :
    v = .string text := by
  cases v with
  | string s => rw [Option.some.inj h]
  | _ => cases h

theorem referencesOfMembers_cons {key : String} {v : Json} (rest : List (String × Json))
    (h : target? scope key v = none) :
    Json.referencesOfMembers ((key, v) :: rest)
      = v.references ++ Json.referencesOfMembers rest := by
  cases v with
  | string s =>
      have hkey : key ≠ "$ref" := by
        intro hkey
        rw [target?, if_pos hkey] at h
        cases h
      rw [Json.referencesOfMembers, if_neg hkey, Json.references]
      all_goals simp
  | _ =>
      rw [Json.referencesOfMembers]
      all_goals simp

theorem neat_data (v : Json) (h : ∀ t ∈ v.references, Single t) :
    Neat Json.references ⟨v, [], []⟩ := ⟨h, fun _ hmem => absurd hmem List.not_mem_nil⟩

mutual

theorem neat_value (root : Bool) (scope : String) : ∀ v : Json, (∀ t ∈ v.references, Single t) →
    (∀ i ∈ v.ids, Single i) → Neat Json.references (value root scope v)
  | .null, h, _ => neat_data _ h
  | .bool _, h, _ => neat_data _ h
  | .number _, h, _ => neat_data _ h
  | .string _, h, _ => neat_data _ h
  | .array items, h, hids => by
      rw [Json.references] at h
      rw [Json.ids] at hids
      have hinner := neat_list scope items h hids
      rw [value]
      exact ⟨by rw [Json.references]; exact hinner.value, hinner.named⟩
  | .object ms, h, hids => by
      rw [Json.references] at h
      rw [Json.ids] at hids
      have hinner := neat_members (scopeOf scope ms) ms h hids
      have hvalue : ∀ t ∈ (Json.object (members (scopeOf scope ms) ms).value).references,
          Single t := by
        rw [Json.references]
        exact hinner.value
      rw [value]
      refine ⟨hvalue, fun entry hmem => ?_⟩
      rcases List.mem_append.1 hmem with hmem | hmem
      · exact hinner.named entry hmem
      · unfold naming at hmem
        split at hmem
        · cases hmem
        · split at hmem
          · next id hid =>
            obtain rfl := List.mem_singleton.1 hmem
            exact ⟨normalize_of_ownId? hid hids, hvalue⟩
          · cases hmem

theorem neat_list (scope : String) : ∀ items : List Json,
    (∀ t ∈ Json.referencesOfItems items, Single t) → (∀ i ∈ Json.idsOfItems items, Single i) →
      Neat Json.referencesOfItems (list scope items)
  | [], h, _ => ⟨h, fun _ hmem => absurd hmem List.not_mem_nil⟩
  | v :: rest, h, hids => by
      rw [Json.referencesOfItems, List.forall_mem_append] at h
      rw [Json.idsOfItems, List.forall_mem_append] at hids
      have hfirst := neat_value false scope v h.1 hids.1
      have hmore := neat_list scope rest h.2 hids.2
      rw [list]
      refine ⟨?_, List.forall_mem_append.2 ⟨hfirst.named, hmore.named⟩⟩
      dsimp only
      rw [Json.referencesOfItems, List.forall_mem_append]
      exact ⟨hfirst.value, hmore.value⟩

theorem neat_members (scope : String) : ∀ ms : List (String × Json),
    (∀ t ∈ Json.referencesOfMembers ms, Single t) → (∀ i ∈ Json.idsOfMembers ms, Single i) →
      Neat Json.referencesOfMembers (members scope ms)
  | [], h, _ => ⟨h, fun _ hmem => absurd hmem List.not_mem_nil⟩
  | (key, v) :: rest, h, hids => by
      have hparts := Schema.referencesOfMembers_cons_subset (key, v) rest
      have hboth := List.forall_mem_append.1 (fun t ht => h t (hparts ht))
      rw [Json.idsOfMembers, List.forall_mem_append, List.forall_mem_append] at hids
      have hfirst := neat_value false scope v hboth.1 hids.1.2
      have hmore := neat_members scope rest hboth.2 hids.2
      rw [members]
      cases htarget : target? scope key v with
      | some target =>
          obtain ⟨rfl, written, rfl, rfl⟩ : key = "$ref" ∧ ∃ written, v = .string written
              ∧ SchemaUri.resolve scope written = target := by
            unfold target? at htarget
            split at htarget
            · next hkey =>
              obtain ⟨written, hwritten, heq⟩ := Option.map_eq_some_iff.1 htarget
              exact ⟨hkey, written, eq_string_of_asString? hwritten, heq⟩
            · cases htarget
          have hwritten : Single written := h _ (by
            rw [Json.referencesOfMembers, if_pos rfl]
            exact List.mem_append_left _ (List.mem_singleton_self _))
          refine ⟨?_, hmore.named⟩
          dsimp only
          rw [Json.referencesOfMembers, if_pos rfl, List.forall_mem_append]
          exact ⟨fun t ht => List.mem_singleton.1 ht ▸ hwritten.resolve scope, hmore.value⟩
      | none =>
          have hown : Neat Json.references
              (if isData key then ⟨v, [], []⟩ else value false scope v) := by
            split
            · exact neat_data v hboth.1
            · exact hfirst
          have hkept : target? scope key
              (if isData key then (⟨v, [], []⟩ : Scanned Json) else value false scope v).value
                = none := by
            split
            · exact htarget
            · rwa [target?, asString?_value]
          refine ⟨?_, List.forall_mem_append.2 ⟨hown.named, hmore.named⟩⟩
          dsimp only
          rw [referencesOfMembers_cons _ hkept, List.forall_mem_append]
          exact ⟨hown.value, hmore.value⟩

end

end Scan

namespace Store

variable {s s' : Store} {u uri found : String} {v x document : Json}

theorem entrance?_of_no_hash (hhash : '#' ∉ uri.toList) :
    s.entrance? uri = (s.find? uri).map (fun document => (document, [])) := by
  cases hfind : s.find? uri with
  | none =>
      rw [entrance?_of_find?_eq_none hfind, SchemaUri.base_of_no_hash hhash, hfind]
      rfl
  | some v =>
      rw [entrance?, hfind]
      rfl

def Tidy (s : Store) : Prop := ∀ l ∈ s.layers, ∀ entry ∈ l.schemas, Scan.Canonical entry

theorem tidy_empty : empty.Tidy := by
  intro l hl entry hentry
  obtain rfl := List.mem_singleton.1 hl
  cases hentry

namespace Tidy

theorem congr (h : s.Tidy) (hsame : SameDocuments s s') : s'.Tidy := by
  rw [Tidy, layers, List.forall_mem_cons] at h ⊢
  rwa [hsame.schemas, hsame.below]

theorem put (h : s.Tidy) (hentry : Scan.Canonical (uri, v)) : (s.put uri v).Tidy := by
  rw [Tidy, layers, List.forall_mem_cons] at h ⊢
  refine ⟨fun e he => ?_, h.2⟩
  rcases Table.mem_of_mem_insert he with rfl | he
  · exact hentry
  · exact h.1 e he

theorem addNamed {named : List (String × Json)} (h : s.Tidy)
    (hnamed : ∀ entry ∈ named, Scan.Canonical entry) : (named.foldl Store.addNamed s).Tidy := by
  induction named generalizing s with
  | nil => exact h
  | cons entry rest ih =>
      rw [List.forall_mem_cons] at hnamed
      refine ih ?_ hnamed.2
      rw [Tidy, layers, List.forall_mem_cons] at h ⊢
      refine ⟨fun e he => ?_, h.2⟩
      rcases Table.mem_of_mem_insertNew he with rfl | he
      · exact hnamed.1
      · exact h.1 e he

/-- A store stays tidy when a document is added that is written with one hash sign at most in each
place. -/
theorem add (h : s.Tidy) (huri : Single uri) (hreferences : ∀ t ∈ document.references, Single t)
    (hids : ∀ i ∈ document.ids, Single i) : (s.add uri document).Tidy := by
  have hneat := Scan.neat_value true (SchemaUri.normalize uri) document hreferences hids
  have hput : Tidy (s.put (SchemaUri.normalize uri)
      (document.scan (SchemaUri.normalize uri)).value) :=
    h.put ⟨huri.normalize_normalize, hneat.value⟩
  exact (hput.addNamed hneat.named).congr (sameDocuments_noteTargets _ _)

theorem uri_of_find? (h : s.Tidy) (hfind : s.find? uri = some v) :
    SchemaUri.normalize uri = uri := by
  obtain ⟨l, hl, hget⟩ := List.exists_of_findSome?_eq_some hfind
  exact (h l hl _ (Table.mem_of_get? hget)).uri

theorem single_of_mem (h : s.Tidy) {target : String} (hmem : target ∈ s.references) :
    Single target := by
  obtain ⟨l, hl, hmem⟩ := List.mem_flatMap.1 hmem
  obtain ⟨entry, hentry, hmem⟩ := List.mem_flatMap.1 hmem
  exact (h l hl entry hentry).references target hmem

theorem entrance?_of_hash (h : s.Tidy) (huri : Single uri)
    (hend : uri.toList = (SchemaUri.normalize uri).toList ++ ['#']) :
    s.entrance? uri = (s.find? (SchemaUri.normalize uri)).map (fun document => (document, [])) := by
  have hfind : s.find? uri = none := by
    cases hfind : s.find? uri with
    | none => rfl
    | some v =>
        rw [h.uri_of_find? hfind] at hend
        have hlength := congrArg List.length hend
        rw [List.length_append] at hlength
        exact absurd hlength (Nat.ne_of_lt (Nat.lt_succ_self _))
  have hsplit : SchemaUri.split uri = (SchemaUri.normalize uri, "") := by
    rw [SchemaUri.split, hend, Text.cutFirst?_append (huri.hash_not_mem_normalize hend)]
    dsimp only
    rw [String.ofList_toList]
  rw [entrance?, hfind, hsplit]
  rfl

theorem resolution_normalize (h : s.Tidy) (hsingle : Single found)
    (hfound : s.resolution u = .found found x) :
    s.resolution (SchemaUri.normalize found) = .found (SchemaUri.normalize found) x := by
  have hself := resolution_found hfound
  rcases SchemaUri.normalize_cases found with ⟨heq, -⟩ | hend
  · rwa [heq]
  · have hentrance := h.entrance?_of_hash hsingle hend
    rw [← entrance?_of_no_hash (hsingle.hash_not_mem_normalize hend)] at hentrance
    obtain ⟨trail, hleads, -⟩ := resolution_eq_found_iff.1 hself
    obtain ⟨v, tokens, hstart, harrives⟩ := id hleads
    obtain ⟨document, -, heq⟩ :=
      Option.map_eq_some_iff.1 ((h.entrance?_of_hash hsingle hend).symm.trans hstart)
    obtain ⟨rfl, rfl⟩ := Prod.mk.inj heq
    obtain rfl := hleads.trail_eq_nil hstart
    cases harrives with
    | here hadvance hreference =>
        have hleads : s.Leads (SchemaUri.normalize found) [] (SchemaUri.normalize found) x :=
          ⟨document, [], hentrance.symm.trans hstart, .here hadvance hreference⟩
        exact resolution_eq_found_iff.2 ⟨[], hleads, List.nodup_nil⟩

end Tidy

end Store

end HyperSchema
