import HyperSchema.Proofs.Text.Cut
import HyperSchema.SchemaUri

/-!
# Hash signs and scopes of schema URIs

The canonical form is one hash sign shorter or the same. It is not canonical itself when there were
several hash signs at the end, so that the forms a URI can take are as many as these. The URI of the
document is what stands before the first hash sign, whatever the form. What lies within a scope that
lies within another lies within that one.
-/

namespace HyperSchema

namespace SchemaUri

/-- The canonical form of a URI is the URI, or the URI is the canonical form with a hash sign. -/
theorem normalize_cases (uri : String) :
    normalize uri = uri ∧ (∀ front, uri.toList ≠ front ++ ['#'])
      ∨ uri.toList = (normalize uri).toList ++ ['#'] := by
  rw [normalize]
  split
  · next front h =>
    rw [Text.before?_eq_some_iff] at h
    rw [String.toList_ofList]
    exact .inr h
  · next h =>
    refine .inl ⟨rfl, fun front hfront => ?_⟩
    rw [Text.before?_eq_some_iff.2 hfront] at h
    cases h

theorem normalize_of_no_hash {uri : String} (h : '#' ∉ uri.toList) : normalize uri = uri := by
  rcases normalize_cases uri with ⟨heq, -⟩ | hend
  · exact heq
  · rw [hend] at h
    exact absurd (List.mem_append_right _ (List.mem_singleton_self _)) h

theorem length_normalize_lt {uri : String} (h : normalize uri ≠ uri) :
    (normalize uri).length < uri.length := by
  rcases normalize_cases uri with ⟨heq, -⟩ | hend
  · exact absurd heq h
  · rw [← String.length_toList, ← String.length_toList, hend, List.length_append]
    exact Nat.lt_succ_self _

/-- A URI and its canonical forms, one after the other. -/
def forms : Nat → String → List String
  | 0, uri => [uri]
  | n + 1, uri => uri :: forms n (normalize uri)

theorem length_forms (n : Nat) (uri : String) : (forms n uri).length = n + 1 := by
  induction n generalizing uri with
  | zero => rfl
  | succ n ih => rw [forms, List.length_cons, ih]

theorem mem_forms_self (n : Nat) (uri : String) : uri ∈ forms n uri := by
  cases n with
  | zero => exact List.mem_singleton_self _
  | succ n => exact List.mem_cons_self

theorem eq_of_mem_forms {n : Nat} {uri form : String} (hfixed : normalize uri = uri)
    (h : form ∈ forms n uri) : form = uri := by
  induction n with
  | zero => exact List.mem_singleton.1 h
  | succ n ih =>
      rw [forms, hfixed] at h
      rcases List.mem_cons.1 h with h | h
      · exact h
      · exact ih h

theorem normalize_mem_forms {n : Nat} {uri form : String} (hn : uri.length ≤ n)
    (h : form ∈ forms n uri) : normalize form ∈ forms n uri := by
  induction n generalizing uri with
  | zero =>
      obtain rfl := List.mem_singleton.1 h
      by_cases hfixed : normalize form = form
      · rw [hfixed]
        exact List.mem_singleton_self _
      · have hlt := length_normalize_lt hfixed
        omega
  | succ n ih =>
      rcases List.mem_cons.1 h with rfl | h
      · exact List.mem_cons_of_mem _ (mem_forms_self n _)
      · by_cases hfixed : normalize uri = uri
        · rw [hfixed] at h
          rw [eq_of_mem_forms hfixed h, hfixed]
          exact List.mem_cons_self
        · have hlt := length_normalize_lt hfixed
          exact List.mem_cons_of_mem _ (ih (by omega) h)

theorem hash_not_mem_base (uri : String) : '#' ∉ (base uri).toList := by
  rw [base, split]
  split
  · next front fragment hcut =>
    rw [String.toList_ofList]
    exact (Text.cutFirst?_eq_some hcut).2
  · next hcut => exact Text.cutFirst?_eq_none_iff.1 hcut

theorem base_of_no_hash {uri : String} (h : '#' ∉ uri.toList) : base uri = uri := by
  rw [base, split, Text.cutFirst?_eq_none_iff.2 h]

theorem base_normalize (uri : String) : base (normalize uri) = base uri := by
  rcases normalize_cases uri with ⟨heq, -⟩ | hend
  · rw [heq]
  · by_cases hhash : '#' ∈ (normalize uri).toList
    · cases hcut : Text.cutFirst? '#' (normalize uri).toList with
      | none => exact absurd hhash (Text.cutFirst?_eq_none_iff.1 hcut)
      | some parts =>
          obtain ⟨before, behind⟩ := parts
          obtain ⟨hsplit, hbefore⟩ := Text.cutFirst?_eq_some hcut
          have hwhole : Text.cutFirst? '#' uri.toList = some (before, behind ++ ['#']) := by
            rw [hend, hsplit, List.append_assoc, List.cons_append]
            exact Text.cutFirst?_append hbefore
          rw [base, split, hcut, base, split, hwhole]
    · have hwhole : Text.cutFirst? '#' uri.toList = some ((normalize uri).toList, []) := by
        rw [hend]
        exact Text.cutFirst?_append hhash
      rw [base_of_no_hash hhash, base, split, hwhole]
      exact String.ofList_toList.symm

/-! ### Scopes -/

theorem toList_base (uri : String) : (base uri).toList = uri.toList.takeWhile (· != '#') := by
  rw [base, split]
  cases hcut : Text.cutFirst? '#' uri.toList with
  | none =>
      refine (List.takeWhile_eq_self_iff.2 fun c hc => ?_).symm
      exact bne_iff_ne.2 fun heq => Text.cutFirst?_eq_none_iff.1 hcut (heq ▸ hc)
  | some parts =>
      obtain ⟨front, rear⟩ := parts
      obtain ⟨heq, hfront⟩ := Text.cutFirst?_eq_some hcut
      have hpass : ∀ c ∈ front, (c != '#') = true :=
        fun c hc => bne_iff_ne.2 fun hhash => hfront (hhash ▸ hc)
      rw [heq, List.takeWhile_append_of_pos hpass, List.takeWhile_cons_of_neg (by simp),
        List.append_nil]
      exact String.toList_ofList

/-- What may stand behind the URI of a document at a place within it. -/
def Beneath (document rest : List Char) : Prop :=
  rest = [] ∨ document.getLast? = some '/' ∨ rest.head? = some '/' ∨ rest.head? = some '#'

theorem isWithin_iff {candidate scope : String} :
    isWithin candidate scope = true
      ↔ ∃ rest, candidate.toList = (base scope).toList ++ rest
        ∧ Beneath (base scope).toList rest := by
  rw [isWithin]
  cases hrest : Text.behind? (base scope).toList candidate.toList with
  | none =>
      refine iff_of_false Bool.false_ne_true fun h => ?_
      obtain ⟨rest, heq, -⟩ := h
      rw [Text.behind?_eq_some_iff.2 heq] at hrest
      cases hrest
  | some rest =>
      rw [Text.behind?_eq_some_iff] at hrest
      simp [hrest, Beneath, or_assoc]

theorem isWithin_self (uri : String) : isWithin uri uri = true := by
  rw [isWithin_iff, toList_base]
  refine ⟨uri.toList.dropWhile (· != '#'), List.takeWhile_append_dropWhile.symm, ?_⟩
  cases hrest : uri.toList.dropWhile (· != '#') with
  | nil => exact .inl rfl
  | cons c rest =>
      have hhead := List.head?_dropWhile_not (· != '#') uri.toList
      rw [hrest] at hhead
      have hc : c = '#' := by simpa using hhead
      exact .inr (.inr (.inr (congrArg some hc)))

theorem isWithin_congr_base {candidate scope scope' : String} (h : base scope = base scope') :
    isWithin candidate scope = isWithin candidate scope' := by
  rw [isWithin, isWithin, h]

theorem isWithin_trans {candidate scope outer : String} (h : isWithin candidate scope = true)
    (h' : isWithin scope outer = true) : isWithin candidate outer = true := by
  obtain ⟨rest, heq, hrest⟩ := isWithin_iff.1 h
  obtain ⟨rest', heq', hrest'⟩ := isWithin_iff.1 h'
  have hpass : ∀ c ∈ (base outer).toList, (c != '#') = true :=
    fun c hc => bne_iff_ne.2 fun hhash => hash_not_mem_base outer (hhash ▸ hc)
  have hbase : (base scope).toList = (base outer).toList ++ rest'.takeWhile (· != '#') := by
    rw [toList_base scope, heq', List.takeWhile_append_of_pos hpass]
  -- what the scope has before its own fragment stands between the outer scope and the rest
  rcases hrest' with hnil | hslash | hslash | hhash
  · have hsame : base scope = base outer :=
      String.toList_injective (by rw [hbase, hnil, List.takeWhile_nil, List.append_nil])
    rwa [isWithin_congr_base hsame] at h
  · refine isWithin_iff.2 ⟨_, by rw [heq, hbase, List.append_assoc], .inr (.inl hslash)⟩
  · obtain ⟨tail, htail⟩ := List.head?_eq_some_iff.1 hslash
    refine isWithin_iff.2
      ⟨_, by rw [heq, hbase, List.append_assoc], .inr (.inr (.inl ?_))⟩
    rw [htail, List.takeWhile_cons_of_pos (by decide)]
    rfl
  · obtain ⟨tail, htail⟩ := List.head?_eq_some_iff.1 hhash
    have hsame : base scope = base outer := String.toList_injective (by
      rw [hbase, htail, List.takeWhile_cons_of_neg (by decide), List.append_nil])
    rwa [isWithin_congr_base hsame] at h

/-! ### One hash sign at most -/

/-- A URI with one hash sign at most, which its canonical form has only before a fragment. -/
def Single (uri : String) : Prop := uri.toList.count '#' ≤ 1

instance (uri : String) : Decidable (Single uri) := Nat.decLe _ _

theorem single_of_no_hash {uri : String} (h : '#' ∉ uri.toList) : Single uri := by
  rw [Single, List.count_eq_zero_of_not_mem h]
  exact Nat.zero_le 1

/-- What the canonical form drops is the only hash sign. -/
theorem Single.hash_not_mem_normalize {uri : String} (h : Single uri)
    (hend : uri.toList = (normalize uri).toList ++ ['#']) : '#' ∉ (normalize uri).toList := by
  rw [Single, hend, List.count_append, List.count_singleton_self] at h
  exact List.count_eq_zero.1 (by omega)

theorem Single.normalize {uri : String} (h : Single uri) : Single (normalize uri) := by
  rcases normalize_cases uri with ⟨heq, -⟩ | hend
  · rwa [heq]
  · exact single_of_no_hash (h.hash_not_mem_normalize hend)

theorem Single.normalize_normalize {uri : String} (h : Single uri) :
    SchemaUri.normalize (SchemaUri.normalize uri) = SchemaUri.normalize uri := by
  rcases normalize_cases uri with ⟨heq, -⟩ | hend
  · rw [heq, heq]
  · exact normalize_of_no_hash (h.hash_not_mem_normalize hend)

end SchemaUri

end HyperSchema
