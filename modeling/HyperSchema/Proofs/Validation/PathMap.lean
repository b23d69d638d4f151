import HyperSchema.Proofs.Table
import HyperSchema.Validation.State

/-!
# Collecting entries under paths

A map from paths to lists takes entries one by one, and keeps each once per path, where it first
came. Merging another map means collecting the entries of that map, one path after the other. If
the other map has itself been collected, this gives what collecting its entries in the order of
their arrival gives, in the same order; and merging is associative, up to the order of the paths,
which a map does not have.
-/

namespace HyperSchema.PathMap

/-! ### Lists without repetition -/

section Lists

variable {α : Type} [DecidableEq α] {xs ys zs : List α} {x y : α}

def addNew (xs : List α) (x : α) : List α := if x ∈ xs then xs else xs ++ [x]

/-- Appends what is not there yet. -/
def join (xs ys : List α) : List α := ys.foldl addNew xs

theorem addNew_of_mem (h : x ∈ xs) : addNew xs x = xs := if_pos h

theorem mem_addNew : y ∈ addNew xs x ↔ y ∈ xs ∨ y = x := by
  rw [addNew]
  split
  · next h => exact ⟨.inl, fun hy => hy.elim id (fun heq => heq ▸ h)⟩
  · rw [List.mem_append, List.mem_singleton]

theorem nodup_addNew (h : xs.Nodup) (x : α) : (addNew xs x).Nodup := by
  rw [addNew]
  split
  · exact h
  · next hx =>
    refine List.nodup_append.2 ⟨h, List.nodup_singleton x, fun a ha b hb heq => hx ?_⟩
    rwa [← List.mem_singleton.1 hb, ← heq]

theorem join_nil (xs : List α) : join xs [] = xs := rfl

theorem join_cons (xs : List α) (y : α) (ys : List α) :
    join xs (y :: ys) = join (addNew xs y) ys := rfl

theorem join_append_singleton (xs ys : List α) (y : α) :
    join xs (ys ++ [y]) = addNew (join xs ys) y := by
  rw [join, List.foldl_append]
  rfl

theorem mem_join : y ∈ join xs ys ↔ y ∈ xs ∨ y ∈ ys := by
  induction ys generalizing xs with
  | nil => rw [join_nil, or_iff_left List.not_mem_nil]
  | cons z ys ih => rw [join_cons, ih, mem_addNew, or_assoc, List.mem_cons]

theorem join_eq_nil_iff : join xs ys = [] ↔ xs = [] ∧ ys = [] := by
  rw [List.eq_nil_iff_forall_not_mem, List.eq_nil_iff_forall_not_mem,
    List.eq_nil_iff_forall_not_mem, ← forall_and]
  exact forall_congr' (fun y => by rw [mem_join, not_or])

theorem join_addNew (xs ys : List α) (z : α) : join xs (addNew ys z) = addNew (join xs ys) z := by
  by_cases h : z ∈ ys
  · rw [addNew_of_mem h, addNew_of_mem (mem_join.2 (.inr h))]
  · rw [addNew, if_neg h, join_append_singleton]

theorem join_assoc (xs ys zs : List α) : join (join xs ys) zs = join xs (join ys zs) := by
  induction zs generalizing ys with
  | nil => rfl
  | cons z zs ih => rw [join_cons, join_cons, ← join_addNew, ih]

end Lists

/-! ### What is found at a path -/

section Entries

variable {α : Type} {m : PathMap α} {place : String}

theorem entries_cons (k : String) (xs : List α) (rest : PathMap α) (place : String) :
    entries ((k, xs) :: rest) place = if k = place then xs else entries rest place := by
  rw [entries, Table.get?_cons]
  split
  · rfl
  · rfl

theorem entries_eq_nil_of_not_mem (h : place ∉ Table.keys m) : entries m place = [] := by
  rw [entries, Table.get?_eq_none_iff.2 h]
  rfl

/-- Every path stands once, and has entries, none of them twice. -/
structure Collected (m : PathMap α) : Prop where
  distinct : Table.Distinct m
  nonempty : ∀ e ∈ m, e.2 ≠ []
  nodup : ∀ e ∈ m, e.2.Nodup

theorem Collected.nil : Collected ([] : PathMap α) where
  distinct := List.nodup_nil
  nonempty := fun _ h => nomatch h
  nodup := fun _ h => nomatch h

theorem Collected.tail {first : String × List α} (h : Collected (first :: m)) : Collected m where
  distinct := (List.nodup_cons.1 h.distinct).2
  nonempty := fun e he => h.nonempty e (List.mem_cons_of_mem first he)
  nodup := fun e he => h.nodup e (List.mem_cons_of_mem first he)

theorem Collected.nodup_entries (h : Collected m) (path : String) : (entries m path).Nodup := by
  rw [entries]
  cases hget : Table.get? m path with
  | none => exact List.nodup_nil
  | some xs => exact h.nodup (path, xs) (Table.mem_of_get? hget)

end Entries

variable {α : Type} [DecidableEq α] {m other : PathMap α} {path place : String} {x y : α}

/-- Adds entries in turn. -/
def collect (m : PathMap α) (found : List (String × α)) : PathMap α :=
  found.foldl (fun m e => m.add e.1 e.2) m

theorem collect_nil (m : PathMap α) : collect m [] = m := rfl

theorem collect_cons (m : PathMap α) (e : String × α) (found : List (String × α)) :
    collect m (e :: found) = collect (m.add e.1 e.2) found := rfl

theorem add_of_mem (h : x ∈ entries m path) : add m path x = m := if_pos h

theorem addAll_cons (m : PathMap α) (path : String) (x : α) (xs : List α) :
    addAll m path (x :: xs) = addAll (add m path x) path xs := rfl

theorem merge_cons (m : PathMap α) (e : String × List α) (other : PathMap α) :
    merge m (e :: other) = merge (addAll m e.1 e.2) other := rfl

theorem get?_add (m : PathMap α) (path : String) (x : α) (place : String) :
    Table.get? (add m path x) place
      = if place = path then some (addNew (entries m path) x) else Table.get? m place := by
  rw [add, addNew]
  split
  · next h =>
    split
    · next hplace =>
      subst hplace
      rw [entries] at h ⊢
      cases hget : Table.get? m place with
      | none =>
          rw [hget] at h
          cases h
      | some xs => rfl
    · rfl
  · rw [Table.get?_insert]

theorem get?_addAll (m : PathMap α) (path : String) (xs : List α) (place : String) :
    Table.get? (addAll m path xs) place
      = if place = path ∧ xs ≠ [] then some (join (entries m path) xs)
        else Table.get? m place := by
  induction xs generalizing m with
  | nil =>
      rw [if_neg (fun h => h.2 rfl)]
      rfl
  | cons x xs ih =>
      rw [addAll_cons, ih, get?_add]
      by_cases hplace : place = path
      · have hentries : entries (add m path x) path = addNew (entries m path) x := by
          rw [entries, get?_add, if_pos rfl, Option.getD_some]
        rw [if_pos hplace, hentries, if_pos (And.intro hplace (List.cons_ne_nil x xs)), join_cons]
        by_cases hnil : xs = []
        · rw [hnil, if_neg (fun h => h.2 rfl), join_nil]
        · rw [if_pos ⟨hplace, hnil⟩]
      · rw [if_neg (fun h => hplace h.1), if_neg hplace, if_neg (fun h => hplace h.1)]

theorem entries_addAll (m : PathMap α) (path : String) (xs : List α) (place : String) :
    entries (addAll m path xs) place
      = if place = path then join (entries m path) xs else entries m place := by
  rw [entries, get?_addAll]
  by_cases hplace : place = path
  · rw [if_pos hplace]
    by_cases hnil : xs = []
    · rw [if_neg (fun h => h.2 hnil), hnil, join_nil, hplace, entries]
    · rw [if_pos ⟨hplace, hnil⟩, Option.getD_some]
  · rw [if_neg (fun h => hplace h.1), if_neg hplace, entries]

/-- A merge leaves a path alone where the other map has no entry, and appends what is new. -/
theorem get?_merge (hdistinct : Table.Distinct other) (m : PathMap α) (place : String) :
    Table.get? (merge m other) place
      = if entries other place = [] then Table.get? m place
        else some (join (entries m place) (entries other place)) := by
  induction other generalizing m with
  | nil => rfl
  | cons first rest ih =>
      obtain ⟨k, xs⟩ := first
      obtain ⟨hfresh, hrest⟩ := List.nodup_cons.1 hdistinct
      rw [merge_cons, ih hrest, entries_cons, entries_addAll, get?_addAll]
      by_cases hk : k = place
      · subst hk
        rw [if_pos (entries_eq_nil_of_not_mem hfresh), if_pos rfl]
        by_cases hnil : xs = []
        · rw [if_neg (fun h => h.2 hnil), if_pos hnil]
        · rw [if_pos ⟨rfl, hnil⟩, if_neg hnil]
      · rw [if_neg hk, if_neg (Ne.symm hk), if_neg (fun h : place = k ∧ _ => hk h.1.symm)]

theorem entries_merge (hdistinct : Table.Distinct other) (m : PathMap α) (place : String) :
    entries (merge m other) place = join (entries m place) (entries other place) := by
  rw [entries, get?_merge hdistinct]
  split
  · next hnil => rw [hnil, join_nil, entries]
  · rfl

theorem mem_entries_add :
    y ∈ entries (add m path x) place ↔ y ∈ entries m place ∨ place = path ∧ y = x := by
  rw [entries, get?_add]
  by_cases hplace : place = path
  · rw [if_pos hplace, Option.getD_some, mem_addNew, hplace, and_iff_right rfl]
  · rw [if_neg hplace, entries, or_iff_left (fun h => hplace h.1)]

theorem mem_entries_collect {found : List (String × α)} :
    y ∈ entries (collect m found) place ↔ y ∈ entries m place ∨ (place, y) ∈ found := by
  induction found generalizing m with
  | nil => rw [collect_nil, or_iff_left List.not_mem_nil]
  | cons e rest ih => rw [collect_cons, ih, mem_entries_add, or_assoc, List.mem_cons, Prod.ext_iff]

/-! ### Distinct paths -/

theorem distinct_add (h : Table.Distinct m) (path : String) (x : α) :
    Table.Distinct (add m path x) := by
  rw [add]
  split
  · exact h
  · exact h.insert path _

theorem distinct_addAll (h : Table.Distinct m) (path : String) (xs : List α) :
    Table.Distinct (addAll m path xs) := by
  induction xs generalizing m with
  | nil => exact h
  | cons x xs ih => exact ih (distinct_add h path x)

theorem distinct_merge (h : Table.Distinct m) (other : PathMap α) :
    Table.Distinct (merge m other) := by
  induction other generalizing m with
  | nil => exact h
  | cons first rest ih => exact ih (distinct_addAll h first.1 first.2)

theorem get?_merge_assoc {a b c : PathMap α} (hb : Table.Distinct b) (hc : Table.Distinct c)
    (place : String) :
    Table.get? (merge (merge a b) c) place = Table.get? (merge a (merge b c)) place := by
  rw [get?_merge hc, get?_merge hb, get?_merge (distinct_merge hb c), entries_merge hb,
    entries_merge hc, join_assoc]
  by_cases hcnil : entries c place = []
  · rw [if_pos hcnil, hcnil, join_nil]
  · rw [if_neg hcnil, if_neg (fun h => hcnil (join_eq_nil_iff.1 h).2)]

/-! ### Maps that have been collected -/

theorem Collected.add (h : Collected m) (path : String) (x : α) : Collected (m.add path x) := by
  by_cases hx : x ∈ entries m path
  · rwa [add_of_mem hx]
  · have hinsert : m.add path x = Table.insert m path (entries m path ++ [x]) := if_neg hx
    have hnew : (entries m path ++ [x]).Nodup := by
      have hnodup := nodup_addNew (h.nodup_entries path) x
      rwa [addNew, if_neg hx] at hnodup
    refine ⟨distinct_add h.distinct path x, fun e he => ?_, fun e he => ?_⟩
    · rw [hinsert] at he
      cases Table.mem_of_mem_insert he with
      | inl heq =>
          rw [heq]
          exact List.append_ne_nil_of_right_ne_nil _ (List.cons_ne_nil x [])
      | inr hmem => exact h.nonempty e hmem
    · rw [hinsert] at he
      cases Table.mem_of_mem_insert he with
      | inl heq =>
          rw [heq]
          exact hnew
      | inr hmem => exact h.nodup e hmem

theorem Collected.collect (h : Collected m) (found : List (String × α)) :
    Collected (m.collect found) := by
  induction found generalizing m with
  | nil => exact h
  | cons e found ih => exact ih (h.add e.1 e.2)

/-! ### Merging what has been collected -/

/-- Entries for different paths may be added in either order, once the first path is there. -/
theorem add_comm (h : Table.has m path = true) (hne : path ≠ place) (x y : α) :
    add (add m path x) place y = add (add m place y) path x := by
  have hplace : entries (add m path x) place = entries m place := by
    rw [entries, get?_add, if_neg (Ne.symm hne), entries]
  have hpath : entries (add m place y) path = entries m path := by
    rw [entries, get?_add, if_neg hne, entries]
  rw [add, hplace]
  conv_rhs => rw [add, hpath]
  by_cases hx : x ∈ entries m path
  · rw [add_of_mem hx, if_pos hx, add]
  · by_cases hy : y ∈ entries m place
    · rw [if_pos hy, if_neg hx, add_of_mem hy, add, if_neg hx]
    · rw [if_neg hx, if_neg hy, add, if_neg hx, add, if_neg hy]
      exact Table.insert_comm h hne _ _

theorem has_add (h : Table.has m path = true) (place : String) (y : α) :
    Table.has (add m place y) path = true := by
  rw [Table.has, get?_add]
  split
  · rfl
  · exact h

theorem addAll_add (h : Table.has m path = true) (hne : path ≠ place) (x : α) (ys : List α) :
    addAll (add m path x) place ys = add (addAll m place ys) path x := by
  induction ys generalizing m with
  | nil => rfl
  | cons y ys ih => rw [addAll_cons, add_comm h hne, ih (has_add h place y), addAll_cons]

theorem has_addAll (h : Table.has m path = true) (place : String) (ys : List α) :
    Table.has (addAll m place ys) path = true := by
  induction ys generalizing m with
  | nil => exact h
  | cons y ys ih => exact ih (has_add h place y)

theorem merge_add_of_not_mem (h : Table.has m path = true) (hfresh : path ∉ Table.keys other)
    (x : α) : merge (add m path x) other = add (merge m other) path x := by
  induction other generalizing m with
  | nil => rfl
  | cons first rest ih =>
      obtain ⟨k, ys⟩ := first
      obtain ⟨hne, hrest⟩ := not_or.1 (mt List.mem_cons.2 hfresh)
      rw [merge_cons, addAll_add h hne, ih (has_addAll h k ys) hrest, merge_cons]

theorem merge_insert (h : Collected other) (hx : x ∉ entries other path) (m : PathMap α) :
    merge m (Table.insert other path (entries other path ++ [x])) = add (merge m other) path x := by
  induction other generalizing m with
  | nil => rfl
  | cons first rest ih =>
      obtain ⟨k, ys⟩ := first
      rw [entries_cons] at hx ⊢
      by_cases hk : k = path
      · subst hk
        have hthere : Table.has (addAll m k ys) k = true := by
          rw [Table.has, get?_addAll,
            if_pos (And.intro rfl (h.nonempty (k, ys) List.mem_cons_self))]
          rfl
        have hlast : addAll m k (ys ++ [x]) = add (addAll m k ys) k x := by
          rw [addAll, List.foldl_append]
          rfl
        rw [if_pos rfl, Table.insert, if_pos rfl, merge_cons, hlast,
          merge_add_of_not_mem hthere (List.nodup_cons.1 h.distinct).1, merge_cons]
      · rw [if_neg hk] at hx ⊢
        rw [Table.insert, if_neg hk, merge_cons, ih h.tail hx, merge_cons]

theorem merge_add (h : Collected other) (m : PathMap α) (path : String) (x : α) :
    merge m (add other path x) = add (merge m other) path x := by
  by_cases hx : x ∈ entries other path
  · have hmem : x ∈ entries (merge m other) path := by
      rw [entries_merge h.distinct]
      exact mem_join.2 (.inr hx)
    rw [add_of_mem hx, add_of_mem hmem]
  · rw [add, if_neg hx, merge_insert h hx]

theorem merge_collect (h : Collected other) (m : PathMap α) (found : List (String × α)) :
    merge m (other.collect found) = (merge m other).collect found := by
  induction found generalizing other with
  | nil => rfl
  | cons e found ih => rw [collect_cons, ih (h.add e.1 e.2), merge_add h, collect_cons]

/-- Merging a map that started empty collects what that map has collected. -/
theorem merge_collect_nil (m : PathMap α) (found : List (String × α)) :
    merge m (collect [] found) = m.collect found := merge_collect .nil m found

end HyperSchema.PathMap
