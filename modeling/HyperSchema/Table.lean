/-!
# Tables

A finite table is the list of its entries in the order in which their keys first arrived. A key
stands at one place: writing it again replaces the entry where it is. What a reader sees of a table
is its lookup and, where an answer shows it, this order.
-/

namespace HyperSchema

abbrev Table (α : Type u) := List (String × α)

namespace Table

variable {α : Type u}

def get? : Table α → String → Option α
  | [], _ => none
  | (k, x) :: rest, key => if k = key then some x else get? rest key

def has (t : Table α) (key : String) : Bool := (get? t key).isSome

def insert : Table α → String → α → Table α
  | [], key, x => [(key, x)]
  | (k, y) :: rest, key, x => if k = key then (key, x) :: rest else (k, y) :: insert rest key x

/-- Keeps an entry that is already there. -/
def insertNew (t : Table α) (key : String) (x : α) : Table α :=
  if has t key then t else insert t key x

def erase : Table α → String → Table α
  | [], _ => []
  | (k, x) :: rest, key => if k = key then erase rest key else (k, x) :: erase rest key

def keys (t : Table α) : List String := t.map Prod.fst

/-- No key stands twice. -/
def Distinct (t : Table α) : Prop := (keys t).Nodup

def ofList (entries : List (String × α)) : Table α :=
  entries.foldl (fun t e => insert t e.1 e.2) []

@[simp] theorem get?_nil (key : String) : get? ([] : Table α) key = none := rfl

theorem get?_cons (k : String) (x : α) (rest : Table α) (key : String) :
    get? ((k, x) :: rest) key = if k = key then some x else get? rest key := rfl

@[simp] theorem get?_insert_self (t : Table α) (key : String) (x : α) :
    get? (insert t key x) key = some x := by
  induction t with
  | nil => simp [insert, get?]
  | cons e rest ih =>
    obtain ⟨k, y⟩ := e
    by_cases h : k = key <;> simp [insert, get?, h, ih]

theorem get?_insert_of_ne (t : Table α) {key other : String} (x : α) (h : key ≠ other) :
    get? (insert t key x) other = get? t other := by
  induction t with
  | nil => simp [insert, get?, h]
  | cons e rest ih =>
    obtain ⟨k, y⟩ := e
    by_cases hk : k = key
    · subst hk; simp [insert, get?, h]
    · simp [insert, get?, hk, ih]

@[simp] theorem get?_erase_self (t : Table α) (key : String) : get? (erase t key) key = none := by
  induction t with
  | nil => rfl
  | cons e rest ih =>
    obtain ⟨k, y⟩ := e
    by_cases h : k = key <;> simp [erase, get?, h, ih]

theorem get?_erase_of_ne (t : Table α) {key other : String} (h : key ≠ other) :
    get? (erase t key) other = get? t other := by
  induction t with
  | nil => rfl
  | cons e rest ih =>
    obtain ⟨k, y⟩ := e
    by_cases hk : k = key
    · subst hk; simp [erase, get?, h, ih]
    · simp [erase, get?, hk, ih]

theorem mem_of_get? {t : Table α} {key : String} {x : α} (h : get? t key = some x) :
    (key, x) ∈ t := by
  induction t with
  | nil => simp at h
  | cons e rest ih =>
    obtain ⟨k, y⟩ := e
    by_cases hk : k = key
    · subst hk; simp [get?] at h; simp [h]
    · simp [get?, hk] at h; simp [ih h]

end Table

end HyperSchema
