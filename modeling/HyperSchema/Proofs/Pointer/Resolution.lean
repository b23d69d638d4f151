import HyperSchema.Pointer.Access
import HyperSchema.Proofs.Json.Parts
import HyperSchema.Proofs.Pointer.Lineage
import HyperSchema.Proofs.Pointer.Tokens

/-!
# Reading at the place of a part

The tokens that lead from a value to one of its parts can be read back from the place of the part,
and reading the value at them gives that part. A member needs a key of its own for this, and the
position of an item has to be one that can be written as a count.
-/

namespace HyperSchema

namespace Json

mutual
/-- No array anywhere in the value is longer than a count can tell. -/
def Countable : Json → Prop
  | .array items => items.length ≤ Text.maxCount ∧ CountableItems items
  | .object members => CountableMembers members
  | _ => True

def CountableItems : List Json → Prop
  | [] => True
  | v :: rest => v.Countable ∧ CountableItems rest

def CountableMembers : List (String × Json) → Prop
  | [] => True
  | (_, v) :: rest => v.Countable ∧ CountableMembers rest
end

theorem Countable.of_getElem? {items : List Json} {i : Nat} {w : Json}
    (h : CountableItems items) (hitem : items[i]? = some w) : w.Countable := by
  induction items generalizing i with
  | nil => simp at hitem
  | cons v rest ih =>
      rw [CountableItems] at h
      cases i with
      | zero =>
          obtain rfl : v = w := by simpa using hitem
          exact h.1
      | succ i => exact ih h.2 (by simpa using hitem)

theorem Countable.of_mem {members : List (String × Json)} {key : String} {w : Json}
    (h : CountableMembers members) (hmem : (key, w) ∈ members) : w.Countable := by
  induction members with
  | nil => cases hmem
  | cons entry rest ih =>
      obtain ⟨k, v⟩ := entry
      rw [CountableMembers] at h
      rcases List.mem_cons.1 hmem with heq | hrest
      · obtain ⟨-, rfl⟩ := Prod.mk.inj heq
        exact h.1
      · exact ih h.2 hrest

theorem Countable.of_get? {members : Table Json} {key : String} {w : Json}
    (h : (Json.object members).Countable) (hget : Table.get? members key = some w) :
    w.Countable := by
  rw [Countable] at h
  exact Countable.of_mem h (Table.mem_of_get? hget)

theorem PartAt.countable {v w : Json} {path place : String} (hpart : PartAt v path w place)
    (h : v.Countable) : w.Countable := by
  induction hpart with
  | whole => exact h
  | item _ here ih =>
      rw [Countable] at ih
      exact Countable.of_getElem? ih.2 here
  | member _ here ih =>
      rw [Countable] at ih
      exact Countable.of_mem ih here

end Json

/-! ### Positions as text -/

namespace Text

theorem digitsValue_toDigits (n : Nat) : digitsValue (Nat.toDigits 10 n) = n := by
  rw [digitsValue]
  conv_rhs => rw [← Nat.ofDigitChars_ten_toDigits (n := n), Nat.ofDigitChars]
  congr 1
  funext value c
  rw [Nat.mul_comm]
  rfl

theorem isDigit_of_mem_toDigits {n : Nat} {c : Char} (h : c ∈ Nat.toDigits 10 n) :
    c.isDigit = true :=
  Nat.isDigit_of_mem_toDigits (by decide) (by decide) h

theorem digitChar_ne_zero {n : Nat} (hpos : 0 < n) (h : n < 10) : n.digitChar ≠ '0' := by
  have hall : ∀ m < 10, 0 < m → m.digitChar ≠ '0' := by decide
  exact hall n h hpos

theorem toDigits_ne_zero_cons {n : Nat} (h : 0 < n) (rest : List Char) :
    Nat.toDigits 10 n ≠ '0' :: rest := by
  induction n using Nat.strongRecOn generalizing rest with
  | ind n ih =>
      intro hdigits
      by_cases hsmall : n < 10
      · rw [Nat.toDigits_of_lt_base hsmall] at hdigits
        exact digitChar_ne_zero h hsmall (List.cons.inj hdigits).1
      · have hlarge : 10 ≤ n := Nat.le_of_not_lt hsmall
        rw [Nat.toDigits_of_base_le (by decide) hlarge] at hdigits
        cases hfront : Nat.toDigits 10 (n / 10) with
        | nil => exact Nat.toDigits_ne_nil hfront
        | cons c front =>
            rw [hfront, List.cons_append] at hdigits
            rw [(List.cons.inj hdigits).1] at hfront
            exact ih (n / 10) (Nat.div_lt_self h (by decide)) (Nat.div_pos hlarge (by decide))
              front hfront

/-- A number is counted from its digits, up to the largest count. -/
theorem count?_toDigits (n : Nat) :
    count? (Nat.toDigits 10 n) = if n ≤ maxCount then some n else none := by
  have hplus : ∀ rest, Nat.toDigits 10 n ≠ '+' :: rest := by
    intro rest hdigits
    have hdigit : '+'.isDigit = true :=
      isDigit_of_mem_toDigits (n := n) (hdigits ▸ List.mem_cons_self)
    exact absurd hdigit (by decide)
  have hall : (Nat.toDigits 10 n).all Char.isDigit = true :=
    List.all_eq_true.2 (fun c hc => isDigit_of_mem_toDigits hc)
  have hempty : (Nat.toDigits 10 n).isEmpty = false :=
    List.isEmpty_eq_false_iff.2 Nat.toDigits_ne_nil
  rw [count?, hempty, hall, digitsValue_toDigits]
  · rfl
  · exact hplus

end Text

namespace Pointer

variable {v w : Json} {path place : String}

/-- The text of a position names it, unless no count tells the position. -/
theorem index?_natText (i length : Nat) :
    index? (Text.natText i) length = if i ≤ Text.maxCount then some i else none := by
  rw [← Text.count?_toDigits, index?, Text.natText, String.toList_ofList]
  split
  · next hdash =>
    have hdigit : '-'.isDigit = true :=
      Text.isDigit_of_mem_toDigits (n := i) (hdash ▸ List.mem_singleton_self _)
    exact absurd hdigit (by decide)
  · next second rest hzero =>
    rcases Nat.eq_zero_or_pos i with rfl | hpos
    · rw [Nat.toDigits_zero] at hzero
      cases hzero
    · exact absurd hzero (Text.toDigits_ne_zero_cons hpos _)
  · rfl

theorem walk?_append (v : Json) (front back : List String) :
    walk? v (front ++ back) = (walk? v front).bind (fun w => walk? w back) := by
  induction front generalizing v with
  | nil => rfl
  | cons token rest ih =>
      rw [List.cons_append, walk?, walk?, Option.bind_assoc]
      exact Option.bind_congr (fun next _ => ih next)

theorem child_eq_append_join (path token : String) : child path token = path ++ join [token] := by
  apply String.toList_injective
  rw [toList_child, String.toList_append, join, String.toList_ofList, joinChars, joinChars,
    List.append_nil]

theorem join_append (front back : List String) :
    join (front ++ back) = join front ++ join back := by
  rw [join, join, join, joinChars_append, String.ofList_append]

theorem get?_join (v : Json) (way : List String) : get? v (join way) = walk? v way := by
  rw [get?, tokens_join]

/-- The place of a part has the tokens behind it that lead to the part. -/
theorem exists_way_of_partAt (hkeys : v.UniqueKeys) (hcount : v.Countable)
    (hpart : v.PartAt path w place) :
    ∃ way, place = path ++ join way ∧ walk? v way = some w := by
  induction hpart with
  | whole => exact ⟨[], (String.append_empty).symm, rfl⟩
  | @item items place i w above here ih =>
      obtain ⟨way, rfl, hway⟩ := ih
      have hlength := above.countable hcount
      rw [Json.Countable] at hlength
      have hi := (List.getElem?_eq_some_iff.1 here).1
      refine ⟨way ++ [Text.natText i], ?_, ?_⟩
      · rw [Node.itemPath, child_eq_append_join, join_append, String.append_assoc]
      · rw [walk?_append, hway, Option.bind_some, walk?, step?,
          index?_natText, if_pos (by omega), Option.bind_some, here]
        rfl
  | @member members place key w above here ih =>
      obtain ⟨way, rfl, hway⟩ := ih
      have hdistinct := above.uniqueKeys hkeys
      rw [Json.UniqueKeys] at hdistinct
      refine ⟨way ++ [key], ?_, ?_⟩
      · rw [child_eq_append_join, join_append, String.append_assoc]
      · rw [walk?_append, hway, Option.bind_some, walk?, step?,
          Table.get?_of_mem hdistinct.1 here]
        rfl

theorem relative?_append_join (path : String) (way : List String) :
    relative? (path ++ join way) path = some (join way) := by
  cases way with
  | nil =>
      have hnil : path ++ join [] = path := String.append_empty
      rw [relative?, if_pos hnil]
      rfl
  | cons token rest =>
      have hbelow : below? (path ++ join (token :: rest)) path
          = some (joinChars (token :: rest)) := by
        rw [below?, String.toList_append, join, String.toList_ofList,
          Text.behind?_eq_some_iff.2 rfl]
        rfl
      have hne : path ++ join (token :: rest) ≠ path := by
        intro h
        have hlength := congrArg (fun s => s.toList.length) h
        simp [join, joinChars] at hlength
      rw [relative?, if_neg hne, hbelow]
      rfl

end Pointer

end HyperSchema
