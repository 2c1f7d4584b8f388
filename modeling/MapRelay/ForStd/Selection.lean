import Mathlib.Data.List.Sort

/-!
# The first elements of a list in an order

A program that wants the `k` nearest elements of a list need not sort it. It goes through the list
and keeps the nearest ones so far, in their order, and a new element goes behind those that are as
near. What is kept in the end is the beginning of the sorted list: sorting a list with one more
element at its end is putting that element into the sorted list.
-/

namespace ForStd.Selection

variable {α β : Type} [LinearOrder β]

/-- The list in the order of the keys; elements with the same key stay in their order. -/
def sorted (key : α → β) (l : List α) : List α := l.insertionSort fun a b => key a ≤ key b

/-- Put an element behind those whose keys are no greater. -/
def insertBehind (key : α → β) (a : α) : List α → List α
  | [] => [a]
  | b :: l => if key a < key b then a :: b :: l else b :: insertBehind key a l

variable {key : α → β} {a b : α} {l : List α}

/-- Sorting inserts one element after the other. -/
theorem sorted_cons (key : α → β) (a : α) (l : List α) :
    sorted key (a :: l) = (sorted key l).orderedInsert (fun a b => key a ≤ key b) a := rfl

/-- Sorting keeps the elements. -/
theorem mem_sorted : a ∈ sorted key l ↔ a ∈ l := List.mem_insertionSort _

/-- Putting one element in front of those as near and another one behind them. -/
theorem orderedInsert_insertBehind (key : α → β) (a b : α) (l : List α) :
    (insertBehind key b l).orderedInsert (fun a b => key a ≤ key b) a =
      insertBehind key b (l.orderedInsert (fun a b => key a ≤ key b) a) := by
  induction l with
  | nil =>
    by_cases hab : key a ≤ key b
    · simp [insertBehind, hab, not_lt_of_ge hab]
    · simp [insertBehind, hab, lt_of_not_ge hab]
  | cons c l ih =>
    -- Where `b` comes before `c`, both new elements are put in front of it
    by_cases hbc : key b < key c
    · by_cases hab : key a ≤ key b
      · have hac : key a ≤ key c := le_of_lt (lt_of_le_of_lt hab hbc)
        simp [insertBehind, hbc, hab, hac, not_lt_of_ge hab]
      · have hba := lt_of_not_ge hab
        by_cases hac : key a ≤ key c
        · simp [insertBehind, hbc, hab, hac, hba]
        · simp [insertBehind, hbc, hab, hac]
    · -- Where `a` comes before `c`, it comes before `b` too
      by_cases hac : key a ≤ key c
      · have hab : key a ≤ key b := le_trans hac (le_of_not_gt hbc)
        simp [insertBehind, hbc, hac, not_lt_of_ge hab]
      · simp [insertBehind, hbc, hac, ih]

/-- One more element at the end of the list. -/
theorem sorted_concat (key : α → β) (l : List α) (a : α) :
    sorted key (l ++ [a]) = insertBehind key a (sorted key l) := by
  induction l with
  | nil => rfl
  | cons b l ih =>
    rw [List.cons_append, sorted_cons, sorted_cons, ih, orderedInsert_insertBehind]

/-- Only the comparisons with the new element count. -/
theorem insertBehind_congr {γ : Type} [LinearOrder γ] {key' : α → γ}
    (h : ∀ b ∈ l, key a < key b ↔ key' a < key' b) :
    insertBehind key a l = insertBehind key' a l := by
  induction l with
  | nil => rfl
  | cons b l ih =>
    have hrest := ih fun c hc => h c (List.mem_cons_of_mem b hc)
    simp only [insertBehind, h b List.mem_cons_self, hrest]

end ForStd.Selection
