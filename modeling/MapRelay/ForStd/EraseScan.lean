/-!
# Erasing while going through a list

A loop goes through a list by an index and erases some of the elements that it comes to, in place:
what is behind an erased element moves down, and the index stays. `Scanned p all seen xs i` is the
invariant of such a loop that keeps the elements with `p`. The elements `seen` of the list `all`
have been examined, those of them that are kept stand in front of the index `i`, and the others
are still behind it.
-/

namespace ForStd

variable {α : Type}

/-- `seen` has been examined of `all`; the list is now `xs`, and the index is `i`. -/
structure Scanned (p : α → Bool) (all seen xs : List α) (i : Int) : Prop where
  /-- The elements that are still to be examined. -/
  rest : ∃ todo, all = seen ++ todo ∧ xs = seen.filter p ++ todo
  index : i = (seen.filter p).length

namespace Scanned

variable {p : α → Bool} {all seen xs : List α} {i : Int} {a : α}

/-- At the start nothing has been examined. -/
theorem start (p : α → Bool) (all : List α) : Scanned p all [] all 0 :=
  ⟨⟨all, rfl, rfl⟩, rfl⟩

/-- At the end of the list everything has been examined, and exactly what is to be kept is left. -/
theorem eq_filter (h : Scanned p all seen xs i) (hend : i = xs.length) :
    xs = all.filter p ∧ seen = all := by
  obtain ⟨⟨todo, rfl, rfl⟩, rfl⟩ := h
  have hnil : todo = [] := by
    rw [List.length_append] at hend
    exact List.eq_nil_of_length_eq_zero (by omega)
  subst hnil
  rw [List.append_nil, List.append_nil]
  exact ⟨rfl, rfl⟩

/-- Before that the index is that of the next element to be examined. -/
theorem next (h : Scanned p all seen xs i) (hend : i ≠ xs.length) :
    ∃ a todo, all = seen ++ a :: todo ∧ 0 ≤ i ∧ i + 1 ≤ xs.length ∧ xs[i.toNat]? = some a := by
  obtain ⟨⟨todo, rfl, rfl⟩, rfl⟩ := h
  cases todo with
  | nil =>
    rw [List.append_nil] at hend
    exact absurd rfl hend
  | cons a todo =>
    refine ⟨a, todo, rfl, Int.natCast_nonneg _, ?_, ?_⟩
    · rw [List.length_append, List.length_cons]
      omega
    · rw [Int.toNat_natCast, List.getElem?_append_right (Nat.le_refl _), Nat.sub_self]
      rfl

/-- What is at the index is the first of the elements that are still to be examined. -/
theorem todo_eq (h : Scanned p all seen xs i) (ha : xs[i.toNat]? = some a) :
    ∃ todo, all = seen ++ a :: todo ∧ xs = seen.filter p ++ a :: todo := by
  obtain ⟨⟨todo, rfl, rfl⟩, rfl⟩ := h
  rw [Int.toNat_natCast, List.getElem?_append_right (Nat.le_refl _), Nat.sub_self] at ha
  cases todo with
  | nil => cases ha
  | cons b todo =>
    cases ha
    exact ⟨todo, rfl, rfl⟩

/-- An element that is kept: the index goes past it. -/
theorem keep (h : Scanned p all seen xs i) (ha : xs[i.toNat]? = some a) (hp : p a = true) :
    Scanned p all (seen ++ [a]) xs (i + 1) := by
  obtain ⟨todo, rfl, hxs⟩ := h.todo_eq ha
  have hfilter : (seen ++ [a]).filter p = seen.filter p ++ [a] := by
    rw [List.filter_append, List.filter_cons_of_pos hp, List.filter_nil]
  refine ⟨⟨todo, by simp, ?_⟩, ?_⟩
  · rw [hfilter, hxs, List.append_assoc, List.singleton_append]
  · rw [hfilter, h.index, List.length_append]
    rfl

/-- An element that is erased: the next one moves to the index. -/
theorem erase (h : Scanned p all seen xs i) (ha : xs[i.toNat]? = some a) (hp : ¬ p a = true) :
    Scanned p all (seen ++ [a]) (xs.eraseIdx i.toNat) i := by
  obtain ⟨todo, rfl, hxs⟩ := h.todo_eq ha
  have hfilter : (seen ++ [a]).filter p = seen.filter p := by
    rw [List.filter_append, List.filter_cons_of_neg hp, List.filter_nil, List.append_nil]
  refine ⟨⟨todo, by simp, ?_⟩, ?_⟩
  · rw [hfilter, hxs, h.index, Int.toNat_natCast, List.eraseIdx_append_of_length_le (Nat.le_refl _),
      Nat.sub_self, List.eraseIdx_cons_zero]
  · rw [hfilter]
    exact h.index

end Scanned

end ForStd
