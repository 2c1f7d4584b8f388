import Mathlib.Data.List.Basic

/-!
# A window into a buffer

A packet buffer has room in front of its data, and headers are added and taken off by moving
the start of the data. `push` and `pull` move it, and nothing is lost by moving: what was
pulled is still in front of the data.
-/

namespace ForStd

/-- A buffer with the part in front of its data, and the data. -/
structure Window (α : Type) where
  front : List α
  data : List α
  deriving DecidableEq, Repr

namespace Window

variable {α : Type}

/-- Start `n` elements earlier, if there are so many in front. -/
def push (n : Nat) (w : Window α) : Option (Window α) :=
  if n ≤ w.front.length then
    some ⟨w.front.take (w.front.length - n), w.front.drop (w.front.length - n) ++ w.data⟩
  else none

/-- Start `n` elements later, if there are so many. -/
def pull (n : Nat) (w : Window α) : Option (Window α) :=
  if n ≤ w.data.length then some ⟨w.front ++ w.data.take n, w.data.drop n⟩ else none

/-- Overwrite the data from the index `k` on. -/
def write (k : Nat) (xs : List α) (w : Window α) : Window α :=
  { w with data := w.data.take k ++ xs ++ w.data.drop (k + xs.length) }

/-- The `n` elements right in front of the data, if there are so many. -/
def lastOfFront (n : Nat) (w : Window α) : Option (List α) :=
  if n ≤ w.front.length then some (w.front.drop (w.front.length - n)) else none

/-- Pushing uncovers what is in front. -/
theorem push_append (f g d : List α) : push g.length ⟨f ++ g, d⟩ = some ⟨f, g ++ d⟩ := by
  simp [push]

/-- Pulling covers it again. -/
theorem pull_append (f g d : List α) : pull g.length ⟨f, g ++ d⟩ = some ⟨f ++ g, d⟩ := by
  simp [pull]

/-- What is just in front of the data. -/
theorem lastOfFront_append (f g d : List α) : lastOfFront g.length ⟨f ++ g, d⟩ = some g := by
  simp [lastOfFront]

/-- Writing replaces as many elements as are written. -/
theorem write_append (f xs ys zs d : List α) (h : ys.length = zs.length) :
    write xs.length zs ⟨f, xs ++ (ys ++ d)⟩ = ⟨f, xs ++ (zs ++ d)⟩ := by
  simp [write, ← h, List.drop_append]

end Window

end ForStd
