import Mathlib.Algebra.BigOperators.Group.Finset.Basic
import Mathlib.Algebra.Order.BigOperators.Group.List
import Mathlib.Tactic.Abel

/-!
# Sums over the pairs of a list

`pairSum f l` adds up `f x y` over all `x` and `y` of the list with `x` in front of `y`. It is
the form of an account of the links between the elements of a list that grows at its end, and of
which one link at a time changes.
-/

namespace ForStd

variable {V M : Type*}

/-- Of two elements of a list one is in front. -/
theorem not_sublist_swap {l : List V} (hl : l.Nodup) {a b : V} (hab : [a, b].Sublist l) :
    ¬ [b, a].Sublist l := by
  induction l with
  | nil => simp at hab
  | cons x l ih =>
    obtain ⟨hx, hl⟩ := List.nodup_cons.mp hl
    intro hba
    rw [List.cons_sublist_cons'] at hab hba
    rcases hab with hab | ⟨rfl, hb⟩
    · rcases hba with hba | ⟨rfl, -⟩
      · exact ih hl hab hba
      · exact hx (hab.subset (by simp))
    · rcases hba with hba | ⟨rfl, ha⟩
      · exact hx (hba.subset (by simp))
      · exact hx (List.singleton_sublist.mp ha)

section Sum

variable [AddCommMonoid M]

/-- The sum of `f x y` over all `x` in front of `y`. -/
def pairSum (f : V → V → M) : List V → M
  | [] => 0
  | x :: l => (l.map (f x)).sum + pairSum f l

/-- The sum with one vertex more. -/
theorem pairSum_concat (f : V → V → M) (l : List V) (p : V) :
    pairSum f (l ++ [p]) = pairSum f l + (l.map (f · p)).sum := by
  induction l with
  | nil => simp [pairSum]
  | cons x l ih =>
    simp only [List.cons_append, pairSum, ih, List.map_append, List.sum_append, List.map_cons,
      List.map_nil, List.sum_cons, List.sum_nil, add_zero]
    rw [add_add_add_comm, add_comm (f x p)]

/-- Only the pairs in the order of the list count. -/
theorem pairSum_congr {f f' : V → V → M} {l : List V}
    (h : ∀ x y, [x, y].Sublist l → f x y = f' x y) : pairSum f l = pairSum f' l := by
  induction l with
  | nil => rfl
  | cons x l ih =>
    have hhead : l.map (f x) = l.map (f' x) := List.map_congr_left fun y hy =>
      h x y ((List.singleton_sublist.mpr hy).cons_cons x)
    rw [pairSum, pairSum, hhead, ih fun y z hyz => h y z (hyz.cons x)]

/-- The sum after a change at one pair. -/
theorem pairSum_update {f f' : V → V → M} {l : List V} (hl : l.Nodup) {a b : V}
    (hab : [a, b].Sublist l)
    (h : ∀ x y, [x, y].Sublist l → ¬ (x = a ∧ y = b) → f x y = f' x y) :
    pairSum f l + f' a b = pairSum f' l + f a b := by
  induction l with
  | nil => simp at hab
  | cons z l ih =>
    obtain ⟨hz, hl'⟩ := List.nodup_cons.mp hl
    have hrest : ∀ x y, [x, y].Sublist l → ¬ (x = a ∧ y = b) → f x y = f' x y :=
      fun x y hxy => h x y (hxy.cons z)
    cases hab with
    | cons _ hab =>
      -- The pair is behind `z`
      have hza : z ≠ a := by
        rintro rfl
        exact hz (hab.subset List.mem_cons_self)
      have hhead : l.map (f z) = l.map (f' z) := List.map_congr_left fun y hy =>
        h z y ((List.singleton_sublist.mpr hy).cons_cons z) fun heq => hza heq.1
      rw [pairSum, pairSum, hhead, add_assoc, ih hl' hab hrest, add_assoc]
    | cons_cons _ hb =>
      -- The pair starts with the head
      have hb := List.singleton_sublist.mp hb
      have htail : pairSum f l = pairSum f' l := pairSum_congr fun x y hxy =>
        hrest x y hxy fun heq => hz (heq.1 ▸ hxy.subset List.mem_cons_self)
      have hrow : (l.map (f a)).sum + f' a b = (l.map (f' a)).sum + f a b := by
        obtain ⟨l₁, l₂, rfl⟩ := List.append_of_mem hb
        have hb₁₂ : ∀ y ∈ l₁ ++ l₂, y ≠ b := by
          rintro y hy rfl
          rw [List.nodup_middle] at hl'
          exact (List.nodup_cons.mp hl').1 hy
        have hsame : ∀ y ∈ l₁ ++ l₂, f a y = f' a y := fun y hy =>
          h a y ((List.singleton_sublist.mpr (by
            simp only [List.mem_append, List.mem_cons] at hy ⊢
            tauto)).cons_cons a) fun heq => hb₁₂ y hy heq.2
        have h₁ : l₁.map (f a) = l₁.map (f' a) :=
          List.map_congr_left fun y hy => hsame y (List.mem_append_left _ hy)
        have h₂ : l₂.map (f a) = l₂.map (f' a) :=
          List.map_congr_left fun y hy => hsame y (List.mem_append_right _ hy)
        simp only [List.map_append, List.map_cons, List.sum_append, List.sum_cons, h₁, h₂]
        abel
      rw [pairSum, pairSum, htail, add_right_comm, hrow, add_right_comm]

/-- A sum of zeros is zero. -/
theorem pairSum_eq_zero {f : V → V → M} {l : List V}
    (h : ∀ x y, [x, y].Sublist l → f x y = 0) : pairSum f l = 0 := by
  induction l with
  | nil => rfl
  | cons x l ih =>
    have hhead : (l.map (f x)).sum = 0 := by
      refine List.sum_eq_zero fun m hm => ?_
      obtain ⟨y, hy, rfl⟩ := List.mem_map.mp hm
      exact h x y ((List.singleton_sublist.mpr hy).cons_cons x)
    rw [pairSum, hhead, zero_add, ih fun y z hyz => h y z (hyz.cons x)]

/-- A sum with two summands that count. -/
theorem sum_map_eq_add {f : V → M} {l : List V} (hl : l.Nodup) {a b : V} (hab : a ≠ b)
    (ha : a ∈ l) (hb : b ∈ l) (h : ∀ x ∈ l, x ≠ a → x ≠ b → f x = 0) :
    (l.map f).sum = f a + f b := by
  classical
  rw [← List.sum_toFinset f hl]
  exact Finset.sum_eq_add_of_mem a b (List.mem_toFinset.mpr ha) (List.mem_toFinset.mpr hb) hab
    fun x hx hne => h x (List.mem_toFinset.mp hx) hne.1 hne.2

end Sum

/-- Larger terms have a larger sum. -/
theorem pairSum_le_pairSum [AddCommMonoid M] [Preorder M] [AddLeftMono M]
    {f f' : V → V → M} {l : List V} (h : ∀ x y, f x y ≤ f' x y) :
    pairSum f l ≤ pairSum f' l := by
  induction l with
  | nil => exact le_refl _
  | cons x l ih => exact add_le_add (List.sum_le_sum fun y _ => h x y) ih

end ForStd
