import Mathlib.Order.Defs.PartialOrder
import Mathlib.Data.List.Nodup

/-!
# Walks that descend to a goal

A greedy walk goes from each place to one of lower rank, or straight to its goal, where it
ends. It visits no place twice.
-/

namespace ForStd

variable {ν κ : Type} [Preorder κ]

/-- The places of a walk, the last one first: every step goes to a place of lower rank or to
    the goal, and no step leaves the goal. -/
def Descends (rank : ν → κ) (goal : ν) : List ν → Prop
  | [] => True
  | [_] => True
  | y :: x :: l => (y = goal ∨ rank y < rank x) ∧ x ≠ goal ∧ Descends rank goal (x :: l)

namespace Descends

variable {rank : ν → κ} {goal x y : ν} {l : List ν}

/-- A walk goes on from a place that is not the goal. -/
theorem cons (h : Descends rank goal (x :: l)) (hx : x ≠ goal)
    (hy : y = goal ∨ rank y < rank x) : Descends rank goal (y :: x :: l) := ⟨hy, hx, h⟩

/-- Short of the goal, the walk is below all places that it has left. -/
theorem rank_lt (h : Descends rank goal (x :: l)) (hx : x ≠ goal) :
    ∀ z ∈ l, z ≠ goal ∧ rank x < rank z := by
  induction l generalizing x with
  | nil => simp
  | cons y l ih =>
    obtain ⟨hxy, hy, hrest⟩ := h
    have hlt : rank x < rank y := hxy.resolve_left hx
    intro z hz
    rcases List.mem_cons.mp hz with rfl | hz
    · exact ⟨hy, hlt⟩
    · obtain ⟨hgoal, hyz⟩ := ih hrest hy z hz
      exact ⟨hgoal, lt_trans hlt hyz⟩

/-- A descending list has no duplicates. -/
theorem nodup : ∀ {l : List ν}, Descends rank goal l → l.Nodup
  | [], _ => List.nodup_nil
  | [_], _ => List.nodup_singleton _
  | y :: x :: l, ⟨hyx, hx, hrest⟩ => by
    refine List.nodup_cons.mpr ⟨fun hmem => ?_, hrest.nodup⟩
    by_cases hy : y = goal
    · -- The walk has not left the goal before
      subst hy
      rcases List.mem_cons.mp hmem with heq | hmem
      · exact hx heq.symm
      · exact (hrest.rank_lt hx y hmem).1 rfl
    · have hlt : rank y < rank x := hyx.resolve_left hy
      rcases List.mem_cons.mp hmem with rfl | hmem
      · exact lt_irrefl _ hlt
      · exact lt_irrefl _ (lt_trans hlt (hrest.rank_lt hx y hmem).2)

end Descends

end ForStd
