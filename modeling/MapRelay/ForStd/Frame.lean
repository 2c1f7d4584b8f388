import Mathlib.Analysis.Convex.Segment
import Mathlib.Tactic.Linarith
import Mathlib.Tactic.Ring

/-!
# Points along and across a segment

`frame p q` gives the points of the plane coordinates along and across the segment from `p` to
`q`. In these coordinates it is easy to see where an edge of a rectangle meets the segment.
-/

namespace ForStd

variable {K : Type} [Field K]

/-- The point with the coordinates `z` along and across the segment from `p` to `q`. -/
def frame (p q : K × K) : K × K →ᵃ[K] K × K where
  toFun z := (p.1 + z.1 * (q.1 - p.1) - z.2 * (q.2 - p.2),
    p.2 + z.1 * (q.2 - p.2) + z.2 * (q.1 - p.1))
  linear :=
    { toFun := fun z => (z.1 * (q.1 - p.1) - z.2 * (q.2 - p.2),
        z.1 * (q.2 - p.2) + z.2 * (q.1 - p.1))
      map_add' := fun z w => Prod.ext (by simp; ring) (by simp; ring)
      map_smul' := fun c z => Prod.ext (by simp; ring) (by simp; ring) }
  map_vadd' z w := Prod.ext (by simp; ring) (by simp; ring)

/-- The coordinates of a point of the frame. -/
theorem frame_apply (p q : K × K) (x y : K) : frame p q (x, y) =
    (p.1 + x * (q.1 - p.1) - y * (q.2 - p.2), p.2 + x * (q.2 - p.2) + y * (q.1 - p.1)) := rfl

/-- The frame begins at its first point. -/
@[simp] theorem frame_zero (p q : K × K) : frame p q (0, 0) = p := by
  rw [frame_apply]
  exact Prod.ext (by simp) (by simp)

/-- Its unit is its second point. -/
@[simp] theorem frame_one (p q : K × K) : frame p q (1, 0) = q := by
  rw [frame_apply]
  exact Prod.ext (by simp) (by simp)

variable [LinearOrder K] [IsStrictOrderedRing K] {p q : K × K} {x y : K}

/-- The square of the distance of two points that is not zero. -/
theorem distSq_pos (h : p ≠ q) : 0 < (q.1 - p.1) ^ 2 + (q.2 - p.2) ^ 2 := by
  by_contra hle
  have h1 := sq_nonneg (q.1 - p.1)
  have h2 := sq_nonneg (q.2 - p.2)
  have hx : q.1 - p.1 = 0 := pow_eq_zero_iff (two_ne_zero) |>.mp (by linarith)
  have hy : q.2 - p.2 = 0 := pow_eq_zero_iff (two_ne_zero) |>.mp (by linarith)
  exact h (Prod.ext (by linarith) (by linarith))

/-- A frame of two points tells its points apart. -/
theorem frame_injective (h : p ≠ q) : Function.Injective (frame p q) := by
  rintro ⟨x, y⟩ ⟨x', y'⟩ heq
  obtain ⟨h1, h2⟩ := Prod.ext_iff.mp heq
  simp only [frame_apply] at h1 h2
  have hpos := distSq_pos h
  -- The two equations are solved for the differences of the coordinates
  have hx : (x - x') * ((q.1 - p.1) ^ 2 + (q.2 - p.2) ^ 2) = 0 := by
    linear_combination (q.1 - p.1) * h1 + (q.2 - p.2) * h2
  have hy : (y - y') * ((q.1 - p.1) ^ 2 + (q.2 - p.2) ^ 2) = 0 := by
    linear_combination (q.1 - p.1) * h2 - (q.2 - p.2) * h1
  exact Prod.ext (sub_eq_zero.mp ((mul_eq_zero_iff_right hpos.ne').mp hx))
    (sub_eq_zero.mp ((mul_eq_zero_iff_right hpos.ne').mp hy))

/-- The edges of a shape are looked at in the coordinates. -/
theorem inter_frame (h : p ≠ q) (a b : K × K) :
    segment K (frame p q a) (frame p q b) ∩ segment K p q =
      frame p q '' (segment K a b ∩ segment K (0, 0) (1, 0)) := by
  rw [Set.image_inter (frame_injective h), image_segment, image_segment, frame_zero, frame_one]

/-- An edge across the segment meets it in one point. -/
theorem inter_frame_across (h : p ≠ q) (hx : 0 ≤ x) (hx' : x ≤ 1) (y : K) :
    segment K (frame p q (x, y)) (frame p q (x, -y)) ∩ segment K p q = {frame p q (x, 0)} := by
  have hunit : segment K (x, y) (x, -y) ∩ segment K (0, 0) (1, 0) = {(x, 0)} := by
    rw [← Prod.image_mk_segment_right, ← Prod.image_mk_segment_left, segment_eq_Icc zero_le_one,
      segment_eq_uIcc]
    ext ⟨a, b⟩
    simp only [Set.mem_inter_iff, Set.mem_image, Set.mem_singleton_iff, Prod.mk.injEq]
    constructor
    · rintro ⟨⟨b', -, rfl, rfl⟩, a', -, rfl, hb⟩
      exact ⟨rfl, hb.symm⟩
    · rintro ⟨rfl, rfl⟩
      refine ⟨⟨0, ?_, rfl, rfl⟩, a, ⟨hx, hx'⟩, rfl, rfl⟩
      rw [Set.mem_uIcc]
      rcases le_total 0 y with hy | hy
      · exact .inr ⟨neg_nonpos.mpr hy, hy⟩
      · exact .inl ⟨hy, neg_nonneg.mpr hy⟩
  rw [inter_frame h, hunit, Set.image_singleton]

/-- An edge along the segment does not meet it. -/
theorem inter_frame_along (h : p ≠ q) (hy : y ≠ 0) (x x' : K) :
    segment K (frame p q (x, y)) (frame p q (x', y)) ∩ segment K p q = ∅ := by
  have hunit : segment K (x, y) (x', y) ∩ segment K (0, 0) (1, 0) = ∅ := by
    rw [← Prod.image_mk_segment_left, ← Prod.image_mk_segment_left]
    ext ⟨a, b⟩
    simp only [Set.mem_inter_iff, Set.mem_image, Prod.mk.injEq, Set.mem_empty_iff_false,
      iff_false]
    rintro ⟨⟨-, -, -, hb⟩, -, -, -, hb'⟩
    exact hy (hb.trans hb'.symm)
  rw [inter_frame h, hunit, Set.image_empty]

end ForStd
