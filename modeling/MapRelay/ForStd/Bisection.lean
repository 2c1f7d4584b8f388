import Mathlib.Algebra.Order.Field.Basic
import Mathlib.Algebra.Order.Floor.Ring
import Mathlib.Tactic.FieldSimp
import Mathlib.Tactic.Linarith
import Mathlib.Tactic.Positivity
import Mathlib.Tactic.Ring

/-!
# Bisection of a range

A range is cut into `2 ^ n` equal parts by `n` rounds of halving. A value lies in the part that the
rounds lead to; whether a border belongs to the part below it or to the one above is a matter of
the comparison that the rounds make, so that there are two numbers of a part for a value. They
differ exactly on the borders.
-/

namespace ForStd.Bisection

variable {K : Type} [Field K] [LinearOrder K] [IsStrictOrderedRing K] {lo hi x : K} {n k m : Nat}

/-- The lower border of the part with the number `k` of `2 ^ n` parts. -/
def border (lo hi : K) (n k : Nat) : K := lo + (k : K) / 2 ^ n * (hi - lo)

omit [LinearOrder K] [IsStrictOrderedRing K] in
/-- The first part begins with the range. -/
theorem border_zero (lo hi : K) (n : Nat) : border lo hi n 0 = lo := by simp [border]

omit [LinearOrder K] [IsStrictOrderedRing K] in
/-- The undivided range is one part. -/
theorem border_one (lo hi : K) : border lo hi 0 1 = hi := by simp [border]

/-- The last part ends with the range. -/
theorem border_two_pow (lo hi : K) (n : Nat) : border lo hi n (2 ^ n) = hi := by
  have hpos : (2 : K) ^ n ≠ 0 := by positivity
  simp [border, hpos]

/-- The borders of a level are borders of the next one. -/
theorem border_succ_two_mul (lo hi : K) (n k : Nat) :
    border lo hi (n + 1) (2 * k) = border lo hi n k := by
  have hpos : (2 : K) ^ n ≠ 0 := by positivity
  simp only [border, pow_succ]
  push_cast
  field_simp

/-- The middle of a part. -/
theorem border_mid (lo hi : K) (n k : Nat) :
    (border lo hi n (k + 1) + border lo hi n k) / 2 = border lo hi (n + 1) (2 * k + 1) := by
  have hpos : (2 : K) ^ n ≠ 0 := by positivity
  simp only [border, pow_succ]
  push_cast
  field_simp
  ring

/-- The borders are in the order of their numbers. -/
theorem border_lt_iff (h : lo < hi) : border lo hi n k < border lo hi n m ↔ k < m := by
  have hscale : 0 < hi - lo := sub_pos.mpr h
  have hpos : (0 : K) < 2 ^ n := by positivity
  rw [border, border, add_lt_add_iff_left, mul_lt_mul_iff_left₀ hscale,
    div_lt_div_iff_of_pos_right hpos, Nat.cast_lt]

/-- The borders are in the order of their numbers, with equality for equal ones. -/
theorem border_le_iff (h : lo < hi) : border lo hi n k ≤ border lo hi n m ↔ k ≤ m := by
  rw [← not_lt, border_lt_iff h, not_lt]

/-- Different borders are at different places. -/
theorem border_inj (h : lo < hi) : border lo hi n k = border lo hi n m ↔ k = m := by
  rw [le_antisymm_iff, border_le_iff h, border_le_iff h, ← Nat.le_antisymm_iff]

/-! ## The two numbers of a value -/

/-- The part with its upper border, in which the value lies. The first part has its lower border
    as well. -/
structure InPart (lo hi : K) (n k : Nat) (x : K) : Prop where
  above : border lo hi n k < x ∨ k = 0 ∧ x = lo
  le : x ≤ border lo hi n (k + 1)

/-- The part with its lower border, in which the value lies. -/
structure FromPart (lo hi : K) (n k : Nat) (x : K) : Prop where
  le : border lo hi n k ≤ x
  below : x < border lo hi n (k + 1)

omit [IsStrictOrderedRing K] in
/-- A value is not below the lower border of its part. -/
theorem InPart.border_le (h : InPart lo hi n k x) : border lo hi n k ≤ x := by
  cases h.above with
  | inl hlt => exact hlt.le
  | inr heq => rw [heq.1, heq.2, border_zero]

omit [IsStrictOrderedRing K] in
/-- The whole range, before the first round. -/
theorem inPart_zero (h₀ : lo ≤ x) (h₁ : x ≤ hi) : InPart lo hi 0 0 x where
  above := by
    rw [border_zero]
    exact h₀.lt_or_eq.imp_right fun h => ⟨rfl, h.symm⟩
  le := by rwa [Nat.zero_add, border_one]

/-- A value up to the middle is in the lower half. -/
theorem InPart.lower (h : InPart lo hi n k x) (hmid : x ≤ border lo hi (n + 1) (2 * k + 1)) :
    InPart lo hi (n + 1) (2 * k) x where
  above := by
    rw [border_succ_two_mul]
    exact h.above.imp_right fun heq => ⟨by rw [heq.1], heq.2⟩
  le := hmid

/-- A value above the middle is in the upper half. -/
theorem InPart.upper (h : InPart lo hi n k x) (hmid : border lo hi (n + 1) (2 * k + 1) < x) :
    InPart lo hi (n + 1) (2 * k + 1) x where
  above := .inl hmid
  le := by
    rw [show 2 * k + 1 + 1 = 2 * (k + 1) by ring, border_succ_two_mul]
    exact h.le

/-- A value of the range is in one of the `2 ^ n` parts. -/
theorem InPart.lt_two_pow (h : InPart lo hi n k x) (hlt : lo < hi) (hx : x ≤ hi) : k < 2 ^ n := by
  cases h.above with
  | inl habove =>
    rw [← border_lt_iff hlt, border_two_pow]
    exact lt_of_lt_of_le habove hx
  | inr heq =>
    rw [heq.1]
    exact Nat.two_pow_pos n

/-- Of two parts that a value is in, neither is behind the other. -/
theorem InPart.le_of_inPart (h : InPart lo hi n k x) (h' : InPart lo hi n m x) (hlt : lo < hi) :
    k ≤ m := by
  cases h.above with
  | inl habove =>
    have hborder := lt_of_lt_of_le habove h'.le
    rw [border_lt_iff hlt] at hborder
    omega
  | inr heq => omega

/-- A value is in one part only. -/
theorem InPart.unique (h : InPart lo hi n k x) (h' : InPart lo hi n m x) (hlt : lo < hi) :
    k = m :=
  Nat.le_antisymm (h.le_of_inPart h' hlt) (h'.le_of_inPart h hlt)

/-- The numbers that more rounds lead to begin with the digits of those that fewer lead to. -/
theorem InPart.half (h : InPart lo hi (n + 1) k x) (hlt : lo < hi) : InPart lo hi n (k / 2) x where
  above := by
    cases h.above with
    | inl habove =>
      apply Or.inl
      apply lt_of_le_of_lt _ habove
      rw [← border_succ_two_mul, border_le_iff hlt]
      omega
    | inr heq => exact .inr ⟨by omega, heq.2⟩
  le := by
    apply h.le.trans
    rw [← border_succ_two_mul lo hi n, border_le_iff hlt]
    omega

/-- The part of a coarser level has the leading bits of the number. -/
theorem InPart.shift (h : InPart lo hi (n + m) k x) (hlt : lo < hi) :
    InPart lo hi n (k / 2 ^ m) x := by
  induction m generalizing k with
  | zero =>
    rw [Nat.pow_zero, Nat.div_one]
    exact h
  | succ m ih =>
    rw [Nat.pow_succ, Nat.mul_comm, ← Nat.div_div_eq_div_mul]
    exact ih (h.half hlt)

/-- The same for one level, of the parts with their lower borders. -/
theorem FromPart.half (h : FromPart lo hi (n + 1) k x) (hlt : lo < hi) :
    FromPart lo hi n (k / 2) x where
  le := by
    apply le_trans _ h.le
    rw [← border_succ_two_mul, border_le_iff hlt]
    omega
  below := by
    apply lt_of_lt_of_le h.below
    rw [← border_succ_two_mul lo hi n, border_le_iff hlt]
    omega

/-- The part of a coarser level has the leading bits of the number. -/
theorem FromPart.shift (h : FromPart lo hi (n + m) k x) (hlt : lo < hi) :
    FromPart lo hi n (k / 2 ^ m) x := by
  induction m generalizing k with
  | zero =>
    rw [Nat.pow_zero, Nat.div_one]
    exact h
  | succ m ih =>
    rw [Nat.pow_succ, Nat.mul_comm, ← Nat.div_div_eq_div_mul]
    exact ih (h.half hlt)

/-- A value is in one part only. -/
theorem FromPart.unique (h : FromPart lo hi n k x) (h' : FromPart lo hi n m x) (hlt : lo < hi) :
    k = m := by
  have hle := lt_of_le_of_lt h.le h'.below
  have hge := lt_of_le_of_lt h'.le h.below
  rw [border_lt_iff hlt] at hle hge
  omega

/-- The number of the part is the integer part of the offset. -/
theorem fromPart_floor [FloorRing K] (hlt : lo < hi) (h₀ : lo ≤ x) :
    FromPart lo hi n ⌊(x - lo) / (hi - lo) * 2 ^ n⌋.toNat x := by
  have hscale : 0 < hi - lo := sub_pos.mpr hlt
  have hpos : (0 : K) < 2 ^ n := by positivity
  have hoffset : 0 ≤ (x - lo) / (hi - lo) * 2 ^ n := by
    have := sub_nonneg.mpr h₀
    positivity
  have hcast : ((⌊(x - lo) / (hi - lo) * 2 ^ n⌋.toNat : Nat) : K) =
      (⌊(x - lo) / (hi - lo) * 2 ^ n⌋ : Int) := by
    rw [← Int.cast_natCast, Int.toNat_of_nonneg (Int.floor_nonneg.mpr hoffset)]
  -- The offset of `x`, scaled back
  have hback : x = lo + (x - lo) / (hi - lo) * 2 ^ n / 2 ^ n * (hi - lo) := by
    field_simp
    ring
  constructor
  · rw [border, hcast]
    conv => rhs; rw [hback]
    gcongr
    exact Int.floor_le _
  · rw [border, Nat.cast_add, hcast, Nat.cast_one]
    conv => lhs; rw [hback]
    gcongr
    exact Int.lt_floor_add_one _

/-- The two numbers of a value are the same, unless it lies on a border. -/
theorem InPart.eq_iff (h : InPart lo hi n k x) (h' : FromPart lo hi n m x) (hlt : lo < hi) :
    k = m ↔ ¬∃ j, 0 < j ∧ x = border lo hi n j := by
  constructor
  · rintro rfl ⟨j, hj, rfl⟩
    have hlow := h'.below
    rw [border_lt_iff hlt] at hlow
    cases h.above with
    | inl habove =>
      rw [border_lt_iff hlt] at habove
      omega
    | inr heq => omega
  · intro hborder
    -- Off the borders the part with the number `m` has the value inside
    have hpart : InPart lo hi n m x := by
      refine ⟨?_, h'.below.le⟩
      cases h'.le.lt_or_eq with
      | inl habove => exact .inl habove
      | inr heq =>
        cases Nat.eq_zero_or_pos m with
        | inl hzero => exact .inr ⟨hzero, by rw [← heq, hzero, border_zero]⟩
        | inr hpos => exact absurd ⟨m, hpos, heq.symm⟩ hborder
    exact h.unique hpart hlt

end ForStd.Bisection
