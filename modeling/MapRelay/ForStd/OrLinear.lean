/-!
# Bit-parallel maps

A map of words that is put together from shifts, masks and `|||` treats every bit by itself: its
value is the union of what it makes of the single bits of its argument. Such a map is known from
its values at the powers of two.
-/

namespace ForStd

variable {w v u : Nat}

/-- The map commutes with `|||`. -/
structure OrLinear (f : BitVec w → BitVec v) : Prop where
  zero : f 0#w = 0#v
  or : ∀ x y, f (x ||| y) = f x ||| f y

namespace OrLinear

variable {f g : BitVec w → BitVec v}

protected theorem id : OrLinear (fun x : BitVec w => x) := ⟨rfl, fun _ _ => rfl⟩

/-- Two such functions may be combined by disjunction. -/
theorem union (hf : OrLinear f) (hg : OrLinear g) : OrLinear (fun x => f x ||| g x) where
  zero := by rw [hf.zero, hg.zero, BitVec.or_zero]
  or x y := by
    rw [hf.or, hg.or]
    ac_rfl

/-- Bits may be masked out. -/
theorem mask (hf : OrLinear f) (m : BitVec v) : OrLinear (fun x => f x &&& m) where
  zero := by rw [hf.zero, BitVec.zero_and]
  or x y := by
    rw [hf.or]
    ext i
    simp only [BitVec.getElem_and, BitVec.getElem_or, Bool.and_or_distrib_right]

/-- Bits may be shifted to the left. -/
theorem shiftLeft (hf : OrLinear f) (n : Nat) : OrLinear (fun x => f x <<< n) where
  zero := by rw [hf.zero, BitVec.zero_shiftLeft]
  or x y := by rw [hf.or, BitVec.shiftLeft_or_distrib]

/-- Bits may be shifted to the right. -/
theorem shiftRight (hf : OrLinear f) (n : Nat) : OrLinear (fun x => f x >>> n) where
  zero := by rw [hf.zero, BitVec.zero_ushiftRight]
  or x y := by rw [hf.or, BitVec.ushiftRight_or_distrib]

/-- A bit of the value comes from a bit of the argument. -/
theorem getLsbD_iff (hf : OrLinear f) (x : BitVec w) (j : Nat) :
    (f x).getLsbD j = true ↔
      ∃ i, i < w ∧ x.getLsbD i = true ∧ (f (BitVec.twoPow w i)).getLsbD j = true := by
  -- The lowest `k` bits only
  suffices h : ∀ k, (f ((x.setWidth k).setWidth w)).getLsbD j = true ↔
      ∃ i, i < k ∧ x.getLsbD i = true ∧ (f (BitVec.twoPow w i)).getLsbD j = true by
    have := h w
    rwa [BitVec.setWidth_eq, BitVec.setWidth_eq] at this
  intro k
  induction k with
  | zero =>
    have hnone : (x.setWidth 0).setWidth w = 0#w := by ext i; simp
    rw [hnone, hf.zero]
    simp
  | succ k ih =>
    cases hk : x.getLsbD k with
    | false =>
      rw [BitVec.setWidth_setWidth_succ_eq_setWidth_setWidth_of_getLsbD_false hk, ih]
      constructor
      · rintro ⟨i, hi, hx⟩
        exact ⟨i, Nat.lt_succ_of_lt hi, hx⟩
      · rintro ⟨i, hi, hx⟩
        have hne : i ≠ k := fun h => by simp [h, hk] at hx
        exact ⟨i, by omega, hx⟩
    | true =>
      rw [BitVec.setWidth_setWidth_succ_eq_setWidth_setWidth_or_twoPow_of_getLsbD_true hk, hf.or,
        BitVec.getLsbD_or, Bool.or_eq_true, ih]
      constructor
      · rintro (⟨i, hi, hx⟩ | hx)
        · exact ⟨i, Nat.lt_succ_of_lt hi, hx⟩
        · exact ⟨k, Nat.lt_succ_self k, hk, hx⟩
      · rintro ⟨i, hi, hx⟩
        rcases Nat.lt_succ_iff_lt_or_eq.mp hi with hi | rfl
        · exact .inl ⟨i, hi, hx⟩
        · exact .inr hx.2

end OrLinear

end ForStd
