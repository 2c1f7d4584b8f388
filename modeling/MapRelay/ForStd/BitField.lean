import Mathlib.Algebra.Group.Nat.Defs

/-!
# Bit fields of a 16-bit word

A word is made of fields by `or`, each a value under a mask and shifted to its place, and a
field is taken out of it by shifting back and masking. What is taken out is what was put in,
and the other fields do not show, because their masks do not overlap.
-/

namespace ForStd

/-- A value in its place in a word: the bits under `mask`, moved up by `shift`. -/
def place (x mask shift : UInt16) : UInt16 := (x <<< shift) &&& (mask <<< shift)

/-- The value in a place of a word. -/
def extract (word mask shift : UInt16) : UInt16 := (word >>> shift) &&& mask

variable {a b x mask mask' shift shift' : UInt16}

/-- A field of a disjunction. -/
theorem extract_or (a b mask shift : UInt16) :
    extract (a ||| b) mask shift = extract a mask shift ||| extract b mask shift := by
  apply UInt16.toBitVec_inj.mp
  simp [extract, BitVec.ushiftRight_or_distrib, BitVec.and_or_distrib_right]

/-- The mask of the other field, seen from this one, is empty. -/
theorem extract_place_disjoint (x : UInt16) (h : (mask <<< shift) >>> shift' &&& mask' = 0) :
    extract (place x mask shift) mask' shift' = 0 := by
  unfold extract place
  rw [UInt16.shiftRight_and, UInt16.and_assoc, h, UInt16.and_zero]

/-- Shifting up and down again keeps the bits under a mask that it keeps. -/
theorem shift_shift_of_mask (hx : x &&& mask = x) (hmask : (mask <<< shift) >>> shift = mask) :
    (x <<< shift) >>> shift = x := by
  apply UInt16.toBitVec_inj.mp
  have hx := congrArg UInt16.toBitVec hx
  have hmask := congrArg UInt16.toBitVec hmask
  simp only [UInt16.toBitVec_and, UInt16.toBitVec_shiftLeft, UInt16.toBitVec_shiftRight,
    BitVec.shiftLeft_eq', BitVec.ushiftRight_eq'] at hx hmask ⊢
  generalize (shift.toBitVec % 16).toNat = n at hmask ⊢
  apply BitVec.eq_of_getLsbD_eq
  intro i hi
  have hxi := congrArg (·.getLsbD i) hx
  have hmi := congrArg (·.getLsbD i) hmask
  simp only [BitVec.getLsbD_and, BitVec.getLsbD_ushiftRight, BitVec.getLsbD_shiftLeft] at hxi hmi ⊢
  -- A bit that is set is under the mask, and so it is not shifted out
  cases hbit : x.toBitVec.getLsbD i with
  | false => simp [hbit]
  | true =>
    rw [hbit, Bool.true_and] at hxi
    rw [hxi] at hmi
    simp [hbit] at hmi ⊢
    exact hmi.1

/-- A value in range is taken out as it was put in. -/
theorem extract_place_self (hx : x &&& mask = x) (hmask : (mask <<< shift) >>> shift = mask) :
    extract (place x mask shift) mask shift = x := by
  unfold extract place
  rw [UInt16.shiftRight_and, hmask, UInt16.and_assoc, UInt16.and_self,
    shift_shift_of_mask hx hmask, hx]

/-- A value in range needs no mask. -/
theorem shiftLeft_eq_place (hx : x &&& mask = x) : x <<< shift = place x mask shift := by
  unfold place
  rw [← UInt16.shiftLeft_and, hx]

/-- The values in range are those below a power of two. -/
theorem and_mask_of_lt {k : Nat} (hx : x.toNat < 2 ^ k) (hmask : mask.toNat = 2 ^ k - 1) :
    x &&& mask = x := by
  apply UInt16.toNat_inj.mp
  rw [UInt16.toNat_and, hmask]
  exact Nat.and_two_pow_sub_one_of_lt_two_pow hx

end ForStd
