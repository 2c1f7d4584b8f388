import Mathlib.Algebra.Order.Floor.Ring
import Mathlib.Tactic.Linarith
import Mathlib.Tactic.NormNum
import MapRelay.Native.SumoMap

/-!
# Which positions have the geohash 0

`geohash_fast_encode` leaves the geohash 0 for a position outside its ranges. The cell in the
south-west corner of the area has the geohash 0 as well, so that 0 does not tell the two
apart.
-/

namespace MapRelay

/-! ## Interleaving -/

/-- A round of `spread` keeps every bit that the mask lets through in its old place or in its
    new one. -/
private theorem eq_zero_of_gap {x m : BitVec 64} (n : Nat) (h : (x ||| x <<< n) &&& m = 0#64)
    (hx : x &&& (m ||| m >>> n) = x) : x = 0#64 := by
  apply BitVec.eq_of_getLsbD_eq
  intro i hi
  have hkeep : (x.getLsbD i && (m.getLsbD i || m.getLsbD (n + i))) = x.getLsbD i := by
    simpa using congrArg (·.getLsbD i) hx
  have hlow : ((x ||| x <<< n) &&& m).getLsbD i = false := by rw [h]; simp
  have hhigh : ((x ||| x <<< n) &&& m).getLsbD (n + i) = false := by rw [h]; simp
  rw [BitVec.getLsbD_zero]
  cases hxi : x.getLsbD i with
  | false => rfl
  | true =>
    have hm : m.getLsbD i = false := by simpa [hxi] using hlow
    have hmn : m.getLsbD (n + i) = true := by simpa [hxi, hm] using hkeep
    have hlt : n + i < 64 := BitVec.lt_of_getLsbD hmn
    simp only [BitVec.getLsbD_and, BitVec.getLsbD_or, BitVec.getLsbD_shiftLeft, hmn, hlt,
      Nat.add_sub_cancel_left, hxi] at hhigh
    simp at hhigh

/-- Only zero is spread to zero. -/
private theorem spread_eq_zero {x : UInt32} (h : interleave64.spread x.toUInt64 = 0) : x = 0 := by
  have h := congrArg UInt64.toBitVec h
  simp only [interleave64.spread, UInt64.toBitVec_and, UInt64.toBitVec_or,
    UInt64.toBitVec_shiftLeft] at h
  -- The rounds are undone, the last one first
  have h := eq_zero_of_gap 1 h (by rw [BitVec.and_assoc]; rfl)
  have h := eq_zero_of_gap 2 h (by rw [BitVec.and_assoc]; rfl)
  have h := eq_zero_of_gap 4 h (by rw [BitVec.and_assoc]; rfl)
  have h := eq_zero_of_gap 8 h (by rw [BitVec.and_assoc]; rfl)
  have hlow : x.toUInt64.toBitVec &&& 0x0000FFFFFFFFFFFF#64 = x.toUInt64.toBitVec := by
    apply BitVec.eq_of_toNat_eq
    have hx := x.toNat_lt
    rw [BitVec.toNat_and, UInt64.toNat_toBitVec, UInt32.toNat_toUInt64]
    exact Nat.and_two_pow_sub_one_of_lt_two_pow (n := 48) (by omega)
  have h := eq_zero_of_gap 16 h hlow
  have hnat := congrArg BitVec.toNat h
  rw [UInt64.toNat_toBitVec, UInt32.toNat_toUInt64] at hnat
  exact UInt32.toNat_inj.mp hnat

/-- `spread` only leaves bits in even positions, so that none is lost in the shift by one. -/
private theorem spread_shift_eq_zero {x : UInt64} (h : interleave64.spread x <<< 1 = 0) :
    interleave64.spread x = 0 := by
  apply UInt64.toBitVec_inj.mp
  have hshift := congrArg UInt64.toBitVec h
  rw [UInt64.toBitVec_shiftLeft] at hshift
  refine eq_zero_of_gap (m := 0xaaaaaaaaaaaaaaaa#64) 1 ?_ ?_
  · have hodd : (interleave64.spread x).toBitVec &&& 0xaaaaaaaaaaaaaaaa#64 = 0#64 := by
      simp only [interleave64.spread, UInt64.toBitVec_and, BitVec.and_assoc]
      exact BitVec.and_zero
    have hzero : (interleave64.spread x).toBitVec <<< 1 = 0#64 := hshift
    rw [hzero, BitVec.or_zero, hodd]
  · exact BitVec.and_allOnes

/-- A geohash is zero exactly if both its numbers are. -/
private theorem interleave64_eq_zero_iff {x y : UInt32} : interleave64 x y = 0 ↔ x = 0 ∧ y = 0 := by
  constructor
  · intro h
    obtain ⟨hx, hy⟩ := UInt64.or_eq_zero_iff.mp h
    exact ⟨spread_eq_zero hx, spread_eq_zero (spread_shift_eq_zero hy)⟩
  · rintro ⟨rfl, rfl⟩
    rfl

/-! ## Positions -/

section Encode

variable {K : Type} [Field K] [LinearOrder K] [IsStrictOrderedRing K] [FloorRing K]

/-- A number is cut to zero exactly below one. -/
private theorem truncUInt32_eq_zero_iff {x : K} (h₀ : 0 ≤ x) (h₁ : x ≤ 4096) :
    truncUInt32 x = 0 ↔ x < 1 := by
  have hfloor : 0 ≤ ⌊x⌋ := Int.floor_nonneg.mpr h₀
  have hlt : ⌊x⌋ < 4097 := by
    rw [Int.floor_lt]
    push_cast
    linarith
  have hnat : (UInt32.ofNat ⌊x⌋.toNat).toNat = ⌊x⌋.toNat :=
    UInt32.toNat_ofNat_of_lt' (by simp only [UInt32.size]; omega)
  have hzero : ⌊x⌋ = 0 ↔ x < 1 := by
    rw [Int.floor_eq_zero_iff]
    exact ⟨fun h => h.2, fun h => ⟨h₀, h⟩⟩
  rw [truncUInt32, if_pos h₀, ← UInt32.toNat_inj, hnat, ← hzero, UInt32.toNat_zero]
  omega

/-- The offset of a value in a range, scaled to `0 … 4096`, is below 1 exactly for the first
    of 4096 parts of the range. -/
private theorem offset_lt_one_iff {min max x : K} (hrange : min < max) :
    (x - min) / (max - min) * 4096 < 1 ↔ x < min + (max - min) / 4096 := by
  have hpos : 0 < max - min := sub_pos.mpr hrange
  rw [← lt_div_iff₀ (by norm_num), div_lt_iff₀ hpos, sub_lt_iff_lt_add']
  rw [one_div_mul_eq_div]

/-- A position of the area is at 0 to 4096 cells. -/
theorem offset_mem {min max x : K} (hrange : min < max) (h₀ : min ≤ x) (h₁ : x ≤ max) :
    0 ≤ (x - min) / (max - min) * 4096 ∧ (x - min) / (max - min) * 4096 ≤ 4096 := by
  have hpos : 0 < max - min := sub_pos.mpr hrange
  have hlow : 0 ≤ (x - min) / (max - min) := div_nonneg (sub_nonneg.mpr h₀) hpos.le
  have hhigh : (x - min) / (max - min) ≤ 1 := (div_le_one hpos).mpr (by linarith)
  constructor <;> nlinarith

/-- The position is in the area. -/
def InArea (latRange lonRange : GeoHashRange K) (latitude longitude : K) : Prop :=
  latRange.min ≤ latitude ∧ latitude ≤ latRange.max ∧
    lonRange.min ≤ longitude ∧ longitude ≤ lonRange.max

/-- The position is south and west of the end of the first of the 4096 rows and columns. -/
def InFirstCell (latRange lonRange : GeoHashRange K) (latitude longitude : K) : Prop :=
  latitude < latRange.min + (latRange.max - latRange.min) / 4096 ∧
    longitude < lonRange.min + (lonRange.max - lonRange.min) / 4096

/-- The geohash is 0 exactly outside the area and in its first cell. -/
theorem geohashFastEncode_bits_eq_zero_iff {latRange lonRange : GeoHashRange K}
    (hlat : latRange.min < latRange.max) (hlon : lonRange.min < lonRange.max)
    (latitude longitude : K) (hash : GeoHashBits) :
    (geohashFastEncode latRange lonRange latitude longitude geohashStepBit hash).2.bits = 0 ↔
      ¬ InArea latRange lonRange latitude longitude ∨
        InFirstCell latRange lonRange latitude longitude := by
  have hstep : ¬ (geohashStepBit > 32 ∨ geohashStepBit = 0) := by decide
  have hscale : (2 ^ geohashStepBit.toNat : K) = 4096 := by
    show (2 ^ 12 : K) = 4096
    norm_num
  rw [geohashFastEncode, if_neg hstep]
  by_cases harea : InArea latRange lonRange latitude longitude
  · -- Inside, a hash of zero means that both offsets are below one
    obtain ⟨h₁, h₂, h₃, h₄⟩ := harea
    have hin : ¬ (latitude < latRange.min ∨ latitude > latRange.max ∨
        longitude < lonRange.min ∨ longitude > lonRange.max) := by
      simp only [not_or, not_lt]
      exact ⟨h₁, h₂, h₃, h₄⟩
    obtain ⟨hlat₀, hlat₁⟩ := offset_mem hlat h₁ h₂
    obtain ⟨hlon₀, hlon₁⟩ := offset_mem hlon h₃ h₄
    rw [if_neg hin]
    dsimp only
    rw [hscale, interleave64_eq_zero_iff, truncUInt32_eq_zero_iff hlat₀ hlat₁,
      truncUInt32_eq_zero_iff hlon₀ hlon₁, offset_lt_one_iff hlat, offset_lt_one_iff hlon]
    exact ⟨.inr, fun h => h.resolve_left (not_not_intro ⟨h₁, h₂, h₃, h₄⟩)⟩
  · have hout : latitude < latRange.min ∨ latitude > latRange.max ∨
        longitude < lonRange.min ∨ longitude > lonRange.max := by
      by_contra hin
      simp only [not_or, not_lt] at hin
      exact harea ⟨hin.1, hin.2.1, hin.2.2.1, hin.2.2.2⟩
    rw [if_pos hout]
    exact iff_of_true rfl (.inl harea)

end Encode

namespace NS3

variable {K : Type} [Field K] [LinearOrder K] [IsStrictOrderedRing K] [FloorRing K]

/-- The same for the position of a vehicle in the net. -/
theorem sumoCartesian2Geohash_eq_zero_iff (env : SumoEnv K) (x y : K) :
    sumoCartesian2Geohash env x y = 0 ↔
      ¬ InArea latRangeConst lonRangeConst (sumoCartesian2GPS env x y).2
          (sumoCartesian2GPS env x y).1 ∨
        InFirstCell latRangeConst lonRangeConst (sumoCartesian2GPS env x y).2
          (sumoCartesian2GPS env x y).1 := by
  have hlat : (latRangeConst : GeoHashRange K).min < latRangeConst.max := by
    show (3974732 / 100000 : K) < 4015929 / 100000
    norm_num
  have hlon : (lonRangeConst : GeoHashRange K).min < lonRangeConst.max := by
    show (11616677 / 100000 : K) < 11673407 / 100000
    norm_num
  exact geohashFastEncode_bits_eq_zero_iff hlat hlon _ _ _

end NS3

end MapRelay
