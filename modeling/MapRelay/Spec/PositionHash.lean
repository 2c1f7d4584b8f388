import Mathlib.Data.Rat.Floor
import MapRelay.Spec.Geohash
import MapRelay.Spec.GeohashCells

/-!
# Which positions get a sound geohash

The cell that a geohash decodes to contains the position it was made from. The geohash has the
24 bits of its step except on the upper borders of the area, and it is not 0 except in the first
cell, so that it is sound on the area without these.
-/

namespace MapRelay

open ForStd.Morton

section Encode

variable {K : Type} [Field K] [LinearOrder K] [IsStrictOrderedRing K] [FloorRing K]

/-- The part of a range in which `x` lies, of 4096 parts, counted from 0. -/
def part (range : GeoHashRange K) (x : K) : UInt32 :=
  truncUInt32 ((x - range.min) / (range.max - range.min) * 4096)

variable {range : GeoHashRange K} {x : K}

/-- The number of a part, and that it is 4096 at most. -/
private theorem toNat_part (hrange : range.min < range.max) (h₀ : range.min ≤ x)
    (h₁ : x ≤ range.max) :
    ((part range x).toNat : Int) = ⌊(x - range.min) / (range.max - range.min) * 4096⌋ ∧
      (part range x).toNat ≤ 4096 := by
  obtain ⟨hpos, hle⟩ := offset_mem hrange h₀ h₁
  have hfloor := Int.floor_nonneg.mpr hpos
  have hlt : ⌊(x - range.min) / (range.max - range.min) * 4096⌋ < 4097 := by
    rw [Int.floor_lt]
    push_cast
    linarith
  rw [part, truncUInt32, if_pos hpos, UInt32.toNat_ofNat_of_lt' (by simp only [UInt32.size]; omega)]
  omega

/-- The part with the number 4096 begins at the end of the range. -/
private theorem part_lt_iff (hrange : range.min < range.max) (h₀ : range.min ≤ x)
    (h₁ : x ≤ range.max) :
    (part range x).toNat < 4096 ↔ x < range.max := by
  have hscale : 0 < range.max - range.min := sub_pos.mpr hrange
  have hcast : (part range x).toNat < 4096 ↔
      ⌊(x - range.min) / (range.max - range.min) * 4096⌋ < 4096 := by
    rw [← (toNat_part hrange h₀ h₁).1]
    omega
  -- Only at the end of the range the offset is 1
  have hlt : (x - range.min) / (range.max - range.min) * 4096 < 4096 ↔
      (x - range.min) / (range.max - range.min) < 1 := by
    constructor <;> intro h <;> linarith
  rw [hcast, Int.floor_lt]
  push_cast
  rw [hlt, div_lt_one hscale, sub_lt_sub_iff_right]

/-- The range of a part contains what lies in the part. -/
private theorem mem_decodeRange (hrange : range.min < range.max) (h₀ : range.min ≤ x)
    (h₁ : x ≤ range.max) :
    (decodeRange range (part range x) geohashStepBit).min ≤ x ∧
      x ≤ (decodeRange range (part range x) geohashStepBit).max := by
  have hscale : 0 < range.max - range.min := sub_pos.mpr hrange
  obtain ⟨hcast, hle⟩ := toNat_part hrange h₀ h₁
  -- The number of the next part does not wrap
  have hnext : (part range x + 1).toNat = (part range x).toNat + 1 := by
    rw [UInt32.toNat_add, UInt32.toNat_one, Nat.mod_eq_of_lt (by omega)]
  have hstep : (2 ^ geohashStepBit.toNat : K) = 4096 := by
    show (2 ^ 12 : K) = 4096
    norm_num
  have hofInt : ((part range x).toNat : K) =
      (⌊(x - range.min) / (range.max - range.min) * 4096⌋ : Int) := by
    rw [← hcast, Int.cast_natCast]
  -- The offset of `x` lies between the borders of its part, and so does `x` when it is scaled back
  have hfloor := Int.floor_le ((x - range.min) / (range.max - range.min) * 4096)
  have hceil := Int.lt_floor_add_one ((x - range.min) / (range.max - range.min) * 4096)
  have hback : (x - range.min) / (range.max - range.min) * (range.max - range.min) =
      x - range.min := div_mul_cancel₀ _ hscale.ne'
  have hlow : (⌊(x - range.min) / (range.max - range.min) * 4096⌋ : K) / 4096 ≤
      (x - range.min) / (range.max - range.min) := by
    rwa [div_le_iff₀ (by norm_num)]
  have hhigh : (x - range.min) / (range.max - range.min) ≤
      ((⌊(x - range.min) / (range.max - range.min) * 4096⌋ : K) + 1) / 4096 := by
    rw [le_div_iff₀ (by norm_num)]
    exact hceil.le
  have hlow := mul_le_mul_of_nonneg_right hlow hscale.le
  have hhigh := mul_le_mul_of_nonneg_right hhigh hscale.le
  rw [hback] at hlow hhigh
  simp only [decodeRange, hnext, hstep, Nat.cast_add, Nat.cast_one, hofInt]
  exact ⟨by linarith, by linarith⟩

/-- The position lies in the area, borders included. -/
def GeoHashArea.Contains (area : GeoHashArea K) (latitude longitude : K) : Prop :=
  InArea area.latitude area.longitude latitude longitude

/-- The geohash has the bits of its step, is not the 0 that stands for an unknown position, and
    its cell contains the position. -/
structure SoundHash (latRange lonRange : GeoHashRange K) (latitude longitude : K)
    (bits : UInt64) : Prop where
  fits : bits.toNat < 2 ^ (2 * geohashStepBit.toNat)
  ne_zero : bits ≠ 0
  contains : (geohashFastDecode latRange lonRange ⟨bits, geohashStepBit⟩).Contains latitude
    longitude

variable {latRange lonRange : GeoHashRange K} {latitude longitude : K}

omit [IsStrictOrderedRing K] in
/-- In the area the hash has the numbers of the two parts. -/
private theorem geohashFastEncode_of_inArea (h : InArea latRange lonRange latitude longitude)
    (hash : GeoHashBits) :
    (geohashFastEncode latRange lonRange latitude longitude geohashStepBit hash).2.bits =
      interleave64 (part latRange latitude) (part lonRange longitude) := by
  obtain ⟨h₁, h₂, h₃, h₄⟩ := h
  have hstep : ¬(geohashStepBit > 32 ∨ geohashStepBit = 0) := by decide
  have hin : ¬(latitude < latRange.min ∨ latitude > latRange.max ∨
      longitude < lonRange.min ∨ longitude > lonRange.max) := by
    simp only [not_or, not_lt]
    exact ⟨h₁, h₂, h₃, h₄⟩
  have hscale : (2 ^ geohashStepBit.toNat : K) = 4096 := by
    show (2 ^ 12 : K) = 4096
    norm_num
  rw [geohashFastEncode, if_neg hstep, if_neg hin]
  simp only [hscale, part]

/-- A geohash has 24 bits exactly if both parts have 12. -/
private theorem interleave64_lt_iff (a c : UInt32) :
    (interleave64 a c).toNat < 2 ^ 24 ↔ a.toNat < 4096 ∧ c.toNat < 4096 := by
  have hbits := toNat_interleave64 a c
  constructor
  · -- The coordinates of a geohash of 24 bits have 12 bits, and they are `a` and `c`
    intro h
    obtain ⟨ha, hc⟩ := @coordinates_lt 12 _ h
    obtain ⟨hlat, hlon⟩ := coordinates_of_morton hbits a.toNat_lt c.toNat_lt
    omega
  · rintro ⟨ha, hc⟩
    rw [hbits]
    exact @morton_lt a.toNat c.toNat 12 ha hc

/-- The hash is sound exactly off the northern and eastern border and outside the first cell. -/
theorem soundHash_iff (hlat : latRange.min < latRange.max) (hlon : lonRange.min < lonRange.max)
    (h : InArea latRange lonRange latitude longitude) (hash : GeoHashBits) :
    SoundHash latRange lonRange latitude longitude
        (geohashFastEncode latRange lonRange latitude longitude geohashStepBit hash).2.bits ↔
      latitude < latRange.max ∧ longitude < lonRange.max ∧
        ¬InFirstCell latRange lonRange latitude longitude := by
  have hzero := geohashFastEncode_bits_eq_zero_iff hlat hlon latitude longitude hash
  have hbits := geohashFastEncode_of_inArea h hash
  obtain ⟨h₁, h₂, h₃, h₄⟩ := h
  rw [hbits] at hzero ⊢
  have hfits := interleave64_lt_iff (part latRange latitude) (part lonRange longitude)
  rw [part_lt_iff hlat h₁ h₂, part_lt_iff hlon h₃ h₄] at hfits
  constructor
  · intro hsound
    obtain ⟨hlat', hlon'⟩ := hfits.mp hsound.fits
    exact ⟨hlat', hlon', fun hfirst => hsound.ne_zero (hzero.mpr (.inr hfirst))⟩
  · -- Decoding takes the parts out again
    rintro ⟨hlat', hlon', hfirst⟩
    have hcoordinates := coordinates_of_morton (toNat_interleave64 (part latRange latitude)
      (part lonRange longitude)) (UInt32.toNat_lt _) (UInt32.toNat_lt _)
    refine ⟨hfits.mpr ⟨hlat', hlon'⟩, fun hnull => ?_, ?_⟩
    · exact (hzero.mp hnull).elim (fun hout => hout ⟨h₁, h₂, h₃, h₄⟩) hfirst
    · obtain ⟨hlatMin, hlatMax⟩ := mem_decodeRange hlat h₁ h₂
      obtain ⟨hlonMin, hlonMax⟩ := mem_decodeRange hlon h₃ h₄
      simp only [GeoHashArea.Contains, geohashFastDecode, InArea,
        UInt32.toNat_inj.mp hcoordinates.1, UInt32.toNat_inj.mp hcoordinates.2]
      exact ⟨hlatMin, hlatMax, hlonMin, hlonMax⟩

end Encode

namespace NS3

section Position

variable {K : Type} [Field K] [LinearOrder K] [IsStrictOrderedRing K] [FloorRing K]

/-- The latitude and the longitude of a position in the net are in the area. -/
def InRange (env : SumoEnv K) (x y : K) : Prop :=
  InArea latRangeConst lonRangeConst (sumoCartesian2GPS env x y).2 (sumoCartesian2GPS env x y).1

instance (env : SumoEnv K) (x y : K) : Decidable (InRange env x y) :=
  inferInstanceAs (Decidable (_ ≤ _ ∧ _ ≤ _ ∧ _ ≤ _ ∧ _ ≤ _))

/-- The geohash of a position in the net is sound. -/
def SoundPosition (env : SumoEnv K) (x y : K) : Prop :=
  SoundHash latRangeConst lonRangeConst (sumoCartesian2GPS env x y).2
    (sumoCartesian2GPS env x y).1 (sumoCartesian2Geohash env x y)

/-- In the area the geohash is sound exactly off the upper borders and off the first cell. -/
theorem soundPosition_iff (env : SumoEnv K) (x y : K) (h : InRange env x y) :
    SoundPosition env x y ↔
      (sumoCartesian2GPS env x y).2 < (latRangeConst : GeoHashRange K).max ∧
        (sumoCartesian2GPS env x y).1 < (lonRangeConst : GeoHashRange K).max ∧
          ¬InFirstCell latRangeConst lonRangeConst (sumoCartesian2GPS env x y).2
            (sumoCartesian2GPS env x y).1 := by
  have hlat : (latRangeConst : GeoHashRange K).min < latRangeConst.max := by
    show (3974732 / 100000 : K) < 4015929 / 100000
    norm_num
  have hlon : (lonRangeConst : GeoHashRange K).min < lonRangeConst.max := by
    show (11616677 / 100000 : K) < 11673407 / 100000
    norm_num
  exact soundHash_iff hlat hlon h _

end Position

/-- A projection that takes every point of the net to one place. -/
def placed (latitude longitude : ℚ) : SumoEnv ℚ where
  atof _ := 0
  pjInv _ _ := (longitude / radToDeg, latitude / radToDeg)
  netoffsetX := 0
  netoffsetY := 0

/-- The condition at a position inside the area. -/
theorem soundPosition_iff_inside : SoundPosition (placed 40 (1165 / 10)) 0 0 ↔
    (sumoCartesian2GPS (placed 40 (1165 / 10)) 0 0).2 < (latRangeConst : GeoHashRange ℚ).max ∧
      (sumoCartesian2GPS (placed 40 (1165 / 10)) 0 0).1 < (lonRangeConst : GeoHashRange ℚ).max ∧
        ¬InFirstCell latRangeConst lonRangeConst
          (sumoCartesian2GPS (placed 40 (1165 / 10)) 0 0).2
          (sumoCartesian2GPS (placed 40 (1165 / 10)) 0 0).1 :=
  soundPosition_iff _ 0 0 (by decide +kernel)

/-- On the upper border the geohash has a bit too many, in the first cell it is 0. -/
theorem unsound_positions :
    (InRange (placed (4015929 / 100000) (1165 / 10)) 0 0 ∧
      ¬SoundPosition (placed (4015929 / 100000) (1165 / 10)) 0 0) ∧
    (InRange (placed (3974732 / 100000) (11616677 / 100000)) 0 0 ∧
      ¬SoundPosition (placed (3974732 / 100000) (11616677 / 100000)) 0 0) := by
  refine ⟨⟨by decide +kernel, fun h => absurd h.fits (by decide +kernel)⟩, by decide +kernel,
    fun h => h.ne_zero (by decide +kernel)⟩

end NS3

end MapRelay
