import MapRelay.ForStd.Bisection
import MapRelay.Spec.PositionHash

/-!
# The plain geohash and the fast one

`geohash_encode` finds the cell of a position by halving the two ranges bit by bit, and
`geohash_decode` halves them again along the bits. `geohash_fast_encode` and
`geohash_fast_decode`, which the relay uses, compute the same with the offset in the range and
with the interleaving of words. That they agree is said of exact numbers: with `double`s the two
decoders can be a last place apart, and the two encoders can take a position that is next to a
border to different sides of it.
-/

namespace MapRelay

open ForStd.Bisection ForStd.Morton

section Plain

variable {K : Type} [Field K] [LinearOrder K] [IsStrictOrderedRing K]

/-- Part `k` of `2 ^ n` parts of a range. -/
def partRange (range : GeoHashRange K) (n k : Nat) : GeoHashRange K where
  max := border range.min range.max n (k + 1)
  min := border range.min range.max n k

variable {range latRange lonRange : GeoHashRange K} {x latitude longitude : K}
  {n m k a c d e : Nat} {bits : UInt64} {s t : UInt8}

omit [LinearOrder K] [IsStrictOrderedRing K] in
/-- The only part of an undivided range is the range. -/
private theorem partRange_zero (range : GeoHashRange K) : partRange range 0 0 = range := by
  rw [partRange, Nat.zero_add, border_one, border_zero]

/-- The lower half of a part is a part of the next level. -/
private theorem partRange_lower (range : GeoHashRange K) (n k : Nat) :
    { partRange range n k with
      max := ((partRange range n k).max + (partRange range n k).min) / 2 } =
        partRange range (n + 1) (2 * k) := by
  simp only [partRange, border_mid, border_succ_two_mul]

/-- So is the upper half. -/
private theorem partRange_upper (range : GeoHashRange K) (n k : Nat) :
    { partRange range n k with
      min := ((partRange range n k).max + (partRange range n k).min) / 2 } =
        partRange range (n + 1) (2 * k + 1) := by
  have hnext : 2 * k + 1 + 1 = 2 * (k + 1) := by ring
  simp only [partRange, border_mid, hnext, border_succ_two_mul]

/-! ## Encoding -/

/-- A round finds the half of a part in which the value lies. -/
private theorem halve_partRange (h : InPart range.min range.max n k x) :
    ∃ d < 2, halve (partRange range n k) x = (.ofNat d, partRange range (n + 1) (2 * k + d)) ∧
      InPart range.min range.max (n + 1) (2 * k + d) x := by
  -- The comparison of the distances is the one with the border in the middle
  have hmid := border_mid range.min range.max n k
  have hcond : (partRange range n k).max - x ≥ x - (partRange range n k).min ↔
      x ≤ border range.min range.max (n + 1) (2 * k + 1) := by
    rw [← hmid]
    simp only [partRange]
    constructor <;> intro hle <;> linarith
  -- The lower half gives the digit 0, the upper half 1
  by_cases hle : x ≤ border range.min range.max (n + 1) (2 * k + 1)
  · refine ⟨0, by decide, ?_, h.lower hle⟩
    rw [halve, if_pos (hcond.mpr hle), partRange_lower]
    rfl
  · refine ⟨1, by decide, ?_, h.upper (not_le.mp hle)⟩
    rw [halve, if_neg fun hge => hle (hcond.mp hge), partRange_upper]
    rfl

/-- The two bits of a round are put behind those that are there. -/
private theorem toNat_push (hbits : bits.toNat = morton a c) (ha : a < 2 ^ 31) (hc : c < 2 ^ 31)
    (hd : d < 2) (he : e < 2) :
    ((((bits <<< 1) + UInt64.ofNat e) <<< 1) + UInt64.ofNat d).toNat =
      morton (2 * a + d) (2 * c + e) := by
  -- The two new bits fit into 64
  have hlt : morton a c < 4 ^ 31 := morton_lt ha hc
  have hdNat : (UInt64.ofNat d).toNat = d := UInt64.toNat_ofNat_of_lt' (by
    simp only [UInt64.size]
    omega)
  have heNat : (UInt64.ofNat e).toNat = e := UInt64.toNat_ofNat_of_lt' (by
    simp only [UInt64.size]
    omega)
  have hone : (1 : UInt64).toNat % 64 = 1 := rfl
  rw [morton_two_mul_add a c hd he, UInt64.toNat_add, UInt64.toNat_shiftLeft, UInt64.toNat_add,
    UInt64.toNat_shiftLeft, hdNat, heNat, hbits, hone, Nat.shiftLeft_eq, Nat.shiftLeft_eq]
  omega

/-- The invariant of the loop: the bits are those of the parts that the rounds have led to. -/
private theorem geohashEncodeFrom_spec (hlat : latRange.min < latRange.max)
    (hlon : lonRange.min < lonRange.max) (hlatMax : latitude ≤ latRange.max)
    (hlonMax : longitude ≤ lonRange.max) (hm : n + m ≤ 32)
    (ha : InPart latRange.min latRange.max n a latitude)
    (hc : InPart lonRange.min lonRange.max n c longitude) (hbits : bits.toNat = morton a c) :
    ∃ a' c', InPart latRange.min latRange.max (n + m) a' latitude ∧
      InPart lonRange.min lonRange.max (n + m) c' longitude ∧
      (geohashEncodeFrom latitude longitude m (partRange latRange n a) (partRange lonRange n c)
        bits).toNat = morton a' c' := by
  induction m generalizing n a c bits with
  | zero => exact ⟨a, c, ha, hc, hbits⟩
  | succ m ih =>
    obtain ⟨d, hd, hhalfLat, ha'⟩ := halve_partRange ha
    obtain ⟨e, he, hhalfLon, hc'⟩ := halve_partRange hc
    -- There is room for two more bits
    have hroom : 2 ^ n ≤ 2 ^ 31 := Nat.pow_le_pow_right (by decide) (by omega)
    have haLt := ha.lt_two_pow hlat hlatMax
    have hcLt := hc.lt_two_pow hlon hlonMax
    have hpush := toNat_push hbits (by omega) (by omega) hd he
    have hnext := ih (by omega) ha' hc' hpush
    rw [show n + (m + 1) = n + 1 + m by omega, geohashEncodeFrom, hhalfLat, hhalfLon]
    exact hnext

/-- The cells of a position, with the border to the south and to the west in the cell before. -/
structure PlainCell (latRange lonRange : GeoHashRange K) (latitude longitude : K) (s : Nat)
    (bits : UInt64) (a c : Nat) : Prop where
  lat : InPart latRange.min latRange.max s a latitude
  lon : InPart lonRange.min lonRange.max s c longitude
  bits_eq : bits.toNat = morton a c

omit [Field K] [IsStrictOrderedRing K] in
/-- The range check of the encoders lets through exactly the positions in the area. -/
private theorem not_outside_iff : ¬(latitude < latRange.min ∨ latitude > latRange.max ∨
    longitude < lonRange.min ∨ longitude > lonRange.max) ↔
      InArea latRange lonRange latitude longitude := by
  simp only [InArea, not_or, not_lt]

/-- The steps from 1 to 32 pass the check of the step. -/
private theorem valid_step (hs : 1 ≤ s) (hs' : s ≤ 32) : ¬(s > 32 ∨ s = 0) := by
  rw [UInt8.le_iff_toNat_le] at hs hs'
  rw [gt_iff_lt, UInt8.lt_iff_toNat_lt, ← UInt8.toNat_inj]
  simp only [UInt8.reduceToNat] at *
  omega

/-- The steps of the fast encoder are steps of the plain one. -/
private theorem le_of_le_thirty (hs : s ≤ 30) : s ≤ 32 := UInt8.le_trans hs (by decide)

/-- The plain encoder gives the plain cell of the position. -/
private theorem geohashEncode_spec (hlat : latRange.min < latRange.max)
    (hlon : lonRange.min < lonRange.max) (hs : 1 ≤ s) (hs' : s ≤ 32)
    (h : InArea latRange lonRange latitude longitude) (hash : GeoHashBits) :
    ∃ bits a c, geohashEncode latRange lonRange latitude longitude s hash = (0, ⟨bits, s⟩) ∧
      PlainCell latRange lonRange latitude longitude s.toNat bits a c := by
  have hstep := valid_step hs hs'
  have hin := not_outside_iff.mpr h
  obtain ⟨h₁, h₂, h₃, h₄⟩ := h
  -- The loop counts the steps from 0 to 32 at most
  have hle : 0 + s.toNat ≤ 32 := by
    rw [UInt8.le_iff_toNat_le] at hs'
    simpa using hs'
  -- One induction over the steps, from the whole ranges on
  obtain ⟨a, c, ha, hc, hbits⟩ := geohashEncodeFrom_spec hlat hlon h₂ h₄ hle
    (inPart_zero h₁ h₂) (inPart_zero h₃ h₄) (show (0 : UInt64).toNat = morton 0 0 by simp [morton])
  rw [Nat.zero_add] at ha hc
  rw [partRange_zero, partRange_zero] at hbits
  exact ⟨_, a, c, by rw [geohashEncode, if_neg hstep, if_neg hin], ha, hc, hbits⟩

/-! ## Decoding -/

/-- `get_bit` in a position of the word. -/
private theorem getBit_eq_zero_iff (bits : UInt64) (hk : k < 64) :
    getBit bits (.ofNat k) = 0 ↔ bits.toNat / 2 ^ k % 2 = 0 := by
  have hpos : (UInt8.ofNat k).toUInt64.toNat = k := by
    rw [UInt8.toNat_toUInt64, UInt8.toNat_ofNat_of_lt' (by simp only [UInt8.size]; omega)]
  have hone : (0x01 : UInt64).toNat = 1 := rfl
  rw [getBit, ← UInt8.toNat_inj, UInt64.toNat_toUInt8, UInt64.toNat_and, UInt64.toNat_shiftRight,
    hpos, Nat.mod_eq_of_lt hk, Nat.shiftRight_eq_div_pow, hone, Nat.and_one_is_mod]
  show _ % 2 ^ 8 = 0 ↔ _
  omega

/-- The half that a bit chooses is a part of the next level. -/
private theorem half_partRange (range : GeoHashRange K) (n k : Nat) (bit : UInt8) :
    half (partRange range n k) bit =
      partRange range (n + 1) (2 * k + if bit = 0 then 0 else 1) := by
  rw [half]
  split
  · rw [partRange_lower]
    rfl
  · rw [partRange_upper]

/-- The digits that a round has read, and those that are left. -/
private theorem digit_mod (a m : Nat) : a % 2 ^ (m + 1) = a / 2 ^ m % 2 * 2 ^ m + a % 2 ^ m := by
  rw [Nat.pow_succ, Nat.mod_mul, Nat.add_comm, Nat.mul_comm]

/-- A bit of a number as a number. -/
private theorem testBit_toNat (a i : Nat) : a / 2 ^ i % 2 = if a.testBit i then 1 else 0 := by
  rw [Nat.testBit_eq_decide_div_mod_eq]
  by_cases h : a / 2 ^ i % 2 = 1
  · simp [h]
  · have hzero : a / 2 ^ i % 2 = 0 := by omega
    simp [hzero]

/-- The round with `m` rounds to come reads the digit of the latitude in place `m`. -/
private theorem getBit_lat (hbits : bits.toNat = morton a c) (hm : m < 32) :
    (if getBit bits (.ofNat ((m + 1) * 2 - 2)) = 0 then 0 else 1) = a / 2 ^ m % 2 := by
  have hplace : (m + 1) * 2 - 2 = 2 * m := by omega
  have hdigit : bits.toNat / 2 ^ (2 * m) % 2 = a / 2 ^ m % 2 := by
    rw [hbits, testBit_toNat, testBit_morton_even, testBit_toNat]
  simp only [hplace, getBit_eq_zero_iff bits (show 2 * m < 64 by omega), hdigit]
  split <;> omega

/-- The odd bits of a hash are those of the longitude. -/
private theorem getBit_lon (hbits : bits.toNat = morton a c) (hm : m < 32) :
    (if getBit bits (.ofNat ((m + 1) * 2 - 1)) = 0 then 0 else 1) = c / 2 ^ m % 2 := by
  have hplace : (m + 1) * 2 - 1 = 2 * m + 1 := by omega
  have hdigit : bits.toNat / 2 ^ (2 * m + 1) % 2 = c / 2 ^ m % 2 := by
    rw [hbits, testBit_toNat, testBit_morton_odd, testBit_toNat]
  simp only [hplace, getBit_eq_zero_iff bits (show 2 * m + 1 < 64 by omega), hdigit]
  split <;> omega

/-- The loop goes down to the part that the lowest `m` digits of the coordinates tell. -/
private theorem geohashDecodeFrom_eq (latRange lonRange : GeoHashRange K)
    (hbits : bits.toNat = morton a c) (hm : m ≤ 32) (n i j : Nat) :
    geohashDecodeFrom bits m (partRange latRange n i) (partRange lonRange n j) =
      (partRange latRange (n + m) (i * 2 ^ m + a % 2 ^ m),
        partRange lonRange (n + m) (j * 2 ^ m + c % 2 ^ m)) := by
  -- The digits are read from the highest one on
  induction m generalizing n i j with
  | zero =>
    simp only [geohashDecodeFrom, Nat.pow_zero, Nat.mul_one, Nat.mod_one, Nat.add_zero]
  | succ m ih =>
    have hshift (i d : Nat) : (2 * i + d) * 2 ^ m = i * 2 ^ (m + 1) + d * 2 ^ m := by ring
    rw [geohashDecodeFrom]
    simp only [half_partRange, getBit_lat hbits (show m < 32 by omega),
      getBit_lon hbits (show m < 32 by omega)]
    rw [ih (by omega), show n + 1 + m = n + (m + 1) by omega, digit_mod a, digit_mod c, hshift,
      hshift, Nat.add_assoc (i * _), Nat.add_assoc (j * _)]

/-- The plain decoder gives the parts that the two numbers in the hash choose. -/
private theorem geohashDecode_eq (hs : s ≤ 32) (bits : UInt64) :
    geohashDecode latRange lonRange ⟨bits, s⟩ =
      ⟨⟨bits, s⟩, partRange latRange s.toNat ((ilato bits).toNat % 2 ^ s.toNat),
        partRange lonRange s.toNat ((ilono bits).toNat % 2 ^ s.toNat)⟩ := by
  have h := geohashDecodeFrom_eq latRange lonRange (toNat_eq_morton bits)
    (UInt8.le_iff_toNat_le.mp hs) 0 0 0
  simp only [partRange_zero, Nat.zero_mul, Nat.zero_add] at h
  rw [geohashDecode, h]

/-! ## The fast versions -/

variable [FloorRing K]

/-- The integer part of the offset is the number of the part, which begins at most at the end of
    the range. -/
private theorem fromPart_truncUInt32 (hlt : range.min < range.max) (h₀ : range.min ≤ x)
    (h₁ : x ≤ range.max) (hn : n ≤ 30) :
    FromPart range.min range.max n
      -- The quotient is truncated to the number of the part
      (truncUInt32 ((x - range.min) / (range.max - range.min) * 2 ^ n)).toNat x := by
  have hpart := fromPart_floor (n := n) hlt h₀
  have hscale : 0 < range.max - range.min := sub_pos.mpr hlt
  have hoffset : 0 ≤ (x - range.min) / (range.max - range.min) * 2 ^ n := by
    have := sub_nonneg.mpr h₀
    positivity
  -- The number fits into 32 bits, also at the upper end of the range
  have hle : ⌊(x - range.min) / (range.max - range.min) * 2 ^ n⌋.toNat ≤ 2 ^ n := by
    rw [← border_le_iff hlt (n := n), border_two_pow]
    exact hpart.le.trans h₁
  have hroom : 2 ^ n ≤ 2 ^ 30 := Nat.pow_le_pow_right (by decide) hn
  rw [truncUInt32, if_pos hoffset, UInt32.toNat_ofNat_of_lt' (by
    simp only [UInt32.size]
    omega)]
  exact hpart

/-- The cells of a position, with the border to the south and to the west. -/
structure FastCell (latRange lonRange : GeoHashRange K) (latitude longitude : K) (s : Nat)
    (bits : UInt64) (a c : Nat) : Prop where
  lat : FromPart latRange.min latRange.max s a latitude
  lon : FromPart lonRange.min lonRange.max s c longitude
  bits_eq : bits.toNat = morton a c

/-- The fast encoder gives the fast cell of the position. -/
private theorem geohashFastEncode_spec (hlat : latRange.min < latRange.max)
    (hlon : lonRange.min < lonRange.max) (hs : 1 ≤ s) (hs' : s ≤ 30)
    (h : InArea latRange lonRange latitude longitude) (hash : GeoHashBits) :
    ∃ bits a c, geohashFastEncode latRange lonRange latitude longitude s hash = (0, ⟨bits, s⟩) ∧
      FastCell latRange lonRange latitude longitude s.toNat bits a c := by
  have hin := not_outside_iff.mpr h
  have hle : s.toNat ≤ 30 := UInt8.le_iff_toNat_le.mp hs'
  obtain ⟨h₁, h₂, h₃, h₄⟩ := h
  refine ⟨_, _, _, ?_, fromPart_truncUInt32 hlat h₁ h₂ hle, fromPart_truncUInt32 hlon h₃ h₄ hle,
    toNat_interleave64 _ _⟩
  rw [geohashFastEncode, if_neg (valid_step hs (le_of_le_thirty hs')), if_neg hin]

omit [LinearOrder K] [IsStrictOrderedRing K] [FloorRing K] in
/-- The number of the next part wraps only behind 32 bits. -/
private theorem decodeRange_eq {i : UInt32} (hi : i.toNat + 1 < 2 ^ 32) :
    decodeRange range i s = partRange range s.toNat i.toNat := by
  have hnext : (i + 1).toNat = i.toNat + 1 := by
    rw [UInt32.toNat_add, UInt32.toNat_one, Nat.mod_eq_of_lt hi]
  simp only [decodeRange, partRange, border, hnext]

omit [FloorRing K] in
/-- The decoders agree on a range exactly if the number has no bit above the step. -/
private theorem partRange_eq_decodeRange_iff {i : UInt32} (hlt : range.min < range.max)
    (hs : s ≤ 30) :
    partRange range s.toNat (i.toNat % 2 ^ s.toNat) = decodeRange range i s ↔
      i.toNat < 2 ^ s.toNat := by
  -- Up to 30 digits the number and its parts fit into 32 bits
  have hroom : 2 ^ s.toNat ≤ 2 ^ 30 :=
    Nat.pow_le_pow_right (by decide) (UInt8.le_iff_toNat_le.mp hs)
  constructor
  -- The lower ends agree, so that the number is its own remainder
  · intro h
    have hmin : border range.min range.max s.toNat (i.toNat % 2 ^ s.toNat) =
        border range.min range.max s.toNat i.toNat := congrArg GeoHashRange.min h
    rw [border_inj hlt] at hmin
    have hmod := Nat.mod_lt i.toNat (Nat.two_pow_pos s.toNat)
    omega
  · intro h
    rw [decodeRange_eq (by omega), Nat.mod_eq_of_lt h]

/-- A hash has two bits for each step exactly if each coordinate has one. -/
private theorem toNat_lt_iff (bits : UInt64) (n : Nat) :
    bits.toNat < 2 ^ (2 * n) ↔ (ilato bits).toNat < 2 ^ n ∧ (ilono bits).toNat < 2 ^ n := by
  constructor
  · exact coordinates_lt
  · intro h
    rw [toNat_eq_morton, Nat.pow_mul]
    exact morton_lt h.1 h.2

omit [FloorRing K] in
/-- The decoders agree exactly on the hashes without bits above the step. -/
private theorem geohashDecode_eq_fast_iff (hlat : latRange.min < latRange.max)
    (hlon : lonRange.min < lonRange.max) (hs : s ≤ 30) (bits : UInt64) :
    geohashDecode latRange lonRange ⟨bits, s⟩ = geohashFastDecode latRange lonRange ⟨bits, s⟩ ↔
      bits.toNat < 2 ^ (2 * s.toNat) := by
  rw [geohashDecode_eq (le_of_le_thirty hs), geohashFastDecode, GeoHashArea.mk.injEq,
    partRange_eq_decodeRange_iff hlat hs, partRange_eq_decodeRange_iff hlon hs, toNat_lt_iff]
  exact and_iff_right rfl

/-! ## Agreement -/

/-- The value is on a border of two of the `2 ^ n` parts of the range, or at its end. -/
def OnBorder (range : GeoHashRange K) (n : Nat) (x : K) : Prop :=
  ∃ k, 0 < k ∧ x = border range.min range.max n k

/-- The position is in the cell and on none of its borders. -/
def GeoHashArea.Inside (area : GeoHashArea K) (latitude longitude : K) : Prop :=
  area.latitude.min < latitude ∧ latitude < area.latitude.max ∧
    area.longitude.min < longitude ∧ longitude < area.longitude.max

omit [FloorRing K] in
/-- The two numbers of a part are put into one hash only if they agree. -/
theorem PlainCell.eq_iff {bits' : UInt64} {a' c' : Nat}
    (h : PlainCell latRange lonRange latitude longitude n bits a c)
    (h' : FastCell latRange lonRange latitude longitude n bits' a' c')
    (hlat : latRange.min < latRange.max) (hlon : lonRange.min < lonRange.max) :
    bits = bits' ↔ ¬(OnBorder latRange n latitude ∨ OnBorder lonRange n longitude) := by
  rw [← UInt64.toNat_inj, h.bits_eq, h'.bits_eq, morton_inj, h.lat.eq_iff h'.lat hlat,
    h.lon.eq_iff h'.lon hlon, not_or]
  rfl

omit [IsStrictOrderedRing K] [FloorRing K] in
/-- Outside the area the plain encoder returns -1 and no bits. -/
private theorem geohashEncode_of_not_inArea (h : ¬InArea latRange lonRange latitude longitude)
    (hs : 1 ≤ s) (hs' : s ≤ 32) (hash : GeoHashBits) :
    geohashEncode latRange lonRange latitude longitude s hash = (-1, ⟨0, s⟩) := by
  rw [geohashEncode, if_neg (valid_step hs hs'),
    if_pos (not_not.mp fun hin => h (not_outside_iff.mp hin))]

omit [IsStrictOrderedRing K] in
/-- So does the fast one. -/
private theorem geohashFastEncode_of_not_inArea (h : ¬InArea latRange lonRange latitude longitude)
    (hs : 1 ≤ s) (hs' : s ≤ 32) (hash : GeoHashBits) :
    geohashFastEncode latRange lonRange latitude longitude s hash = (-1, ⟨0, s⟩) := by
  rw [geohashFastEncode, if_neg (valid_step hs hs'),
    if_pos (not_not.mp fun hin => h (not_outside_iff.mp hin))]

/-- In the area the encoders agree exactly off the borders of the cells. -/
private theorem geohashEncode_eq_fast_iff (hlat : latRange.min < latRange.max)
    (hlon : lonRange.min < lonRange.max) (hs : 1 ≤ s) (hs' : s ≤ 30) (hash : GeoHashBits) :
    geohashEncode latRange lonRange latitude longitude s hash =
        geohashFastEncode latRange lonRange latitude longitude s hash ↔
      (InArea latRange lonRange latitude longitude →
        ¬(OnBorder latRange s.toNat latitude ∨ OnBorder lonRange s.toNat longitude)) := by
  -- Within the area both give a cell, outside both refuse
  by_cases h : InArea latRange lonRange latitude longitude
  · obtain ⟨bits, a, c, hplain, hcell⟩ := geohashEncode_spec hlat hlon hs (le_of_le_thirty hs') h
      hash
    obtain ⟨bits', a', c', hfast, hcell'⟩ := geohashFastEncode_spec hlat hlon hs hs' h hash
    rw [hplain, hfast, Prod.mk.injEq, GeoHashBits.mk.injEq, hcell.eq_iff hcell' hlat hlon,
      and_iff_right rfl, and_iff_left rfl]
    exact ⟨fun hborder _ => hborder, fun hborder => hborder h⟩
  · rw [geohashEncode_of_not_inArea h hs (le_of_le_thirty hs'),
      geohashFastEncode_of_not_inArea h hs (le_of_le_thirty hs')]
    exact iff_of_true rfl fun hin => absurd hin h

/-! ## Round trips -/

omit [FloorRing K] in
/-- Decoding a plain cell gives its two parts. -/
private theorem PlainCell.decode
    (h : PlainCell latRange lonRange latitude longitude s.toNat bits a c)
    (hlat : latRange.min < latRange.max) (hlon : lonRange.min < lonRange.max)
    (harea : InArea latRange lonRange latitude longitude) (hs : s ≤ 32) :
    geohashDecode latRange lonRange ⟨bits, s⟩ =
      ⟨⟨bits, s⟩, partRange latRange s.toNat a, partRange lonRange s.toNat c⟩ := by
  have hroom : 2 ^ s.toNat ≤ 2 ^ 32 :=
    Nat.pow_le_pow_right (by decide) (UInt8.le_iff_toNat_le.mp hs)
  have ha := h.lat.lt_two_pow hlat harea.2.1
  have hc := h.lon.lt_two_pow hlon harea.2.2.2
  obtain ⟨hato, hono⟩ := coordinates_of_morton h.bits_eq (by omega) (by omega)
  rw [geohashDecode_eq hs, hato, hono, Nat.mod_eq_of_lt ha, Nat.mod_eq_of_lt hc]

omit [IsStrictOrderedRing K] [FloorRing K] in
/-- Strictly inside a part there is no doubt about its number. -/
private theorem inPart_of_inside (hmin : (partRange range n k).min < x)
    (hmax : x < (partRange range n k).max) : InPart range.min range.max n k x :=
  ⟨.inl hmin, hmax.le⟩

omit [FloorRing K] in
/-- The inside of a part meets no border. -/
private theorem not_onBorder_of_inside (hlt : range.min < range.max)
    (hmin : (partRange range n k).min < x)
    (hmax : x < (partRange range n k).max) : ¬OnBorder range n x :=
  ((inPart_of_inside hmin hmax).eq_iff ⟨hmin.le, hmax⟩ hlt).mp rfl

omit [FloorRing K] in
/-- The inside of a part is in the range. -/
private theorem mem_of_inside (hlt : range.min < range.max) (hk : k < 2 ^ n)
    (hmin : (partRange range n k).min < x) (hmax : x < (partRange range n k).max) :
    range.min ≤ x ∧ x ≤ range.max := by
  constructor
  · apply le_trans _ hmin.le
    rw [← border_zero range.min range.max n]
    exact (border_le_iff hlt).mpr (Nat.zero_le k)
  · apply hmax.le.trans
    rw [← border_two_pow range.min range.max n]
    exact (border_le_iff hlt).mpr hk

omit [FloorRing K] in
/-- The plain decoder gives back a cell with the encoded position. -/
private theorem contains_geohashDecode (hlat : latRange.min < latRange.max)
    (hlon : lonRange.min < lonRange.max) (hs : 1 ≤ s) (hs' : s ≤ 32)
    (h : InArea latRange lonRange latitude longitude) (hash : GeoHashBits) :
    (geohashDecode latRange lonRange
      (geohashEncode latRange lonRange latitude longitude s hash).2).Contains latitude
        longitude := by
  obtain ⟨bits, a, c, hplain, hcell⟩ := geohashEncode_spec hlat hlon hs hs' h hash
  rw [hplain, hcell.decode hlat hlon h hs']
  exact ⟨hcell.lat.border_le, hcell.lat.le, hcell.lon.border_le, hcell.lon.le⟩

/-- So does the fast one. -/
private theorem contains_geohashFastDecode (hlat : latRange.min < latRange.max)
    (hlon : lonRange.min < lonRange.max) (hs : 1 ≤ s) (hs' : s ≤ 30)
    (h : InArea latRange lonRange latitude longitude) (hash : GeoHashBits) :
    (geohashFastDecode latRange lonRange
      (geohashFastEncode latRange lonRange latitude longitude s hash).2).Contains latitude
        longitude := by
  obtain ⟨bits, a, c, hfast, hcell⟩ := geohashFastEncode_spec hlat hlon hs hs' h hash
  have hroom : 2 ^ s.toNat ≤ 2 ^ 30 :=
    Nat.pow_le_pow_right (by decide) (UInt8.le_iff_toNat_le.mp hs')
  -- At the end of a range the part begins there
  have ha : a ≤ 2 ^ s.toNat := by
    rw [← border_le_iff hlat, border_two_pow]
    exact hcell.lat.le.trans h.2.1
  have hc : c ≤ 2 ^ s.toNat := by
    rw [← border_le_iff hlon, border_two_pow]
    exact hcell.lon.le.trans h.2.2.2
  obtain ⟨hato, hono⟩ := coordinates_of_morton hcell.bits_eq (by omega) (by omega)
  rw [hfast, geohashFastDecode]
  simp only [GeoHashArea.Contains, InArea]
  rw [decodeRange_eq (by omega), decodeRange_eq (by omega), hato, hono]
  exact ⟨hcell.lat.le, hcell.lat.below.le, hcell.lon.le, hcell.lon.below.le⟩

omit [FloorRing K] in
/-- The positions inside a decoded cell are encoded as this cell. -/
private theorem geohashEncode_inside (hlat : latRange.min < latRange.max)
    (hlon : lonRange.min < lonRange.max) (hs : 1 ≤ s) (hs' : s ≤ 32)
    (hbits : bits.toNat < 2 ^ (2 * s.toNat))
    (h : (geohashDecode latRange lonRange ⟨bits, s⟩).Inside latitude longitude)
    (hash : GeoHashBits) :
    geohashEncode latRange lonRange latitude longitude s hash = (0, ⟨bits, s⟩) ∧
      ¬(OnBorder latRange s.toNat latitude ∨ OnBorder lonRange s.toNat longitude) := by
  -- The two halves of the bits are the numbers of the parts
  obtain ⟨ha, hc⟩ := (toNat_lt_iff bits s.toNat).mp hbits
  rw [geohashDecode_eq hs', Nat.mod_eq_of_lt ha, Nat.mod_eq_of_lt hc] at h
  obtain ⟨h₁, h₂, h₃, h₄⟩ := h
  obtain ⟨hlatMin, hlatMax⟩ := mem_of_inside hlat ha h₁ h₂
  obtain ⟨hlonMin, hlonMax⟩ := mem_of_inside hlon hc h₃ h₄
  obtain ⟨bits', a', c', hplain, hcell⟩ := geohashEncode_spec hlat hlon hs hs'
    ⟨hlatMin, hlatMax, hlonMin, hlonMax⟩ hash
  -- A point inside a part is in no other
  have hlatPart := hcell.lat.unique (inPart_of_inside h₁ h₂) hlat
  have hlonPart := hcell.lon.unique (inPart_of_inside h₃ h₄) hlon
  have heq : bits' = bits := by
    rw [← UInt64.toNat_inj, hcell.bits_eq, toNat_eq_morton bits, hlatPart, hlonPart]
  refine ⟨by rw [hplain, heq], ?_⟩
  rw [not_or]
  exact ⟨not_onBorder_of_inside hlat h₁ h₂, not_onBorder_of_inside hlon h₃ h₄⟩

/-! ## Coarser and finer hashes -/

/-- Dropping pairs of bits drops bits of both numbers. -/
private theorem morton_div_four_pow (a c m : Nat) :
    morton a c / 4 ^ m = morton (a / 2 ^ m) (c / 2 ^ m) := by
  induction m generalizing a c with
  | zero => simp
  | succ m ih =>
    have hdiv : morton a c / 4 = morton (a / 2) (c / 2) := by
      rw [show 4 = 2 * 2 from rfl, ← Nat.div_div_eq_div_mul, morton_div_two, morton_div_two]
    rw [Nat.pow_succ, Nat.mul_comm, ← Nat.div_div_eq_div_mul, hdiv, ih, Nat.div_div_eq_div_mul,
      Nat.div_div_eq_div_mul, Nat.pow_succ, Nat.mul_comm 2]

omit [FloorRing K] in
/-- The part of a coarser step is known from that of a finer one. -/
private theorem PlainCell.coarser {bits' : UInt64} {a' c' : Nat}
    (h : PlainCell latRange lonRange latitude longitude (n + m) bits a c)
    (h' : PlainCell latRange lonRange latitude longitude n bits' a' c')
    (hlat : latRange.min < latRange.max) (hlon : lonRange.min < lonRange.max) :
    bits'.toNat = bits.toNat / 4 ^ m := by
  rw [h.bits_eq, h'.bits_eq, morton_div_four_pow, h'.lat.unique (h.lat.shift hlat) hlat,
    h'.lon.unique (h.lon.shift hlon) hlon]

omit [FloorRing K] in
/-- The hash of a coarser cell is a prefix of that of the finer one. -/
private theorem FastCell.coarser {bits' : UInt64} {a' c' : Nat}
    (h : FastCell latRange lonRange latitude longitude (n + m) bits a c)
    (h' : FastCell latRange lonRange latitude longitude n bits' a' c')
    (hlat : latRange.min < latRange.max) (hlon : lonRange.min < lonRange.max) :
    bits'.toNat = bits.toNat / 4 ^ m := by
  rw [h.bits_eq, h'.bits_eq, morton_div_four_pow, h'.lat.unique (h.lat.shift hlat) hlat,
    h'.lon.unique (h.lon.shift hlon) hlon]

omit [FloorRing K] in
/-- The hash of a coarser step begins the hash of a finer one. -/
private theorem geohashEncode_coarser (hlat : latRange.min < latRange.max)
    (hlon : lonRange.min < lonRange.max) (ht : 1 ≤ t) (hts : t ≤ s) (hs : s ≤ 32)
    (h : InArea latRange lonRange latitude longitude) (hash : GeoHashBits) :
    (geohashEncode latRange lonRange latitude longitude t hash).2.bits.toNat =
      (geohashEncode latRange lonRange latitude longitude s hash).2.bits.toNat /
        4 ^ (s.toNat - t.toNat) := by
  obtain ⟨bits, a, c, hfine, hcell⟩ := geohashEncode_spec hlat hlon (UInt8.le_trans ht hts) hs h
    hash
  obtain ⟨bits', a', c', hcoarse, hcell'⟩ := geohashEncode_spec hlat hlon ht
    (UInt8.le_trans hts hs) h hash
  obtain ⟨m, hm⟩ := Nat.exists_eq_add_of_le (UInt8.le_iff_toNat_le.mp hts)
  rw [hm] at hcell
  rw [hfine, hcoarse, hm, Nat.add_sub_cancel_left]
  exact hcell.coarser hcell' hlat hlon

/-- At a smaller step the fast encoder gives a prefix of the hash. -/
private theorem geohashFastEncode_coarser (hlat : latRange.min < latRange.max)
    (hlon : lonRange.min < lonRange.max) (ht : 1 ≤ t) (hts : t ≤ s) (hs : s ≤ 30)
    (h : InArea latRange lonRange latitude longitude) (hash : GeoHashBits) :
    (geohashFastEncode latRange lonRange latitude longitude t hash).2.bits.toNat =
      (geohashFastEncode latRange lonRange latitude longitude s hash).2.bits.toNat /
        4 ^ (s.toNat - t.toNat) := by
  obtain ⟨bits, a, c, hfine, hcell⟩ := geohashFastEncode_spec hlat hlon (UInt8.le_trans ht hts) hs
    h hash
  obtain ⟨bits', a', c', hcoarse, hcell'⟩ := geohashFastEncode_spec hlat hlon ht
    (UInt8.le_trans hts hs) h hash
  obtain ⟨m, hm⟩ := Nat.exists_eq_add_of_le (UInt8.le_iff_toNat_le.mp hts)
  rw [hm] at hcell
  rw [hfine, hcoarse, hm, Nat.add_sub_cancel_left]
  exact hcell.coarser hcell' hlat hlon

/-- The quarter of a cell that lies to the right, or to the top. -/
def geohashNext (right top : Bool) (hash : GeoHashBits) : GeoHashBits :=
  match right, top with
  | false, false => geohashNextLeftbottom hash
  | true, false => geohashNextRightbottom hash
  | false, true => geohashNextLefttop hash
  | true, true => geohashNextRighttop hash

/-- The next step does not wrap around. -/
private theorem toNat_succ_step (hs : s ≤ 31) : (s + 1).toNat = s.toNat + 1 := by
  have hle : s.toNat ≤ 31 := UInt8.le_iff_toNat_le.mp hs
  rw [UInt8.toNat_add, UInt8.toNat_one, Nat.mod_eq_of_lt (by omega)]

/-- Two bits more fit, and `+` puts them in. -/
private theorem toNat_shift_add {bit : UInt64} (hs : s ≤ 31)
    (hbits : bits.toNat < 2 ^ (2 * s.toNat))
    (hbit : bit.toNat < 4) : ((bits <<< 2) + bit).toNat = 4 * bits.toNat + bit.toNat := by
  have hle : s.toNat ≤ 31 := UInt8.le_iff_toNat_le.mp hs
  have hroom : 2 ^ (2 * s.toNat) ≤ 2 ^ 62 := Nat.pow_le_pow_right (by decide) (by omega)
  have htwo : (2 : UInt64).toNat % 64 = 2 := rfl
  rw [UInt64.toNat_add, UInt64.toNat_shiftLeft, htwo, Nat.shiftLeft_eq]
  omega

/-- A quarter of a cell has two more bits, which say which quarter it is. -/
private theorem geohashNext_eq (right top : Bool) (hs : s ≤ 31)
    (hbits : bits.toNat < 2 ^ (2 * s.toNat)) :
    (geohashNext right top ⟨bits, s⟩).step = s + 1 ∧
      (geohashNext right top ⟨bits, s⟩).bits.toNat =
        4 * bits.toNat + (top.toNat + 2 * right.toNat) := by
  constructor
  · cases right <;> cases top <;> rfl
  · cases right <;> cases top
    · have hzero : ((bits <<< 2) + 0).toNat = 4 * bits.toNat := toNat_shift_add hs hbits (by decide)
      rwa [UInt64.add_zero] at hzero
    · exact toNat_shift_add hs hbits (show (1 : UInt64).toNat < 4 by decide)
    · exact toNat_shift_add hs hbits (show (2 : UInt64).toNat < 4 by decide)
    · exact toNat_shift_add hs hbits (show (3 : UInt64).toNat < 4 by decide)

omit [FloorRing K] in
/-- The quarters have the halves of the two sides of the cell. -/
private theorem geohashDecode_next (right top : Bool) (hs : s ≤ 31)
    (hbits : bits.toNat < 2 ^ (2 * s.toNat)) :
    geohashDecode latRange lonRange (geohashNext right top ⟨bits, s⟩) =
      ⟨geohashNext right top ⟨bits, s⟩,
        half (geohashDecode latRange lonRange ⟨bits, s⟩).latitude top.toUInt8,
        half (geohashDecode latRange lonRange ⟨bits, s⟩).longitude right.toUInt8⟩ := by
  have hle : s.toNat ≤ 31 := UInt8.le_iff_toNat_le.mp hs
  have hroom : 2 ^ s.toNat ≤ 2 ^ 31 := Nat.pow_le_pow_right (by decide) hle
  have htop : top.toNat < 2 := Bool.toNat_lt top
  have hright : right.toNat < 2 := Bool.toNat_lt right
  obtain ⟨ha, hc⟩ := (toNat_lt_iff bits s.toNat).mp hbits
  obtain ⟨hstep, hnext⟩ := geohashNext_eq right top hs hbits
  -- The coordinates of the quarter have one digit more
  rw [toNat_eq_morton bits, ← morton_two_mul_add _ _ htop hright] at hnext
  obtain ⟨hato, hono⟩ := coordinates_of_morton hnext (by omega) (by omega)
  have hmk : geohashNext right top ⟨bits, s⟩ = ⟨(geohashNext right top ⟨bits, s⟩).bits, s + 1⟩ := by
    rw [← hstep]
  have hsucc : s + 1 ≤ 32 := by
    rw [UInt8.le_iff_toNat_le, toNat_succ_step hs]
    show s.toNat + 1 ≤ 32
    omega
  have hdigit (b : Bool) : (if b.toUInt8 = 0 then 0 else 1) = b.toNat := by cases b <;> rfl
  have hpow : 2 ^ (s.toNat + 1) = 2 * 2 ^ s.toNat := by rw [Nat.pow_succ, Nat.mul_comm]
  rw [hmk, geohashDecode_eq hsucc, geohashDecode_eq (UInt8.le_trans hs (by decide)), hato, hono,
    toNat_succ_step hs]
  simp only [half_partRange, hdigit]
  rw [Nat.mod_eq_of_lt ha, Nat.mod_eq_of_lt hc, Nat.mod_eq_of_lt (by omega),
    Nat.mod_eq_of_lt (by omega)]

omit [FloorRing K] in
/-- The hash of the next step is that of a quarter. -/
private theorem geohashEncode_next (hlat : latRange.min < latRange.max)
    (hlon : lonRange.min < lonRange.max) (hs : 1 ≤ s) (hs' : s ≤ 31)
    (h : InArea latRange lonRange latitude longitude) (hash : GeoHashBits) :
    ∃ right top, (geohashEncode latRange lonRange latitude longitude (s + 1) hash).2 =
      geohashNext right top (geohashEncode latRange lonRange latitude longitude s hash).2 := by
  have hle : s.toNat ≤ 31 := UInt8.le_iff_toNat_le.mp hs'
  have hsucc := toNat_succ_step hs'
  have hs₁ : s ≤ s + 1 := by
    rw [UInt8.le_iff_toNat_le, hsucc]
    omega
  have hs₂ : s + 1 ≤ 32 := by
    rw [UInt8.le_iff_toNat_le, hsucc]
    show s.toNat + 1 ≤ 32
    omega
  have hcoarse := geohashEncode_coarser hlat hlon hs hs₁ hs₂ h hash
  obtain ⟨bits, a, c, hplain, hcell⟩ := geohashEncode_spec hlat hlon hs
    (UInt8.le_trans hs' (by decide)) h hash
  obtain ⟨bits', a', c', hplain', -⟩ := geohashEncode_spec hlat hlon (UInt8.le_trans hs hs₁) hs₂ h
    hash
  rw [hplain, hplain', hsucc, Nat.add_sub_cancel_left, Nat.pow_one] at hcoarse
  have hbits : bits.toNat < 2 ^ (2 * s.toNat) := by
    rw [hcell.bits_eq, Nat.pow_mul]
    exact morton_lt (hcell.lat.lt_two_pow hlat h.2.1) (hcell.lon.lt_two_pow hlon h.2.2.2)
  -- The last two digits tell the quarter
  obtain ⟨hstep, hnext⟩ := geohashNext_eq (bits'.toNat % 4 / 2 == 1) (bits'.toNat % 2 == 1) hs'
    hbits
  have hdigits : bits.toNat = bits'.toNat / 4 := hcoarse
  refine ⟨bits'.toNat % 4 / 2 == 1, bits'.toNat % 2 == 1, ?_⟩
  rw [hplain', hplain, ← hstep]
  have hto (n : Nat) (hn : n < 2) : (n == 1).toNat = n := by
    obtain rfl | rfl : n = 0 ∨ n = 1 := by omega
    · rfl
    · rfl
  rw [hto _ (by omega), hto _ (by omega), hdigits] at hnext
  have heq : bits' = (geohashNext (bits'.toNat % 4 / 2 == 1) (bits'.toNat % 2 == 1)
      ⟨bits, s⟩).bits := by
    rw [← UInt64.toNat_inj, hnext]
    omega
  exact congrArg (GeoHashBits.mk · _) heq

/-- What the plain functions and the fast ones have in common, for a step, as functions of exact
    numbers. The fast encoder is defined up to a step of 30, for which `1 << step` is an `int`. -/
structure PlainAgrees (latRange lonRange : GeoHashRange K) (s : UInt8) : Prop where
  /-- The encoders differ exactly on the borders of the cells. -/
  encode_iff : ∀ latitude longitude hash,
    geohashEncode latRange lonRange latitude longitude s hash =
        geohashFastEncode latRange lonRange latitude longitude s hash ↔
      (InArea latRange lonRange latitude longitude →
        ¬(OnBorder latRange s.toNat latitude ∨ OnBorder lonRange s.toNat longitude))
  /-- The decoders differ exactly on the hashes with more bits than the step has. -/
  decode_iff : ∀ bits,
    geohashDecode latRange lonRange ⟨bits, s⟩ = geohashFastDecode latRange lonRange ⟨bits, s⟩ ↔
      bits.toNat < 2 ^ (2 * s.toNat)
  /-- Also on a border the position is in the cell that its hash is decoded to. -/
  contains : ∀ latitude longitude hash, InArea latRange lonRange latitude longitude →
    (geohashDecode latRange lonRange
        (geohashEncode latRange lonRange latitude longitude s hash).2).Contains latitude
          longitude ∧
      (geohashFastDecode latRange lonRange
        (geohashFastEncode latRange lonRange latitude longitude s hash).2).Contains latitude
          longitude
  /-- A position inside a cell gets the hash of the cell. -/
  inside : ∀ bits latitude longitude hash, bits.toNat < 2 ^ (2 * s.toNat) →
    (geohashDecode latRange lonRange ⟨bits, s⟩).Inside latitude longitude →
      geohashEncode latRange lonRange latitude longitude s hash = (0, ⟨bits, s⟩) ∧
        geohashFastEncode latRange lonRange latitude longitude s hash = (0, ⟨bits, s⟩)
  /-- A coarser hash is the beginning of a finer one. -/
  coarser : ∀ t latitude longitude hash, 1 ≤ t → t ≤ s →
    InArea latRange lonRange latitude longitude →
      (geohashEncode latRange lonRange latitude longitude t hash).2.bits.toNat =
          (geohashEncode latRange lonRange latitude longitude s hash).2.bits.toNat /
            4 ^ (s.toNat - t.toNat) ∧
        (geohashFastEncode latRange lonRange latitude longitude t hash).2.bits.toNat =
          (geohashFastEncode latRange lonRange latitude longitude s hash).2.bits.toNat /
            4 ^ (s.toNat - t.toNat)
  /-- The cell of the next step is one of the quarters, which have half the sides. -/
  next : ∀ latitude longitude hash, InArea latRange lonRange latitude longitude →
    ∃ right top, (geohashEncode latRange lonRange latitude longitude (s + 1) hash).2 =
        geohashNext right top (geohashEncode latRange lonRange latitude longitude s hash).2
  quarters : ∀ right top bits, bits.toNat < 2 ^ (2 * s.toNat) →
    geohashDecode latRange lonRange (geohashNext right top ⟨bits, s⟩) =
      ⟨geohashNext right top ⟨bits, s⟩,
        half (geohashDecode latRange lonRange ⟨bits, s⟩).latitude top.toUInt8,
        half (geohashDecode latRange lonRange ⟨bits, s⟩).longitude right.toUInt8⟩

/-- With exact numbers in place of the `double`s, the plain geohash and the fast one agree. -/
theorem plain_agrees (hlat : latRange.min < latRange.max) (hlon : lonRange.min < lonRange.max)
    (hs : 1 ≤ s) (hs' : s ≤ 30) : PlainAgrees latRange lonRange s := by
  have hplain := le_of_le_thirty hs'
  have hnext : s ≤ 31 := UInt8.le_trans hs' (by decide)
  constructor
  · intro latitude longitude hash
    exact geohashEncode_eq_fast_iff hlat hlon hs hs' hash
  · intro bits
    exact geohashDecode_eq_fast_iff hlat hlon hs' bits
  · intro latitude longitude hash h
    exact ⟨contains_geohashDecode hlat hlon hs hplain h hash,
      contains_geohashFastDecode hlat hlon hs hs' h hash⟩
  · intro bits latitude longitude hash hbits h
    obtain ⟨hencode, hborder⟩ := geohashEncode_inside hlat hlon hs hplain hbits h hash
    -- Off the borders the fast encoder does the same
    have hfast := (geohashEncode_eq_fast_iff hlat hlon hs hs' hash).mpr fun _ => hborder
    exact ⟨hencode, hfast ▸ hencode⟩
  · intro t latitude longitude hash ht hts h
    exact ⟨geohashEncode_coarser hlat hlon ht hts hplain h hash,
      geohashFastEncode_coarser hlat hlon ht hts hs' h hash⟩
  · intro latitude longitude hash h
    exact geohashEncode_next hlat hlon hs hnext h hash
  · intro right top bits hbits
    exact geohashDecode_next right top hnext hbits

end Plain

/-- The ranges and the step of the relay. -/
theorem plain_agrees_relay :
    PlainAgrees (latRangeConst : GeoHashRange ℚ) lonRangeConst geohashStepBit :=
  plain_agrees (by decide +kernel) (by decide +kernel) (by decide) (by decide)

/-- In the middle of the area the encoders differ. -/
example : (geohashEncode (⟨4, 0⟩ : GeoHashRange ℚ) ⟨4, 0⟩ 2 1 1 ⟨0, 0⟩).2.bits = 0 ∧
    (geohashFastEncode (⟨4, 0⟩ : GeoHashRange ℚ) ⟨4, 0⟩ 2 1 1 ⟨0, 0⟩).2.bits = 1 := by
  decide +kernel

end MapRelay
