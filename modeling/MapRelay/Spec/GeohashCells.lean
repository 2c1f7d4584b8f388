import MapRelay.ForStd.Morton
import MapRelay.ForStd.OrLinear
import MapRelay.Native.Geohash

/-!
# Cells and their coordinates

A geohash of step `s` is a pair of numbers below `2 ^ s`, interleaved. The rounds of
`interleave64` and `deinterleave64` are followed bit by bit; a move to a neighbouring cell
counts one of the coordinates up or down and leaves the other one alone.
-/

namespace MapRelay

open ForStd ForStd.Morton

/-! ## The rounds of the interleaving -/

/-- Spreading the bits respects disjunction. -/
private theorem orLinear_spread :
    OrLinear fun x => (interleave64.spread (.ofBitVec x)).toBitVec := by
  have round {f : BitVec 64 → BitVec 64} (hf : OrLinear f) (n : Nat) (m : BitVec 64) :
      OrLinear fun x => (f x ||| f x <<< n) &&& m := (hf.union (hf.shiftLeft n)).mask m
  exact round (round (round (round (round .id 16 _) 8 _) 4 _) 2 _) 1 _

/-- Gathering the bits respects disjunction. -/
private theorem orLinear_gather :
    OrLinear fun x => (deinterleave64.gather (.ofBitVec x)).toBitVec := by
  have round {f : BitVec 64 → BitVec 64} (hf : OrLinear f) (n : Nat) (m : BitVec 64) :
      OrLinear fun x => (f x ||| f x >>> n) &&& m := (hf.union (hf.shiftRight n)).mask m
  exact round (round (round (round (round (round .id 0 _) 1 _) 2 _) 4 _) 8 _) 16 _

/-- What the rounds make of a single bit. -/
private theorem spread_twoPow : ∀ i < 32,
    (interleave64.spread (.ofBitVec (BitVec.twoPow 64 i))).toBitVec =
      BitVec.twoPow 64 (2 * i) := by decide +kernel

/-- A single bit is gathered from the even places and lost from the odd ones. -/
private theorem gather_twoPow : ∀ i < 64,
    (deinterleave64.gather (.ofBitVec (BitVec.twoPow 64 i))).toBitVec =
      if i % 2 = 0 then BitVec.twoPow 64 (i / 2) else 0 := by decide +kernel

/-- A bit of a number above its bound. -/
private theorem lt_of_testBit {n w i : Nat} (h : n < 2 ^ w) (hi : n.testBit i = true) : i < w := by
  by_contra hle
  rw [Nat.testBit_lt_two_pow (Nat.lt_of_lt_of_le h
    (Nat.pow_le_pow_right (by decide) (Nat.not_lt.mp hle)))] at hi
  cases hi

/-- The spread number as a number. -/
private theorem toNat_spread (x : UInt32) :
    (interleave64.spread x.toUInt64).toNat = Morton.spread x.toNat := by
  have heven : Morton.spread x.toNat = morton x.toNat 0 := by rw [morton, Morton.spread_zero]; rfl
  rw [heven]
  apply Nat.eq_of_testBit_eq
  -- Bit by bit, an even place or an odd one
  intro j
  rw [Bool.eq_iff_iff]
  refine (orLinear_spread.getLsbD_iff x.toUInt64.toBitVec j).trans ?_
  obtain ⟨k, d, hd, rfl⟩ := exists_two_mul_add j
  constructor
  · rintro ⟨i, -, hx, hbit⟩
    have hi : i < 32 := lt_of_testBit x.toNat_lt hx
    rw [spread_twoPow i hi, BitVec.getLsbD_twoPow, Bool.and_eq_true, decide_eq_true_eq,
      decide_eq_true_eq] at hbit
    obtain ⟨rfl, rfl⟩ : d = 0 ∧ k = i := by omega
    rw [Nat.add_zero, testBit_morton_even]
    exact hx
  · intro hbit
    -- At an even place stands the bit of `x`, at an odd one none
    obtain rfl | rfl : d = 0 ∨ d = 1 := by omega
    · rw [Nat.add_zero, testBit_morton_even] at hbit
      have hk : k < 32 := lt_of_testBit x.toNat_lt hbit
      refine ⟨k, by omega, hbit, ?_⟩
      rw [spread_twoPow k hk, BitVec.getLsbD_twoPow, Bool.and_eq_true, decide_eq_true_eq,
        decide_eq_true_eq]
      omega
    · rw [testBit_morton_odd, Nat.zero_testBit] at hbit
      cases hbit

/-- The gathered bits are those of the even places. -/
private theorem testBit_gather (x : UInt64) (j : Nat) :
    (deinterleave64.gather x).toNat.testBit j = x.toNat.testBit (2 * j) := by
  rw [Bool.eq_iff_iff]
  refine (orLinear_gather.getLsbD_iff x.toBitVec j).trans ?_
  -- `gather` is linear, hence one bit of the input decides one bit of the output
  constructor
  · rintro ⟨i, hi, hx, hbit⟩
    rw [gather_twoPow i hi] at hbit
    split at hbit
    case isTrue hmod =>
      rw [BitVec.getLsbD_twoPow, Bool.and_eq_true, decide_eq_true_eq, decide_eq_true_eq] at hbit
      obtain rfl : i = 2 * j := by omega
      exact hx
    case isFalse => simp at hbit
  · intro hx
    have hi : 2 * j < 64 := lt_of_testBit x.toNat_lt hx
    refine ⟨2 * j, hi, hx, ?_⟩
    rw [gather_twoPow (2 * j) hi, if_pos (by omega), BitVec.getLsbD_twoPow, Bool.and_eq_true,
      decide_eq_true_eq, decide_eq_true_eq]
    omega

/-- Of an interleaved hash, the first number is gathered. -/
private theorem toNat_gather {x : UInt64} {a c : Nat} (h : x.toNat = morton a c) :
    (deinterleave64.gather x).toNat = a := by
  apply Nat.eq_of_testBit_eq
  intro j
  rw [testBit_gather, h, testBit_morton_even]

/-! ## Coordinates -/

/-- The two numbers of an interleaved hash. -/
theorem coordinates_of_morton {bits : UInt64} {a c : Nat} (h : bits.toNat = morton a c)
    (ha : a < 2 ^ 32) (hc : c < 2 ^ 32) : (ilato bits).toNat = a ∧ (ilono bits).toNat = c := by
  -- The even bits are the latitude
  have hlow : (deinterleave64.gather bits).toNat = a := toNat_gather h
  -- The odd ones are the longitude, seen after a shift by one
  have hhigh : (deinterleave64.gather (bits >>> 1)).toNat = c := by
    apply toNat_gather (c := a / 2)
    rw [← morton_div_two, ← h]
    exact Nat.shiftRight_eq_div_pow bits.toNat 1
  -- The lower half of the word is `a`, the upper half is `c`
  have hboth : (deinterleave64 bits).toNat = c * 2 ^ 32 + a := by
    rw [deinterleave64, UInt64.toNat_or, UInt64.toNat_shiftLeft, hlow, hhigh]
    show a ||| c <<< 32 % 2 ^ 64 = _
    rw [Nat.mod_eq_of_lt (by rw [Nat.shiftLeft_eq]; omega), Nat.or_comm,
      ← Nat.shiftLeft_add_eq_or_of_lt ha, Nat.shiftLeft_eq]
  constructor
  · rw [ilato, UInt64.toNat_toUInt32, hboth]
    omega
  · rw [ilono, UInt64.toNat_toUInt32, UInt64.toNat_shiftRight, hboth]
    show (c * 2 ^ 32 + a) >>> 32 % 2 ^ 32 = c
    rw [Nat.shiftRight_eq_div_pow]
    omega

/-- The bits of a geohash in the even positions are its latitude, the others its longitude. -/
theorem toNat_eq_morton (bits : UInt64) :
    bits.toNat = morton (ilato bits).toNat (ilono bits).toNat := by
  obtain ⟨a, c, ha, hc, h⟩ := exists_morton (s := 32) bits.toNat_lt
  obtain ⟨hlat, hlon⟩ := coordinates_of_morton h ha hc
  rw [hlat, hlon, h]

/-- The interleaved hash as a number. -/
theorem toNat_interleave64 (x y : UInt32) :
    (interleave64 x y).toNat = morton x.toNat y.toNat := by
  have hlt : 2 * Morton.spread y.toNat < 2 ^ 64 := by
    have h := morton_lt (a := 0) (s := 32) (by decide) y.toNat_lt
    rwa [morton, Morton.spread_zero, Nat.zero_add] at h
  rw [interleave64, UInt64.toNat_or, UInt64.toNat_shiftLeft, toNat_spread, toNat_spread]
  show _ ||| Morton.spread y.toNat <<< 1 % 2 ^ 64 = _
  rw [Nat.shiftLeft_eq, Nat.pow_one, Nat.mul_comm, Nat.mod_eq_of_lt hlt, spread_lor]

/-! ## Moving by a cell -/

/-- The next number of `s` bits, the previous one, or the number itself. -/
def moved (s a : Nat) (d : Int) : Nat :=
  if d = 0 then a else if d > 0 then (a + 1) % 2 ^ s else (a + (2 ^ s - 1)) % 2 ^ s

/-- A moved number still has `s` bits. -/
private theorem moved_lt {s a : Nat} (h : a < 2 ^ s) (d : Int) : moved s a d < 2 ^ s := by
  rw [moved]
  split
  · exact h
  · split <;> exact Nat.mod_lt _ (Nat.two_pow_pos s)

/-- The masks for the step, shifted to the places of the hash. -/
private theorem toNat_mask : ∀ s < 33, 1 ≤ s →
    ((0x5555555555555555 : UInt64) >>> (64 - UInt8.ofNat s * 2).toUInt64).toNat = mask s ∧
      ((0xaaaaaaaaaaaaaaaa : UInt64) >>> (64 - UInt8.ofNat s * 2).toUInt64).toNat = 2 * mask s := by
  decide +kernel

section Move

variable {bits : UInt64} {s a c : Nat}

/-- The bits of the latitude. -/
private theorem toNat_land_even (h : bits.toNat = morton a c) (ha : a < 2 ^ 32) :
    (bits &&& 0x5555555555555555).toNat = Morton.spread a := by
  have hmask : (0x5555555555555555 : UInt64).toNat = mask 32 := rfl
  rw [UInt64.toNat_and, h, hmask, morton_land_mask, Nat.mod_eq_of_lt ha]

/-- The bits of the longitude. -/
private theorem toNat_land_odd (h : bits.toNat = morton a c) (hc : c < 2 ^ 32) :
    (bits &&& 0xaaaaaaaaaaaaaaaa).toNat = 2 * Morton.spread c := by
  have hmask : (0xaaaaaaaaaaaaaaaa : UInt64).toNat = 2 * mask 32 := rfl
  rw [UInt64.toNat_and, h, hmask, morton_land_two_mask, Nat.mod_eq_of_lt hc]

/-- Counting up behind the places that `zz` fills. -/
private theorem toNat_count_up (y zz m : UInt64) :
    ((y + (zz + 1)) &&& m).toNat = (y.toNat + (zz.toNat + 1) &&& m.toNat) := by
  have hadd : (y + (zz + 1)).toNat = (y.toNat + (zz.toNat + 1)) % 2 ^ 64 := by
    rw [UInt64.toNat_add, UInt64.toNat_add, UInt64.toNat_one, Nat.add_mod_mod]
  rw [UInt64.toNat_and, hadd, mod_two_pow_land _ m.toNat_lt]

/-- Counting down behind the places that `zz` fills, which `y` does not have. -/
private theorem toNat_count_down {y zz : UInt64} (h : (y ||| zz).toNat = y.toNat + zz.toNat)
    (hzz : zz.toNat + 1 < 2 ^ 64) (m : UInt64) :
    (((y ||| zz) - (zz + 1)) &&& m).toNat = (y.toNat + (2 ^ 64 - 1) &&& m.toNat) := by
  have hone : (zz + 1).toNat = zz.toNat + 1 := by
    rw [UInt64.toNat_add, UInt64.toNat_one, Nat.mod_eq_of_lt hzz]
  have hsub : ((y ||| zz) - (zz + 1)).toNat = (y.toNat + (2 ^ 64 - 1)) % 2 ^ 64 := by
    rw [UInt64.toNat_sub, h, hone]
    omega
  rw [UInt64.toNat_and, hsub, mod_two_pow_land _ m.toNat_lt]

/-- The mask fits into a number of 64 bits. -/
private theorem mask_lt_two_pow (hs : s ≤ 32) : mask s < 2 ^ 63 := by
  have hmask := three_mul_mask s
  have hle : 4 ^ s ≤ 4 ^ 32 := Nat.pow_le_pow_right (by decide) hs
  omega

variable {step : UInt8}

/-- `geohash_move_y` moves the latitude alone. -/
private theorem geohashMoveY_bits (hs : 1 ≤ s) (hs' : s ≤ 32) (hbits : bits.toNat = morton a c)
    (ha : a < 2 ^ s) (hc : c < 2 ^ s) (d : Int) :
    (geohashMoveY ⟨bits, .ofNat s⟩ d).bits.toNat = morton (moved s a d) c := by
  have hlt : 2 ^ s ≤ 2 ^ 32 := Nat.pow_le_pow_right (by decide) hs'
  have hmask := mask_lt_two_pow hs'
  obtain ⟨heven, hodd⟩ := toNat_mask s (by omega) hs
  -- The mask leaves the bits of the one coordinate
  have hx := toNat_land_odd hbits (by omega)
  have hy := toNat_land_even hbits (by omega)
  rw [geohashMoveY, moved]
  by_cases h0 : d = 0
  · rw [if_pos h0, if_pos h0]
    exact hbits
  · rw [if_neg h0, if_neg h0]
    by_cases hd : d > 0
    -- Upwards the carry runs through the filled bits of the other coordinate
    · simp only [if_pos hd]
      rw [UInt64.toNat_or, toNat_count_up, hx, hy, heven, hodd, add_one_land_mask a (by omega),
        Nat.or_comm, spread_lor]
    -- Downwards the other bits are filled so that the borrow stays within the mask
    · simp only [if_neg hd]
      have hfill : ((bits &&& 0x5555555555555555) |||
          ((0xaaaaaaaaaaaaaaaa : UInt64) >>> (64 - UInt8.ofNat s * 2).toUInt64)).toNat =
          Morton.spread a + 2 * mask s := by
        rw [UInt64.toNat_or, hy, hodd, ← spread_two_pow_sub_one, spread_lor, morton]
      rw [UInt64.toNat_or, toNat_count_down (by rw [hfill, hy, hodd]) (by omega), hx, hy, heven,
        sub_one_land_mask a (by omega), Nat.or_comm, spread_lor]

/-- `geohash_move_x` moves the longitude alone. -/
private theorem geohashMoveX_bits (hs : 1 ≤ s) (hs' : s ≤ 32) (hbits : bits.toNat = morton a c)
    (ha : a < 2 ^ s) (hc : c < 2 ^ s) (d : Int) :
    (geohashMoveX ⟨bits, .ofNat s⟩ d).bits.toNat = morton a (moved s c d) := by
  have hlt : 2 ^ s ≤ 2 ^ 32 := Nat.pow_le_pow_right (by decide) hs'
  have hmask := mask_lt_two_pow hs'
  obtain ⟨heven, hodd⟩ := toNat_mask s (by omega) hs
  have hx := toNat_land_odd hbits (by omega)
  have hy := toNat_land_even hbits (by omega)
  rw [geohashMoveX, moved]
  by_cases h0 : d = 0
  · rw [if_pos h0, if_pos h0]
    exact hbits
  · rw [if_neg h0, if_neg h0]
    by_cases hd : d > 0
    · simp only [if_pos hd]
      obtain ⟨t, rfl⟩ := Nat.exists_eq_succ_of_ne_zero (Nat.one_le_iff_ne_zero.mp hs)
      -- The digit of the carry is the lowest of the longitude
      have hhalf : (2 * Morton.spread c + (mask (t + 1) + 1)) / 2 =
          Morton.spread c + (2 * mask t + 1) := by
        rw [mask]
        omega
      rw [UInt64.toNat_or, toNat_count_up, hx, hy, heven, hodd, land_two_mul, hhalf,
        add_one_land_mask c (Nat.le_refl _), Nat.or_comm, spread_lor]
    · simp only [if_neg hd]
      have hfill : ((bits &&& 0xaaaaaaaaaaaaaaaa) |||
          ((0x5555555555555555 : UInt64) >>> (64 - UInt8.ofNat s * 2).toUInt64)).toNat =
          2 * Morton.spread c + mask s := by
        rw [UInt64.toNat_or, hx, heven, Nat.or_comm, ← spread_two_pow_sub_one, spread_lor, morton,
          Nat.add_comm]
      have hhalf : (2 * Morton.spread c + (2 ^ 64 - 1)) / 2 = Morton.spread c + (2 ^ 63 - 1) := by
        omega
      rw [UInt64.toNat_or, toNat_count_down (by rw [hfill, hx, heven]) (by omega), hx, hy, hodd,
        land_two_mul, hhalf, sub_one_land_mask c hmask, Nat.or_comm, spread_lor]

end Move

/-! ## The neighbours of a cell -/

/-- How far to the east a direction goes. -/
def GeoDirection.dlon : GeoDirection → Int
  | .north | .south => 0
  | .east | .southEast | .northEast => 1
  | .west | .southWest | .northWest => -1

/-- How far to the north a direction goes. -/
def GeoDirection.dlat : GeoDirection → Int
  | .east | .west => 0
  | .north | .northWest | .northEast => 1
  | .south | .southWest | .southEast => -1

/-- A neighbour is reached by a move in each direction. -/
private theorem geohashGetNeighbor_eq (hash : GeoHashBits) (dir : GeoDirection) :
    geohashGetNeighbor hash dir = geohashMoveY (geohashMoveX hash dir.dlon) dir.dlat := by
  cases dir <;> rfl

/-- A move keeps the step. -/
private theorem geohashMoveX_step (hash : GeoHashBits) (d : Int) :
    (geohashMoveX hash d).step = hash.step := by
  rw [geohashMoveX]
  split <;> rfl

/-- The cell `cell` is `dlon` to the east and `dlat` to the north of `bits`. -/
structure IsAt (s : Nat) (bits : UInt64) (dlon dlat : Int) (cell : UInt64) : Prop where
  lt : cell.toNat < 2 ^ (2 * s)
  lon : ((ilono cell).toNat : Int) = ((ilono bits).toNat + dlon) % 2 ^ s
  lat : ((ilato cell).toNat : Int) = ((ilato bits).toNat + dlat) % 2 ^ s

/-- A moved number, modulo `2 ^ s`. -/
private theorem cast_moved {s a : Nat} {d : Int} (ha : a < 2 ^ s) (hd : d = 0 ∨ d = 1 ∨ d = -1) :
    (moved s a d : Int) = (a + d) % 2 ^ s := by
  have hcast : ((2 ^ s : Nat) : Int) = 2 ^ s := by push_cast; rfl
  have hpos := Nat.two_pow_pos s
  rcases hd with rfl | rfl | rfl
  · rw [moved, if_pos rfl, Int.add_zero, ← hcast, ← Int.natCast_mod, Nat.mod_eq_of_lt ha]
  · rw [moved, if_neg (by decide), if_pos (by decide), ← hcast]
    push_cast
    rfl
  · have hwrap : ((a + (2 ^ s - 1) : Nat) : Int) = a + -1 + ((2 ^ s : Nat) : Int) := by omega
    rw [moved, if_neg (by decide), if_neg (by decide), ← hcast, Int.natCast_mod, hwrap,
      Int.add_emod_right]

/-- The coordinates of a hash of `2 * s` bits have `s` bits each. -/
theorem coordinates_lt {s : Nat} {bits : UInt64} (h : bits.toNat < 2 ^ (2 * s)) :
    (ilato bits).toNat < 2 ^ s ∧ (ilono bits).toNat < 2 ^ s := by
  rw [Nat.pow_mul] at h
  obtain ⟨a, c, ha, hc, hbits⟩ := exists_morton h
  rw [toNat_eq_morton, morton_inj] at hbits
  omega

/-- A neighbour is where its direction says. -/
theorem neighbor_isAt {s : Nat} {bits : UInt64} (hs : 1 ≤ s) (hs' : s ≤ 32)
    (h : bits.toNat < 2 ^ (2 * s)) (dir : GeoDirection) :
    IsAt s bits dir.dlon dir.dlat (geohashGetNeighbor ⟨bits, .ofNat s⟩ dir).bits := by
  obtain ⟨hlat, hlon⟩ := coordinates_lt h
  have hlt : 2 ^ s ≤ 2 ^ 32 := Nat.pow_le_pow_right (by decide) hs'
  have hlon' := moved_lt hlon dir.dlon
  have hlat' := moved_lt hlat dir.dlat
  have hx := geohashMoveX_bits hs hs' (toNat_eq_morton bits) hlat hlon dir.dlon
  have hy : (geohashGetNeighbor ⟨bits, .ofNat s⟩ dir).bits.toNat =
      morton (moved s (ilato bits).toNat dir.dlat) (moved s (ilono bits).toNat dir.dlon) := by
    have hstep : geohashMoveX ⟨bits, .ofNat s⟩ dir.dlon =
        ⟨(geohashMoveX ⟨bits, .ofNat s⟩ dir.dlon).bits, .ofNat s⟩ :=
      congrArg (GeoHashBits.mk _) (geohashMoveX_step ⟨bits, .ofNat s⟩ dir.dlon)
    rw [geohashGetNeighbor_eq, hstep]
    exact geohashMoveY_bits hs hs' hx hlat hlon' dir.dlat
  obtain ⟨hato, hono⟩ := coordinates_of_morton hy (by omega) (by omega)
  refine ⟨?_, ?_, ?_⟩
  · rw [hy, Nat.pow_mul]
    exact morton_lt hlat' hlon'
  · rw [hono]
    exact cast_moved hlon (by cases dir <;> decide)
  · rw [hato]
    exact cast_moved hlat (by cases dir <;> decide)

end MapRelay
