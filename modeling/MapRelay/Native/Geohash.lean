import Mathlib.Algebra.Order.Floor.Defs
import Mathlib.Algebra.Field.Defs
import MapRelay.Native.Numerals

/-!
# Geohash encoding and the 3×3 relay zone (`geohash.c`)

A geohash of step `s` interleaves `s` bits of latitude (even positions) with `s`
bits of longitude (odd positions). Positions are `double`s in the source; here they
range over an arbitrary ordered field `K` with a floor, read as exact numbers.
-/

namespace MapRelay

/-- `GEOHASH_STEP_BIT`. -/
def geohashStepBit : UInt8 := 12

/-- `GeoHashBits`. -/
structure GeoHashBits where
  bits : UInt64
  step : UInt8
  deriving DecidableEq, Repr

/-- `GeoHashRange`. -/
structure GeoHashRange (K : Type) where
  max : K
  min : K

/-- `interleave64`: the bits of `xlo` in the even positions, those of `ylo` in the odd. -/
def interleave64 (xlo ylo : UInt32) : UInt64 :=
  spread xlo.toUInt64 ||| (spread ylo.toUInt64 <<< 1)
where
  -- Five rounds, each of which doubles the gaps between the groups of bits
  spread (x : UInt64) : UInt64 :=
    let x := (x ||| (x <<< 16)) &&& 0x0000FFFF0000FFFF
    let x := (x ||| (x <<< 8)) &&& 0x00FF00FF00FF00FF
    let x := (x ||| (x <<< 4)) &&& 0x0F0F0F0F0F0F0F0F
    let x := (x ||| (x <<< 2)) &&& 0x3333333333333333
    (x ||| (x <<< 1)) &&& 0x5555555555555555

/-- `deinterleave64`: the bits of the even positions in the low half, those of the odd in the
    high half. -/
def deinterleave64 (interleaved : UInt64) : UInt64 :=
  gather interleaved ||| (gather (interleaved >>> 1) <<< 32)
where
  -- Five rounds, each of which closes the gaps between pairs of groups, behind an empty one
  gather (x : UInt64) : UInt64 :=
    let x := (x ||| (x >>> 0)) &&& 0x5555555555555555
    let x := (x ||| (x >>> 1)) &&& 0x3333333333333333
    let x := (x ||| (x >>> 2)) &&& 0x0F0F0F0F0F0F0F0F
    let x := (x ||| (x >>> 4)) &&& 0x00FF00FF00FF00FF
    let x := (x ||| (x >>> 8)) &&& 0x0000FFFF0000FFFF
    (x ||| (x >>> 16)) &&& 0x00000000FFFFFFFF

section Encode

variable {K : Type} [Field K] [LinearOrder K] [FloorRing K]

/-- The C conversion of a `double` to `uint32_t`: the integer part, modulo `2^32`. -/
def truncUInt32 (x : K) : UInt32 :=
  UInt32.ofNat (if 0 ≤ x then ⌊x⌋ else -⌊-x⌋).toNat

/-- `geohash_fast_encode`: the return code and the written `*hash`. A position outside the
    ranges leaves `bits = 0`. -/
def geohashFastEncode (latRange lonRange : GeoHashRange K) (latitude longitude : K)
    (step : UInt8) (hash : GeoHashBits) : Int × GeoHashBits :=
  -- A bad step is found before anything is written to `hash`
  if step > 32 ∨ step = 0 then (-1, hash)
  else if latitude < latRange.min ∨ latitude > latRange.max
      ∨ longitude < lonRange.min ∨ longitude > lonRange.max then (-1, ⟨0, step⟩)
  else
    let latOffset := (latitude - latRange.min) / (latRange.max - latRange.min)
    let lonOffset := (longitude - lonRange.min) / (lonRange.max - lonRange.min)
    let latOffset := latOffset * (2 ^ step.toNat : K)
    let lonOffset := lonOffset * (2 ^ step.toNat : K)
    (0, ⟨interleave64 (truncUInt32 latOffset) (truncUInt32 lonOffset), step⟩)

/-- `ilato`, the latitude of a cell as a number. -/
def ilato (bits : UInt64) : UInt32 := (deinterleave64 bits).toUInt32

/-- `ilono`, the longitude of a cell as a number. -/
def ilono (bits : UInt64) : UInt32 := (deinterleave64 bits >>> 32).toUInt32

/-- `GeoHashArea`. -/
structure GeoHashArea (K : Type) where
  hash : GeoHashBits
  latitude : GeoHashRange K
  longitude : GeoHashRange K

/-- The part of a range between the cells `i` and `i + 1`, an addition of 32 bits. -/
def decodeRange (range : GeoHashRange K) (i : UInt32) (step : UInt8) : GeoHashRange K :=
  let scale := range.max - range.min
  { min := range.min + (i.toNat : K) / (2 ^ step.toNat : K) * scale
    max := range.min + ((i + 1).toNat : K) / (2 ^ step.toNat : K) * scale }

/-- `geohash_fast_decode`. -/
def geohashFastDecode (latRange lonRange : GeoHashRange K) (hash : GeoHashBits) :
    GeoHashArea K :=
  { hash
    latitude := decodeRange latRange (ilato hash.bits) hash.step
    longitude := decodeRange lonRange (ilono hash.bits) hash.step }

/-- A round of `geohash_encode` for one of the two ranges: the bit, and the half of the range in
    which the value lies. -/
def halve (range : GeoHashRange K) (x : K) : UInt64 × GeoHashRange K :=
  if range.max - x ≥ x - range.min then (0, { range with max := (range.max + range.min) / 2 })
  else (1, { range with min := (range.max + range.min) / 2 })

/-- The loop of `geohash_encode`, with the number of rounds that are left. -/
def geohashEncodeFrom (latitude longitude : K) :
    Nat → GeoHashRange K → GeoHashRange K → UInt64 → UInt64
  | 0, _, _, bits => bits
  | i + 1, latRange, lonRange, bits =>
    let (latBit, latRange) := halve latRange latitude
    let (lonBit, lonRange) := halve lonRange longitude
    geohashEncodeFrom latitude longitude i latRange lonRange
      ((((bits <<< 1) + lonBit) <<< 1) + latBit)

/-- `geohash_encode`: the return code and the written `*hash`. -/
def geohashEncode (latRange lonRange : GeoHashRange K) (latitude longitude : K)
    (step : UInt8) (hash : GeoHashBits) : Int × GeoHashBits :=
  if step > 32 ∨ step = 0 then (-1, hash)
  else if latitude < latRange.min ∨ latitude > latRange.max
      ∨ longitude < lonRange.min ∨ longitude > lonRange.max then (-1, ⟨0, step⟩)
  else (0, ⟨geohashEncodeFrom latitude longitude step.toNat latRange lonRange 0, step⟩)

/-- `get_bit`. -/
def getBit (bits : UInt64) (pos : UInt8) : UInt8 := ((bits >>> pos.toUInt64) &&& 0x01).toUInt8

/-- A round of `geohash_decode` for one of the two ranges. -/
def half (range : GeoHashRange K) (bit : UInt8) : GeoHashRange K :=
  if bit = 0 then { range with max := (range.max + range.min) / 2 }
  else { range with min := (range.max + range.min) / 2 }

/-- The loop of `geohash_decode`, with the number of rounds that are left, `hash.step - i`. -/
def geohashDecodeFrom (bits : UInt64) : Nat → GeoHashRange K → GeoHashRange K →
    GeoHashRange K × GeoHashRange K
  | 0, latitude, longitude => (latitude, longitude)
  | i + 1, latitude, longitude =>
    let lonBit := getBit bits (.ofNat ((i + 1) * 2 - 1))
    let latBit := getBit bits (.ofNat ((i + 1) * 2 - 2))
    geohashDecodeFrom bits i (half latitude latBit) (half longitude lonBit)

/-- `geohash_decode`. -/
def geohashDecode (latRange lonRange : GeoHashRange K) (hash : GeoHashBits) : GeoHashArea K :=
  let (latitude, longitude) := geohashDecodeFrom hash.bits hash.step.toNat latRange lonRange
  { hash, latitude, longitude }

/-- `LAT_RANGE_MIN` and `LAT_RANGE_MAX`. -/
def latRangeConst : GeoHashRange K := ⟨4015929 / 100000, 3974732 / 100000⟩

/-- `LON_RANGE_MIN` and `LON_RANGE_MAX`. -/
def lonRangeConst : GeoHashRange K := ⟨11673407 / 100000, 11616677 / 100000⟩

end Encode

/-! ## The quarters of a cell -/

/-- `geohash_next_leftbottom`. -/
def geohashNextLeftbottom (bits : GeoHashBits) : GeoHashBits := ⟨bits.bits <<< 2, bits.step + 1⟩

/-- `geohash_next_rightbottom`. -/
def geohashNextRightbottom (bits : GeoHashBits) : GeoHashBits :=
  ⟨(bits.bits <<< 2) + 2, bits.step + 1⟩

/-- `geohash_next_lefttop`. -/
def geohashNextLefttop (bits : GeoHashBits) : GeoHashBits := ⟨(bits.bits <<< 2) + 1, bits.step + 1⟩

/-- `geohash_next_righttop`. -/
def geohashNextRighttop (bits : GeoHashBits) : GeoHashBits :=
  ⟨(bits.bits <<< 2) + 3, bits.step + 1⟩

/-! ## Neighbouring cells -/

/-- `geohash_move_x`: move by one cell along the longitude bits. -/
def geohashMoveX (hash : GeoHashBits) (d : Int) : GeoHashBits :=
  if d = 0 then hash
  else
    let x := hash.bits &&& 0xaaaaaaaaaaaaaaaa
    let y := hash.bits &&& 0x5555555555555555
    let sh := (64 - hash.step * 2).toUInt64
    let zz := (0x5555555555555555 : UInt64) >>> sh
    -- `zz` fills the bits of the other coordinate, so that the carry runs through them
    let x := if d > 0 then x + (zz + 1) else (x ||| zz) - (zz + 1)
    let x := x &&& ((0xaaaaaaaaaaaaaaaa : UInt64) >>> sh)
    { hash with bits := x ||| y }

/-- `geohash_move_y`: move by one cell along the latitude bits. -/
def geohashMoveY (hash : GeoHashBits) (d : Int) : GeoHashBits :=
  if d = 0 then hash
  else
    let x := hash.bits &&& 0xaaaaaaaaaaaaaaaa
    let y := hash.bits &&& 0x5555555555555555
    let sh := (64 - hash.step * 2).toUInt64
    let zz := (0xaaaaaaaaaaaaaaaa : UInt64) >>> sh
    let y := if d > 0 then y + (zz + 1) else (y ||| zz) - (zz + 1)
    let y := y &&& ((0x5555555555555555 : UInt64) >>> sh)
    { hash with bits := x ||| y }

/-- `GeoDirection`. -/
inductive GeoDirection where
  | north | east | west | south | southWest | southEast | northWest | northEast
  deriving DecidableEq, Repr

/-- `geohash_get_neighbor`. -/
def geohashGetNeighbor (hash : GeoHashBits) : GeoDirection → GeoHashBits
  | .north => geohashMoveY (geohashMoveX hash 0) 1
  | .south => geohashMoveY (geohashMoveX hash 0) (-1)
  | .east => geohashMoveY (geohashMoveX hash 1) 0
  | .west => geohashMoveY (geohashMoveX hash (-1)) 0
  | .southWest => geohashMoveY (geohashMoveX hash (-1)) (-1)
  | .southEast => geohashMoveY (geohashMoveX hash 1) (-1)
  | .northWest => geohashMoveY (geohashMoveX hash (-1)) 1
  | .northEast => geohashMoveY (geohashMoveX hash 1) 1

/-- `GeoHashSetCoordinate`: the rows of cells; `setIntersectionSize` fixes `sx = sy = 3`. -/
structure GeoHashSetCoordinate where
  geohashset : List (List UInt64)
  sx : Int
  sy : Int
  deriving DecidableEq, Repr

/-- `setIntersectionSize` followed by `geohash_get_neighbors_in_set`: the 3×3 zone around
    a cell, north row first. -/
def geohashGetNeighborsInSet (centerGeohash : UInt64) : GeoHashSetCoordinate :=
  -- `geohash_get_neighbors` fills the eight neighbours of the centre
  let nb (d : GeoDirection) := (geohashGetNeighbor ⟨centerGeohash, geohashStepBit⟩ d).bits
  ⟨[[nb .northWest, nb .north, nb .northEast],
    [nb .west, centerGeohash, nb .east],
    [nb .southWest, nb .south, nb .southEast]], 3, 3⟩

end MapRelay
