import MapRelay.Native.Geohash

/-!
# Choosing a relay in a zone of cells

Among the neighbours in the 3×3 zone around an intersection, both copies of the code choose
the one that stays longest: the one with the most cells ahead of it in its direction. The
loop is stated once, over the type `E` of the table entries.
-/

namespace MapRelay

/-- Row and column of the first cell of the zone that is `geohash`. -/
def findCell (geohash : UInt64) (set : GeoHashSetCoordinate) : Option (Nat × Nat) :=
  (set.geohashset.take set.sy.toNat).zipIdx.findSome? fun (row, i) =>
    ((row.take set.sx.toNat).zipIdx.find? fun (cell, _) => cell == geohash).map fun (_, j) =>
      (i, j)

/-- `geohash_is_geohash_in_set`, which goes over all nine cells whatever `sx` and `sy` are. -/
def geohashIsGeohashInSet (geohash : UInt64) (set : GeoHashSetCoordinate) : Bool :=
  (set.geohashset.take 3).any fun row => (row.take 3).any (· == geohash)

/-- `GetDtime`, `get_dtime`: how many cells of the zone lie ahead of a vehicle, `-1` if it is
    outside. The four cases of the source cover all directions. -/
def getDtime (geohash : UInt64) (direct : Int) (set : GeoHashSetCoordinate) : Int :=
  if set.sx ≠ 3 ∧ set.sy ≠ 3 then -1
  else
    match findCell geohash set with
    | none => -1
    | some (i, j) =>
      -- East, west, south, and everything else is north
      if 45 ≤ direct ∧ direct < 135 then set.sx - j
      else if 225 ≤ direct ∧ direct < 315 then j + 1
      else if 135 ≤ direct ∧ direct < 225 then set.sy - i
      else i + 1

/-- The loop of `GetnbFromsetBest` and `neighbor_getnode_fromset_best` over the entries, with
    its variables `dtime_best` and `best`. -/
def bestOfSet {E : Type} (dtime : E → Int) (dtimeMax : Int) : List E → Int → Option E → Option E
  | [], dtimeBest, best => if dtimeBest > 0 then best else none
  | i :: rest, dtimeBest, best =>
    let dtimeCurr := dtime i
    -- Nobody can stay longer: the loop ends at once
    if dtimeCurr = dtimeMax then some i
    else if dtimeCurr > dtimeBest then bestOfSet dtime dtimeMax rest dtimeCurr (some i)
    else bestOfSet dtime dtimeMax rest dtimeBest best

/-- The whole choice; `none` where the code returns 0. -/
def getnodeFromsetBest {E : Type} (geohash : E → UInt64) (direction : E → Int)
    (entries : List E) (set : GeoHashSetCoordinate) : Option E :=
  if set.sx ≠ 3 ∧ set.sy ≠ 3 then none
  else
    bestOfSet (fun i => getDtime (geohash i) (direction i) set) (max set.sx set.sy) entries 0 none

end MapRelay
