import MapRelay.ForStd.Choice
import MapRelay.Native.RelayZone

/-!
# The neighbour that stays longest in a zone

A vehicle in the zone around an intersection has at least one cell of it ahead, a vehicle
outside has none. So the choice of a relay finds a vehicle exactly if there is one in the
zone, and it is the first of those that stay longest.
-/

namespace MapRelay

open ForStd

/-- The geohash is one of the cells around `center`. -/
abbrev InZone (geohash center : UInt64) : Prop :=
  geohashIsGeohashInSet geohash (geohashGetNeighborsInSet center) = true

/-- The set has three rows of three cells, as `sx` and `sy` say. -/
structure IsSquare (set : GeoHashSetCoordinate) : Prop where
  sx : set.sx = 3
  sy : set.sy = 3
  rows : set.geohashset.length = 3
  columns : ∀ row ∈ set.geohashset, row.length = 3

/-- The zone of a cell is a square. -/
theorem isSquare_zone (center : UInt64) : IsSquare (geohashGetNeighborsInSet center) :=
  ⟨rfl, rfl, rfl, by simp [geohashGetNeighborsInSet]⟩

/-- The cell in the row `i` and the column `j`. -/
def cellAt (set : GeoHashSetCoordinate) (i j : Nat) : Option UInt64 :=
  (set.geohashset[i]?).bind (·[j]?)

/-- How long an entry stays in the zone around `center`. -/
def dwellingTime {E : Type} (geohash : E → UInt64) (direction : E → Int) (center : UInt64)
    (e : E) : Int :=
  getDtime (geohash e) (direction e) (geohashGetNeighborsInSet center)

namespace IsSquare

variable {set : GeoHashSetCoordinate} {geohash : UInt64} {direct : Int}

/-- The loops go over all rows. -/
private theorem take_rows (h : IsSquare set) :
    set.geohashset.take set.sy.toNat = set.geohashset := by
  rw [h.sy]
  exact List.take_of_length_le (Nat.le_of_eq h.rows)

/-- They go over all columns. -/
private theorem take_columns (h : IsSquare set) {row : List UInt64} (hrow : row ∈ set.geohashset) :
    row.take set.sx.toNat = row := by
  rw [h.sx]
  exact List.take_of_length_le (Nat.le_of_eq (h.columns row hrow))

/-- The row and the column of a cell that is found are those of the set. -/
theorem of_findCell (h : IsSquare set) {i j : Nat} (hcell : findCell geohash set = some (i, j)) :
    (i < 3 ∧ j < 3) ∧ cellAt set i j = some geohash := by
  obtain ⟨⟨row, i'⟩, hrow, hcell⟩ := List.exists_of_findSome?_eq_some hcell
  obtain ⟨⟨cell, j'⟩, hfind, hij⟩ := Option.map_eq_some_iff.mp hcell
  cases hij
  rw [h.take_rows, List.mk_mem_zipIdx_iff_getElem?] at hrow
  have hmem := List.mem_of_getElem? hrow
  rw [h.take_columns hmem] at hfind
  have hget := List.mk_mem_zipIdx_iff_getElem?.mp (List.mem_of_find?_eq_some hfind)
  have heq : cell = geohash := by simpa using List.find?_some hfind
  have hi := (List.getElem?_eq_some_iff.mp hrow).1
  have hj := (List.getElem?_eq_some_iff.mp hget).1
  rw [h.rows] at hi
  rw [h.columns row hmem] at hj
  refine ⟨⟨hi, hj⟩, ?_⟩
  rw [cellAt, hrow, Option.bind_some, hget, heq]

/-- A geohash is found in a set exactly if it is one of the cells. -/
theorem isSome_findCell (h : IsSquare set) :
    (findCell geohash set).isSome ↔ geohashIsGeohashInSet geohash set = true := by
  have hrows : set.geohashset.take 3 = set.geohashset :=
    List.take_of_length_le (Nat.le_of_eq h.rows)
  have hcolumns : ∀ row ∈ set.geohashset, row.take 3 = row := fun row hrow =>
    List.take_of_length_le (Nat.le_of_eq (h.columns row hrow))
  simp only [findCell, geohashIsGeohashInSet, List.findSome?_isSome_iff, List.any_eq_true,
    Option.isSome_map, List.find?_isSome, h.take_rows, hrows]
  -- The indices of the cells do not matter
  constructor
  · rintro ⟨⟨row, i⟩, hrow, ⟨cell, j⟩, hcell, heq⟩
    have hmem := List.mem_of_getElem? (List.mk_mem_zipIdx_iff_getElem?.mp hrow)
    rw [h.take_columns hmem, List.mk_mem_zipIdx_iff_getElem?] at hcell
    exact ⟨row, hmem, cell, (hcolumns row hmem).symm ▸ List.mem_of_getElem? hcell, heq⟩
  · rintro ⟨row, hmem, cell, hcell, heq⟩
    rw [hcolumns row hmem] at hcell
    obtain ⟨i, hi⟩ := List.mem_iff_getElem?.mp hmem
    obtain ⟨j, hj⟩ := List.mem_iff_getElem?.mp hcell
    refine ⟨(row, i), List.mk_mem_zipIdx_iff_getElem?.mpr hi, (cell, j), ?_, heq⟩
    rw [h.take_columns hmem]
    exact List.mk_mem_zipIdx_iff_getElem?.mpr hj

/-- The cells ahead of a vehicle whose cell is found. -/
theorem getDtime_of_findCell (h : IsSquare set) {i j : Nat}
    (hcell : findCell geohash set = some (i, j)) : getDtime geohash direct set =
      if 45 ≤ direct ∧ direct < 135 then 3 - (j : Int)
      else if 225 ≤ direct ∧ direct < 315 then (j : Int) + 1
      else if 135 ≤ direct ∧ direct < 225 then 3 - (i : Int)
      else (i : Int) + 1 := by
  simp only [getDtime, hcell, h.sx, h.sy, if_neg (by decide : ¬((3 : Int) ≠ 3 ∧ (3 : Int) ≠ 3))]

/-- A vehicle outside the zone has no dwelling time. -/
private theorem getDtime_of_not_mem (h : IsSquare set)
    (hset : ¬geohashIsGeohashInSet geohash set = true) : getDtime geohash direct set = -1 := by
  rw [← h.isSome_findCell, Bool.not_eq_true, Option.isSome_eq_false_iff, Option.isNone_iff_eq_none]
    at hset
  rw [getDtime, hset]
  split <;> rfl

/-- There is no fourth cell. -/
private theorem getDtime_le (h : IsSquare set) (geohash : UInt64) (direct : Int) :
    getDtime geohash direct set ≤ 3 := by
  cases hcell : findCell geohash set with
  | none =>
    rw [getDtime_of_not_mem h (by rw [← h.isSome_findCell, hcell]; decide)]
    decide
  | some cell =>
    obtain ⟨i, j⟩ := cell
    have hlt := (h.of_findCell hcell).1
    rw [h.getDtime_of_findCell hcell]
    split_ifs <;> omega

/-- A vehicle has a cell ahead of it exactly if it is in the set. -/
theorem getDtime_pos (h : IsSquare set) :
    0 < getDtime geohash direct set ↔ geohashIsGeohashInSet geohash set = true := by
  by_cases hset : geohashIsGeohashInSet geohash set = true
  case neg =>
    rw [h.getDtime_of_not_mem hset]
    simp [hset]
  case pos =>
    obtain ⟨⟨i, j⟩, hcell⟩ := Option.isSome_iff_exists.mp (h.isSome_findCell.mpr hset)
    have hlt := (h.of_findCell hcell).1
    rw [h.getDtime_of_findCell hcell]
    simp only [hset, iff_true]
    split_ifs <;> omega

end IsSquare

/-! ## The choice -/

section Choice

variable {E : Type} {dtime : E → Int} {dtimeMax : Int} {l : List E}

/-- The loop with a candidate ends with the first best of the candidate and the rest. -/
private theorem bestOfSet_some (hmax : ∀ e, dtime e ≤ dtimeMax) (best : E) (hpos : 0 < dtime best)
    (hlt : dtime best < dtimeMax) :
    bestOfSet dtime dtimeMax l (dtime best) (some best) = firstBest dtime (best :: l) := by
  induction l generalizing best with
  | nil => rw [bestOfSet, if_pos hpos, firstBest_singleton]
  | cons i rest ih =>
    rw [bestOfSet, firstBest_cons_cons]
    by_cases heq : dtime i = dtimeMax
    · -- The loop ends at once, and nothing behind `i` is better
      rw [if_pos heq, if_pos (by omega), firstBest_cons_of_max fun b _ => heq ▸ hmax b]
    · have hi := hmax i
      rw [if_neg heq]
      by_cases hbetter : dtime best < dtime i
      · rw [if_pos hbetter, if_pos hbetter, ih i (by omega) (by omega)]
      · rw [if_neg hbetter, if_neg hbetter, ih best hpos hlt]

/-- Without a candidate the loop looks for the first best element, which has to be positive. -/
private theorem bestOfSet_none (hmax : ∀ e, dtime e ≤ dtimeMax) (hpos : 0 < dtimeMax) :
    bestOfSet dtime dtimeMax l 0 none = (firstBest dtime l).filter (0 < dtime ·) := by
  induction l with
  | nil => rfl
  | cons i rest ih =>
    rw [bestOfSet]
    by_cases heq : dtime i = dtimeMax
    · rw [if_pos heq, firstBest_cons_of_max fun b _ => heq ▸ hmax b]
      rw [Option.filter_some, if_pos (decide_eq_true (by omega))]
    · have hi := hmax i
      rw [if_neg heq]
      by_cases hcandidate : dtime i > 0
      · -- The first candidate
        rw [if_pos hcandidate, bestOfSet_some hmax i hcandidate (by omega)]
        cases hbest : firstBest dtime (i :: rest) with
        | none => rfl
        | some b =>
          have hib := le_of_firstBest hbest List.mem_cons_self
          rw [Option.filter_some, if_pos (decide_eq_true (by omega))]
      · -- An element that is not positive is the best one only if none is
        rw [if_neg hcandidate, ih]
        rcases firstBest_cons_cases dtime i rest with ⟨hbest, hle⟩ | ⟨b, hrest, hbest, -⟩
        · rw [hbest]
          cases hrest : firstBest dtime rest with
          | none => rw [Option.filter_some, if_neg (by simpa using hcandidate), Option.filter_none]
          | some b =>
            have hb := hle b hrest
            rw [Option.filter_some, if_neg (by simpa using by omega), Option.filter_some,
              if_neg (by simpa using hcandidate)]
        · rw [hrest, hbest]

end Choice

variable {E : Type} {geohash : E → UInt64} {direction : E → Int} {center : UInt64}
  {entries : List E} {e : E} {set : GeoHashSetCoordinate}

/-- The choice is the first of the entries that stay longest, if they stay at all. -/
theorem IsSquare.getnodeFromsetBest_eq (h : IsSquare set) (geohash : E → UInt64)
    (direction : E → Int) (entries : List E) : getnodeFromsetBest geohash direction entries set =
      (firstBest (fun e => getDtime (geohash e) (direction e) set) entries).filter
        fun e => 0 < getDtime (geohash e) (direction e) set := by
  have hsize : ¬(set.sx ≠ 3 ∧ set.sy ≠ 3) := fun hsize => hsize.1 h.sx
  rw [getnodeFromsetBest, if_neg hsize, h.sx, h.sy]
  exact bestOfSet_none (fun e => h.getDtime_le (geohash e) (direction e)) (by decide)

/-- Nothing is chosen exactly if there is no entry in the set. -/
theorem IsSquare.getnodeFromsetBest_eq_none (h : IsSquare set) :
    getnodeFromsetBest geohash direction entries set = none ↔
      ∀ e ∈ entries, ¬geohashIsGeohashInSet (geohash e) set = true := by
  rw [h.getnodeFromsetBest_eq]
  constructor
  · intro hnone e he hzone
    cases hbest : firstBest (fun e => getDtime (geohash e) (direction e) set) entries with
    | none =>
      rw [firstBest_eq_none.mp hbest] at he
      cases he
    | some b =>
      -- The best entry stays at least as long as `e`
      have hle := le_of_firstBest hbest he
      have hpos : 0 < getDtime (geohash e) (direction e) set := h.getDtime_pos.mpr hzone
      rw [hbest, Option.filter_some, if_pos (decide_eq_true (by omega))] at hnone
      cases hnone
  · intro hout
    cases hbest : firstBest (fun e => getDtime (geohash e) (direction e) set) entries with
    | none => rfl
    | some b =>
      have hb : ¬0 < getDtime (geohash b) (direction b) set := fun hpos =>
        hout b (mem_of_firstBest hbest) (h.getDtime_pos.mp hpos)
      rw [Option.filter_some, if_neg (by simpa using by omega)]

/-- The relay is the first with the longest dwelling time. -/
theorem getnodeFromsetBest_eq (geohash : E → UInt64) (direction : E → Int) (entries : List E)
    (center : UInt64) :
    getnodeFromsetBest geohash direction entries (geohashGetNeighborsInSet center) =
      (firstBest (dwellingTime geohash direction center) entries).filter
        (0 < dwellingTime geohash direction center ·) :=
  (isSquare_zone center).getnodeFromsetBest_eq geohash direction entries

/-- The chosen entry is one of the table and in the zone. -/
theorem mem_of_getnodeFromsetBest
    (h : getnodeFromsetBest geohash direction entries (geohashGetNeighborsInSet center) = some e) :
    e ∈ entries ∧ InZone (geohash e) center := by
  rw [getnodeFromsetBest_eq, Option.filter_eq_some_iff] at h
  exact ⟨mem_of_firstBest h.1, (isSquare_zone center).getDtime_pos.mp (of_decide_eq_true h.2)⟩

/-- No relay is found exactly if no vehicle is in the zone. -/
theorem getnodeFromsetBest_eq_none :
    getnodeFromsetBest geohash direction entries (geohashGetNeighborsInSet center) = none ↔
      ∀ e ∈ entries, ¬ InZone (geohash e) center :=
  (isSquare_zone center).getnodeFromsetBest_eq_none

end MapRelay
