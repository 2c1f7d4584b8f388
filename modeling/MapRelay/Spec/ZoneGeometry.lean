import Mathlib.Data.Int.ModEq
import Mathlib.Data.List.Nodup
import Mathlib.Tactic.IntervalCases
import MapRelay.Native.RelayZone
import MapRelay.Spec.GeohashCells

/-!
# The shape of the relay zone

The zone of a cell is the square of nine cells around it on the torus of `2 ^ 12` by `2 ^ 12`
cells. To be in the zone of each other is a matter of the coordinates alone.
-/

namespace MapRelay

open ForStd

/-- The coordinates of a cell, east and north. -/
def coordinates (bits : UInt64) : Int × Int := ((ilono bits).toNat, (ilato bits).toNat)

/-- Different cells have different coordinates. -/
private theorem coordinates_inj {a b : UInt64} : coordinates a = coordinates b ↔ a = b := by
  refine ⟨fun h => ?_, fun h => h ▸ rfl⟩
  obtain ⟨hlon, hlat⟩ := Prod.mk.inj h
  rw [← UInt64.toNat_inj, toNat_eq_morton, toNat_eq_morton b, Int.ofNat_inj.mp hlon,
    Int.ofNat_inj.mp hlat]

/-- Where the cell in the row `i` and the column `j` of the zone lies. -/
def zoneOffset (i j : Nat) : Int × Int := (j - 1, 1 - i)

/-- The cell of the zone in the row `i` and the column `j`. -/
def zoneCell (center : UInt64) (i j : Nat) : Option UInt64 :=
  ((geohashGetNeighborsInSet center).geohashset[i]?).bind (·[j]?)

/-- Each place of the zone has the cell at its offset. -/
theorem zoneCell_isAt {center : UInt64} (h : center.toNat < 2 ^ 24) {i j : Nat} (hi : i < 3)
    (hj : j < 3) : ∃ cell, zoneCell center i j = some cell ∧
      IsAt 12 center (zoneOffset i j).1 (zoneOffset i j).2 cell := by
  have hnear := @neighbor_isAt 12 center (by decide) (by decide) h
  have hcenter : IsAt 12 center 0 0 center := by
    obtain ⟨hlat, hlon⟩ := coordinates_lt (s := 12) h
    refine ⟨h, ?_, ?_⟩ <;> norm_num <;> omega
  -- The rows of the set go from north to south, the columns from west to east
  interval_cases i <;> interval_cases j
  · exact ⟨_, rfl, hnear .northWest⟩
  · exact ⟨_, rfl, hnear .north⟩
  · exact ⟨_, rfl, hnear .northEast⟩
  · exact ⟨_, rfl, hnear .west⟩
  · exact ⟨_, rfl, hcenter⟩
  · exact ⟨_, rfl, hnear .east⟩
  · exact ⟨_, rfl, hnear .southWest⟩
  · exact ⟨_, rfl, hnear .south⟩
  · exact ⟨_, rfl, hnear .southEast⟩

/-- The nine cells, row by row. -/
def zoneCells (center : UInt64) : List UInt64 :=
  (geohashGetNeighborsInSet center).geohashset.flatten

/-- The nine offsets, row by row. -/
def zoneOffsets : List (Int × Int) :=
  [0, 1, 2].flatMap fun i => [0, 1, 2].map fun j => zoneOffset i j

/-- The coordinates at an offset, on the torus. -/
def shifted (center : UInt64) (o : Int × Int) : Int × Int :=
  (((ilono center).toNat + o.1) % 2 ^ 12, ((ilato center).toNat + o.2) % 2 ^ 12)

/-- The coordinates of the zone are those of the center, shifted. -/
private theorem map_coordinates_zoneCells {center : UInt64} (h : center.toNat < 2 ^ 24) :
    (zoneCells center).map coordinates = zoneOffsets.map (shifted center) := by
  have hcell : ∀ i j cell, i < 3 → j < 3 → zoneCell center i j = some cell →
      coordinates cell = shifted center (zoneOffset i j) := by
    intro i j cell hi hj hsome
    obtain ⟨cell', hcell', hat⟩ := zoneCell_isAt h hi hj
    obtain rfl : cell = cell' := Option.some.inj (hsome.symm.trans hcell')
    exact Prod.ext hat.lon hat.lat
  simp only [zoneCells, geohashGetNeighborsInSet, zoneOffsets, List.flatten_cons, List.flatten_nil,
    List.flatMap_cons, List.flatMap_nil, List.map_cons, List.map_nil, List.cons_append,
    List.nil_append, List.append_nil, List.cons.injEq, and_true]
  exact ⟨hcell 0 0 _ (by decide) (by decide) rfl, hcell 0 1 _ (by decide) (by decide) rfl,
    hcell 0 2 _ (by decide) (by decide) rfl, hcell 1 0 _ (by decide) (by decide) rfl,
    hcell 1 1 _ (by decide) (by decide) rfl, hcell 1 2 _ (by decide) (by decide) rfl,
    hcell 2 0 _ (by decide) (by decide) rfl, hcell 2 1 _ (by decide) (by decide) rfl,
    hcell 2 2 _ (by decide) (by decide) rfl⟩

/-- The offsets are by one cell at most, in both directions. -/
private theorem mem_zoneOffsets {o : Int × Int} :
    o ∈ zoneOffsets ↔ (-1 ≤ o.1 ∧ o.1 ≤ 1) ∧ -1 ≤ o.2 ∧ o.2 ≤ 1 := by
  obtain ⟨x, y⟩ := o
  simp only [zoneOffsets, zoneOffset, List.mem_flatMap, List.mem_map, List.mem_cons,
    List.not_mem_nil, or_false, Prod.mk.injEq, exists_eq_or_imp, exists_eq_left]
  omega

/-- Different offsets lead to different cells. -/
private theorem shifted_inj (center : UInt64) : ∀ o ∈ zoneOffsets, ∀ o' ∈ zoneOffsets,
    shifted center o = shifted center o' → o = o' := by
  intro o ho o' ho' h
  rw [mem_zoneOffsets] at ho ho'
  -- Offsets are at most 2 apart, and the torus is wider than that
  obtain ⟨hlon, hlat⟩ := Prod.mk.inj h
  exact Prod.ext (by omega) (by omega)

/-- No cell is in the zone twice. -/
private theorem nodup_zoneCells {center : UInt64} (h : center.toNat < 2 ^ 24) :
    (zoneCells center).Nodup := by
  have hnodup : (zoneOffsets.map (shifted center)).Nodup :=
    List.Nodup.map_on (shifted_inj center) (by decide)
  rw [← map_coordinates_zoneCells h] at hnodup
  exact List.Nodup.of_map coordinates hnodup

/-- The numbers are at most one apart, modulo `2 ^ 12`. -/
def Near (x y : UInt32) : Prop :=
  ∃ d : Int, (-1 ≤ d ∧ d ≤ 1) ∧ y.toNat ≡ x.toNat + d [ZMOD 2 ^ 12]

/-- Nearness is mutual. -/
theorem Near.symm {x y : UInt32} (h : Near x y) : Near y x := by
  obtain ⟨d, hd, hmod⟩ := h
  refine ⟨-d, by omega, ?_⟩
  unfold Int.ModEq at hmod ⊢
  omega

/-- The test of the set asks for the cells of the zone. -/
private theorem inZone_iff_mem {geohash center : UInt64} :
    geohashIsGeohashInSet geohash (geohashGetNeighborsInSet center) = true ↔
      geohash ∈ zoneCells center := by
  -- The loop looks at three cells of a row, which are all it has
  have hrow : ∀ row ∈ (geohashGetNeighborsInSet center).geohashset, row.take 3 = row := by
    simp [geohashGetNeighborsInSet]
  simp only [geohashIsGeohashInSet, zoneCells, List.any_eq_true, beq_iff_eq, List.mem_flatten]
  constructor
  · rintro ⟨row, hmem, cell, hcell, rfl⟩
    exact ⟨row, List.mem_of_mem_take hmem, List.mem_of_mem_take hcell⟩
  · rintro ⟨row, hmem, hcell⟩
    exact ⟨row, hmem, geohash, by rwa [hrow row hmem], rfl⟩

/-- A cell is in the zone of another one exactly if it is at most one apart from it in both
    directions. -/
private theorem inZone_iff_near {geohash center : UInt64} (hg : geohash.toNat < 2 ^ 24)
    (hc : center.toNat < 2 ^ 24) :
    geohashIsGeohashInSet geohash (geohashGetNeighborsInSet center) = true ↔
      Near (ilono center) (ilono geohash) ∧ Near (ilato center) (ilato geohash) := by
  obtain ⟨hlat, hlon⟩ := @coordinates_lt 12 geohash hg
  have hmem : geohash ∈ zoneCells center ↔
      coordinates geohash ∈ zoneOffsets.map (shifted center) := by
    rw [← map_coordinates_zoneCells hc, List.mem_map_of_injective fun a b => coordinates_inj.mp]
  rw [inZone_iff_mem, hmem, List.mem_map]
  constructor
  · rintro ⟨o, ho, hshift⟩
    rw [mem_zoneOffsets] at ho
    obtain ⟨hlon', hlat'⟩ := Prod.mk.inj hshift
    refine ⟨⟨o.1, ho.1, ?_⟩, o.2, ho.2, ?_⟩ <;> unfold Int.ModEq <;> omega
  · -- The coordinates of the cell are less than the modulus already
    rintro ⟨⟨x, hx, hxmod⟩, y, hy, hymod⟩
    refine ⟨(x, y), mem_zoneOffsets.mpr ⟨hx, hy⟩, Prod.ext ?_ ?_⟩
    · show ((ilono center).toNat + x) % 2 ^ 12 = ((ilono geohash).toNat : Int)
      unfold Int.ModEq at hxmod
      omega
    · show ((ilato center).toNat + y) % 2 ^ 12 = ((ilato geohash).toNat : Int)
      unfold Int.ModEq at hymod
      omega

/-- A hash holds its coordinates in its even and odd positions, a move to a neighbour shifts them
    by one on the torus of the step, and the zone of a cell is the square around it. -/
theorem relay_zone_geometry :
    (∀ (bits : UInt64) (i : Nat), (ilato bits).toNat.testBit i = bits.toNat.testBit (2 * i) ∧
      (ilono bits).toNat.testBit i = bits.toNat.testBit (2 * i + 1)) ∧
    (∀ (s : Nat) (bits : UInt64) (dir : GeoDirection), 1 ≤ s → s ≤ 32 →
      bits.toNat < 2 ^ (2 * s) →
        IsAt s bits dir.dlon dir.dlat (geohashGetNeighbor ⟨bits, .ofNat s⟩ dir).bits) ∧
    (∀ center : UInt64, center.toNat < 2 ^ 24 → (zoneCells center).Nodup ∧
      ∀ i j : Nat, i < 3 → j < 3 →
        ∃ cell, zoneCell center i j = some cell ∧ IsAt 12 center (j - 1) (1 - i) cell) ∧
    (∀ a b : UInt64, a.toNat < 2 ^ 24 → b.toNat < 2 ^ 24 →
      (geohashIsGeohashInSet b (geohashGetNeighborsInSet a) = true ↔
        geohashIsGeohashInSet a (geohashGetNeighborsInSet b) = true) ∧
      (geohashIsGeohashInSet b (geohashGetNeighborsInSet a) = true ↔
        Near (ilono a) (ilono b) ∧ Near (ilato a) (ilato b))) := by
  refine ⟨fun bits i => ?_, fun s bits dir hs hs' h => neighbor_isAt hs hs' h dir,
    fun center h => ⟨nodup_zoneCells h, fun i j hi hj => zoneCell_isAt h hi hj⟩,
    fun a b ha hb => ⟨?_, inZone_iff_near hb ha⟩⟩
  · have h := toNat_eq_morton bits
    rw [h, Morton.testBit_morton_even, Morton.testBit_morton_odd]
    exact ⟨rfl, rfl⟩
  · rw [inZone_iff_near hb ha, inZone_iff_near ha hb]
    exact ⟨fun h => ⟨h.1.symm, h.2.symm⟩, fun h => ⟨h.1.symm, h.2.symm⟩⟩

end MapRelay
