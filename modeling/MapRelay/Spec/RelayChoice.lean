import MapRelay.Native.MbrRoute
import MapRelay.Native.Neighbors
import MapRelay.Spec.RelayZone
import MapRelay.Spec.ZoneGeometry

/-!
# The relay that stays longest in a set of cells

How long a vehicle stays in a square of cells is counted by the cells that it has ahead of it
when it keeps its heading. Both copies of the choice return the first of the entries of their
table that stay longest, and the same one if their tables agree.
-/

namespace MapRelay

open ForStd

/-- A square of nine different cells. -/
structure IsZone (set : GeoHashSetCoordinate) : Prop extends IsSquare set where
  distinct : ∀ i < 3, ∀ j < 3, ∀ i' < 3, ∀ j' < 3, cellAt set i j = cellAt set i' j' →
    i = i' ∧ j = j'

/-- The set that is built around a cell is one. -/
private theorem isZone_zone {center : UInt64} (h : center.toNat < 2 ^ 24) :
    IsZone (geohashGetNeighborsInSet center) where
  toIsSquare := isSquare_zone center
  distinct i hi j hj i' hi' j' hj' heq := by
    obtain ⟨cell, hcell, hat⟩ := zoneCell_isAt h hi hj
    obtain ⟨cell', hcell', hat'⟩ := zoneCell_isAt h hi' hj'
    obtain rfl : cell = cell' := Option.some.inj (hcell.symm.trans (heq.trans hcell'))
    have hlon := hat.lon.symm.trans hat'.lon
    have hlat := hat.lat.symm.trans hat'.lat
    simp only [zoneOffset] at hlon hlat
    omega

/-! ## Counting the cells ahead -/

/-- The quadrants of the headings. -/
inductive Heading where
  | north | east | south | west
  deriving DecidableEq

/-- The quadrant of a direction in degrees, clockwise from the north. -/
def heading (direct : Int) : Heading :=
  if 45 ≤ direct ∧ direct < 135 then .east
  else if 135 ≤ direct ∧ direct < 225 then .south
  else if 225 ≤ direct ∧ direct < 315 then .west
  else .north

/-- From the cell `p` the cell `q` is ahead, or it is `p` itself. -/
def Heading.Ahead (p q : Nat × Nat) : Heading → Prop
  | .north => q.2 = p.2 ∧ q.1 ≤ p.1
  | .east => q.1 = p.1 ∧ p.2 ≤ q.2
  | .south => q.2 = p.2 ∧ p.1 ≤ q.1
  | .west => q.1 = p.1 ∧ q.2 ≤ p.2

instance (p q : Nat × Nat) (h : Heading) : Decidable (h.Ahead p q) := by
  cases h <;> exact inferInstanceAs (Decidable (_ ∧ _))

/-- The rows and columns of a square. -/
def places : List (Nat × Nat) := [0, 1, 2].flatMap fun i => [0, 1, 2].map fun j => (i, j)

/-- The number of cells from the vehicle's own to the edge of the set. -/
def cellsAhead (set : GeoHashSetCoordinate) (geohash : UInt64) (direct : Int) : Nat :=
  places.countP fun q => ∃ p ∈ places, cellAt set p.1 p.2 = some geohash ∧
    (heading direct).Ahead p q

/-- The places of a zone of three rows and columns. -/
private theorem mem_places {p : Nat × Nat} : p ∈ places ↔ p.1 < 3 ∧ p.2 < 3 := by
  obtain ⟨i, j⟩ := p
  simp only [places, List.mem_flatMap, List.mem_map, List.mem_cons, List.not_mem_nil, or_false,
    Prod.mk.injEq, exists_eq_or_imp, exists_eq_left]
  omega

/-- The count in the four quadrants. -/
private theorem countP_ahead (h : Heading) : ∀ i < 3, ∀ j < 3,
    places.countP (fun q => h.Ahead (i, j) q) =
      match h with
      | .north => i + 1
      | .east => 3 - j
      | .south => 3 - i
      | .west => j + 1 := by
  cases h <;> decide

/-- In the set, the code counts the cells ahead. -/
private theorem getDtime_eq_cellsAhead {set : GeoHashSetCoordinate} (h : IsZone set)
    {geohash : UInt64} {direct : Int} (hset : geohashIsGeohashInSet geohash set = true) :
    getDtime geohash direct set = cellsAhead set geohash direct := by
  obtain ⟨⟨i, j⟩, hcell⟩ := Option.isSome_iff_exists.mp (h.isSome_findCell.mpr hset)
  obtain ⟨⟨hi, hj⟩, hat⟩ := h.of_findCell hcell
  -- No other cell is the vehicle's
  have hown : ∀ q, (∃ p ∈ places, cellAt set p.1 p.2 = some geohash ∧
      (heading direct).Ahead p q) ↔ (heading direct).Ahead (i, j) q := by
    intro q
    constructor
    · rintro ⟨p, hp, hcellp, hahead⟩
      obtain ⟨hp₁, hp₂⟩ := mem_places.mp hp
      obtain ⟨rfl, rfl⟩ := h.distinct _ hp₁ _ hp₂ _ hi _ hj (hcellp.trans hat.symm)
      exact hahead
    · exact fun hahead => ⟨(i, j), mem_places.mpr ⟨hi, hj⟩, hat, hahead⟩
  rw [h.getDtime_of_findCell hcell, cellsAhead]
  simp only [hown]
  rw [countP_ahead _ i hi j hj, heading]
  split_ifs <;> simp only <;> omega

/-! ## The choice -/

section Choice

variable {E E' : Type}

/-- What the choice says: there is an entry in the set or none, and the entry is the first of
    those with the most cells ahead. -/
structure Chosen (geohash : E → UInt64) (direction : E → Int) (set : GeoHashSetCoordinate)
    (entries : List E) (result : Option E) : Prop where
  isSome_iff : result.isSome ↔ ∃ e ∈ entries, geohashIsGeohashInSet (geohash e) set = true
  first : ∀ e, result = some e → geohashIsGeohashInSet (geohash e) set = true ∧
    ∃ before after, entries = before ++ e :: after ∧
      (∀ x ∈ before, geohashIsGeohashInSet (geohash x) set = true →
        cellsAhead set (geohash x) (direction x) < cellsAhead set (geohash e) (direction e)) ∧
      ∀ x ∈ after, geohashIsGeohashInSet (geohash x) set = true →
        cellsAhead set (geohash x) (direction x) ≤ cellsAhead set (geohash e) (direction e)

/-- The relay is chosen among the vehicles in the zone. -/
private theorem chosen_getnodeFromsetBest {set : GeoHashSetCoordinate} (h : IsZone set)
    (geohash : E → UInt64) (direction : E → Int) (entries : List E) :
    Chosen geohash direction set entries (getnodeFromsetBest geohash direction entries set) where
  isSome_iff := by
    rw [← not_iff_not, Bool.not_eq_true, Option.isSome_eq_false_iff, Option.isNone_iff_eq_none,
      h.getnodeFromsetBest_eq_none]
    simp only [not_exists, not_and]
  first e he := by
    -- The dwelling time is -1 outside the set, so that the first best entry is in it or none is
    rw [h.getnodeFromsetBest_eq, Option.filter_eq_some_iff] at he
    have hset := h.getDtime_pos.mp (of_decide_eq_true he.2)
    obtain ⟨before, after, hsplit, hbefore, hafter⟩ := append_of_firstBest he.1
    refine ⟨hset, before, after, hsplit, fun x hx hin => ?_, fun x hx hin => ?_⟩
    · have hlt := hbefore x hx
      rw [getDtime_eq_cellsAhead h hin, getDtime_eq_cellsAhead h hset] at hlt
      exact Int.ofNat_lt.mp hlt
    · have hle := hafter x hx
      rw [getDtime_eq_cellsAhead h hin, getDtime_eq_cellsAhead h hset] at hle
      exact Int.ofNat_le.mp hle

/-- Tables whose entries agree lead to entries that agree. -/
private theorem getnodeFromsetBest_rel {set : GeoHashSetCoordinate} (h : IsZone set)
    {R : E → E' → Prop}
    {geohash : E → UInt64} {direction : E → Int} {geohash' : E' → UInt64} {direction' : E' → Int}
    (hR : ∀ e e', R e e' → geohash e = geohash' e' ∧ direction e = direction' e')
    {entries : List E} {entries' : List E'} (hentries : List.Forall₂ R entries entries') :
    Option.Rel R (getnodeFromsetBest geohash direction entries set)
      (getnodeFromsetBest geohash' direction' entries' set) := by
  have hdtime : ∀ e e', R e e' → getDtime (geohash e) (direction e) set =
      getDtime (geohash' e') (direction' e') set := by
    intro e e' hee
    rw [(hR e e' hee).1, (hR e e' hee).2]
  have hbest := firstBest_rel hdtime hentries
  rw [h.getnodeFromsetBest_eq, h.getnodeFromsetBest_eq]
  generalize firstBest (fun e => getDtime (geohash e) (direction e) set) entries = x at hbest ⊢
  generalize firstBest (fun e => getDtime (geohash' e) (direction' e) set) entries' = y at hbest ⊢
  cases hbest with
  | none => exact .none
  | @some e e' hee =>
    rw [Option.filter_some, Option.filter_some, hdtime e e' hee]
    split
    · exact .some hee
    · exact .none

end Choice

/-- The entries of the two tables are of one vehicle. -/
structure SameVehicle {K : Type} (e : NS3.Neighbor K) (t : Kernel.NeighborTable) : Prop where
  mac : e.hardwareAddress = t.mac
  geohash : e.geohash = t.geoHash
  direction : (e.direction.toNat : Int) = t.direction.toInt

/-- Both choices return the first entry of their table that stays longest in the set, and equal
    tables lead to the same relay. -/
theorem best_relay_selection {K : Type} {set : GeoHashSetCoordinate} (h : IsZone set) (now : Int)
    (nb : List (NS3.Neighbor K)) (neighData : List Kernel.NeighborTable) :
    (∃ result, NS3.getnbFromsetBest now nb set = result.map NS3.Neighbor.hardwareAddress ∧
      Chosen NS3.Neighbor.geohash (fun i => i.direction.toNat) set (NS3.purge now nb) result) ∧
    Chosen Kernel.NeighborTable.geoHash (fun i => i.direction.toInt) set neighData
      (Kernel.neighborGetnodeFromsetBest neighData set) ∧
    (List.Forall₂ SameVehicle (NS3.purge now nb) neighData →
      NS3.getnbFromsetBest now nb set =
        (Kernel.neighborGetnodeFromsetBest neighData set).map Kernel.NeighborTable.mac) := by
  refine ⟨⟨_, rfl, chosen_getnodeFromsetBest h _ _ _⟩, chosen_getnodeFromsetBest h _ _ _,
    fun hsame => ?_⟩
  have hrel := getnodeFromsetBest_rel h (fun e t hee => ⟨hee.geohash, hee.direction⟩) hsame
  rw [NS3.getnbFromsetBest, Kernel.neighborGetnodeFromsetBest]
  generalize getnodeFromsetBest NS3.Neighbor.geohash (fun i => (i.direction.toNat : Int))
    (NS3.purge now nb) set = x at hrel ⊢
  generalize getnodeFromsetBest Kernel.NeighborTable.geoHash (fun i => i.direction.toInt)
    neighData set = y at hrel ⊢
  cases hrel with
  | none => rfl
  | some hee => exact congrArg some hee.mac

/-- A vehicle outside the zone around the cell 12 and one in its middle that goes east. -/
def twoVehicles : List Kernel.NeighborTable :=
  [⟨1, Mac48Address.zero, 77, 0, 1⟩, ⟨2, .ofBytes 2 0 0 0 0 2, 12, 90, 1⟩]

/-- A neighbour that has expired, then the two vehicles. -/
def threeNeighbors : List (NS3.Neighbor Nat) :=
  [⟨3, Mac48Address.zero, 5, 0, false, 12, 0, 0, 0⟩,
    ⟨1, Mac48Address.zero, 20, 0, false, 77, 0, 0, 0⟩,
    ⟨2, .ofBytes 2 0 0 0 0 2, 20, 0, false, 12, 90, 0, 0⟩]

/-- The vehicles of the example are the same in both tables. -/
private theorem sameVehicle_twoVehicles :
    List.Forall₂ SameVehicle (NS3.purge 10 threeNeighbors) twoVehicles :=
  .cons ⟨rfl, rfl, rfl⟩ (.cons ⟨rfl, rfl, rfl⟩ .nil)

/-- The vehicle in the zone is chosen from both tables. -/
theorem best_relay_selection_two :
    (∃ result, NS3.getnbFromsetBest 10 threeNeighbors (geohashGetNeighborsInSet 12) =
        result.map NS3.Neighbor.hardwareAddress ∧
      Chosen NS3.Neighbor.geohash (fun i => i.direction.toNat) (geohashGetNeighborsInSet 12)
        (NS3.purge 10 threeNeighbors) result) ∧
    Chosen Kernel.NeighborTable.geoHash (fun i => i.direction.toInt) (geohashGetNeighborsInSet 12)
      twoVehicles (Kernel.neighborGetnodeFromsetBest twoVehicles (geohashGetNeighborsInSet 12)) ∧
    NS3.getnbFromsetBest 10 threeNeighbors (geohashGetNeighborsInSet 12) =
      (Kernel.neighborGetnodeFromsetBest twoVehicles (geohashGetNeighborsInSet 12)).map
        Kernel.NeighborTable.mac := by
  have hcenter : (12 : UInt64).toNat < 2 ^ 24 := by decide
  obtain ⟨hns3, hkernel, hequal⟩ :=
    best_relay_selection (isZone_zone hcenter) 10 threeNeighbors twoVehicles
  exact ⟨hns3, hkernel, hequal sameVehicle_twoVehicles⟩

end MapRelay
