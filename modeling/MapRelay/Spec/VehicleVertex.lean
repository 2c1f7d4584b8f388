import Mathlib.Data.Prod.Lex
import Mathlib.Tactic.NormNum
import MapRelay.ForStd.Choice
import MapRelay.ForStd.Selection
import MapRelay.Native.Forward
import MapRelay.Native.MbrRoute
import MapRelay.Spec.CrossVertex

/-!
# The vertex nearest to a vehicle

`find_Vertex_by_VehiclePosition` of the simulator goes through the vertices once and keeps the
three whose geohashes are nearest to that of the vehicle, then takes the nearest one of them on
the map. The kernel copy keeps the first of the three only. Where none of the three is within
100 m, the simulator looks for a vertex in a square around the vehicle.
-/

namespace MapRelay

open ForStd ForStd.Selection MapRelay.Graph

variable {A : Type}

/-! ## The order of the vertices -/

/-- The geohash of the vertex at `p`. -/
def geohashOf (g : Graph A) (p : Addr) : Option UInt64 := (g.heap.cell p).map (·.geoHash)

/-- The absolute difference between the geohash of a vertex and that of the vehicle. -/
def difference (g : Graph A) (geoHash : UInt64) (p : Addr) : Nat :=
  ((((geohashOf g p).getD 0).toNat : Int) - geoHash.toNat).natAbs

/-- The absolute difference, then the place in the list of vertices. -/
def rank (g : Graph A) (geoHash : UInt64) (p : Addr) : Nat ×ₗ Nat :=
  toLex (difference g geoHash p, g.vertices.nodes.idxOf p)

/-- The vertices in the order of their ranks. -/
def inOrder (g : Graph A) (geoHash : UInt64) : List Addr :=
  sorted (rank g geoHash) g.vertices.nodes

/-- The vertices in the order of their ranks, without those at the difference `UINT64_MAX`, which
    stands for no vertex. -/
def nearestFirst (g : Graph A) (geoHash : UInt64) : List Addr :=
  sorted (rank g geoHash) (g.vertices.nodes.filter (difference g geoHash · < 2 ^ 64 - 1))

namespace NS3

variable {g : Graph A} {geoHash : UInt64} {p : Addr} {l : List Addr}

/-- The difference of two geohashes as a number. -/
private theorem toNat_geohashCompare (a b : UInt64) :
    (geohashCompare a b).toNat = ((a.toNat : Int) - b.toNat).natAbs := by
  unfold geohashCompare
  split
  · next h =>
    rw [UInt64.toNat_sub_of_le _ _ (UInt64.le_of_lt h)]
    have := UInt64.lt_iff_toNat_lt.mp h
    omega
  · next h =>
    have hle := UInt64.le_iff_toNat_le.mp (UInt64.not_lt.mp h)
    rw [UInt64.toNat_sub_of_le _ _ (UInt64.not_lt.mp h)]
    omega

/-- The difference as the loop computes it. -/
def gap (g : Graph A) (geoHash : UInt64) (p : Addr) : UInt64 :=
  geohashCompare ((geohashOf g p).getD 0) geoHash

/-- The gaps compare as the differences do. -/
private theorem gap_lt_iff (q : Addr) :
    gap g geoHash p < gap g geoHash q ↔ difference g geoHash p < difference g geoHash q := by
  rw [UInt64.lt_iff_toNat_lt, gap, gap, toNat_geohashCompare, toNat_geohashCompare]
  rfl

/-- A vertex is taken if its difference is not the largest number there is. -/
private theorem gap_lt_max_iff :
    gap g geoHash p < 0xffffffffffffffff ↔ difference g geoHash p < 2 ^ 64 - 1 := by
  rw [UInt64.lt_iff_toNat_lt, gap, toNat_geohashCompare]
  rfl

/-! ## The first loop -/

/-- The `i`-th vertex of a list, `NULL` behind its end. -/
def slot (l : List Addr) (i : Nat) : Addr := l[i]?.getD NULL

/-- Its difference, `UINT64_MAX` behind the end. -/
def bound (g : Graph A) (geoHash : UInt64) (l : List Addr) (i : Nat) : UInt64 :=
  (l[i]?.map (gap g geoHash)).getD 0xffffffffffffffff

/-- The variables of the loop when they hold the first three elements of a list. -/
def firstThree (g : Graph A) (geoHash : UInt64) (l : List Addr) : ThreeNearest :=
  ⟨bound g geoHash l 0, bound g geoHash l 1, bound g geoHash l 2, slot l 0, slot l 1, slot l 2⟩

/-- The bounds start from the largest number. -/
private theorem bound_le (l : List Addr) (i : Nat) : bound g geoHash l i ≤ 0xffffffffffffffff :=
  UInt64.le_iff_toNat_le.mpr (Nat.le_of_lt_succ (bound g geoHash l i).toNat_lt)

/-- The next vertex goes behind those that are as near, unless it is at the greatest difference. -/
private theorem threeNearest_cons {v : Vertex A} (hp : g.heap.cell p = some v) (rest : List Addr) :
    threeNearest g geoHash (p :: rest) (firstThree g geoHash l) =
      threeNearest g geoHash rest (firstThree g geoHash
        (if difference g geoHash p < 2 ^ 64 - 1 then insertBehind (difference g geoHash) p l
          else l)) := by
  -- The geohash of `p` is read off the heap
  have hgap : geohashCompare v.geoHash geoHash = gap g geoHash p := by
    rw [gap, geohashOf, hp]
    rfl
  rw [threeNearest, Heap.deref_eq_ok.mpr hp]
  simp only [bind, Except.bind, hgap]
  by_cases hmax : difference g geoHash p < 2 ^ 64 - 1
  · -- The three tests are those of the insertion, and behind the end they pass
    have hlast := gap_lt_max_iff.mpr hmax
    rw [if_pos hmax]
    -- The list of the nearest so far: empty, with one, two, or at least three entries
    rcases l with _ | ⟨a, _ | ⟨b, _ | ⟨c, l⟩⟩⟩
    · simp [firstThree, bound, slot, insertBehind, hlast]
    · by_cases ha : difference g geoHash p < difference g geoHash a <;>
        simp [firstThree, bound, slot, insertBehind, gap_lt_iff, hlast, ha]
    · by_cases ha : difference g geoHash p < difference g geoHash a <;>
        by_cases hb : difference g geoHash p < difference g geoHash b <;>
        simp [firstThree, bound, slot, insertBehind, gap_lt_iff, hlast, ha, hb]
    · by_cases ha : difference g geoHash p < difference g geoHash a <;>
        by_cases hb : difference g geoHash p < difference g geoHash b <;>
        by_cases hc : difference g geoHash p < difference g geoHash c <;>
        simp [firstThree, bound, slot, insertBehind, gap_lt_iff, ha, hb, hc]
  · -- The greatest difference passes none of the tests, not even behind the end
    have hnot : ∀ i, ¬ gap g geoHash p < bound g geoHash l i := fun i hlt =>
      hmax (gap_lt_max_iff.mp (UInt64.lt_of_lt_of_le hlt (bound_le l i)))
    rw [if_neg hmax]
    simp [firstThree, hnot]

/-- The loop keeps the first three vertices in the order of the ranks. -/
private theorem threeNearest_ok (h : g.WF) (rest : List Addr) {before : List Addr}
    (hnodes : g.vertices.nodes = before ++ rest) :
    threeNearest g geoHash rest (firstThree g geoHash (sorted (rank g geoHash)
        (before.filter (difference g geoHash · < 2 ^ 64 - 1)))) =
      .ok (firstThree g geoHash (nearestFirst g geoHash)) := by
  -- The slots hold the first three of the vertices before the current one
  induction rest generalizing before with
  | nil =>
    rw [List.append_nil] at hnodes
    rw [threeNearest, nearestFirst, hnodes]
  | cons p rest ih =>
    have hlive := (h.live_iff p).mpr (hnodes ▸ List.mem_append_right before List.mem_cons_self)
    obtain ⟨v, hv⟩ := Heap.live_iff.mp hlive
    have hstep := @ih (before ++ [p]) (by rw [hnodes, List.append_assoc]; rfl)
    rw [threeNearest_cons hv, ← hstep, List.filter_append, List.filter_singleton]
    by_cases hmax : difference g geoHash p < 2 ^ 64 - 1
    · -- The vertex comes behind all that came before, so that ties are in its disfavour
      have hlater : ∀ q ∈ sorted (rank g geoHash)
          (before.filter (difference g geoHash · < 2 ^ 64 - 1)),
          rank g geoHash p < rank g geoHash q ↔
            difference g geoHash p < difference g geoHash q := by
        intro q hq
        have hq := List.mem_of_mem_filter (mem_sorted.mp hq)
        have hp : p ∉ before := by
          have hnodup := hnodes ▸ h.nodup
          exact fun hmem => List.disjoint_of_nodup_append hnodup hmem List.mem_cons_self
        have hidx : g.vertices.nodes.idxOf q < g.vertices.nodes.idxOf p := by
          rw [hnodes, List.idxOf_append_of_mem hq, List.idxOf_append_of_notMem hp]
          exact Nat.lt_add_right _ (List.idxOf_lt_length_iff.mpr hq)
        rw [rank, rank, Prod.Lex.toLex_lt_toLex]
        constructor
        · rintro (hlt | ⟨-, hlt⟩)
          · exact hlt
          · exact absurd hlt (Nat.lt_asymm hidx)
        · exact .inl
      rw [if_pos hmax, decide_eq_true hmax, cond_true, sorted_concat, insertBehind_congr hlater]
    · rw [if_neg hmax, decide_eq_false hmax, cond_false, List.append_nil]

/-- The three slots are the first three of the list, filled up with `NULL`. -/
private theorem slots_firstThree (l : List Addr) :
    [slot l 0, slot l 1, slot l 2] = (l.take 3).rightpad 3 NULL := by
  rcases l with _ | ⟨a, _ | ⟨b, _ | ⟨c, l⟩⟩⟩ <;> rfl

/-- The kernel copy of the loop goes through the same values of `min1` and `v[0]`. -/
private theorem kernel_go {k : Kernel.RoadGraph} {rest : List Addr} {s s' : ThreeNearest}
    (hsame : ∀ p ∈ rest, geohashOf k p = geohashOf g p)
    (h : threeNearest g geoHash rest s = .ok s') :
    Kernel.findVertexByVehiclePosition.go k geoHash rest s.min1 s.v0 = .ok s'.v0 := by
  induction rest generalizing s with
  | nil =>
    cases h
    rfl
  | cons p rest ih =>
    obtain ⟨v, hv, h⟩ := bind_eq_ok.mp h
    have hrest := fun q hq => hsame q (List.mem_cons_of_mem p hq)
    have hgeo : geohashOf k p = some v.geoHash := by
      rw [hsame p List.mem_cons_self, geohashOf, Heap.deref_eq_ok.mp hv]
      rfl
    obtain ⟨w, hw, hwv⟩ := Option.map_eq_some_iff.mp hgeo
    rw [Kernel.findVertexByVehiclePosition.go, Heap.deref_eq_ok.mpr hw]
    simp only [bind, Except.bind, hwv]
    show (if geohashCompare v.geoHash geoHash < s.min1 then _ else _) = _
    by_cases hlt : geohashCompare v.geoHash geoHash < s.min1
    · rw [if_pos hlt] at h ⊢
      exact ih hrest h
    · rw [if_neg hlt] at h ⊢
      -- The other branches leave `min1` and `v[0]` alone
      by_cases hlt₂ : geohashCompare v.geoHash geoHash < s.min2
      · rw [if_pos hlt₂] at h
        have hgo := ih hrest h
        exact hgo
      · rw [if_neg hlt₂] at h
        by_cases hlt₃ : geohashCompare v.geoHash geoHash < s.min3
        · rw [if_pos hlt₃] at h
          have hgo := ih hrest h
          exact hgo
        · rw [if_neg hlt₃] at h
          exact ih hrest h

/-! ## The distances on the map -/

variable {K : Type} [Field K] [LinearOrder K]

/-- The distance from the vertex at `p` to a position. -/
def distanceOf (env : MapEnv K) (g : Graph (Site K)) (x y : K) (p : Addr) : K :=
  match g.heap.cell p with
  | some v => distanceTo env v x y
  | none => 0

/-- The distance as a score that is better when it is smaller. -/
def nearness (env : MapEnv K) (g : Graph (Site K)) (x y : K) (p : Addr) : Kᵒᵈ :=
  OrderDual.toDual (distanceOf env g x y p)

/-- The vertex at `p` is strictly inside the square around a position. -/
def inSquare (g : Graph (Site K)) (x y : K) (p : Addr) : Bool :=
  (g.heap.cell p).any fun v => v.attr.x > x - lonStep ∧ v.attr.x < x + lonStep ∧
    v.attr.y > y - latStep ∧ v.attr.y < y + latStep

variable {env : MapEnv K} {g : Graph (Site K)} {memory : Addr} {x y : K}

omit [LinearOrder K] in
/-- The distance to a vertex is that to its place. -/
private theorem distanceTo_eq {v : Vertex (Site K)} (hp : g.heap.cell p = some v) :
    distanceTo env v x y = distanceOf env g x y p := by
  rw [distanceOf, hp]

/-- The second loop chooses the nearest of the vertices in front of the null pointers. -/
private theorem nearestOf_ok {ps : List Addr} (hlive : ∀ p ∈ ps, g.Live p) (n : Nat) (d : K)
    (vmin : Addr) :
    nearestOf env g x y (ps ++ List.replicate n NULL) d vmin =
      .ok ((bestFrom (nearness env g x y) (OrderDual.toDual d) vmin ps).map
        OrderDual.ofDual id) := by
  -- The loop ends at the first NULL
  induction ps generalizing d vmin with
  | nil => cases n <;> rfl
  | cons p ps ih =>
    have hrest := fun q hq => hlive q (List.mem_cons_of_mem p hq)
    have hp := hlive p List.mem_cons_self
    obtain ⟨v, hv⟩ := Heap.live_iff.mp hp
    rw [List.cons_append, nearestOf, if_neg hp.ne_null, Heap.deref_eq_ok.mpr hv]
    simp only [bind, Except.bind, distanceTo_eq hv]
    -- A nearer vertex takes the place of the one kept
    by_cases hlt : distanceOf env g x y p < d
    · have hnearer : OrderDual.toDual d < nearness env g x y p := OrderDual.toDual_lt_toDual.mpr hlt
      rw [if_pos hlt, ih hrest, bestFrom_cons_of_lt hnearer]
      rfl
    · have hfarther : nearness env g x y p ≤ OrderDual.toDual d :=
        OrderDual.toDual_le_toDual.mpr (le_of_not_gt hlt)
      rw [if_neg hlt, ih hrest, bestFrom_cons_of_le hfarther]

/-- The scan of the square chooses the nearest of the vertices in it. -/
private theorem findVertexBySquare_ok {ps : List Addr} (hlive : ∀ p ∈ ps, g.Live p) (d : K)
    (vmin : Addr) :
    findVertexBySquare env g x y ps d vmin =
      .ok (bestFrom (nearness env g x y) (OrderDual.toDual d) vmin
        (ps.filter (inSquare g x y))).2 := by
  induction ps generalizing d vmin with
  | nil => rfl
  | cons p ps ih =>
    have hrest := fun q hq => hlive q (List.mem_cons_of_mem p hq)
    obtain ⟨v, hv⟩ := Heap.live_iff.mp (hlive p List.mem_cons_self)
    rw [findVertexBySquare, Heap.deref_eq_ok.mpr hv]
    simp only [bind, Except.bind, distanceTo_eq hv]
    -- The code compares in one condition what the filter and the choice do in two
    by_cases hin : inSquare g x y p = true
    · have hsquare : v.attr.x > x - lonStep ∧ v.attr.x < x + lonStep ∧
          v.attr.y > y - latStep ∧ v.attr.y < y + latStep := by
        simpa [inSquare, hv] using hin
      obtain ⟨h₁, h₂, h₃, h₄⟩ := hsquare
      rw [List.filter_cons_of_pos hin]
      by_cases hlt : distanceOf env g x y p < d
      · have hnearer : OrderDual.toDual d < nearness env g x y p :=
          OrderDual.toDual_lt_toDual.mpr hlt
        rw [if_pos ⟨h₁, h₂, h₃, h₄, hlt⟩, ih hrest, bestFrom_cons_of_lt hnearer]
        rfl
      · have hfarther : nearness env g x y p ≤ OrderDual.toDual d :=
          OrderDual.toDual_le_toDual.mpr (le_of_not_gt hlt)
        rw [if_neg fun h => hlt h.2.2.2.2, ih hrest, bestFrom_cons_of_le hfarther]
    · have hsquare : ¬ (v.attr.x > x - lonStep ∧ v.attr.x < x + lonStep ∧
          v.attr.y > y - latStep ∧ v.attr.y < y + latStep) := by
        simpa [inSquare, hv] using hin
      rw [List.filter_cons_of_neg hin,
        if_neg fun h => hsquare ⟨h.1, h.2.1, h.2.2.1, h.2.2.2.1⟩, ih hrest]

/-- The first three vertices in the order of the ranks. -/
def nearestThree (g : Graph A) (geoHash : UInt64) : List Addr := (nearestFirst g geoHash).take 3

/-- The nearest three are vertices of the graph. -/
theorem mem_of_mem_nearestThree {A : Type} {g : Graph A} (h : p ∈ nearestThree g geoHash) :
    p ∈ g.vertices.nodes :=
  List.mem_of_mem_filter (mem_sorted.mp (List.mem_of_mem_take h))

/-- `find_Vertex_by_VehiclePosition` is a choice among the three, and then perhaps one among the
    vertices in the square. -/
private theorem findVertexByVehiclePosition_eq (h : g.WF) (env : MapEnv K) (memory : Addr)
    (geoHash : UInt64) (x y : K) {d : Kᵒᵈ} {vmin : Addr}
    (hbest : bestFrom (nearness env g x y) (OrderDual.toDual 999) NULL
      (nearestThree g geoHash) = (d, vmin)) :
    findVertexByVehiclePosition env memory g geoHash x y =
      .ok (if OrderDual.ofDual d > 100 then
          (bestFrom (nearness env g x y) (OrderDual.toDual 999) memory
            (g.vertices.nodes.filter (inSquare g x y))).2
        else vmin) := by
  -- The three loops, each by its lemma
  have hscan : threeNearest g geoHash g.vertices.nodes (firstThree g geoHash []) = _ :=
    threeNearest_ok h g.vertices.nodes (List.nil_append _).symm
  have hthree : ∀ p ∈ nearestThree g geoHash, g.Live p := fun p hp =>
    (h.live_iff p).mpr (mem_of_mem_nearestThree hp)
  have hnearest : nearestOf env g x y ((nearestThree g geoHash).rightpad 3 NULL) 999 NULL = _ :=
    nearestOf_ok hthree _ 999 NULL
  have hsquare : findVertexBySquare env g x y g.vertices.nodes 999 memory = _ :=
    findVertexBySquare_ok (fun p hp => (h.live_iff p).mpr hp) 999 memory
  rw [findVertexByVehiclePosition]
  show (threeNearest g geoHash g.vertices.nodes (firstThree g geoHash []) >>= _) = _
  rw [hscan]
  show (nearestOf env g x y [slot _ 0, slot _ 1, slot _ 2] 999 NULL >>= _) = _
  rw [slots_firstThree, ← nearestThree, hnearest, hbest]
  simp only [bind, Except.bind, Prod.map_apply, id_eq, hsquare]
  split <;> rfl

/-- The first of the vertices `ps` with the smallest distance to a position. -/
def FirstNearest (env : MapEnv K) (g : Graph (Site K)) (x y : K) (ps : List Addr) (p : Addr) :
    Prop :=
  ∃ before after, ps = before ++ p :: after ∧
    (∀ q ∈ before, distanceOf env g x y p < distanceOf env g x y q) ∧
    ∀ q ∈ after, distanceOf env g x y p ≤ distanceOf env g x y q

/-- The first nearest vertex is one of those that were looked at. -/
theorem FirstNearest.mem {ps : List Addr} (h : FirstNearest env g x y ps p) : p ∈ ps := by
  obtain ⟨before, after, rfl, -⟩ := h
  exact List.mem_append_right before List.mem_cons_self

/-- The choice among vertices of which one is nearer than the bound. -/
theorem bestFrom_nearness {ps : List Addr} {q : Addr} {d : K} (hq : q ∈ ps)
    (hlt : distanceOf env g x y q < d) (vmin : Addr) :
    ∃ p, bestFrom (nearness env g x y) (OrderDual.toDual d) vmin ps =
        (nearness env g x y p, p) ∧ FirstNearest env g x y ps p ∧
      distanceOf env g x y p ≤ distanceOf env g x y q := by
  -- With `q` in the list there is a nearest one, and it is below the start value
  cases hbest : firstBest (nearness env g x y) ps with
  | none =>
    rw [firstBest_eq_none.mp hbest] at hq
    cases hq
  | some p =>
    have hbetter : nearness env g x y q ≤ nearness env g x y p := le_of_firstBest hbest hq
    have hle : distanceOf env g x y p ≤ distanceOf env g x y q :=
      OrderDual.toDual_le_toDual.mp hbetter
    have hnearer : OrderDual.toDual d < nearness env g x y p :=
      OrderDual.toDual_lt_toDual.mpr (lt_of_le_of_lt hle hlt)
    refine ⟨p, ?_, ?_, hle⟩
    · rw [bestFrom, hbest]
      exact if_pos hnearer
    -- The first of the nearest, as the comparison is strict
    · obtain ⟨before, after, rfl, hbefore, hafter⟩ := append_of_firstBest hbest
      exact ⟨before, after, rfl, fun r hr => OrderDual.toDual_lt_toDual.mp (hbefore r hr),
        fun r hr => OrderDual.toDual_le_toDual.mp (hafter r hr)⟩

/-- The choice among vertices none of which is nearer than the bound. -/
theorem bestFrom_of_far {ps : List Addr} {d : K} (h : ∀ p ∈ ps, ¬ distanceOf env g x y p < d)
    (vmin : Addr) :
    bestFrom (nearness env g x y) (OrderDual.toDual d) vmin ps = (OrderDual.toDual d, vmin) := by
  rw [bestFrom]
  cases hbest : firstBest (nearness env g x y) ps with
  | none => rfl
  | some p =>
    exact if_neg fun hlt => h p (mem_of_firstBest hbest) (OrderDual.toDual_lt_toDual.mp hlt)

/-- With one of the three within 100 m, the nearest of them is returned. -/
theorem findVertexByVehiclePosition_near [IsStrictOrderedRing K] (h : g.WF) (env : MapEnv K)
    (memory : Addr) {geoHash : UInt64} {x y : K}
    (hnear : ∃ q ∈ nearestThree g geoHash, distanceOf env g x y q ≤ 100) :
    ∃ p, FirstNearest env g x y (nearestThree g geoHash) p ∧
      findVertexByVehiclePosition env memory g geoHash x y = .ok p := by
  obtain ⟨q, hq, hle⟩ := hnear
  have hlt : distanceOf env g x y q < 999 := lt_of_le_of_lt hle (by norm_num)
  obtain ⟨p, hbest, hfirst, hpq⟩ := bestFrom_nearness hq hlt NULL
  refine ⟨p, hfirst, ?_⟩
  rw [findVertexByVehiclePosition_eq h env memory geoHash x y hbest]
  exact congrArg Except.ok (if_neg (not_lt_of_ge (le_trans hpq hle)))

/-- With none of the three within 100 m, the square decides. -/
theorem findVertexByVehiclePosition_far [IsStrictOrderedRing K] (h : g.WF) (env : MapEnv K)
    (memory : Addr) {geoHash : UInt64} {x y : K}
    (hfar : ¬ ∃ q ∈ nearestThree g geoHash, distanceOf env g x y q ≤ 100) :
    findVertexByVehiclePosition env memory g geoHash x y =
      .ok (bestFrom (nearness env g x y) (OrderDual.toDual 999) memory
        (g.vertices.nodes.filter (inSquare g x y))).2 := by
  -- Beyond 100 m the square is searched, also if nothing below 999 m was found
  have hcut : (100 : K) < 999 := by norm_num
  by_cases hsome : ∃ q ∈ nearestThree g geoHash, distanceOf env g x y q < 999
  · -- The nearest of the three is too far away
    obtain ⟨q, hq, hlt⟩ := hsome
    obtain ⟨p, hbest, hfirst, -⟩ := bestFrom_nearness hq hlt NULL
    rw [findVertexByVehiclePosition_eq h env memory geoHash x y hbest]
    exact congrArg Except.ok (if_pos (lt_of_not_ge fun hle => hfar ⟨p, hfirst.mem, hle⟩))
  · -- The distance is still the cut-off
    have hbest := bestFrom_of_far (fun q hq hlt => hsome ⟨q, hq, hlt⟩) NULL
    rw [findVertexByVehiclePosition_eq h env memory geoHash x y hbest]
    exact congrArg Except.ok (if_pos hcut)

/-- The three slots of `find_Vertex_by_VehiclePosition` are the first three vertices in the order
    of the ranks. With one of them within 100 m, the first one with the smallest distance is
    returned. The first slot is what the kernel copy returns for the same list. -/
theorem nearest_vertices [IsStrictOrderedRing K] (h : g.WF) (env : MapEnv K) (memory : Addr)
    (geoHash : UInt64) (x y : K) :
    ∃ s, threeNearest g geoHash g.vertices.nodes
        ⟨0xffffffffffffffff, 0xffffffffffffffff, 0xffffffffffffffff, NULL, NULL, NULL⟩ = .ok s ∧
      [s.v0, s.v1, s.v2] = (nearestThree g geoHash).rightpad 3 NULL ∧
      ((∃ q ∈ nearestThree g geoHash, distanceOf env g x y q ≤ 100) →
        ∃ p, FirstNearest env g x y (nearestThree g geoHash) p ∧
          findVertexByVehiclePosition env memory g geoHash x y = .ok p) ∧
      ∀ k : Kernel.RoadGraph, k.vertices.nodes = g.vertices.nodes →
        (∀ p ∈ g.vertices.nodes, geohashOf k p = geohashOf g p) →
        Kernel.findVertexByVehiclePosition k geoHash = .ok s.v0 := by
  -- The scan fills the three places, the rest reads them
  have hscan : threeNearest g geoHash g.vertices.nodes (firstThree g geoHash []) = _ :=
    threeNearest_ok h g.vertices.nodes (List.nil_append _).symm
  refine ⟨_, hscan, slots_firstThree _, findVertexByVehiclePosition_near h env memory, ?_⟩
  intro k hnodes hsame
  rw [Kernel.findVertexByVehiclePosition, hnodes]
  exact kernel_go hsame hscan

/-- A vehicle beside the corner `a` of a block, as near to `f` as to `b` by their geohashes. -/
theorem nearest_vertices_block :
    nearestThree (block 1 2 1 2) 2 = [2, 1, 3] ∧
      (∃ p, FirstNearest gridEnv (block 1 2 1 2) 60 10 [2, 1, 3] p ∧
        findVertexByVehiclePosition gridEnv 7 (block 1 2 1 2) 2 60 10 = .ok p) ∧
      ∀ k : Kernel.RoadGraph, k.vertices.nodes = (block 1 2 1 2).vertices.nodes →
        (∀ p ∈ (block 1 2 1 2).vertices.nodes, geohashOf k p = geohashOf (block 1 2 1 2) p) →
        Kernel.findVertexByVehiclePosition k 2 = .ok 2 := by
  have hthree : nearestThree (block 1 2 1 2) 2 = [2, 1, 3] := by decide
  -- Evaluated on the block, the three are the crossing and its neighbours
  obtain ⟨s, -, hslots, hnear, hkernel⟩ :=
    nearest_vertices (block_wf 1 2 1 2) gridEnv 7 2 60 10
  rw [hthree] at hslots hnear
  obtain ⟨hfirst, -⟩ := List.cons.inj hslots
  have hdist : distanceOf gridEnv (block 1 2 1 2) 60 10 2 ≤ 100 := by
    show |(10 : ℚ) - 0| + |60 - 60| ≤ 100
    norm_num
  refine ⟨hthree, hnear ⟨2, List.mem_cons_self, hdist⟩, fun k hnodes hsame => ?_⟩
  exact hfirst ▸ hkernel k hnodes hsame

/-- A vertex with the geohash 0 is not found for a vehicle with the greatest geohash. -/
theorem greatest_difference_missed :
    ∃ g : Graph (Site ℚ), g.WF ∧ (∀ p ∈ g.vertices.nodes, geohashOf g p = some 0) ∧
      ∃ s, threeNearest g 0xffffffffffffffff g.vertices.nodes
        ⟨0xffffffffffffffff, 0xffffffffffffffff, 0xffffffffffffffff, NULL, NULL, NULL⟩ = .ok s ∧
        [s.v0, s.v1, s.v2] ≠ ((inOrder g 0xffffffffffffffff).take 3).rightpad 3 NULL := by
  have hvertex : ((graphCreate : Graph (Site ℚ)).addVertex
      (vertexCreate "a" 0 ⟨0, 0, true⟩)).Mirrored := Mirrored.empty.addVertex rfl rfl rfl
  exact ⟨_, hvertex.degrees.wf, by decide, _, rfl, by decide⟩

end NS3

end MapRelay
