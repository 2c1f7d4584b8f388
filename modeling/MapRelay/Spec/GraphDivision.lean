import Mathlib.Algebra.Order.BigOperators.Group.List
import Mathlib.Algebra.Order.Floor.Semiring
import Mathlib.Tactic.FieldSimp
import Mathlib.Tactic.Linarith
import MapRelay.ForStd.Subdivision
import MapRelay.Spec.GraphInvariant

/-!
# Road subdivision

`graph_division` cuts every edge that is longer than `MAX_DIST`, while it walks the vertex
list that it extends and the edge lists that it changes. `Divided` relates the graph it has
reached to the one it started from: every old edge is a path whose length is that of the
edge. A cut leaves two pieces of at least `minPiece`, so that an edge can only be cut so many
times, and this bounds the vertex list and with it the walk.
-/

namespace MapRelay.NS3

open ForStd MapRelay.Graph

variable {K : Type}

/-! ## The graph after a cut -/

/-- Whether the vertex at `p` is an intersection. -/
def isIntersectionOf (g : Graph (Site K)) (p : Addr) : Option Bool :=
  (g.dataOf p).map (·.2.2.isIntersection)

section Divide

variable {env : MapEnv K} {g g' : Graph (Site K)} {u v p : Addr} {stop : Vertex (Site K)}

/-- A cut keeps the graph well-formed. -/
theorem wf_divide (h : g.WF) (hu : u ∈ g.vertices.nodes) (hv : v ∈ g.vertices.nodes)
    (hstop : stop.edges.nodes = []) : (divide g u v stop).WF := by
  have hu' : u ∈ (g.addVertex stop).vertices.nodes := List.mem_append_left _ hu
  have hv' : v ∈ (g.addVertex stop).vertices.nodes := List.mem_append_left _ hv
  have hn' : g.heap.next ∈ (g.addVertex stop).vertices.nodes :=
    List.mem_append_right _ List.mem_cons_self
  have hadd := h.addVertex hstop
  have hfirst := (hadd.addEdge hu' hn' (dividedRoad g u v)).addEdge hn' hu' (dividedRoad g u v)
  have hsecond := (hfirst.addEdge hn' hv' (dividedRoad g u v)).addEdge hv' hn' (dividedRoad g u v)
  exact (hsecond.removeEdge u v).removeEdge v u

/-- The new vertex has the data of the stop, and the others keep theirs. -/
theorem dataOf_divide :
    (divide g u v stop).dataOf p =
      if p = g.heap.next then some (stop.idStr, stop.geoHash, stop.attr) else g.dataOf p := by
  simp only [divide, dataOf_unlinkRoad, dataOf_linkRoad, dataOf_addVertex]

/-- A cut changes the data of no old vertex. -/
theorem dataOf_divide_of_mem (h : g.WF) (hp : p ∈ g.vertices.nodes) :
    (divide g u v stop).dataOf p = g.dataOf p := by
  rw [dataOf_divide, if_neg]
  rintro rfl
  exact h.next_not_mem hp

/-- The inner loop finds each neighbour once. -/
private theorem nodup_edges (hsimple : g.roads.Simple) (v : Addr) :
    ((g.edgesOf v).map Edge.vertex).Nodup := by
  apply List.nodup_iff_count_le_one.mpr
  intro w
  have hone := hsimple.one v w
  rw [roads, List.length_map, ← List.countP_eq_length_filter] at hone
  rw [List.count, List.countP_map]
  exact hone

/-- In a simple graph division is a cut. -/
private theorem roads_divide_eq_cut (h : g.WF) (hsimple : g.roads.Simple) (stop : Vertex (Site K))
    (hstop : stop.edges.nodes = []) {r : Int32} (hr : r ∈ g.roads u v) :
    (divide g u v stop).roads = g.roads.cut u v g.heap.next r := by
  obtain ⟨hu, hv⟩ := h.mem_of_roads (List.ne_nil_of_mem hr)
  have hroad : dividedRoad g u v = r := by
    rw [dividedRoad, hsimple.eq_singleton hr]
    rfl
  rw [roads_divide ((h.live_iff u).mpr hu) ((h.live_iff v).mpr hv) hstop, hroad]
  rfl

/-- A cut replaces the road by its two parts, under the same id. -/
private theorem mem_roads_divide (h : g.WF) (hsimple : g.roads.Simple)
    (hstop : stop.edges.nodes = []) {r r' : Int32} (hr : r ∈ g.roads u v) {x y : Addr} :
    r' ∈ (divide g u v stop).roads x y ↔
      (r' ∈ g.roads x y ∧ ¬ Links.SamePair x y u v) ∨
        ((Links.SamePair x y u g.heap.next ∨ Links.SamePair x y g.heap.next v) ∧ r' = r) := by
  rw [roads_divide_eq_cut h hsimple stop hstop hr]
  exact hsimple.mem_cut hr h.roads_next

/-- The distance depends on the coordinates only. -/
private theorem distance_eq [Zero K] (env : MapEnv K) (g : Graph (Site K)) (u v : Addr) :
    distance env g u v =
      match g.dataOf u, g.dataOf v with
      | some (_, _, f), some (_, _, t) => env.getDistance f.y f.x t.y t.x
      | _, _ => 0 := by
  unfold distance dataOf
  cases g.heap.cell u <;> cases g.heap.cell v <;> rfl

/-- The distance of two vertices depends on their data only. -/
private theorem distance_congr [Zero K] (hu : g'.dataOf u = g.dataOf u)
    (hv : g'.dataOf v = g.dataOf v) :
    distance env g' u v = distance env g u v := by
  rw [distance_eq, distance_eq, hu, hv]

/-- The distances around a new stop. -/
private theorem distance_divide [Zero K] (env : MapEnv K) (stop : Vertex (Site K)) (h : g.WF)
    {f t : Vertex (Site K)} (hf : g.heap.cell u = some f) (ht : g.heap.cell v = some t) :
    distance env (divide g u v stop) u g.heap.next = vertexDistance env f stop ∧
      distance env (divide g u v stop) g.heap.next v = vertexDistance env stop t ∧
      ∀ x ∈ g.vertices.nodes, ∀ y ∈ g.vertices.nodes,
        distance env (divide g u v stop) x y = distance env g x y := by
  -- The new vertex has the data of `stop`, the old ones keep theirs
  have hnew : (divide g u v stop).dataOf g.heap.next =
      some (stop.idStr, stop.geoHash, stop.attr) := by
    rw [dataOf_divide, if_pos rfl]
  have hkept : ∀ {p w}, g.heap.cell p = some w →
      (divide g u v stop).dataOf p = some (w.idStr, w.geoHash, w.attr) := by
    intro p w hw
    rw [dataOf_divide_of_mem h ((h.live_iff p).mp (Heap.live_iff.mpr ⟨w, hw⟩)), dataOf, hw]
    rfl
  refine ⟨?_, ?_, fun x hx y hy => ?_⟩
  · rw [distance_eq, hkept hf, hnew]
    rfl
  · rw [distance_eq, hkept ht, hnew]
    rfl
  · exact distance_congr (dataOf_divide_of_mem h hx) (dataOf_divide_of_mem h hy)

end Divide

variable [Field K] [LinearOrder K] [FloorRing K]

/-! ## The stop on a straight road -/

/-- `get_distance` is symmetric and, along a straight road, proportional. -/
structure StraightDistances (env : MapEnv K) : Prop where
  symm : ∀ lat₁ lng₁ lat₂ lng₂,
    env.getDistance lat₁ lng₁ lat₂ lng₂ = env.getDistance lat₂ lng₂ lat₁ lng₁
  proportional : ∀ lat₁ lng₁ lat₂ lng₂ s, 0 ≤ s → s ≤ 1 →
    env.getDistance lat₁ lng₁ (lat₁ + s * (lat₂ - lat₁)) (lng₁ + s * (lng₂ - lng₁)) =
      s * env.getDistance lat₁ lng₁ lat₂ lng₂

/-- Division leaves no piece shorter than this. -/
def minPiece : K := 75 / 2

section Stop

variable [IsStrictOrderedRing K] {env : MapEnv K} {f t : Vertex (Site K)}

/-- `round` is off by half at most. -/
private theorem cRound_bounds {x : K} (hx : 0 ≤ x) :
    (cRound x : K) ≤ x + 1 / 2 ∧ x - 1 / 2 < cRound x := by
  rw [cRound, if_pos hx]
  refine ⟨Int.floor_le _, ?_⟩
  have hlt := Int.lt_floor_add_one (x + 1 / 2)
  linarith

/-- The number of parts for a distance above `MAX_DIST`: at least two, and each of a length
    between `minPiece` and `MAX_DIST`. -/
theorem cRound_parts {d : K} (hd : maxDist < d) :
    (2 : K) ≤ cRound (d / averageDist) ∧ minPiece * cRound (d / averageDist) ≤ d ∧
      d ≤ maxDist * cRound (d / averageDist) := by
  simp only [maxDist, averageDist, minPiece] at *
  have hpos : 0 ≤ d / 50 := by
    apply div_nonneg <;> linarith
  obtain ⟨hle, hlt⟩ := cRound_bounds hpos
  refine ⟨?_, by linarith, by linarith⟩
  -- More than one part, hence two
  have hone : ((1 : ℤ) : K) < cRound (d / 50) := by
    rw [Int.cast_one]
    linarith
  have htwo : (1 : ℤ) + 1 ≤ cRound (d / 50) := Int.add_one_le_of_lt (Int.cast_lt.mp hone)
  exact_mod_cast htwo

omit [FloorRing K] [IsStrictOrderedRing K] in
/-- The distance of two vertices does not depend on their order. -/
private theorem StraightDistances.vertexDistance_comm (h : StraightDistances env)
    (f t : Vertex (Site K)) :
    vertexDistance env f t = vertexDistance env t f := h.symm _ _ _ _

omit [FloorRing K] [IsStrictOrderedRing K] in
/-- The same of the distance by addresses. -/
private theorem StraightDistances.distance_comm (h : StraightDistances env) (g : Graph (Site K))
    (u v : Addr) :
    distance env g u v = distance env g v u := by
  unfold distance
  cases g.heap.cell u <;> cases g.heap.cell v
  case some.some f t => exact h.vertexDistance_comm f t
  all_goals rfl

/-- The stop on a long edge: the first part has a permitted length, the rest is not too
    short, and together they are as long as the edge. -/
private theorem stopVertex_distances (h : StraightDistances env)
    (hlong : maxDist < vertexDistance env f t) :
    let p := stopVertex env f t
    vertexDistance env f p ≤ maxDist ∧ minPiece ≤ vertexDistance env f p ∧
      minPiece ≤ vertexDistance env p t ∧
      vertexDistance env f p + vertexDistance env p t = vertexDistance env f t := by
  intro p
  set d := vertexDistance env f t with hd
  obtain ⟨htwo, hmin, hmax⟩ := cRound_parts hlong
  set n : K := ((cRound (d / averageDist) : Int) : K) with hn
  have hn₀ : n ≠ 0 := by linarith
  have hn₁ : 0 < n := by linarith
  have hs₀ : 0 ≤ 1 / n := by positivity
  have hs₁ : 1 / n ≤ 1 / 2 := one_div_le_one_div_of_le two_pos htwo
  have hfirst : vertexDistance env f p = 1 / n * d := by
    have hprop := h.proportional f.attr.y f.attr.x t.attr.y t.attr.x (1 / n) hs₀ (by linarith)
    rw [one_div_mul_eq_div, one_div_mul_eq_div] at hprop
    exact hprop
  have hrest : vertexDistance env p t = (1 - 1 / n) * d := by
    -- Seen from the other end
    have hprop := h.proportional t.attr.y t.attr.x f.attr.y f.attr.x (1 - 1 / n) (by linarith)
      (by linarith)
    have hlat : t.attr.y + (1 - 1 / n) * (f.attr.y - t.attr.y) = p.attr.y := by
      show _ = f.attr.y + (t.attr.y - f.attr.y) / n
      field_simp
      ring
    have hlng : t.attr.x + (1 - 1 / n) * (f.attr.x - t.attr.x) = p.attr.x := by
      show _ = f.attr.x + (t.attr.x - f.attr.x) / n
      field_simp
      ring
    rw [hlat, hlng] at hprop
    rw [hd, h.vertexDistance_comm p t, h.vertexDistance_comm f t]
    exact hprop
  -- The two distances are as asked for because there are between `d / 75` and `d / 37.5` parts
  have hd₀ : 0 < d := by
    have hlong' := hlong
    simp only [maxDist] at hlong'
    linarith
  rw [hfirst, hrest]
  refine ⟨?_, ?_, ?_, by ring⟩
  · rw [one_div_mul_eq_div]
    exact (div_le_iff₀ hn₁).mpr hmax
  · rw [one_div_mul_eq_div]
    exact (le_div_iff₀ hn₁).mpr hmin
  · -- At least half of more than `MAX_DIST` is left
    have hhalf : 1 / 2 * d ≤ (1 - 1 / n) * d := by
      apply mul_le_mul_of_nonneg_right _ hd₀.le
      linarith
    simp only [minPiece, maxDist] at *
    linarith

/-- The same for the edge from `u` to `v`, measured in the graph that is left. -/
private theorem StraightDistances.parts (h : StraightDistances env) {g : Graph (Site K)}
    (hwf : g.WF) {u v : Addr} (hf : g.heap.cell u = some f) (ht : g.heap.cell v = some t)
    (hlong : maxDist < distance env g u v) :
    let g' := divide g u v (stopVertex env f t)
    distance env g' u g.heap.next ≤ maxDist ∧ minPiece ≤ distance env g' u g.heap.next ∧
      minPiece ≤ distance env g' g.heap.next v ∧
      distance env g' u g.heap.next + distance env g' g.heap.next v = distance env g u v := by
  intro g'
  obtain ⟨hfirst, hrest, -⟩ := distance_divide env (stopVertex env f t) hwf hf ht
  rw [distance_of_cell hf ht] at hlong ⊢
  rw [hfirst, hrest]
  exact stopVertex_distances h hlong

end Stop

/-! ## What division has reached -/

/-- No edge of the vertex at `v` is too long. -/
def Short (env : MapEnv K) (g : Graph (Site K)) (v : Addr) : Prop :=
  ∀ w, g.roads v w ≠ [] → distance env g v w ≤ maxDist

/-- The graph `g` comes from `g₀` by division: `path u v` is what has become of an edge from
    `u` to `v`. -/
structure Divided (env : MapEnv K) (g₀ g : Graph (Site K)) (path : Addr → Addr → List Addr) :
    Prop where
  wf : g.WF
  simple : g.roads.Simple
  vertices : g₀.vertices.nodes <+: g.vertices.nodes
  data : ∀ p ∈ g₀.vertices.nodes, g.dataOf p = g₀.dataOf p
  stops : ∀ p ∈ g.vertices.nodes, p ∉ g₀.vertices.nodes →
    isIntersectionOf g p = some false ∧ ∃ u v, g₀.roads u v ≠ [] ∧ p ∈ path u v
  inside : ∀ {u v p}, g₀.roads u v ≠ [] → p ∈ path u v → p ∈ g.vertices.nodes
  subdivided : Subdivided (· ∈ g₀.vertices.nodes) g₀.roads g.roads path
  total : ∀ {u v}, g₀.roads u v ≠ [] →
    pathLength (distance env g) (path u v) = distance env g₀ u v
  pieces : ∀ {u v x y}, g₀.roads u v ≠ [] → [x, y] <:+: path u v →
    path u v = [x, y] ∨ minPiece ≤ distance env g x y

variable {env : MapEnv K} {g₀ g : Graph (Site K)} {path : Addr → Addr → List Addr}

omit [FloorRing K] in
/-- Before division each edge is its own path. -/
theorem Divided.start (h : g₀.WF) (hsimple : g₀.roads.Simple) :
    -- Nothing has been divided yet
    Divided env g₀ g₀ fun u v => [u, v] where
  wf := h
  simple := hsimple
  vertices := List.prefix_rfl
  data _ _ := rfl
  stops _ hp hp' := absurd hp hp'
  -- The path of an edge is the edge, whose ends are vertices
  inside := by
    intro u v p huv hp
    obtain ⟨hu, hv⟩ := h.mem_of_roads huv
    simp only [List.mem_cons, List.not_mem_nil, or_false] at hp
    rcases hp with rfl | rfl
    · exact hu
    · exact hv
  subdivided := .start hsimple fun huv => h.mem_of_roads huv
  total _ := by simp [pathLength]
  pieces _ hxy := by
    obtain ⟨rfl, rfl⟩ := pair_infix_pair.mp hxy
    exact .inl rfl

section Cut

variable [IsStrictOrderedRing K] {a b : Addr} {r : Int32} {f t : Vertex (Site K)}

omit [FloorRing K] [IsStrictOrderedRing K] in
/-- The new vertex is on the path of the edge that is cut. -/
private theorem Divided.stops_divide (h : Divided env g₀ g path) (hab : r ∈ g.roads a b)
    {stop : Vertex (Site K)} (hstop : stop.attr.isIntersection = false) {p : Addr}
    (hp : p ∈ (divide g a b stop).vertices.nodes) (hp₀ : p ∉ g₀.vertices.nodes) :
    isIntersectionOf (divide g a b stop) p = some false ∧
      ∃ u v, g₀.roads u v ≠ [] ∧ p ∈ insertBetween a b g.heap.next (path u v) := by
  -- An old vertex, or the stop itself
  rw [vertices_divide] at hp
  rcases List.mem_append.mp hp with hp | hp
  · obtain ⟨hcross, u, v, huv, hpath⟩ := h.stops p hp hp₀
    refine ⟨?_, u, v, huv, mem_insertBetween.mpr (.inl hpath)⟩
    rw [isIntersectionOf, dataOf_divide_of_mem h.wf hp]
    exact hcross
  · rw [List.mem_singleton.mp hp]
    -- The divided edge lies on the path of some edge of the beginning
    obtain ⟨u, v, huv, hpath⟩ := h.subdivided.links.mp hab
    refine ⟨?_, u, v, List.ne_nil_of_mem huv,
      mem_insertBetween.mpr (.inr ⟨rfl, a, b, hpath, .inl ⟨rfl, rfl⟩⟩)⟩
    rw [isIntersectionOf, dataOf_divide, if_pos rfl]
    show some stop.attr.isIntersection = some false
    rw [hstop]

omit [FloorRing K] [IsStrictOrderedRing K] in
/-- Between neighbours on a path that are not cut apart the distance stays. -/
private theorem Divided.distance_divide (h : Divided env g₀ g path) (stop : Vertex (Site K))
    (hf : g.heap.cell a = some f) (ht : g.heap.cell b = some t) {u v x y : Addr}
    (huv : g₀.roads u v ≠ []) (hxy : [x, y] <:+: path u v) :
    distance env (NS3.divide g a b stop) x y = distance env g x y := by
  obtain ⟨hx, hy⟩ := mem_of_neighbours hxy
  obtain ⟨-, -, hkept⟩ := NS3.distance_divide env stop h.wf hf ht
  exact hkept x (h.inside huv hx) y (h.inside huv hy)

/-- A path is as long as it was, since the two parts are together as long as the edge. -/
private theorem Divided.total_divide (henv : StraightDistances env) (h : Divided env g₀ g path)
    (hf : g.heap.cell a = some f) (ht : g.heap.cell b = some t)
    (hlong : maxDist < distance env g a b) {u v : Addr} (huv : g₀.roads u v ≠ []) :
    pathLength (distance env (divide g a b (stopVertex env f t)))
      (insertBetween a b g.heap.next (path u v)) = distance env g₀ u v := by
  -- The two parts add up to the edge
  obtain ⟨-, -, -, hsum⟩ := henv.parts h.wf hf ht hlong
  rw [← h.total huv]
  apply pathLength_insertBetween
  · intro x y hxy _
    exact h.distance_divide _ hf ht huv hxy
  · rintro x y - (⟨rfl, rfl⟩ | ⟨rfl, rfl⟩)
    · exact hsum
    · -- The edge is met from its other end
      rw [henv.distance_comm _ x, henv.distance_comm _ _ y, henv.distance_comm g x, add_comm]
      exact hsum

/-- No piece is too short, unless it is an edge that has not been cut. -/
private theorem Divided.pieces_divide (henv : StraightDistances env) (h : Divided env g₀ g path)
    (hf : g.heap.cell a = some f) (ht : g.heap.cell b = some t)
    (hlong : maxDist < distance env g a b) {u v x y : Addr} (huv : g₀.roads u v ≠ [])
    (hxy : [x, y] <:+: insertBetween a b g.heap.next (path u v)) :
    insertBetween a b g.heap.next (path u v) = [x, y] ∨
      minPiece ≤ distance env (divide g a b (stopVertex env f t)) x y := by
  obtain ⟨-, hmin, hmin', -⟩ := henv.parts h.wf hf ht hlong
  rcases pair_infix_insertBetween.mp hxy with ⟨hxy, hne⟩ | ⟨p, q, -, hsame, hat⟩
  · rcases h.pieces huv hxy with hpath | hpiece
    · left
      rw [hpath]
      exact insertBetween_keep hne []
    · right
      rw [h.distance_divide _ hf ht huv hxy]
      exact hpiece
  · -- Either part of the edge that is cut, from either end
    right
    rcases hsame with ⟨rfl, rfl⟩ | ⟨rfl, rfl⟩ <;> rcases hat with ⟨rfl, rfl⟩ | ⟨rfl, rfl⟩
    · exact hmin
    · exact hmin'
    · rw [henv.distance_comm]
      exact hmin'
    · rw [henv.distance_comm]
      exact hmin

/-- Cutting an edge that is too long. -/
theorem Divided.divide (henv : StraightDistances env) (hsymm : g₀.roads.Symm)
    (h : Divided env g₀ g path) (hab : r ∈ g.roads a b) (hf : g.heap.cell a = some f)
    (ht : g.heap.cell b = some t) (hlong : maxDist < distance env g a b) :
    Divided env g₀ (divide g a b (stopVertex env f t))
      fun u v => insertBetween a b g.heap.next (path u v) := by
  obtain ⟨ha, hb⟩ := h.wf.mem_of_roads (List.ne_nil_of_mem hab)
  have hnew := h.wf.next_not_mem
  -- The new vertex is on no path yet
  have hunused : ∀ u v, g₀.roads u v ≠ [] → g.heap.next ∉ path u v :=
    fun u v huv hmem => hnew (h.inside huv hmem)
  have hfresh : g.heap.next ∉ g₀.vertices.nodes := fun hmem => hnew (h.vertices.subset hmem)
  have hcut := roads_divide_eq_cut h.wf h.simple (stopVertex env f t) rfl hab
  exact
    { wf := wf_divide h.wf ha hb rfl
      simple := by
        rw [hcut]
        exact h.simple.cut hab h.wf.roads_next
      vertices := by
        rw [vertices_divide]
        exact h.vertices.trans (List.prefix_append _ _)
      data := fun p hp =>
        (dataOf_divide_of_mem h.wf (h.vertices.subset hp)).trans (h.data p hp)
      stops := fun p hp hp₀ => h.stops_divide hab rfl hp hp₀
      inside := by
        intro u v p huv hp
        rw [vertices_divide]
        rcases mem_insertBetween.mp hp with hp | ⟨rfl, -⟩
        · exact List.mem_append_left _ (h.inside huv hp)
        · exact List.mem_append_right _ List.mem_cons_self
      subdivided := by
        rw [hcut]
        exact h.subdivided.cut hsymm h.simple hab hfresh hunused
      total := h.total_divide henv hf ht hlong
      pieces := h.pieces_divide henv hf ht hlong }

/-! ## The vertex list stays bounded -/

/-- The pairs of vertices with a road. -/
def joinedPairs (g : Graph (Site K)) : List (Addr × Addr) :=
  (g.vertices.nodes ×ˢ g.vertices.nodes).filter fun p => g.roads p.1 p.2 ≠ []

/-- As many vertices division cannot exceed: the old ones, and for each road as many as fit
    on it at distance `minPiece`. -/
def vertexBound (env : MapEnv K) (g : Graph (Site K)) : Nat :=
  g.vertices.nodes.length +
    ((joinedPairs g).map fun p => 2 + ⌊distance env g p.1 p.2 / minPiece⌋₊).sum

omit [FloorRing K] [LinearOrder K] [IsStrictOrderedRing K] [Field K] in
/-- The pairs are those of vertices with a road. -/
private theorem mem_joinedPairs (h : g.WF) {u v : Addr} :
    (u, v) ∈ joinedPairs g ↔ g.roads u v ≠ [] := by
  simp only [joinedPairs, List.mem_filter, List.mem_product, decide_eq_true_eq]
  exact and_iff_right_of_imp fun huv => h.mem_of_roads huv

/-- A path has no more vertices than pieces fit on its road. -/
private theorem Divided.length_path (h : Divided env g₀ g path) {u v : Addr}
    (huv : g₀.roads u v ≠ []) :
    (path u v).length ≤ 2 + ⌊distance env g₀ u v / minPiece⌋₊ := by
  by_cases hlen : (path u v).length ≤ 2
  · exact hlen.trans (Nat.le_add_right _ _)
  · -- More than two vertices: every piece has its least length
    obtain ⟨c, hc, -⟩ := h.subdivided.ends huv
    have hpiece : ∀ x y, [x, y] <:+: u :: (c ++ [v]) → minPiece ≤ distance env g x y := by
      intro x y hxy
      rw [← hc] at hxy
      rcases h.pieces huv hxy with hpath | hpiece
      · rw [hpath] at hlen
        simp at hlen
      · exact hpiece
    have hmul := length_mul_le_pathLength hpiece
    rw [← hc, h.total huv] at hmul
    have hpos : (0 : K) < minPiece := by
      rw [minPiece]
      linarith
    have hfloor := Nat.le_floor ((le_div_iff₀ hpos).mpr hmul)
    rw [hc, List.length_cons]
    omega

/-- So division stays below its bound. -/
private theorem Divided.length_vertices (h₀ : g₀.WF) (h : Divided env g₀ g path) :
    g.vertices.nodes.length ≤ vertexBound env g₀ := by
  -- Every vertex is an old one or on one of the paths
  have hsub : g.vertices.nodes ⊆
      g₀.vertices.nodes ++ (joinedPairs g₀).flatMap fun p => path p.1 p.2 := by
    intro p hp
    by_cases hp₀ : p ∈ g₀.vertices.nodes
    · exact List.mem_append_left _ hp₀
    · obtain ⟨-, u, v, huv, hpath⟩ := h.stops p hp hp₀
      exact List.mem_append_right _
        (List.mem_flatMap.mpr ⟨(u, v), (mem_joinedPairs h₀).mpr huv, hpath⟩)
  have hlen := (h.wf.nodup.subperm hsub).length_le
  rw [List.length_append, List.length_flatMap] at hlen
  have hsum : ((joinedPairs g₀).map fun p => (path p.1 p.2).length).sum ≤
      ((joinedPairs g₀).map fun p => 2 + ⌊distance env g₀ p.1 p.2 / minPiece⌋₊).sum := by
    apply List.sum_le_sum
    intro ⟨u, v⟩ huv
    exact h.length_path ((mem_joinedPairs h₀).mp huv)
  rw [vertexBound]
  omega

/-! ## The loops -/

/-- What a call of `edge_division` leaves of the work at `a`: the edge to `b` is done, the
    other edges are still there, and no other vertex has got more to do. -/
structure EdgeDone (env : MapEnv K) (a b : Addr) (g g' : Graph (Site K)) : Prop where
  vertices : g.vertices.nodes <+: g'.vertices.nodes
  short : ∀ p ∈ g.vertices.nodes, p ≠ a → Short env g p → Short env g' p
  kept : ∀ w, w ≠ b → g.roads a w ≠ [] → g'.roads a w ≠ []
  left : ∀ w, g'.roads a w ≠ [] → distance env g' a w ≤ maxDist ∨
    (w ≠ b ∧ g.roads a w ≠ [] ∧ distance env g' a w = distance env g a w)

omit [FloorRing K] [IsStrictOrderedRing K] in
/-- With a short edge there is nothing to do. -/
private theorem EdgeDone.of_short (h : distance env g a b ≤ maxDist) : EdgeDone env a b g g where
  vertices := List.prefix_rfl
  short _ _ _ hp := hp
  kept _ _ hw := hw
  left w hw := by
    by_cases hwb : w = b
    · rw [hwb]
      exact .inl h
    · exact .inr ⟨hwb, hw, rfl⟩

/-- A long edge is done when it has been cut. -/
theorem EdgeDone.divide (henv : StraightDistances env) (hwf : g.WF) (hsimple : g.roads.Simple)
    (hab : r ∈ g.roads a b) (hf : g.heap.cell a = some f) (ht : g.heap.cell b = some t)
    (hlong : maxDist < distance env g a b) :
    EdgeDone env a b g (divide g a b (stopVertex env f t)) where
  vertices := by
    rw [vertices_divide]
    exact List.prefix_append _ _
  short p hp hpa hps w hw := by
    -- Of the old vertices only `a` and `b` get a new edge, and the edge from `b` was long
    have hnew := hwf.next_not_mem
    obtain ⟨-, -, hkept⟩ := distance_divide env (stopVertex env f t) hwf hf ht
    obtain ⟨r', hr'⟩ := List.exists_mem_of_ne_nil _ hw
    rcases (mem_roads_divide hwf hsimple rfl hab).mp hr' with ⟨hold, -⟩ | ⟨hat, -⟩
    · have hold' := List.ne_nil_of_mem hold
      rw [hkept p hp w (hwf.mem_of_roads hold').2]
      exact hps w hold'
    · rcases hat with (⟨rfl, -⟩ | ⟨rfl, -⟩) | (⟨rfl, -⟩ | ⟨rfl, -⟩)
      · exact absurd rfl hpa
      · exact absurd hp hnew
      · exact absurd hp hnew
      · have hback : g.roads p a ≠ [] := by
          rw [hsimple.symm]
          exact List.ne_nil_of_mem hab
        have hle := hps a hback
        rw [henv.distance_comm] at hle
        exact absurd hlong (not_lt.mpr hle)
  kept w hwb hw := by
    obtain ⟨r', hr'⟩ := List.exists_mem_of_ne_nil _ hw
    refine List.ne_nil_of_mem ((mem_roads_divide hwf hsimple rfl hab).mpr (.inl ⟨hr', ?_⟩))
    rintro (⟨-, rfl⟩ | ⟨rfl, -⟩)
    · exact hwb rfl
    · exact hsimple.ne hab rfl
  left w hw := by
    -- The edge to the new vertex is short, the other edges are as they were
    obtain ⟨ha, -⟩ := hwf.mem_of_roads (List.ne_nil_of_mem hab)
    have hnew := hwf.next_not_mem
    obtain ⟨-, -, hkept⟩ := distance_divide env (stopVertex env f t) hwf hf ht
    obtain ⟨r', hr'⟩ := List.exists_mem_of_ne_nil _ hw
    rcases (mem_roads_divide hwf hsimple rfl hab).mp hr' with ⟨hold, hpair⟩ | ⟨hat, -⟩
    · have hold' := List.ne_nil_of_mem hold
      exact .inr ⟨fun hwb => hpair (.inl ⟨rfl, hwb⟩), hold',
        hkept a ha w (hwf.mem_of_roads hold').2⟩
    · rcases hat with (⟨-, rfl⟩ | ⟨heq, -⟩) | (⟨heq, -⟩ | ⟨heq, -⟩)
      · exact .inl (henv.parts hwf hf ht hlong).1
      · exact absurd (heq ▸ ha) hnew
      · exact absurd (heq ▸ ha) hnew
      · exact absurd heq (hsimple.ne hab)

/-- One call of `edge_division` on an edge of `a`. -/
private theorem edgeDivision_ok (henv : StraightDistances env) (hsymm : g₀.roads.Symm)
    (h : Divided env g₀ g path) (hab : g.roads a b ≠ []) :
    ∃ g' path', edgeDivision env g a b = .ok g' ∧ Divided env g₀ g' path' ∧
      EdgeDone env a b g g' := by
  obtain ⟨ha, hb⟩ := h.wf.mem_of_roads hab
  obtain ⟨r, hr⟩ := List.exists_mem_of_ne_nil _ hab
  obtain ⟨f, t, hf, ht, ⟨hlong, hok⟩ | ⟨hlong, hok⟩⟩ :=
    edgeDivision_cases env ((h.wf.live_iff a).mpr ha) ((h.wf.live_iff b).mpr hb)
  · exact ⟨g, path, hok, h, .of_short (not_lt.mp hlong)⟩
  · exact ⟨_, _, hok, h.divide henv hsymm hr hf ht hlong, .divide henv h.wf h.simple hr hf ht hlong⟩

/-- The inner loop: `es` are the edges of `v` that are still to be visited. -/
private theorem divideEdges_ok (henv : StraightDistances env) (hsymm : g₀.roads.Symm) {v : Addr}
    {es : List Edge} (h : Divided env g₀ g path) (hv : v ∈ g.vertices.nodes)
    (hnodup : (es.map Edge.vertex).Nodup) (hroads : ∀ e ∈ es, g.roads v e.vertex ≠ [])
    (hdone : ∀ w, g.roads v w ≠ [] →
      distance env g v w ≤ maxDist ∨ w ∈ es.map Edge.vertex) :
    ∃ g' path', divideEdges env g v es = .ok g' ∧ Divided env g₀ g' path' ∧
      g.vertices.nodes <+: g'.vertices.nodes ∧ Short env g' v ∧
      ∀ p ∈ g.vertices.nodes, p ≠ v → Short env g p → Short env g' p := by
  induction es generalizing g path with
  | nil =>
    refine ⟨g, path, rfl, h, List.prefix_rfl, fun w hw => ?_, fun _ _ _ hp => hp⟩
    exact (hdone w hw).resolve_right List.not_mem_nil
  | cons e es ih =>
    -- The edge to `e.vertex` is done; the others are still there, at the distances they had
    obtain ⟨g₁, path₁, hok₁, h₁, hedge⟩ :=
      edgeDivision_ok henv hsymm h (hroads e List.mem_cons_self)
    rw [List.map_cons, List.nodup_cons] at hnodup
    have hroads₁ : ∀ e' ∈ es, g₁.roads v e'.vertex ≠ [] := by
      intro e' he'
      refine hedge.kept e'.vertex ?_ (hroads e' (List.mem_cons_of_mem _ he'))
      intro heq
      exact hnodup.1 (List.mem_map.mpr ⟨e', he', heq⟩)
    have hdone₁ : ∀ w, g₁.roads v w ≠ [] →
        distance env g₁ v w ≤ maxDist ∨ w ∈ es.map Edge.vertex := by
      intro w hw
      rcases hedge.left w hw with hle | ⟨hwb, hold, hdist⟩
      · exact .inl hle
      · rcases hdone w hold with hle | hmem
        · rw [hdist]
          exact .inl hle
        · exact .inr ((List.mem_cons.mp hmem).resolve_left hwb)
    obtain ⟨g', path', hok, h', hvertices, hshort, hothers⟩ :=
      ih h₁ (hedge.vertices.subset hv) hnodup.2 hroads₁ hdone₁
    refine ⟨g', path', ?_, h', hedge.vertices.trans hvertices, hshort, ?_⟩
    · rw [divideEdges, hok₁]
      exact hok
    · intro p hp hpv hps
      exact hothers p (hedge.vertices.subset hp) hpv (hedge.short p hp hpv hps)

/-- The edges of the `i`-th vertex are divided; the vertices before it stay done. -/
private theorem divideVertex_ok (henv : StraightDistances env) (hsymm : g₀.roads.Symm) {i : Nat}
    {v : Addr} {vertex : Vertex (Site K)} (h : Divided env g₀ g path)
    (hget : g.vertices.nodes[i]? = some v) (hcell : g.heap.cell v = some vertex)
    (hdone : ∀ p ∈ g.vertices.nodes.take i, Short env g p) :
    ∃ g' path', divideEdges env g v vertex.edges.nodes = .ok g' ∧ Divided env g₀ g' path' ∧
      ∀ p ∈ g'.vertices.nodes.take (i + 1), Short env g' p := by
  have hedges := edgesOf_of_cell hcell
  have hroads : ∀ e ∈ vertex.edges.nodes, g.roads v e.vertex ≠ [] := by
    intro e he
    rw [← hedges] at he
    exact List.ne_nil_of_mem (mem_roads.mpr he)
  have hall : ∀ w, g.roads v w ≠ [] →
      distance env g v w ≤ maxDist ∨ w ∈ vertex.edges.nodes.map Edge.vertex := by
    intro w hw
    obtain ⟨r, hr⟩ := List.exists_mem_of_ne_nil _ hw
    rw [← hedges]
    exact .inr (List.mem_map.mpr ⟨_, mem_roads.mp hr, rfl⟩)
  have hnodup := nodup_edges h.simple v
  rw [hedges] at hnodup
  obtain ⟨g', path', hok, h', ⟨new, hnew⟩, hshort, hothers⟩ :=
    divideEdges_ok henv hsymm h (List.mem_of_getElem? hget) hnodup hroads hall
  refine ⟨g', path', hok, h', ?_⟩
  -- The new vertices are behind position `i`
  have hi : i < g.vertices.nodes.length := (List.getElem?_eq_some_iff.mp hget).1
  intro p hp
  rw [← hnew, List.take_append_of_le_length (by omega), List.take_add_one, hget] at hp
  by_cases hpv : p = v
  · rw [hpv]
    exact hshort
  · rcases List.mem_append.mp hp with hp | hp
    · exact hothers p (List.mem_of_mem_take hp) hpv (hdone p hp)
    · simp at hp
      exact absurd hp hpv

/-- The outer loop from the `i`-th vertex on, the vertices before being done. -/
private theorem divideFrom_ok (henv : StraightDistances env) (h₀ : g₀.WF) (hsymm : g₀.roads.Symm)
    {m i : Nat} (h : Divided env g₀ g path) (hm : vertexBound env g₀ ≤ m + i)
    (hdone : ∀ p ∈ g.vertices.nodes.take i, Short env g p) :
    ∃ g' path', (∀ fuel, m < fuel → divideFrom env fuel i g = .ok g') ∧
      Divided env g₀ g' path' ∧ ∀ p ∈ g'.vertices.nodes, Short env g' p := by
  have hlen := h.length_vertices h₀
  -- `m` bounds the number of positions that are left
  induction m generalizing i g path with
  | zero =>
    have hnone : g.vertices.nodes[i]? = none := List.getElem?_eq_none (by omega)
    refine ⟨g, path, fun fuel hfuel => ?_, h, ?_⟩
    · obtain ⟨n, rfl⟩ : ∃ n, fuel = n + 1 := ⟨fuel - 1, by omega⟩
      rw [divideFrom, hnone]
    · rwa [List.take_of_length_le (by omega)] at hdone
  | succ m ih =>
    cases hget : g.vertices.nodes[i]? with
    | none =>
      have hle := List.getElem?_eq_none_iff.mp hget
      refine ⟨g, path, fun fuel hfuel => ?_, h, ?_⟩
      · obtain ⟨n, rfl⟩ : ∃ n, fuel = n + 1 := ⟨fuel - 1, by omega⟩
        rw [divideFrom, hget]
      · rwa [List.take_of_length_le hle] at hdone
    | some v =>
      obtain ⟨vertex, hcell⟩ := Heap.live_iff.mp ((h.wf.live_iff v).mpr (List.mem_of_getElem? hget))
      obtain ⟨g₁, path₁, hok₁, h₁, hdone₁⟩ := divideVertex_ok henv hsymm h hget hcell hdone
      obtain ⟨g', path', hok, h', hshort'⟩ :=
        ih h₁ (by omega) hdone₁ (h₁.length_vertices h₀)
      refine ⟨g', path', fun fuel hfuel => ?_, h', hshort'⟩
      obtain ⟨n, rfl⟩ : ∃ n, fuel = n + 1 := ⟨fuel - 1, by omega⟩
      rw [divideFrom, hget]
      simp only [Heap.deref_eq_ok.mpr hcell, bind, Except.bind, hok₁]
      exact hok n (by omega)

omit [FloorRing K] [IsStrictOrderedRing K] in
/-- The new vertices between the ends of a path. -/
private theorem Divided.path_eq (h : Divided env g₀ g path) {u v : Addr} (huv : g₀.roads u v ≠ []) :
    path u v = u :: ((path u v).tail.dropLast ++ [v]) ∧
      ∀ t ∈ (path u v).tail.dropLast, t ∉ g₀.vertices.nodes := by
  obtain ⟨c, hc, hnew⟩ := h.subdivided.ends huv
  have hchain : (path u v).tail.dropLast = c := by
    rw [hc, List.tail_cons, List.dropLast_concat]
  rw [hchain]
  exact ⟨hc, hnew⟩

/-- `graph_division` ends. Afterwards no edge is longer than `MAX_DIST`, and every old edge has
    become a chain of new vertices that are no intersections: the chains are disjoint, the
    edges of the graph are those of the chains, with the road of the old edge in both
    directions, and the old vertices keep their data. -/
theorem graphDivision_chains (henv : StraightDistances env) (hwf : g.WF)
    (hsimple : g.roads.Simple) :
    ∃ (N : Nat) (g' : Graph (Site K)) (chain : Addr → Addr → List Addr),
      (∀ fuel, N ≤ fuel → graphDivision env fuel g = .ok g') ∧
      (∀ u v, g'.roads u v ≠ [] → distance env g' u v ≤ maxDist) ∧
      (∀ u v, chain v u = (chain u v).reverse) ∧
      (∀ u v, g.roads u v ≠ [] → (u :: (chain u v ++ [v])).Nodup ∧
        ∀ t ∈ chain u v, t ∉ g.vertices.nodes ∧ t ∈ g'.vertices.nodes ∧
          isIntersectionOf g' t = some false ∧
          ∀ u' v', g.roads u' v' ≠ [] → t ∈ chain u' v' → Links.SamePair u v u' v') ∧
      (∀ x y r, r ∈ g'.roads x y ↔
        ∃ u v, r ∈ g.roads u v ∧ [x, y] <:+: u :: (chain u v ++ [v])) ∧
      g'.roads.Simple ∧ g'.WF ∧
      g.vertices.nodes <+: g'.vertices.nodes ∧
      ∀ p ∈ g.vertices.nodes, g'.dataOf p = g.dataOf p := by
  -- The globals that are set first have nothing to do with distances
  let env' : MapEnv K := { env with latRange := latRangeConst, lonRange := lonRangeConst }
  have henv' : StraightDistances env' := ⟨henv.symm, henv.proportional⟩
  obtain ⟨g', path, hok, h, hshort⟩ :=
    divideFrom_ok (i := 0) henv' hwf hsimple.symm (.start hwf hsimple) (Nat.le_refl _)
      fun p hp => absurd hp List.not_mem_nil
  refine ⟨_, g', fun u v => (path u v).tail.dropLast, fun fuel hfuel => hok fuel hfuel,
    ?_, ?_, fun u v huv => ⟨?_, fun t ht => ?_⟩, fun x y r => ?_, h.simple, h.wf, h.vertices,
    h.data⟩
  · intro u v huv
    exact hshort u (h.wf.mem_of_roads huv).1 v huv
  · intro u v
    show (path v u).tail.dropLast = _
    rw [h.subdivided.reverse u v, List.tail_reverse, List.dropLast_reverse, List.tail_dropLast]
  · rw [← (h.path_eq huv).1]
    exact h.subdivided.nodup huv
  · obtain ⟨hpath, hnew⟩ := h.path_eq huv
    have hmem : ∀ {u v}, t ∈ (path u v).tail.dropLast → t ∈ path u v :=
      fun ht => List.mem_of_mem_tail (List.mem_of_mem_dropLast ht)
    have hfresh := hnew t ht
    have hin := h.inside huv (hmem ht)
    refine ⟨hfresh, hin, (h.stops t hin hfresh).1, fun u' v' huv' ht' => ?_⟩
    exact h.subdivided.disjoint huv huv' (hmem ht) (hmem ht') hfresh
  · rw [h.subdivided.links]
    constructor
    · intro ⟨u, v, huv, hxy⟩
      rw [(h.path_eq (List.ne_nil_of_mem huv)).1] at hxy
      exact ⟨u, v, huv, hxy⟩
    · intro ⟨u, v, huv, hxy⟩
      refine ⟨u, v, huv, ?_⟩
      rw [(h.path_eq (List.ne_nil_of_mem huv)).1]
      exact hxy

end Cut

/-- Distances along a grid of streets are proportional on a straight line. -/
theorem straightDistances_grid : StraightDistances gridEnv where
  symm lat₁ lng₁ lat₂ lng₂ := by
    simp only [gridEnv, abs_sub_comm]
  proportional lat₁ lng₁ lat₂ lng₂ s hs _ := by
    show |lat₁ + s * (lat₂ - lat₁) - lat₁| + |lng₁ + s * (lng₂ - lng₁) - lng₁| =
      s * (|lat₂ - lat₁| + |lng₂ - lng₁|)
    rw [add_sub_cancel_left, add_sub_cancel_left, abs_mul, abs_mul, abs_of_nonneg hs, mul_add]

/-- Two vertices a thousand apart. -/
def twoSites : Graph (Site ℚ) :=
  (graphCreate.addVertex (vertexCreate "a" 1 ⟨0, 0, true⟩)).addVertex
    (vertexCreate "b" 2 ⟨1000, 0, true⟩)

/-- Division of a road between two sites. -/
theorem graphDivision_chains_twoSites :
    let g := twoSites.relinkRoad 1 2 7
    7 ∈ g.roads 1 2 ∧ distance gridEnv g 1 2 > maxDist ∧
      ∃ (N : Nat) (g' : Graph (Site ℚ)),
        (∀ fuel, N ≤ fuel → graphDivision gridEnv fuel g = .ok g') ∧
        ∀ u v, g'.roads u v ≠ [] → distance gridEnv g' u v ≤ maxDist := by
  intro g
  have hwf : g.WF :=
    ((Mirrored.empty.degrees.wf.addVertex rfl).addVertex rfl).relinkRoad (by decide) (by decide) 7
  have h₁ : twoSites.Live 1 := rfl
  have h₂ : twoSites.Live 2 := rfl
  have hroads : g.roads = Links.relink (fun _ _ => []) 1 2 7 := by
    rw [roads_relinkRoad h₁ h₂, twoSites, roads_addVertex rfl, roads_addVertex rfl]
    rfl
  have hsimple : g.roads.Simple := by
    rw [hroads]
    exact Links.Simple.empty.relink (by decide) 7
  obtain ⟨N, g', -, hok, hshort, -⟩ := graphDivision_chains straightDistances_grid hwf hsimple
  refine ⟨?_, ?_, N, g', hok, hshort⟩
  · rw [hroads]
    decide
  · show gridEnv.getDistance 0 0 0 1000 > maxDist
    norm_num [gridEnv, maxDist]

end MapRelay.NS3
