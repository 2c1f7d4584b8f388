import Mathlib.Data.Rat.Floor
import Mathlib.Tactic.NormNum
import MapRelay.Native.Division
import MapRelay.Spec.GraphOps

/-!
# One step of road subdivision

`edge_division` on two vertices of the graph either leaves the graph alone or puts one
new vertex between them. `divide` is the graph it leaves in the second case.
-/

namespace MapRelay.NS3

open ForStd MapRelay.Graph

variable {K : Type}

/-- The road that `edge_division` cuts. -/
def dividedRoad (g : Graph (Site K)) (u v : Addr) : Int32 := (g.roads u v).head?.getD (-1)

/-- What `edge_division` leaves when the edge is too long: the new vertex `stop` at the end
    of the vertex list, linked to both ends, which are no longer linked to each other. -/
def divide (g : Graph (Site K)) (u v : Addr) (stop : Vertex (Site K)) : Graph (Site K) :=
  let temp := g.heap.next
  let r := dividedRoad g u v
  (((g.addVertex stop).linkRoad u temp r).linkRoad temp v r).unlinkRoad u v

section Divide

variable {g : Graph (Site K)} {u v : Addr}

/-- A cut puts the new vertex at the end of the list. -/
@[simp] theorem vertices_divide (stop : Vertex (Site K)) :
    (divide g u v stop).vertices.nodes = g.vertices.nodes ++ [g.heap.next] := by
  simp [divide, Graph.addVertex]

/-- The roads after a division: the old pair loses its newest road, which the two new
    pairs get. -/
theorem roads_divide (hu : g.Live u) (hv : g.Live v) {stop : Vertex (Site K)}
    (hstop : stop.edges.nodes = []) :
    (divide g u v stop).roads =
      ((g.roads.link u g.heap.next (dividedRoad g u v)).link g.heap.next v
        (dividedRoad g u v)).unlink u v := by
  have hu' : (g.addVertex stop).Live u := live_addVertex.mpr (.inr hu)
  have hv' : (g.addVertex stop).Live v := live_addVertex.mpr (.inr hv)
  have hn' : (g.addVertex stop).Live g.heap.next := live_addVertex.mpr (.inl rfl)
  rw [divide, roads_unlinkRoad, roads_linkRoad (live_linkRoad.mpr hn') (live_linkRoad.mpr hv'),
    roads_linkRoad hu' hn', roads_addVertex hstop]

end Divide

/-- The distance between two vertices of the graph, `0` if there is no such pair. -/
def distance [Zero K] (env : MapEnv K) (g : Graph (Site K)) (u v : Addr) : K :=
  match g.heap.cell u, g.heap.cell v with
  | some f, some t => vertexDistance env f t
  | _, _ => 0

/-- Distances along a grid of streets, in the units of the coordinates. -/
def gridEnv : MapEnv ℚ :=
  ⟨fun lat1 lng1 lat2 lng2 => |lat2 - lat1| + |lng2 - lng1|, latRangeConst, lonRangeConst⟩

section Step

variable {env : MapEnv K} {g g' : Graph (Site K)} {u v : Addr} {f t : Vertex (Site K)}

/-- The distance of two vertices, read from their cells. -/
theorem distance_of_cell [Zero K] (hf : g.heap.cell u = some f) (ht : g.heap.cell v = some t) :
    distance env g u v = vertexDistance env f t := by
  simp [distance, hf, ht]

variable [Field K] [LinearOrder K] [FloorRing K]

/-- A short edge is left alone. -/
theorem edgeDivision_short (hf : g.heap.cell u = some f) (ht : g.heap.cell v = some t)
    (h : ¬ distance env g u v > maxDist) : edgeDivision env g u v = .ok g := by
  rw [distance_of_cell hf ht] at h
  simp only [edgeDivision, Heap.deref_eq_ok.mpr hf, Heap.deref_eq_ok.mpr ht, bind, Except.bind,
    if_neg h]
  rfl

/-- A long edge is cut at the stop. -/
theorem edgeDivision_long (hf : g.heap.cell u = some f) (ht : g.heap.cell v = some t)
    (h : distance env g u v > maxDist) :
    edgeDivision env g u v = .ok (divide g u v (stopVertex env f t)) := by
  rw [distance_of_cell hf ht] at h
  set g₁ := g.addVertex (stopVertex env f t) with hg₁
  have hu : g₁.Live u := live_addVertex.mpr (.inr (Heap.live_iff.mpr ⟨f, hf⟩))
  have hv : g₁.Live v := live_addVertex.mpr (.inr (Heap.live_iff.mpr ⟨t, ht⟩))
  have hn : g₁.Live g.heap.next := live_addVertex.mpr (.inl rfl)
  -- The new vertex has no edges yet, so that the road is that of the edge in `g`
  have hroad : findRoadId g₁ u v = .ok (dividedRoad g u v) := by
    rw [findRoadId_eq hu, hg₁, roads_addVertex rfl]
    rfl
  -- After the two reads and the test the code works on `g₁`
  have hrun : edgeDivision env g u v = (do
      let roadId ← findRoadId g₁ u v
      let g₂ ← vertexAddEdgeToVertexUndirect g₁ u g.heap.next roadId
      let g₃ ← vertexAddEdgeToVertexUndirect g₂ g.heap.next v roadId
      vertexRemoveEdgeToVertexUndirect g₃ u v) := by
    simp only [edgeDivision, Heap.deref_eq_ok.mpr hf, Heap.deref_eq_ok.mpr ht, bind, Except.bind,
      if_pos h]
    rfl
  rw [hrun, hroad]
  dsimp only [bind, Except.bind]
  rw [vertexAddEdgeToVertexUndirect_eq hu hn]
  dsimp only
  rw [vertexAddEdgeToVertexUndirect_eq (live_linkRoad.mpr hn) (live_linkRoad.mpr hv)]
  dsimp only
  rw [vertexRemoveEdgeToVertexUndirect_eq (live_linkRoad.mpr (live_linkRoad.mpr hu))
    (live_linkRoad.mpr (live_linkRoad.mpr hv))]
  rfl

/-- Between two vertices of the graph `edge_division` does one thing or the other. -/
theorem edgeDivision_cases (env : MapEnv K) (hu : g.Live u) (hv : g.Live v) :
    ∃ f t, g.heap.cell u = some f ∧ g.heap.cell v = some t ∧
      ((¬ distance env g u v > maxDist ∧ edgeDivision env g u v = .ok g) ∨
        (distance env g u v > maxDist ∧
          edgeDivision env g u v = .ok (divide g u v (stopVertex env f t)))) := by
  obtain ⟨f, hf⟩ := Heap.live_iff.mp hu
  obtain ⟨t, ht⟩ := Heap.live_iff.mp hv
  refine ⟨f, t, hf, ht, ?_⟩
  by_cases h : distance env g u v > maxDist
  · exact .inr ⟨h, edgeDivision_long hf ht h⟩
  · exact .inl ⟨h, edgeDivision_short hf ht h⟩

/-- A call of `edge_division` that returns has read both ends. -/
theorem edgeDivision_eq_ok (hok : edgeDivision env g u v = .ok g') :
    ∃ f t, g.heap.cell u = some f ∧ g.heap.cell v = some t ∧
      ((¬ distance env g u v > maxDist ∧ g' = g) ∨
        (distance env g u v > maxDist ∧ g' = divide g u v (stopVertex env f t))) := by
  obtain ⟨f, hf, hrest⟩ := bind_eq_ok.mp hok
  obtain ⟨t, ht, -⟩ := bind_eq_ok.mp hrest
  have hf := Heap.deref_eq_ok.mp hf
  have ht := Heap.deref_eq_ok.mp ht
  refine ⟨f, t, hf, ht, ?_⟩
  by_cases h : distance env g u v > maxDist
  · exact .inr ⟨h, Except.ok.inj (hok.symm.trans (edgeDivision_long hf ht h))⟩
  · exact .inl ⟨h, Except.ok.inj (hok.symm.trans (edgeDivision_short hf ht h))⟩

/-- The outer loop is past the last vertex, or it divides the edges of the next one. -/
theorem divideFrom_succ_eq_ok {fuel i : Nat} (hok : divideFrom env (fuel + 1) i g = .ok g') :
    (g.vertices.nodes[i]? = none ∧ g' = g) ∨
      ∃ w g₁, g.vertices.nodes[i]? = some w ∧ divideEdges env g w (g.edgesOf w) = .ok g₁ ∧
        divideFrom env fuel (i + 1) g₁ = .ok g' := by
  rw [divideFrom] at hok
  cases hi : g.vertices.nodes[i]? with
  | none =>
    rw [hi] at hok
    exact .inl ⟨rfl, (Except.ok.inj hok).symm⟩
  | some w =>
    rw [hi] at hok
    obtain ⟨vertex, hderef, hok⟩ := bind_eq_ok.mp hok
    obtain ⟨g₁, hedges, hok⟩ := bind_eq_ok.mp hok
    rw [← edgesOf_of_cell (Heap.deref_eq_ok.mp hderef)] at hedges
    exact .inr ⟨w, g₁, rfl, hedges, hok⟩

end Step

end MapRelay.NS3
