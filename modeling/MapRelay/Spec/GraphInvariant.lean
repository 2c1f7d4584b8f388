import MapRelay.ForStd.Run
import MapRelay.Spec.EdgeDivision

/-!
# The road graph stays symmetric

Every graph built by the NS-3 graph operations is undirected: as many edges lead from
`u` to `v` on a road as from `v` to `u`, and the stored degrees are the true ones.

Removal unlinks only the first matching edge of either list, and with parallel edges of
different roads the two edges it unlinks could belong to different roads. That they do
not is the stronger invariant `Links.Symm`: the edges between `u` and `v` are mirrored
in the same order in both lists.
-/

namespace MapRelay

open ForStd MapRelay.Graph

variable {A : Type} {g : Graph A}

namespace Graph

/-! ## Well-formedness of the updated graphs -/

/-- An edge between vertices of the graph keeps it well-formed. -/
theorem WF.addEdge (h : g.WF) {src dst : Addr} (hs : src ∈ g.vertices.nodes)
    (hd : dst ∈ g.vertices.nodes) (r : Int32) : (g.addEdge src dst r).WF where
  nodup := h.nodup
  live_iff p := live_addEdge.trans (h.live_iff p)
  closed p e he := by
    rw [edgesOf_addEdge ((h.live_iff src).mpr hs)] at he
    split at he
    · rcases List.mem_cons.mp he with rfl | he
      · exact hd
      · exact h.closed p e he
    · exact h.closed p e he

/-- The removal of an edge keeps the graph well-formed. -/
theorem WF.removeEdge (h : g.WF) (src dst : Addr) : (g.removeEdge src dst).WF where
  nodup := by simpa using h.nodup
  live_iff p := by simpa using h.live_iff p
  closed p e he := by
    rw [edgesOf_removeEdge] at he
    rw [vertices_removeEdge]
    split at he
    · exact h.closed p e (List.mem_of_mem_eraseP he)
    · exact h.closed p e he

/-- A road between vertices of the graph keeps it well-formed. -/
theorem WF.linkRoad (h : g.WF) {u v : Addr} (hu : u ∈ g.vertices.nodes)
    (hv : v ∈ g.vertices.nodes) (r : Int32) : (g.linkRoad u v r).WF :=
  (h.addEdge hu hv r).addEdge hv hu r

/-- The exclusive link keeps the graph well-formed. -/
theorem WF.relinkRoad (h : g.WF) {u v : Addr} (hu : u ∈ g.vertices.nodes)
    (hv : v ∈ g.vertices.nodes) (r : Int32) : (g.relinkRoad u v r).WF := by
  have h' : (g.unlinkRoad u v).WF := (h.removeEdge u v).removeEdge v u
  rw [← vertices_unlinkRoad u v] at hu hv
  exact h'.linkRoad hu hv r

/-- The address of the next vertex is not in use. -/
theorem WF.next_not_mem (h : g.WF) : g.heap.next ∉ g.vertices.nodes :=
  fun hmem => g.heap.not_live_next ((h.live_iff _).mpr hmem)

/-- Roads lead from vertices of the graph to vertices of the graph. -/
theorem WF.mem_of_roads (h : g.WF) {u v : Addr} (huv : g.roads u v ≠ []) :
    u ∈ g.vertices.nodes ∧ v ∈ g.vertices.nodes := by
  obtain ⟨r, hr⟩ := List.exists_mem_of_ne_nil _ huv
  have he := mem_roads.mp hr
  refine ⟨(h.live_iff u).mp ?_, h.closed u _ he⟩
  by_contra hdead
  rw [edgesOf_of_not_live hdead] at he
  cases he

/-- No roads lead from a vertex that is not there yet. -/
theorem WF.roads_next (h : g.WF) (v : Addr) : g.roads g.heap.next v = [] := by
  by_contra hroads
  exact h.next_not_mem (h.mem_of_roads hroads).1

/-- A new vertex without edges keeps the graph well-formed. -/
theorem WF.addVertex (h : g.WF) {v : Vertex A} (hv : v.edges.nodes = []) :
    (g.addVertex v).WF where
  nodup := by
    show (g.vertices.nodes ++ [g.heap.next]).Nodup
    rw [← List.concat_eq_append]
    exact .concat h.next_not_mem h.nodup
  live_iff p := by
    rw [live_addVertex, h.live_iff]
    simp [Graph.addVertex, or_comm]
  closed p e he := by
    rw [edgesOf_addVertex, hv] at he
    split at he
    · simp at he
    · simp [Graph.addVertex, h.closed p e he]

/-- A road that was removed lies between two vertices of the graph: where `v` is none, no
    edge leads to it, and walking its edge list fails. -/
theorem live_of_removeEdgeUndirect_ok {g' : Graph A} (h : g.WF) {u v : Addr}
    (hok : vertexRemoveEdgeToVertexUndirect g u v = .ok g') : g.Live u ∧ g.Live v := by
  obtain ⟨g₁, h₁, h₂⟩ := bind_eq_ok.mp hok
  have hu := live_of_removeEdge_ok h₁
  refine ⟨hu, ?_⟩
  by_contra hv
  -- No edge leads to a dead vertex, so that the first half changes nothing
  have hnone : ¬ (g.edgesOf u).any (·.vertex == v) = true := by
    intro hany
    obtain ⟨e, he, hev⟩ := List.any_eq_true.mp hany
    exact hv ((h.live_iff v).mpr (eq_of_beq hev ▸ h.closed u e he))
  obtain ⟨w, hw, hderef⟩ := Heap.deref_of_live hu
  rw [edgesOf_of_cell hw] at hnone
  simp only [vertexRemoveEdgeToVertex, hderef, bind, Except.bind, if_neg hnone] at h₁
  cases h₁
  -- The second half reads the edge list of `v`
  exact hv (live_of_removeEdge_ok h₂)

/-! ## Degrees

The stored degrees are compared with sums over the vertex list, taken as a finite set
so that a change at one vertex changes one summand. -/

/-- The vertices of the graph as a finite set. -/
def vertexSet (g : Graph A) : Finset Addr := g.vertices.nodes.toFinset

/-- The set has the vertices of the list. -/
@[simp] theorem mem_vertexSet {p : Addr} : p ∈ g.vertexSet ↔ p ∈ g.vertices.nodes := by
  simp [vertexSet]

/-- The stored degrees agree with the edge lists. -/
structure DegreesOk (g : Graph A) : Prop where
  wf : g.WF
  outdegree : ∀ p ∈ g.vertices.nodes, g.outdegreeOf p = (g.edgesOf p).length
  indegree : ∀ p ∈ g.vertices.nodes,
    g.indegreeOf p = ∑ q ∈ g.vertexSet, ((g.roads q p).length : Int)

/-- Counting the edges of a list by target counts all of them. -/
private theorem length_eq_sum_filter (s : Finset Addr) (es : List Edge)
    (hes : ∀ e ∈ es, e.vertex ∈ s) :
    (es.length : Int) = ∑ q ∈ s, ((es.filter (·.vertex == q)).length : Int) := by
  induction es with
  | nil => simp
  | cons e es ih =>
    -- The new edge counts for its own target only
    have hsplit : ∀ q, (((e :: es).filter (·.vertex == q)).length : Int) =
        ((es.filter (·.vertex == q)).length : Int) + if e.vertex = q then 1 else 0 := by
      intro q
      by_cases hq : e.vertex = q <;> simp [hq]
    rw [Finset.sum_congr rfl fun q _ => hsplit q, Finset.sum_add_distrib, Finset.sum_ite_eq,
      if_pos (hes e List.mem_cons_self), ← ih fun e' he' => hes e' (List.mem_cons_of_mem _ he')]
    simp

/-- The edges of a vertex are those to any of the vertices. -/
private theorem WF.length_edgesOf (h : g.WF) (p : Addr) :
    ((g.edgesOf p).length : Int) = ∑ q ∈ g.vertexSet, ((g.roads p q).length : Int) := by
  rw [length_eq_sum_filter g.vertexSet _ fun e he => mem_vertexSet.mpr (h.closed p e he)]
  simp [roads]

/-- A new edge counts up the outdegree of its start. -/
theorem outdegreeOf_addEdge {src dst p : Addr} (hp : g.Live p) (r : Int32) :
    (g.addEdge src dst r).outdegreeOf p = g.outdegreeOf p + if p = src then 1 else 0 := by
  obtain ⟨v, hv⟩ := Heap.live_iff.mp hp
  simp only [outdegreeOf, addEdge, cell_mapVertices, hv, Option.map_some, Option.getD_some]
  split <;> simp

/-- A new edge counts up the indegree of its end. -/
theorem indegreeOf_addEdge {src dst p : Addr} (hp : g.Live p) (r : Int32) :
    (g.addEdge src dst r).indegreeOf p = g.indegreeOf p + if p = dst then 1 else 0 := by
  obtain ⟨v, hv⟩ := Heap.live_iff.mp hp
  simp only [indegreeOf, addEdge, cell_mapVertices, hv, Option.map_some, Option.getD_some]
  split <;> simp

/-- The degrees stay true when an edge is added. -/
theorem DegreesOk.addEdge (h : g.DegreesOk) {src dst : Addr} (hs : src ∈ g.vertices.nodes)
    (hd : dst ∈ g.vertices.nodes) (r : Int32) : (g.addEdge src dst r).DegreesOk where
  wf := h.wf.addEdge hs hd r
  outdegree p hp := by
    rw [vertices_addEdge] at hp
    rw [outdegreeOf_addEdge ((h.wf.live_iff p).mpr hp), h.outdegree p hp,
      edgesOf_addEdge ((h.wf.live_iff src).mpr hs)]
    split <;> simp
  indegree p hp := by
    rw [vertices_addEdge] at hp
    -- Of the summands only that of `src` can change, and it does if `p` is `dst`
    have hlen : ∀ q, (((g.addEdge src dst r).roads q p).length : Int) =
        ((g.roads q p).length : Int) + if q = src then (if p = dst then 1 else 0) else 0 := by
      intro q
      rw [roads_addEdge ((h.wf.live_iff src).mpr hs), Links.push]
      by_cases hq : q = src <;> by_cases hpd : p = dst <;> simp [hq, hpd]
    rw [indegreeOf_addEdge ((h.wf.live_iff p).mpr hp), h.indegree p hp,
      show (g.addEdge src dst r).vertexSet = g.vertexSet from rfl,
      Finset.sum_congr rfl fun q _ => hlen q, Finset.sum_add_distrib, Finset.sum_ite_eq',
      if_pos (mem_vertexSet.mpr hs)]

/-- `removeEdge` with a matching edge, spelled out for the degrees. -/
theorem degreesOf_removeEdge {src dst p : Addr} (hp : g.Live p)
    (hany : (g.edgesOf src).any (·.vertex == dst)) :
    (g.removeEdge src dst).outdegreeOf p = g.outdegreeOf p - (if p = src then 1 else 0) ∧
      (g.removeEdge src dst).indegreeOf p = g.indegreeOf p - (if p = dst then 1 else 0) := by
  obtain ⟨v, hv⟩ := Heap.live_iff.mp hp
  simp only [outdegreeOf, indegreeOf, Graph.removeEdge, if_pos hany, cell_mapVertices, hv,
    Option.map_some, Option.getD_some]
  constructor <;> split <;> simp

/-- The search for an edge to `dst` succeeds exactly if there is a road to it. -/
theorem any_vertex_iff {src dst : Addr} :
    (g.edgesOf src).any (·.vertex == dst) = true ↔ g.roads src dst ≠ [] := by
  simp [roads]

/-- Removing an edge that is there makes the row one shorter. -/
theorem length_eraseP_vertex {src dst : Addr} (hany : (g.edgesOf src).any (·.vertex == dst)) :
    (((g.edgesOf src).eraseP (·.vertex == dst)).length : Int) = (g.edgesOf src).length - 1 := by
  obtain ⟨e, he, hed⟩ := List.any_eq_true.mp hany
  have hpos := List.length_pos_of_mem he
  rw [List.length_eraseP_of_mem he hed]
  omega

/-- The degrees stay true when an edge is removed, and also if there is none. -/
theorem DegreesOk.removeEdge (h : g.DegreesOk) {src : Addr} (hs : src ∈ g.vertices.nodes)
    (dst : Addr) : (g.removeEdge src dst).DegreesOk := by
  by_cases hany : (g.edgesOf src).any (·.vertex == dst)
  case neg =>
    -- Without a matching edge nothing happens
    rw [Graph.removeEdge, if_neg hany]
    exact h
  refine ⟨h.wf.removeEdge src dst, fun p hp => ?_, fun p hp => ?_⟩ <;>
    rw [vertices_removeEdge] at hp
  · rw [(degreesOf_removeEdge ((h.wf.live_iff p).mpr hp) hany).1, h.outdegree p hp,
      edgesOf_removeEdge]
    by_cases hps : p = src
    · subst hps
      rw [if_pos rfl, if_pos rfl, length_eraseP_vertex hany]
    · simp [hps]
  · have hlen : ∀ q, (((g.removeEdge src dst).roads q p).length : Int) =
        ((g.roads q p).length : Int) - if q = src then (if p = dst then 1 else 0) else 0 := by
      intro q
      rw [roads_removeEdge, Links.pop]
      by_cases hq : q = src
      · by_cases hpd : p = dst
        · have hne := any_vertex_iff.mp hany
          have hpos := List.length_pos_iff.mpr hne
          subst hq hpd
          simp only [and_self, if_true, List.length_tail]
          omega
        · simp [hpd]
      · simp [hq]
    have hset : (g.removeEdge src dst).vertexSet = g.vertexSet := by
      simp only [vertexSet, vertices_removeEdge]
    rw [(degreesOf_removeEdge ((h.wf.live_iff p).mpr hp) hany).2, h.indegree p hp, hset,
      Finset.sum_congr rfl fun q _ => hlen q, Finset.sum_sub_distrib, Finset.sum_ite_eq',
      if_pos (mem_vertexSet.mpr hs)]

/-- A new vertex leaves the others as they are. -/
theorem cell_addVertex_of_live {v : Vertex A} {p : Addr} (hp : g.Live p) :
    (g.addVertex v).heap.cell p = g.heap.cell p := by
  have hne : p ≠ g.heap.next := fun he => g.heap.not_live_next (he ▸ hp)
  simp [Graph.addVertex, Heap.cell_alloc, hne]

/-- The degrees stay true when a vertex without edges is added. -/
theorem DegreesOk.addVertex (h : g.DegreesOk) {v : Vertex A} (hv : v.edges.nodes = [])
    (hin : v.indegree = 0) (hout : v.outdegree = 0) : (g.addVertex v).DegreesOk := by
  have hnew : g.heap.next ∉ g.vertexSet := fun hmem => h.wf.next_not_mem (mem_vertexSet.mp hmem)
  have hset : (g.addVertex v).vertexSet = insert g.heap.next g.vertexSet := by
    ext p
    simp [vertexSet, Graph.addVertex]
  have hcell : (g.addVertex v).heap.cell g.heap.next = some v := if_pos rfl
  -- No road leads from the new vertex or to it
  have hlone : ∀ p, g.roads g.heap.next p = [] := by
    intro p
    by_contra hne
    exact h.wf.next_not_mem (h.wf.mem_of_roads hne).1
  have hlone' : ∀ q ∈ g.vertexSet, g.roads q g.heap.next = [] := by
    intro q _
    by_contra hne
    exact h.wf.next_not_mem (h.wf.mem_of_roads hne).2
  refine ⟨h.wf.addVertex hv, fun p hp => ?_, fun p hp => ?_⟩ <;>
    rcases List.mem_append.mp hp with hp | hp
  · have hne : p ≠ g.heap.next := fun he => hnew (mem_vertexSet.mpr (he ▸ hp))
    rw [edgesOf_addVertex, if_neg hne, outdegreeOf,
      cell_addVertex_of_live ((h.wf.live_iff p).mpr hp)]
    exact h.outdegree p hp
  · rw [List.mem_singleton.mp hp]
    simp [outdegreeOf, hcell, hout, edgesOf_addVertex, hv]
  · rw [indegreeOf, cell_addVertex_of_live ((h.wf.live_iff p).mpr hp), hset,
      Finset.sum_insert hnew, roads_addVertex hv, hlone p, ← indegreeOf, h.indegree p hp]
    simp
  · rw [List.mem_singleton.mp hp, hset, Finset.sum_insert hnew, roads_addVertex hv, hlone,
      Finset.sum_congr rfl fun q hq => by rw [hlone' q hq]]
    simp [indegreeOf, hcell, hin]

/-- The degrees stay true when a road is added. -/
theorem DegreesOk.linkRoad (h : g.DegreesOk) {u v : Addr} (hu : u ∈ g.vertices.nodes)
    (hv : v ∈ g.vertices.nodes) (r : Int32) : (g.linkRoad u v r).DegreesOk :=
  (h.addEdge hu hv r).addEdge hv hu r

/-- The degrees stay true when a road is removed. -/
theorem DegreesOk.unlinkRoad (h : g.DegreesOk) {u v : Addr} (hu : u ∈ g.vertices.nodes)
    (hv : v ∈ g.vertices.nodes) : (g.unlinkRoad u v).DegreesOk :=
  (h.removeEdge hu v).removeEdge (by simpa using hv) u

/-- The invariant of the road graph: true degrees, and mirrored edges in the same order. -/
structure Mirrored (g : Graph A) : Prop where
  degrees : g.DegreesOk
  symm : g.roads.Symm

/-- A road goes into both rows. -/
theorem Mirrored.linkRoad (h : g.Mirrored) {u v : Addr} (hu : u ∈ g.vertices.nodes)
    (hv : v ∈ g.vertices.nodes) (r : Int32) : (g.linkRoad u v r).Mirrored where
  degrees := h.degrees.linkRoad hu hv r
  symm := by
    rw [roads_linkRoad ((h.degrees.wf.live_iff u).mpr hu) ((h.degrees.wf.live_iff v).mpr hv)]
    exact h.symm.link u v r

/-- Unlinking takes the first edge out of both rows. -/
theorem Mirrored.unlinkRoad (h : g.Mirrored) {u v : Addr} (hu : u ∈ g.vertices.nodes)
    (hv : v ∈ g.vertices.nodes) : (g.unlinkRoad u v).Mirrored where
  degrees := h.degrees.unlinkRoad hu hv
  symm := by
    rw [roads_unlinkRoad]
    exact h.symm.unlink u v

/-- A vertex without edges has nothing to mirror. -/
theorem Mirrored.addVertex (h : g.Mirrored) {v : Vertex A} (hv : v.edges.nodes = [])
    (hin : v.indegree = 0) (hout : v.outdegree = 0) : (g.addVertex v).Mirrored where
  degrees := h.degrees.addVertex hv hin hout
  symm := by
    rw [roads_addVertex hv]
    exact h.symm

/-- The empty graph has the invariant. -/
theorem Mirrored.empty : (graphCreate : Graph A).Mirrored where
  degrees :=
    { wf := ⟨List.nodup_nil, fun p => by simp [graphCreate, Heap.Live, Heap.empty],
        fun p e he => by simp [graphCreate, edgesOf, Heap.empty] at he⟩
      outdegree := fun p hp => by simp [graphCreate] at hp
      indegree := fun p hp => by simp [graphCreate] at hp }
  symm := fun u v => rfl

/-! ## What the invariant says -/

/-- As many edges lead from `u` to `v` on a road as back. -/
private theorem Mirrored.count_eq (h : g.Mirrored) (u v : Addr) (r : Int32) :
    (g.edgesOf u).count ⟨v, r⟩ = (g.edgesOf v).count ⟨u, r⟩ := by
  have hcount : ∀ p q, (g.edgesOf p).count ⟨q, r⟩ = (g.roads p q).count r := by
    intro p q
    simp only [roads, List.count, List.countP_map, List.countP_filter]
    refine List.countP_congr fun e _ => ?_
    cases e
    simp [and_comm]
  rw [hcount, hcount, h.symm]

/-- The stored `indegree` counts the edges of the graph that point at the vertex. -/
private theorem DegreesOk.indegree_eq_count (h : g.DegreesOk) {p : Addr}
    (hp : p ∈ g.vertices.nodes) :
    g.indegreeOf p =
      ((g.vertices.nodes.map fun q => (g.edgesOf q).countP (·.vertex == p)).sum : Nat) := by
  rw [h.indegree p hp, vertexSet, List.sum_toFinset _ h.wf.nodup]
  simp [roads, List.countP_eq_length_filter, Function.comp_def]

/-- In a mirrored graph every vertex has as many edges in as out. -/
private theorem Mirrored.indegree_eq_outdegree (h : g.Mirrored) {p : Addr}
    (hp : p ∈ g.vertices.nodes) : g.indegreeOf p = g.outdegreeOf p := by
  rw [h.degrees.indegree p hp, h.degrees.outdegree p hp, h.degrees.wf.length_edgesOf]
  exact Finset.sum_congr rfl fun q _ => by rw [h.symm q p]

/-- With the invariant `graph_is_balanced` finds nothing wrong. -/
theorem Mirrored.graphIsBalanced (h : g.Mirrored) : graphIsBalanced g = .ok 1 := by
  -- The loop sees a suffix of the vertex list
  suffices hgo : ∀ ns : List Addr, (∀ n ∈ ns, n ∈ g.vertices.nodes) →
      graphIsBalanced.go g ns = .ok 1 from hgo _ fun _ hn => hn
  intro ns hns
  induction ns with
  | nil => rfl
  | cons n rest ih =>
    have hn := hns n List.mem_cons_self
    obtain ⟨v, hv, hderef⟩ := Heap.deref_of_live ((h.degrees.wf.live_iff n).mpr hn)
    have hbal : v.indegree = v.outdegree := by
      simpa [indegreeOf, outdegreeOf, hv] using h.indegree_eq_outdegree hn
    simp only [graphIsBalanced.go, hderef, bind, Except.bind, hbal, ne_eq, not_true_eq_false,
      if_false]
    exact ih fun m hm => hns m (List.mem_cons_of_mem _ hm)

end Graph

/-! ## Runs of the graph operations -/

namespace NS3

/-- The operations that build and cut the road graph. -/
inductive GraphOp (K : Type) where
  | addVertex (idStr : String) (x y : K) (geoHash : UInt64) (isIntersection : Bool)
  | addEdge (u v : Addr) (roadId : Int32)
  | addEdgeExclusive (u v : Addr) (roadId : Int32)
  | removeEdge (u v : Addr)
  | divide (u v : Addr)

variable {K : Type} [Field K] [LinearOrder K] [FloorRing K]

/-- One operation. A vertex is created and then put into the graph. -/
def GraphOp.apply (env : MapEnv K) (g : Graph (Site K)) :
    GraphOp K → Except Fault (Graph (Site K))
  | .addVertex idStr x y geoHash isIntersection =>
    let (g, vertex) := g.newVertex (vertexCreate idStr geoHash ⟨x, y, isIntersection⟩)
    .ok (graphAddVertex g vertex)
  | .addEdge u v roadId => vertexAddEdgeToVertexUndirect g u v roadId
  | .addEdgeExclusive u v roadId => vertexAddEdgeToVertexUndirectExclusive g u v roadId
  | .removeEdge u v => vertexRemoveEdgeToVertexUndirect g u v
  | .divide u v => edgeDivision env g u v

/-- A step of a run that builds a road graph: an operation on vertices of the graph. -/
def GraphStep (env : MapEnv K) (g : Graph (Site K)) (op : GraphOp K) (g' : Graph (Site K)) :
    Prop := op.apply env g = .ok g'

variable {env : MapEnv K} {g g' : Graph (Site K)}

/-- A cut keeps the invariant. -/
theorem mirrored_divide (h : g.Mirrored) {u v : Addr} (hu : u ∈ g.vertices.nodes)
    (hv : v ∈ g.vertices.nodes) (f t : Vertex (Site K)) :
    (divide g u v (stopVertex env f t)).Mirrored := by
  have h₁ : (g.addVertex (stopVertex env f t)).Mirrored := h.addVertex rfl rfl rfl
  have hu₁ : u ∈ (g.addVertex (stopVertex env f t)).vertices.nodes := List.mem_append_left _ hu
  have hv₁ : v ∈ (g.addVertex (stopVertex env f t)).vertices.nodes := List.mem_append_left _ hv
  have hn₁ : g.heap.next ∈ (g.addVertex (stopVertex env f t)).vertices.nodes :=
    List.mem_append_right _ List.mem_cons_self
  exact ((h₁.linkRoad hu₁ hn₁ _).linkRoad hn₁ hv₁ _).unlinkRoad hu₁ hv₁

/-- An operation that succeeds was applied to vertices of the graph, and keeps the
    invariant. -/
theorem GraphStep.mirrored {op : GraphOp K} (h : g.Mirrored) (hstep : GraphStep env g op g') :
    g'.Mirrored := by
  have hmem := fun p => (h.degrees.wf.live_iff p).mp
  cases op with
  | addVertex idStr x y geoHash isIntersection =>
    cases hstep
    exact h.addVertex rfl rfl rfl
  | addEdge u v r =>
    obtain ⟨g₁, h₁, -⟩ := bind_eq_ok.mp hstep
    obtain ⟨hu, hv⟩ := live_of_addEdge_ok h₁
    have heq := (vertexAddEdgeToVertexUndirect_eq hu hv r).symm.trans hstep
    cases heq
    exact h.linkRoad (hmem u hu) (hmem v hv) r
  | addEdgeExclusive u v r =>
    -- The removal comes first, and it fails on a bad pointer
    obtain ⟨g₁, h₁, -⟩ := bind_eq_ok.mp hstep
    obtain ⟨hu, hv⟩ := live_of_removeEdgeUndirect_ok h.degrees.wf h₁
    have heq := (vertexAddEdgeToVertexUndirectExclusive_eq hu hv r).symm.trans hstep
    cases heq
    exact (h.unlinkRoad (hmem u hu) (hmem v hv)).linkRoad (by simpa using hmem u hu)
      (by simpa using hmem v hv) r
  | removeEdge u v =>
    obtain ⟨hu, hv⟩ := live_of_removeEdgeUndirect_ok h.degrees.wf hstep
    have heq := (vertexRemoveEdgeToVertexUndirect_eq hu hv).symm.trans hstep
    cases heq
    exact h.unlinkRoad (hmem u hu) (hmem v hv)
  | divide u v =>
    -- Both ends are read before the distance is known
    obtain ⟨f, hf, h₁⟩ := bind_eq_ok.mp hstep
    obtain ⟨t, ht, -⟩ := bind_eq_ok.mp h₁
    have hu := Heap.live_iff.mpr ⟨f, Heap.deref_eq_ok.mp hf⟩
    have hv := Heap.live_iff.mpr ⟨t, Heap.deref_eq_ok.mp ht⟩
    obtain ⟨f, t, -, -, ⟨-, heq⟩ | ⟨-, heq⟩⟩ := edgeDivision_cases env hu hv
    · cases heq.symm.trans hstep
      exact h
    · cases heq.symm.trans hstep
      exact mirrored_divide h (hmem u hu) (hmem v hv) f t

/-- Every graph of a run has the invariant. -/
theorem mirrored_of_run {ops : List (GraphOp K)} (h : Run (GraphStep env) graphCreate ops g) :
    g.Mirrored :=
  h.invariant Mirrored.empty fun _ _ _ hg hstep => hstep.mirrored hg

/-- Road graphs are undirected: whatever operations built the graph, the edges of either
    direction match road by road, the stored degrees are the true ones, and
    `graph_is_balanced` says so. -/
theorem run_symmetric (env : MapEnv K) {ops : List (GraphOp K)} {g : Graph (Site K)}
    (h : Run (GraphStep env) graphCreate ops g) :
    (∀ u v r, (g.edgesOf u).count ⟨v, r⟩ = (g.edgesOf v).count ⟨u, r⟩) ∧
      (∀ p ∈ g.vertices.nodes, g.outdegreeOf p = (g.edgesOf p).length ∧
        g.indegreeOf p =
          ((g.vertices.nodes.map fun q => (g.edgesOf q).countP (·.vertex == p)).sum : Nat)) ∧
      MapRelay.graphIsBalanced g = .ok 1 := by
  have hg := mirrored_of_run h
  exact ⟨hg.count_eq, fun p hp => ⟨hg.degrees.outdegree p hp, hg.degrees.indegree_eq_count hp⟩,
    hg.graphIsBalanced⟩

/-- Two vertices a hundred apart, linked by road 7, and the link cut in the middle. -/
theorem run_symmetric_divided :
    ∃ g, Run (GraphStep gridEnv) graphCreate [.addVertex "a" 0 0 1 true,
        .addVertex "b" 100 0 2 true, .addEdge 1 2 7, .divide 1 2] g ∧
      MapRelay.graphIsBalanced g = .ok 1 := by
  let a : Vertex (Site ℚ) := vertexCreate "a" 1 ⟨0, 0, true⟩
  let b : Vertex (Site ℚ) := vertexCreate "b" 2 ⟨100, 0, true⟩
  let g₂ : Graph (Site ℚ) := (graphCreate.addVertex a).addVertex b
  have h₁ : g₂.Live 1 := rfl
  have h₂ : g₂.Live 2 := rfl
  have hdist : distance gridEnv (g₂.linkRoad 1 2 7) 1 2 > maxDist := by
    show gridEnv.getDistance 0 0 0 100 > maxDist
    norm_num [gridEnv, maxDist]
  have hrun : Run (GraphStep gridEnv) graphCreate [.addVertex "a" 0 0 1 true,
      .addVertex "b" 100 0 2 true, .addEdge 1 2 7, .divide 1 2]
      (divide (g₂.linkRoad 1 2 7) 1 2 (stopVertex gridEnv _ _)) :=
    (((Run.nil.snoc rfl).snoc rfl).snoc (vertexAddEdgeToVertexUndirect_eq h₁ h₂ 7)).snoc
      (edgeDivision_long rfl rfl hdist)
  exact ⟨_, hrun, (run_symmetric gridEnv hrun).2.2⟩

end NS3

end MapRelay
