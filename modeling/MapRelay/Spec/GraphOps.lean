import Mathlib.Algebra.BigOperators.Group.Finset.Basic
import Mathlib.Algebra.BigOperators.Ring.Finset
import MapRelay.ForStd.Links
import MapRelay.Native.Graph

/-!
# What the graph operations do

On live vertices the pointer-chasing operations of `graph.cc` never fault, and
each is a total function on graphs (`addEdge`, `removeEdge`). Read through
`Graph.roads`, which forgets everything but the road ids between two vertices,
they are the operations `push` and `pop` of `Links`.
-/

namespace MapRelay

open ForStd

variable {A : Type}

namespace Graph

/-- The vertex pointer `p` is valid. -/
abbrev Live (g : Graph A) (p : Addr) : Prop := g.heap.Live p

/-- The road ids of the edges from `u` to `v`, in the order of `u`'s list. -/
def roads (g : Graph A) : Links Addr Int32 := fun u v =>
  ((g.edgesOf u).filter (·.vertex == v)).map (·.roadId)

/-- The stored `outdegree` of the vertex at `p`. -/
def outdegreeOf (g : Graph A) (p : Addr) : Int := ((g.heap.cell p).map (·.outdegree)).getD 0

/-- The stored `indegree` of the vertex at `p`. -/
def indegreeOf (g : Graph A) (p : Addr) : Int := ((g.heap.cell p).map (·.indegree)).getD 0

/-- The id of the vertex at `p`. -/
def idOf (g : Graph A) (p : Addr) : Option String := (g.heap.cell p).map (·.idStr)

/-- What a vertex stores besides its edges and degrees. -/
def dataOf (g : Graph A) (p : Addr) : Option (String × UInt64 × A) :=
  (g.heap.cell p).map fun v => (v.idStr, v.geoHash, v.attr)

/-- Some vertex of the graph has the id. -/
def Known (g : Graph A) (idStr : String) : Prop := ∃ p ∈ g.vertices.nodes, g.idOf p = some idStr

instance (g : Graph A) (idStr : String) : Decidable (Known g idStr) :=
  inferInstanceAs (Decidable (∃ p ∈ g.vertices.nodes, _))

/-- What `vertex_add_edge_to_vertex` does to a graph when both pointers are valid. -/
def addEdge (g : Graph A) (src dst : Addr) (r : Int32) : Graph A :=
  g.mapVertices fun p v =>
    { v with
      edges := if p = src then listAddData v.edges ⟨dst, r⟩ else v.edges
      indegree := if p = dst then v.indegree + 1 else v.indegree
      outdegree := if p = src then v.outdegree + 1 else v.outdegree }

/-- What `vertex_remove_edge_to_vertex` does when both pointers are valid. -/
def removeEdge (g : Graph A) (src dst : Addr) : Graph A :=
  if (g.edgesOf src).any (·.vertex == dst) then
    g.mapVertices fun p v =>
      { v with
        edges := if p = src then v.edges.unlinkFirst (·.vertex == dst) else v.edges
        indegree := if p = dst then v.indegree - 1 else v.indegree
        outdegree := if p = src then v.outdegree - 1 else v.outdegree }
  else g

/-- Both halves of an undirected edge. -/
def linkRoad (g : Graph A) (u v : Addr) (r : Int32) : Graph A := (g.addEdge u v r).addEdge v u r

/-- Unlink the first edge in either direction. -/
def unlinkRoad (g : Graph A) (u v : Addr) : Graph A := (g.removeEdge u v).removeEdge v u

/-- `graph_add_vertex` after `vertex_create`, NS-3 copy: the new vertex goes to the tail. -/
def addVertex (g : Graph A) (v : Vertex A) : Graph A :=
  ⟨(g.heap.alloc v).1, listAddDataTail g.vertices g.heap.next⟩

/-- Well-formed graphs: the vertex list names every live vertex once, and edges stay
    inside the graph. -/
structure WF (g : Graph A) : Prop where
  nodup : g.vertices.nodes.Nodup
  live_iff : ∀ p, g.Live p ↔ p ∈ g.vertices.nodes
  closed : ∀ p e, e ∈ g.edgesOf p → e.vertex ∈ g.vertices.nodes

variable {g : Graph A}

/-! ## Reading a mapped graph -/

/-- The vertex at `p` after a change of all vertices. -/
@[simp] theorem cell_mapVertices (f : Addr → Vertex A → Vertex A) (p : Addr) :
    (g.mapVertices f).heap.cell p = (g.heap.cell p).map (f p) := rfl

/-- A change of the vertices keeps the list of them. -/
@[simp] theorem vertices_mapVertices (f : Addr → Vertex A → Vertex A) :
    (g.mapVertices f).vertices = g.vertices := rfl

/-- It frees no vertex and allocates none. -/
@[simp] theorem live_mapVertices {f : Addr → Vertex A → Vertex A} {p : Addr} :
    (g.mapVertices f).Live p ↔ g.Live p := Heap.live_mapCells

/-- Two changes one after the other are one. -/
private theorem mapVertices_mapVertices (f f' : Addr → Vertex A → Vertex A) :
    (g.mapVertices f).mapVertices f' = g.mapVertices fun p v => f' p (f p v) := by
  simp only [mapVertices, Heap.mapCells_mapCells]

/-- Writing through a pointer to a live vertex changes that vertex alone. -/
theorem modify_of_live {p : Addr} (hp : g.Live p) (f : Vertex A → Vertex A) :
    g.modify p f = .ok (g.mapVertices fun q v => if q = p then f v else v) := by
  simp only [Graph.modify, Heap.modify_of_live hp]
  rfl

/-- The row of `p`, read from its vertex. -/
theorem edgesOf_of_cell {p : Addr} {v : Vertex A} (h : g.heap.cell p = some v) :
    g.edgesOf p = v.edges.nodes := by
  simp [edgesOf, h]

/-- Where there is no vertex there are no edges. -/
theorem edgesOf_of_not_live {p : Addr} (h : ¬ g.Live p) : g.edgesOf p = [] := by
  have hnone : g.heap.cell p = none := by simpa [Heap.Live] using h
  simp [edgesOf, hnone]

/-- What a change of the vertices does to the row of `p`. -/
private theorem edgesOf_mapVertices {f : Addr → Vertex A → Vertex A} {p : Addr}
    {F : List Edge → List Edge} (hnil : F [] = [])
    (h : ∀ v, (f p v).edges.nodes = F v.edges.nodes) :
    (g.mapVertices f).edgesOf p = F (g.edgesOf p) := by
  unfold edgesOf
  rw [cell_mapVertices]
  cases g.heap.cell p with
  | none => simp [hnil]
  | some v => simp [h]

/-- An edge is a road id of its pair of vertices. -/
theorem mem_roads {u v : Addr} {r : Int32} : r ∈ g.roads u v ↔ ⟨v, r⟩ ∈ g.edgesOf u := by
  simp only [roads, List.mem_map, List.mem_filter, beq_iff_eq]
  constructor
  · rintro ⟨⟨w, s⟩, ⟨he, rfl⟩, rfl⟩
    exact he
  · intro he
    exact ⟨⟨v, r⟩, ⟨he, rfl⟩, rfl⟩

/-! ## `addEdge` -/

/-- A new edge keeps the list of the vertices. -/
@[simp] theorem vertices_addEdge (src dst : Addr) (r : Int32) :
    (g.addEdge src dst r).vertices = g.vertices := rfl

/-- A new edge allocates no vertex. -/
@[simp] theorem live_addEdge {src dst p : Addr} {r : Int32} :
    (g.addEdge src dst r).Live p ↔ g.Live p := live_mapVertices

/-- `list_add_data` puts the new edge in front of the row of its start. -/
theorem edgesOf_addEdge {src : Addr} (hs : g.Live src) (dst : Addr) (r : Int32) (p : Addr) :
    (g.addEdge src dst r).edgesOf p =
      if p = src then ⟨dst, r⟩ :: g.edgesOf p else g.edgesOf p := by
  by_cases hp : p = src
  · subst hp
    obtain ⟨v, hv⟩ := Heap.live_iff.mp hs
    simp [edgesOf, addEdge, hv]
  · rw [if_neg hp]
    exact edgesOf_mapVertices (F := id) rfl fun v => by simp [hp]

/-- On the roads, a new edge is a push onto the row of its start. -/
theorem roads_addEdge {src : Addr} (hs : g.Live src) (dst : Addr) (r : Int32) :
    (g.addEdge src dst r).roads = g.roads.push src dst r := by
  funext u v
  simp only [roads, Links.push, edgesOf_addEdge hs]
  by_cases hu : u = src
  · by_cases hv : v = dst
    · simp [hu, hv]
    · simp [hu, hv, Ne.symm hv]
  · simp [hu]

/-! ## `removeEdge` -/

/-- A removal keeps the list of the vertices. -/
@[simp] theorem vertices_removeEdge (src dst : Addr) :
    (g.removeEdge src dst).vertices = g.vertices := by
  unfold removeEdge
  split <;> rfl

/-- A removal frees no vertex. -/
@[simp] theorem live_removeEdge {src dst p : Addr} :
    (g.removeEdge src dst).Live p ↔ g.Live p := by
  unfold removeEdge
  split
  · exact live_mapVertices
  · exact Iff.rfl

/-- A removal takes the first edge to `dst` out of the row of `src`. -/
theorem edgesOf_removeEdge (src dst p : Addr) :
    (g.removeEdge src dst).edgesOf p =
      if p = src then (g.edgesOf p).eraseP (·.vertex == dst) else g.edgesOf p := by
  unfold removeEdge
  split
  · by_cases hp : p = src
    · rw [if_pos hp]
      exact edgesOf_mapVertices rfl fun v => by simp [hp]
    · rw [if_neg hp]
      exact edgesOf_mapVertices (F := id) rfl fun v => by simp [hp]
  · -- Without a matching edge there is nothing to drop
    rename_i hany
    split
    · rename_i hp
      subst hp
      rw [List.eraseP_of_forall_not]
      simpa using hany
    · rfl

/-- Dropping the first edge to `d` drops the first of the edges to `d`. -/
theorem filter_eraseP_vertex (es : List Edge) (d v : Addr) :
    (es.eraseP (·.vertex == d)).filter (·.vertex == v) =
      if v = d then (es.filter (·.vertex == v)).tail else es.filter (·.vertex == v) := by
  induction es with
  | nil => simp
  | cons e es ih =>
    by_cases hd : e.vertex = d
    · -- The head goes: it is among the edges to `v` only if `v` is `d`
      by_cases hv : v = d
      · simp [hd, hv]
      · simp [hd, hv, Ne.symm hv]
    · by_cases hev : e.vertex = v
      · have hvd : v ≠ d := hev ▸ hd
        simp [hev, hvd, ih]
      · simp [hd, hev, ih]

/-- On the roads, a removal is a pop from the row of its start. -/
theorem roads_removeEdge (src dst : Addr) :
    (g.removeEdge src dst).roads = g.roads.pop src dst := by
  funext u v
  simp only [roads, Links.pop, edgesOf_removeEdge]
  by_cases hu : u = src
  · by_cases hv : v = dst
    · simp [hu, hv, filter_eraseP_vertex]
    · simp [hu, hv, filter_eraseP_vertex]
  · simp [hu]

/-! ## Undirected edges -/

/-- A road in both directions keeps the list of the vertices. -/
@[simp] theorem vertices_linkRoad (u v : Addr) (r : Int32) :
    (g.linkRoad u v r).vertices = g.vertices := rfl

/-- A road allocates no vertex. -/
@[simp] theorem live_linkRoad {u v p : Addr} {r : Int32} :
    (g.linkRoad u v r).Live p ↔ g.Live p := live_addEdge.trans live_addEdge

/-- On the roads, `linkRoad` is the undirected link. -/
theorem roads_linkRoad {u v : Addr} (hu : g.Live u) (hv : g.Live v) (r : Int32) :
    (g.linkRoad u v r).roads = g.roads.link u v r := by
  rw [linkRoad, roads_addEdge (live_addEdge.mpr hv), roads_addEdge hu, Links.link]

/-- Unlinking keeps the list of the vertices. -/
@[simp] theorem vertices_unlinkRoad (u v : Addr) : (g.unlinkRoad u v).vertices = g.vertices := by
  simp [unlinkRoad]

/-- Unlinking frees no vertex. -/
@[simp] theorem live_unlinkRoad {u v p : Addr} : (g.unlinkRoad u v).Live p ↔ g.Live p :=
  live_removeEdge.trans live_removeEdge

/-- On the roads, `unlinkRoad` is the undirected removal. -/
theorem roads_unlinkRoad (u v : Addr) : (g.unlinkRoad u v).roads = g.roads.unlink u v := by
  rw [unlinkRoad, roads_removeEdge, roads_removeEdge, Links.unlink]

/-- Replace the newest road between two vertices. -/
def relinkRoad (g : Graph A) (u v : Addr) (r : Int32) : Graph A := (g.unlinkRoad u v).linkRoad u v r

/-- The exclusive link keeps the list of the vertices. -/
@[simp] theorem vertices_relinkRoad (u v : Addr) (r : Int32) :
    (g.relinkRoad u v r).vertices = g.vertices := by
  simp [relinkRoad]

/-- The exclusive link allocates no vertex. -/
@[simp] theorem live_relinkRoad {u v p : Addr} {r : Int32} :
    (g.relinkRoad u v r).Live p ↔ g.Live p := live_linkRoad.trans live_unlinkRoad

/-- On the roads, the exclusive link removes the old road first. -/
theorem roads_relinkRoad {u v : Addr} (hu : g.Live u) (hv : g.Live v) (r : Int32) :
    (g.relinkRoad u v r).roads = g.roads.relink u v r := by
  rw [relinkRoad, roads_linkRoad (live_unlinkRoad.mpr hu) (live_unlinkRoad.mpr hv),
    roads_unlinkRoad, Links.relink]

/-! ## What roads leave alone -/

/-- A change that keeps id, geohash and attributes keeps the data of a vertex. -/
private theorem dataOf_mapVertices {f : Addr → Vertex A → Vertex A} {p : Addr}
    (h : ∀ v, ((f p v).idStr, (f p v).geoHash, (f p v).attr) = (v.idStr, v.geoHash, v.attr)) :
    (g.mapVertices f).dataOf p = g.dataOf p := by
  unfold dataOf
  rw [cell_mapVertices, Option.map_map]
  congr 1
  funext v
  exact h v

/-- Edges are no data of a vertex: adding one keeps it. -/
private theorem dataOf_addEdge (src dst p : Addr) (r : Int32) :
    (g.addEdge src dst r).dataOf p = g.dataOf p := dataOf_mapVertices fun _ => rfl

/-- Removing an edge keeps the data of each vertex. -/
private theorem dataOf_removeEdge (src dst p : Addr) :
    (g.removeEdge src dst).dataOf p = g.dataOf p := by
  unfold removeEdge
  split
  · exact dataOf_mapVertices fun _ => rfl
  · rfl

/-- A road in both directions keeps the data of each vertex. -/
@[simp] theorem dataOf_linkRoad (u v p : Addr) (r : Int32) :
    (g.linkRoad u v r).dataOf p = g.dataOf p := by
  rw [linkRoad, dataOf_addEdge, dataOf_addEdge]

/-- Unlinking keeps the data of each vertex. -/
@[simp] theorem dataOf_unlinkRoad (u v p : Addr) : (g.unlinkRoad u v).dataOf p = g.dataOf p := by
  rw [unlinkRoad, dataOf_removeEdge, dataOf_removeEdge]

/-- The exclusive link keeps the data of each vertex. -/
@[simp] theorem dataOf_relinkRoad (u v p : Addr) (r : Int32) :
    (g.relinkRoad u v r).dataOf p = g.dataOf p := by
  rw [relinkRoad, dataOf_linkRoad, dataOf_unlinkRoad]

/-- The id of a vertex is the first part of its data. -/
theorem idOf_eq (g : Graph A) (p : Addr) : g.idOf p = (g.dataOf p).map Prod.fst := by
  rw [idOf, dataOf, Option.map_map]
  rfl

/-! ## `addVertex` -/

/-- A new vertex has the data it was made with; the others keep theirs. -/
theorem dataOf_addVertex (v : Vertex A) (p : Addr) :
    (g.addVertex v).dataOf p =
      if p = g.heap.next then some (v.idStr, v.geoHash, v.attr) else g.dataOf p := by
  unfold dataOf addVertex
  rw [Heap.cell_alloc]
  split <;> rfl

/-- A new vertex is live from then on. -/
theorem live_addVertex {v : Vertex A} {p : Addr} :
    (g.addVertex v).Live p ↔ p = g.heap.next ∨ g.Live p := Heap.live_alloc

/-- A new vertex has the row it was made with; the others keep theirs. -/
theorem edgesOf_addVertex (v : Vertex A) (p : Addr) :
    (g.addVertex v).edgesOf p = if p = g.heap.next then v.edges.nodes else g.edgesOf p := by
  simp only [edgesOf, addVertex, Heap.cell_alloc]
  by_cases hp : p = g.heap.next <;> simp [hp]

/-- A vertex without edges adds no roads. -/
theorem roads_addVertex {v : Vertex A} (hv : v.edges.nodes = []) :
    (g.addVertex v).roads = g.roads := by
  funext p q
  simp only [roads, edgesOf_addVertex]
  split
  · -- At the address of the new vertex there were no edges before either
    rename_i hp
    rw [hv, hp, edgesOf_of_not_live g.heap.not_live_next]
  · rfl

end Graph

/-! ## The operations on valid pointers -/

open MapRelay.Graph

variable {g : Graph A} {src dst : Addr}

/-- Three writes through valid pointers are one pass over the vertices. -/
private theorem modify₃_of_live (hs : g.Live src) (hd : g.Live dst)
    (f₁ f₂ f₃ : Vertex A → Vertex A) :
    (do
      let g ← g.modify src f₁
      let g ← g.modify dst f₂
      g.modify src f₃) =
      .ok (g.mapVertices fun p v =>
        let v := if p = src then f₁ v else v
        let v := if p = dst then f₂ v else v
        if p = src then f₃ v else v) := by
  -- A write leaves the pointers valid for the next one
  rw [modify_of_live hs]
  dsimp only [bind, Except.bind]
  rw [modify_of_live (live_mapVertices.mpr hd)]
  dsimp only
  rw [modify_of_live (live_mapVertices.mpr (live_mapVertices.mpr hs)),
    mapVertices_mapVertices, mapVertices_mapVertices]

/-- On live vertices `vertex_add_edge_to_vertex` returns. -/
private theorem vertexAddEdgeToVertex_eq (hs : g.Live src) (hd : g.Live dst) (r : Int32) :
    vertexAddEdgeToVertex g src dst r = .ok (g.addEdge src dst r) := by
  rw [vertexAddEdgeToVertex, modify₃_of_live hs hd, addEdge]
  congr 2
  funext p v
  dsimp only
  split_ifs <;> rfl

/-- On live vertices `vertex_remove_edge_to_vertex` returns. -/
theorem vertexRemoveEdgeToVertex_eq (hs : g.Live src) (hd : g.Live dst) :
    vertexRemoveEdgeToVertex g src dst = .ok (g.removeEdge src dst) := by
  obtain ⟨v, hv, hderef⟩ := Heap.deref_of_live hs
  rw [vertexRemoveEdgeToVertex, removeEdge, edgesOf_of_cell hv, hderef]
  dsimp only [bind, Except.bind]
  split
  · refine (modify₃_of_live hs hd _ _ _).trans ?_
    congr 2
    funext p w
    dsimp only
    split_ifs <;> rfl
  · rfl

/-- On valid pointers `vertex_add_edge_to_vertex_undirect` adds both halves. -/
theorem vertexAddEdgeToVertexUndirect_eq (hs : g.Live src) (hd : g.Live dst) (r : Int32) :
    vertexAddEdgeToVertexUndirect g src dst r = .ok (g.linkRoad src dst r) := by
  simp only [vertexAddEdgeToVertexUndirect, vertexAddEdgeToVertex_eq hs hd, bind, Except.bind]
  exact vertexAddEdgeToVertex_eq (live_addEdge.mpr hd) (live_addEdge.mpr hs) r

/-- On valid pointers `vertex_remove_edge_to_vertex_undirect` drops both halves. -/
theorem vertexRemoveEdgeToVertexUndirect_eq (hs : g.Live src) (hd : g.Live dst) :
    vertexRemoveEdgeToVertexUndirect g src dst = .ok (g.unlinkRoad src dst) := by
  simp only [vertexRemoveEdgeToVertexUndirect, vertexRemoveEdgeToVertex_eq hs hd, bind,
    Except.bind]
  exact vertexRemoveEdgeToVertex_eq (live_removeEdge.mpr hd) (live_removeEdge.mpr hs)

/-- On live vertices the exclusive link returns. -/
theorem vertexAddEdgeToVertexUndirectExclusive_eq (hs : g.Live src) (hd : g.Live dst)
    (r : Int32) : vertexAddEdgeToVertexUndirectExclusive g src dst r =
      .ok (g.relinkRoad src dst r) := by
  simp only [vertexAddEdgeToVertexUndirectExclusive, vertexRemoveEdgeToVertexUndirect_eq hs hd,
    bind, Except.bind]
  exact vertexAddEdgeToVertexUndirect_eq (live_unlinkRoad.mpr hs) (live_unlinkRoad.mpr hd) r

/-- `find_road_id` is the newest road between the two vertices. -/
theorem findRoadId_eq (hs : g.Live src) (dst : Addr) :
    findRoadId g src dst = .ok ((g.roads src dst).head?.getD (-1)) := by
  obtain ⟨v, hv, hderef⟩ := Heap.deref_of_live hs
  simp only [findRoadId, hderef, bind, Except.bind, roads, edgesOf_of_cell hv, List.head?_map,
    List.head?_filter]
  cases v.edges.nodes.find? (·.vertex == dst) <;> rfl

/-- `getVertex` finds the first vertex with the id. -/
theorem getVertex_eq (hlive : ∀ p ∈ g.vertices.nodes, g.Live p) (idStr : String) :
    getVertex g idStr =
      .ok ((g.vertices.nodes.find? fun p => g.idOf p == some idStr).getD NULL) := by
  unfold getVertex
  generalize g.vertices.nodes = ns at hlive ⊢
  induction ns with
  | nil => rfl
  | cons p ps ih =>
    obtain ⟨v, hv, hderef⟩ := Heap.deref_of_live (hlive p List.mem_cons_self)
    have hid : (g.idOf p == some idStr) = (v.idStr == idStr) := by
      simp [idOf, hv]
    simp only [getVertex.go, hderef, bind, Except.bind, List.find?_cons, hid]
    by_cases h : v.idStr = idStr
    · -- Found: neither loop looks further
      simp [h, pure, Except.pure]
    · simp only [h, if_false, beq_eq_false_iff_ne.mpr h]
      exact ih fun q hq => hlive q (List.mem_cons_of_mem _ hq)

/-- Either some vertex has the id and `getVertex` returns one that has it, or none has it and
    `getVertex` returns `NULL`. -/
private theorem getVertex_cases (hlive : ∀ p ∈ g.vertices.nodes, g.Live p) (idStr : String) :
    (∃ p ∈ g.vertices.nodes, g.idOf p = some idStr ∧ getVertex g idStr = .ok p) ∨
      ((∀ p ∈ g.vertices.nodes, g.idOf p ≠ some idStr) ∧ getVertex g idStr = .ok NULL) := by
  rw [getVertex_eq hlive]
  cases hfind : g.vertices.nodes.find? fun p => g.idOf p == some idStr with
  | none => exact .inr ⟨by simpa using hfind, rfl⟩
  | some p =>
    exact .inl ⟨p, List.mem_of_find?_eq_some hfind, by simpa using List.find?_some hfind, rfl⟩

/-- `getVertex` on a known and on an unknown id. -/
theorem getVertex_of_known (h : g.WF) {idStr : String} (hk : Known g idStr) :
    ∃ v ∈ g.vertices.nodes, g.idOf v = some idStr ∧ getVertex g idStr = .ok v := by
  rcases getVertex_cases (fun p => (h.live_iff p).mpr) idStr with hfound | ⟨hno, -⟩
  · exact hfound
  · obtain ⟨p, hp, hid⟩ := hk
    exact absurd hid (hno p hp)

/-- An id that no vertex has is not found. -/
theorem getVertex_of_unknown (h : g.WF) {idStr : String} (hk : ¬ Known g idStr) :
    getVertex g idStr = .ok NULL := by
  rcases getVertex_cases (fun p => (h.live_iff p).mpr) idStr with ⟨v, hv, hid, -⟩ | ⟨-, hget⟩
  · exact absurd ⟨v, hv, hid⟩ hk
  · exact hget

/-! ## Success means valid pointers -/

/-- A write that returned went to a live vertex. -/
theorem live_of_modify {g' : Graph A} {p : Addr} {f : Vertex A → Vertex A}
    (h : g.modify p f = .ok g') : g.Live p := by
  obtain ⟨heap, hm, -⟩ := bind_eq_ok.mp h
  exact Heap.live_of_modify hm

/-- `vertex_add_edge_to_vertex` returns for live vertices only. -/
theorem live_of_addEdge_ok {g' : Graph A} {r : Int32}
    (h : vertexAddEdgeToVertex g src dst r = .ok g') : g.Live src ∧ g.Live dst := by
  obtain ⟨g₁, h₁, h⟩ := bind_eq_ok.mp h
  have hs := live_of_modify h₁
  rw [modify_of_live hs] at h₁
  obtain ⟨g₂, h₂, -⟩ := bind_eq_ok.mp h
  cases h₁
  exact ⟨hs, live_mapVertices.mp (live_of_modify h₂)⟩

/-- The removal reads the row of its start, which is therefore live. -/
theorem live_of_removeEdge_ok {g' : Graph A}
    (h : vertexRemoveEdgeToVertex g src dst = .ok g') : g.Live src := by
  obtain ⟨v, hv, -⟩ := bind_eq_ok.mp h
  exact Heap.live_iff.mpr ⟨v, Heap.deref_eq_ok.mp hv⟩

end MapRelay
