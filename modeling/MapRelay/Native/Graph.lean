import MapRelay.ForStd.Heap
import MapRelay.Native.NodeList

/-!
# The adjacency-list road graph (`graph.cc`, `graph.c`)

The NS-3 code and the kernel module carry two copies of the same graph: a list of
vertex pointers, each vertex with a list of `Edge`s that point at other vertices.
The copies differ in what else a vertex stores (the NS-3 one has coordinates and
an intersection flag) and in where `graph_add_vertex` puts a new vertex, so the
operations below are stated once, over the type `A` of these further attributes.

Every read or write through a vertex pointer goes through the heap, so that a
null or freed pointer shows up as a `Fault`.
-/

namespace MapRelay

open ForStd

/-- `struct Edge`. -/
structure Edge where
  vertex : Addr
  roadId : Int32
  deriving DecidableEq, Repr

/-- `struct Vertex`, with the fields that only one of the two copies has in `attr`. Ids are
    taken to fit into the array `idStr`. -/
structure Vertex (A : Type) where
  idStr : String
  geoHash : UInt64
  attr : A
  edges : NodeList Edge
  indegree : Int
  outdegree : Int

/-- `struct Graph`, together with the heap its vertices live in. -/
structure Graph (A : Type) where
  heap : Heap (Vertex A)
  vertices : NodeList Addr

variable {A : Type}

namespace Graph

/-- Apply `f p` to the vertex at every live address `p`. -/
def mapVertices (g : Graph A) (f : Addr → Vertex A → Vertex A) : Graph A :=
  { g with heap := g.heap.mapCells f }

/-- Write through the vertex pointer `p`. -/
def modify (g : Graph A) (p : Addr) (f : Vertex A → Vertex A) : Except Fault (Graph A) := do
  let heap ← g.heap.modify p f
  return { g with heap }

/-- The edge list of the vertex at `p`; empty where there is no vertex. -/
def edgesOf (g : Graph A) (p : Addr) : List Edge :=
  match g.heap.cell p with
  | none => []
  | some v => v.edges.nodes

/-- The allocation in `vertex_create`: the graph with the new object and its address. The
    vertex is not in the vertex list yet. -/
def newVertex (g : Graph A) (v : Vertex A) : Graph A × Addr :=
  let r := g.heap.alloc v
  ({ g with heap := r.1 }, r.2)

end Graph

/-- `graph_create`. -/
def graphCreate : Graph A := ⟨Heap.empty, listCreate⟩

/-- `vertex_create`: a vertex without edges. -/
def vertexCreate (idStr : String) (geoHash : UInt64) (attr : A) : Vertex A :=
  ⟨idStr, geoHash, attr, listCreate, 0, 0⟩

/-- `getVertex`: the first vertex with this id, `NULL` if there is none. -/
def getVertex (g : Graph A) (idStr : String) : Except Fault Addr :=
  go g.vertices.nodes
where
  go : List Addr → Except Fault Addr
    | [] => .ok NULL
    | n :: rest => do
      let v ← g.heap.deref n
      if v.idStr = idStr then return n else go rest

/-- `vertex_add_edge_to_vertex`. -/
def vertexAddEdgeToVertex (g : Graph A) (src dst : Addr) (roadId : Int32) :
    Except Fault (Graph A) := do
  -- The new edge goes to the head of the list
  let g ← g.modify src fun v => { v with edges := listAddData v.edges ⟨dst, roadId⟩ }
  let g ← g.modify dst fun v => { v with indegree := v.indegree + 1 }
  g.modify src fun v => { v with outdegree := v.outdegree + 1 }

/-- `vertex_remove_edge_to_vertex`: unlink the first edge to `dst`, if there is one.
    The list's `count` is not decremented, and `dst` is only written to when an
    edge was found. -/
def vertexRemoveEdgeToVertex (g : Graph A) (src dst : Addr) : Except Fault (Graph A) := do
  let v ← g.heap.deref src
  if v.edges.nodes.any (·.vertex == dst) then
    let g ← g.modify src fun v => { v with edges := v.edges.unlinkFirst (·.vertex == dst) }
    let g ← g.modify dst fun v => { v with indegree := v.indegree - 1 }
    g.modify src fun v => { v with outdegree := v.outdegree - 1 }
  else
    return g

/-- `vertex_add_edge_to_vertex_undirect`. -/
def vertexAddEdgeToVertexUndirect (g : Graph A) (src dst : Addr) (roadId : Int32) :
    Except Fault (Graph A) := do
  let g ← vertexAddEdgeToVertex g src dst roadId
  vertexAddEdgeToVertex g dst src roadId

/-- `vertex_remove_edge_to_vertex_undirect`. -/
def vertexRemoveEdgeToVertexUndirect (g : Graph A) (src dst : Addr) :
    Except Fault (Graph A) := do
  let g ← vertexRemoveEdgeToVertex g src dst
  vertexRemoveEdgeToVertex g dst src

/-- `vertex_add_edge_to_vertex_undirect_exclusive` (NS-3 copy only). -/
def vertexAddEdgeToVertexUndirectExclusive (g : Graph A) (src dst : Addr) (roadId : Int32) :
    Except Fault (Graph A) := do
  let g ← vertexRemoveEdgeToVertexUndirect g src dst
  vertexAddEdgeToVertexUndirect g src dst roadId

/-- `graph_is_balanced`: `1` iff every vertex has as many edges in as out. -/
def graphIsBalanced (g : Graph A) : Except Fault Int :=
  go g.vertices.nodes
where
  go : List Addr → Except Fault Int
    | [] => .ok 1
    | n :: rest => do
      let v ← g.heap.deref n
      if v.indegree ≠ v.outdegree then return 0 else go rest

/-- `find_road_id`: the road of the first edge from `src` to `dst`, `-1` if there is none. -/
def findRoadId (g : Graph A) (src dst : Addr) : Except Fault Int32 := do
  let v ← g.heap.deref src
  match v.edges.nodes.find? (·.vertex == dst) with
  | some e => return e.roadId
  | none => return -1

end MapRelay
