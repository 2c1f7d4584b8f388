import MapRelay.Native.Division
import MapRelay.Native.KernelGraph

/-!
# The calls that change the lists of a graph (`graph.cc`, `graph.c`)

The remaining functions of the two copies of the graph code that put nodes into the vertex
list or into an edge list, or take them out: the sorted insertions, `vertex_remove_edge` and
the removal of a vertex. A `GraphCall` is one call of any of the functions that do so.

Three functions read an object that they have just freed: `vertex_remove_edge` its edge, the
removals of a vertex their list node. What they find there is a parameter. Writing to it is a
`Fault`.
-/

namespace MapRelay

open ForStd

variable {A : Type}

/-- `compare_edges`: by the road. -/
def compareEdges (a b : Edge) : Int :=
  (if a.roadId > b.roadId then 1 else 0) - (if a.roadId < b.roadId then 1 else 0)

/-- Put an edge into the list of `src` with `put`, and count it at both ends. -/
def linkEdge (put : NodeList Edge → Edge → NodeList Edge) (g : Graph A) (src : Addr)
    (edge : Edge) : Except Fault (Graph A) := do
  let g ← g.modify src fun v => { v with edges := put v.edges edge }
  let g ← g.modify edge.vertex fun v => { v with indegree := v.indegree + 1 }
  g.modify src fun v => { v with outdegree := v.outdegree + 1 }

/-- `vertex_add_edge`. -/
def vertexAddEdge (g : Graph A) (vertex : Addr) (edge : Edge) : Except Fault (Graph A) :=
  linkEdge listAddData g vertex edge

/-- `vertex_add_edge_sorted`. -/
def vertexAddEdgeSorted (g : Graph A) (vertex : Addr) (edge : Edge) :
    Except Fault (Graph A) :=
  linkEdge (listAddDataSorted compareEdges) g vertex edge

/-- `vertex_add_edge_to_vertex_sorted`. -/
def vertexAddEdgeToVertexSorted (g : Graph A) (src dst : Addr) (roadId : Int32) :
    Except Fault (Graph A) :=
  linkEdge (listAddDataSorted compareEdges) g src ⟨dst, roadId⟩

/-- An `Edge *`, seen from a vertex: the one that the `i`-th node of the vertex's list holds,
    or one that no node of the list holds. -/
inductive EdgePtr where
  | listed (i : Nat)
  | unlisted (edge : Edge)
  deriving DecidableEq, Repr

/-- The node of the vertex's list that holds the pointer. -/
def EdgePtr.node : EdgePtr → Option Nat
  | .listed i => some i
  | .unlisted _ => none

/-- The edge that the pointer points at. -/
def EdgePtr.deref (edges : NodeList Edge) : EdgePtr → Except Fault Edge
  | .listed i => match edges.nodes[i]? with
    | some e => .ok e
    | none => .error .danglingDeref
  | .unlisted edge => .ok edge

/-- `edge->vertex` after the pointer has been taken off the list. A listed edge has been freed by
    then, and `freed` says what is found for the vertex that it had. -/
def EdgePtr.vertexAfter (freed : Addr → Addr) (e : Edge) : EdgePtr → Addr
  | .listed _ => freed e.vertex
  | .unlisted _ => e.vertex

/-- `vertex_remove_edge`. The degrees go down also when the edge is not in the list. -/
def vertexRemoveEdge (freed : Addr → Addr) (g : Graph A) (vertex : Addr) (edge : EdgePtr) :
    Except Fault (Graph A) := do
  let v ← g.heap.deref vertex
  let e ← edge.deref v.edges
  let g ← g.modify vertex fun v => { v with edges := listRemoveData v.edges edge.node }
  let g ← g.modify (edge.vertexAfter freed e) fun v => { v with indegree := v.indegree - 1 }
  g.modify vertex fun v => { v with outdegree := v.outdegree - 1 }

/-- `graph_add_vertex_sorted`. `cmp` may look at the vertices it compares. -/
def graphAddVertexSorted (cmp : Addr → Addr → Int) (g : Graph A) (vertex : Addr) : Graph A :=
  { g with vertices := listAddDataSorted cmp g.vertices vertex }

/-- Unlink the list node of `vertex` by hand. `count` is decremented. -/
def unlinkNode (g : Graph A) (vertex : Addr) : Graph A :=
  { g with vertices := ⟨g.vertices.nodes.eraseP (· == vertex), g.vertices.count - 1⟩ }

/-- `vertex_free`. -/
def vertexFree (g : Graph A) (vertex : Addr) : Except Fault (Graph A) := do
  let heap ← g.heap.free vertex
  return { g with heap }

/-- The loop of `graph_remove_vertex` and of `graph_remove_vertex_undirect`, which differ in how
    they take an edge away. It reads the `next` of each list node that it has freed, and `next`
    says what is found in the one in front of some nodes. `prevFreed` says that `prev_n` is a node
    that has been freed. -/
def removeVertexFrom (removeEdge : Graph A → Addr → Addr → Except Fault (Graph A))
    (next : List Addr → FreedNext) (vertex : Addr) :
    Bool → List Addr → Graph A → Except Fault (Graph A)
  | _, [], g => .ok g
  | prevFreed, n :: rest, g =>
    if n = vertex then
      -- The vertex twice in a row: `prev_n->next` is written to
      if prevFreed then .error .danglingDeref
      else
        match next rest with
        | .same => removeVertexFrom removeEdge next vertex true rest (unlinkNode g vertex)
        | .null => .ok (unlinkNode g vertex)
        | .other => .error .danglingDeref
    else do
      let g ← removeEdge g n vertex
      removeVertexFrom removeEdge next vertex false rest g

/-- `graph_remove_vertex`. -/
def graphRemoveVertex (next : List Addr → FreedNext) (g : Graph A) (vertex : Addr) :
    Except Fault (Graph A) := do
  let g ← removeVertexFrom vertexRemoveEdgeToVertex next vertex false g.vertices.nodes g
  vertexFree g vertex

/-- `graph_remove_vertex_undirect`. -/
def graphRemoveVertexUndirect (next : List Addr → FreedNext) (g : Graph A) (vertex : Addr) :
    Except Fault (Graph A) := do
  let g ← removeVertexFrom vertexRemoveEdgeToVertexUndirect next vertex false g.vertices.nodes g
  vertexFree g vertex

/-- A call of one of the functions that both copies have in the same form, with what it finds in
    the memory that it reads after it has freed it. -/
inductive GraphCall (A : Type) where
  | vertexCreate (idStr : String) (geoHash : UInt64) (attr : A)
  | addVertexSorted (cmp : Addr → Addr → Int) (vertex : Addr)
  | removeVertex (next : List Addr → FreedNext) (vertex : Addr)
  | removeVertexUndirect (next : List Addr → FreedNext) (vertex : Addr)
  | addEdge (vertex : Addr) (edge : Edge)
  | addEdgeSorted (vertex : Addr) (edge : Edge)
  | removeEdge (freed : Addr → Addr) (vertex : Addr) (edge : EdgePtr)
  | addEdgeTo (src dst : Addr) (roadId : Int32)
  | addEdgeToSorted (src dst : Addr) (roadId : Int32)
  | removeEdgeTo (src dst : Addr)
  | addUndirect (src dst : Addr) (roadId : Int32)
  | removeUndirect (src dst : Addr)

/-- What the call does to the graph. -/
def GraphCall.apply (g : Graph A) : GraphCall A → Except Fault (Graph A)
  | .vertexCreate idStr geoHash attr =>
    .ok (g.newVertex (MapRelay.vertexCreate idStr geoHash attr)).1
  | .addVertexSorted cmp vertex => .ok (graphAddVertexSorted cmp g vertex)
  | .removeVertex next vertex => graphRemoveVertex next g vertex
  | .removeVertexUndirect next vertex => graphRemoveVertexUndirect next g vertex
  | .addEdge vertex edge => vertexAddEdge g vertex edge
  | .addEdgeSorted vertex edge => vertexAddEdgeSorted g vertex edge
  | .removeEdge freed vertex edge => vertexRemoveEdge freed g vertex edge
  | .addEdgeTo src dst roadId => vertexAddEdgeToVertex g src dst roadId
  | .addEdgeToSorted src dst roadId => vertexAddEdgeToVertexSorted g src dst roadId
  | .removeEdgeTo src dst => vertexRemoveEdgeToVertex g src dst
  | .addUndirect src dst roadId => vertexAddEdgeToVertexUndirect g src dst roadId
  | .removeUndirect src dst => vertexRemoveEdgeToVertexUndirect g src dst

namespace NS3

variable {K : Type} [Field K] [LinearOrder K] [FloorRing K]

/-- The calls of the NS-3 copy. -/
inductive MapCall (K : Type) where
  | common (call : GraphCall (Site K))
  | addVertex (vertex : Addr)
  | addUndirectExclusive (src dst : Addr) (roadId : Int32)
  | edgeDivision (src dst : Addr)
  | graphDivision (fuel : Nat)

/-- What the call does to the graph. -/
def MapCall.apply (env : MapEnv K) (g : Graph (Site K)) :
    MapCall K → Except Fault (Graph (Site K))
  | .common call => call.apply g
  | .addVertex vertex => .ok (graphAddVertex g vertex)
  | .addUndirectExclusive src dst roadId =>
    vertexAddEdgeToVertexUndirectExclusive g src dst roadId
  | .edgeDivision src dst => NS3.edgeDivision env g src dst
  | .graphDivision fuel => NS3.graphDivision env fuel g

end NS3

namespace Kernel

/-- The calls of the kernel copy. -/
inductive MapCall where
  | common (call : GraphCall Unit)
  | addVertex (vertex : Addr)

/-- What the call does to the graph. -/
def MapCall.apply (g : RoadGraph) : MapCall → Except Fault RoadGraph
  | .common call => call.apply g
  | .addVertex vertex => .ok (graphAddVertex g vertex)

end Kernel

end MapRelay
