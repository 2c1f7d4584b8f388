import MapRelay.ForStd.FreedNode
import MapRelay.Native.Graph

/-!
# The graph commands of the kernel module (`graph.c`, `netlink_recv_cb`)

User space sends the road graph to the kernel as netlink messages, one vertex or edge
each. The kernel copy of the graph code has no coordinates, puts new vertices at the
head of the vertex list, and can remove a vertex.
-/

namespace MapRelay.Kernel

open ForStd

/-- The road graph of the kernel module. -/
abbrev RoadGraph := Graph Unit

/-- `struct graph_deliver`: the union by its `mode`, the `vertex`, `from` and `to` fields as
    the strings they hold. -/
inductive GraphDeliver where
  | delNode (vertex : String)
  | newNode (vertex : String) (geohash : UInt64)
  | newEdge (source target : String) (roadId : Int32)
  | other (mode : Int16)
  deriving DecidableEq, Repr

/-- `graph_add_vertex`: the vertex goes to the head of the list. -/
def graphAddVertex (g : RoadGraph) (vertex : Addr) : RoadGraph :=
  { g with vertices := listAddData g.vertices vertex }

/-- `vertex_free`: the vertex goes with its edge list. -/
def vertexFree (g : RoadGraph) (vertex : Addr) : Except Fault RoadGraph := do
  let heap ← g.heap.free vertex
  return { g with heap }

/-- Unlink the list node of `vertex` by hand. `count` is decremented. -/
def unlinkVertex (g : RoadGraph) (vertex : Addr) : RoadGraph :=
  { g with vertices := ⟨g.vertices.nodes.eraseP (· == vertex), g.vertices.count - 1⟩ }

/-- The loop of `graph_remove_vertex_undirect` over the vertex list. It reads the `next` field of
    the list node that it has just freed; what it finds there is the parameter `next`. -/
def removeEdgesTo (next : FreedNext) (vertex : Addr) : List Addr → RoadGraph →
    Except Fault RoadGraph
  | [], g => .ok g
  | n :: rest, g =>
    if n = vertex then
      match next with
      | .same => removeEdgesTo next vertex rest (unlinkVertex g vertex)
      | .null => .ok (unlinkVertex g vertex)
      -- `n->data` is read through it
      | .other => .error .danglingDeref
    else do
      let g ← vertexRemoveEdgeToVertexUndirect g n vertex
      removeEdgesTo next vertex rest g

/-- `graph_remove_vertex_undirect`. -/
def graphRemoveVertexUndirect (next : FreedNext) (g : RoadGraph) (vertex : Addr) :
    Except Fault RoadGraph := do
  let g ← removeEdgesTo next vertex g.vertices.nodes g
  -- Freed in any case, also when the loop has not met it
  vertexFree g vertex

/-- `netlink_recv_cb` on a message that is long enough to hold a `graph_deliver`: what it
    does to the global graph. Of the commands only a deletion frees a list node. -/
def netlinkRecvCb (next : FreedNext) (g : RoadGraph) : GraphDeliver → Except Fault RoadGraph
  | .delNode vertex => do
    let v ← getVertex g vertex
    graphRemoveVertexUndirect next g v
  | .newNode vertex geohash =>
    let (g, v) := g.newVertex (vertexCreate vertex geohash ())
    .ok (graphAddVertex g v)
  | .newEdge source target roadId => do
    -- C leaves the order of the two calls open; neither has an effect
    let u ← getVertex g source
    let v ← getVertex g target
    vertexAddEdgeToVertexUndirect g u v roadId
  | .other _ => .ok g

end MapRelay.Kernel
