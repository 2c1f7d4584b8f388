import MapRelay.ForStd.AdjacencyList
import MapRelay.ForStd.Bimap
import Mathlib.Data.Finset.Basic

/-!
# The importer of map tiles (`importer.cpp`)

The importer keeps the road network in a Boost graph, whose vertices are found by their
positions. The bimap between coordinates and positions and the counter of nodes are updated
beside the graph whenever a tile is added or removed. A coordinate stands for the string that
`make_coordinate_string` makes of it. What nothing reads is left out: the numbers in the nodes.
The edges of the first import get roads for their properties, which nothing reads afterwards, so
that `main` leaves them out; `mainRoads` is `main` with them.
-/

namespace MapRelay.MapUtils

open ForStd

/-- How a function can end other than by returning. `pastEnd` is the use of an iterator at the
    end of its container, or past it. -/
inductive Stop where
  | assertFailed
  | exit
  | pastEnd
  deriving DecidableEq, Repr

/-- A feature of a document: a road with its `osm_id` and its coordinates. -/
structure Feature where
  osmId : Int32
  coordinates : List String
  deriving DecidableEq, Repr

/-- The features of a tile. -/
abbrev Document := List Feature

/-- The graph, with the `id` of the `Node` at each vertex. -/
abbrev Map := AdjacencyList String

/-- `*it`, for what `find` has found. -/
def deref {α : Type} : Option α → Except Stop α
  | some a => .ok a
  | none => .error .pastEnd

/-- `assert(it != end)`. -/
def assertSome {α : Type} : Option α → Except Stop α
  | some a => .ok a
  | none => .error .assertFailed

/-- `vertex(i, g)`: count `i` vertices from the first. -/
def vertex (i : Int) (g : Map) : Except Stop Nat :=
  if 0 ≤ i then deref g.vertices[i.toNat]? else .error .pastEnd

/-- `add_edge(u, v, g)`. -/
def addEdge (u v : Nat) (g : Map) : Except Stop Map := deref (g.addEdge u v)

/-! ## `main` -/

/-- The variables of `main` and the global ones while the features are read. -/
structure Import where
  tmp : List String
  nodes : List String
  edges : List (Int × Int)
  coordinateIdBimap : Bimap String Int
  nodeCountBimap : Int

/-- A coordinate that is not in `tmp` yet becomes a node. -/
def Import.pushNode (s : Import) (coord : String) : Import :=
  if coord ∈ s.tmp then s
  else
    { s with
      nodes := s.nodes ++ [coord]
      tmp := s.tmp ++ [coord]
      coordinateIdBimap := s.coordinateIdBimap.insert coord s.nodeCountBimap
      nodeCountBimap := s.nodeCountBimap + 1 }

/-- The loop over the coordinates of a feature, which takes two of them at a time. -/
def importCoordinates : List String → Import → Except Stop Import
  | [], s => .ok s
  | [coord₁], s => .ok (s.pushNode coord₁)
  | coord₁ :: coord₂ :: rest, s => do
    let s := (s.pushNode coord₁).pushNode coord₂
    let sid ← deref (s.coordinateIdBimap.left coord₁)
    let eid ← deref (s.coordinateIdBimap.left coord₂)
    importCoordinates (coord₂ :: rest) { s with edges := s.edges ++ [(sid, eid)] }

/-- The loop over the vertices: the `i`-th one gets the node with the `i`-th coordinate. -/
def setNodes (s : Import) : Int → List Nat → Map → Except Stop Map
  | _, [], g => .ok g
  | i, v :: vs, g => do
    let coord ← deref (s.coordinateIdBimap.right i)
    let id ← deref (s.nodes.find? (· == coord))
    setNodes s (i + 1) vs (g.setProp v id)

/-- The global variables once there is a graph. -/
structure Globals where
  coordinateIdBimap : Bimap String Int
  nodeCountBimap : Int
  /-- The keys of `roads_map_`. -/
  roadsMap : Finset Int32
  /-- `*map_`, which is also the graph that the functions are called with. -/
  map : Map

/-- `main`. -/
def main (features : Document) : Except Stop Globals := do
  let s ← features.foldlM (fun s f => importCoordinates f.coordinates s)
    ⟨[], [], [], Bimap.empty, 0⟩
  let g ← deref (AdjacencyList.ofEdges s.nodes.length
    (s.edges.map fun e => (e.1.toNat, e.2.toNat)) "")
  let g ← setNodes s 0 g.vertices g
  return ⟨s.coordinateIdBimap, s.nodeCountBimap, (features.map Feature.osmId).toFinset, g⟩

/-! ## The properties of the edges -/

/-- A road. -/
structure Road where
  id : Int32
  type : Int32
  deriving DecidableEq, Repr

/-- The body of the loop over the features, with the vector `roads_`. -/
def importFeature (s : Import × List Road) (f : Feature) : Except Stop (Import × List Road) := do
  let roads := s.2 ++ [⟨f.osmId, 0⟩]
  let s ← importCoordinates f.coordinates s.1
  return (s, roads)

/-- The properties that the constructor of the graph gives to the edges. Its iterator starts at
    `roads_.begin()`; it is dereferenced and advanced for each edge. -/
def edgeProperties : List (Int × Int) → List Road → Except Stop (List Road)
  | [], _ => .ok []
  | _ :: edges, roads => do
    let property ← deref roads.head?
    let properties ← edgeProperties edges roads.tail
    return property :: properties

/-- `main`, with the properties of the edges of the graph in the order of the edges. -/
def mainRoads (features : Document) : Except Stop (Globals × List Road) := do
  let (s, roads) ← features.foldlM importFeature (⟨[], [], [], Bimap.empty, 0⟩, [])
  let properties ← edgeProperties s.edges roads
  let g ← deref (AdjacencyList.ofEdges s.nodes.length
    (s.edges.map fun e => (e.1.toNat, e.2.toNat)) "")
  let g ← setNodes s 0 g.vertices g
  return (⟨s.coordinateIdBimap, s.nodeCountBimap, (features.map Feature.osmId).toFinset, g⟩,
    properties)

/-! ## Adding tiles -/

/-- A coordinate that is not in the bimap yet gets the next number. -/
def pushCoordinate (st : Globals) (coord : String) : Globals × Int :=
  match st.coordinateIdBimap.left coord with
  | some id => (st, id)
  | none =>
    ({ st with
      coordinateIdBimap := st.coordinateIdBimap.insert coord st.nodeCountBimap
      nodeCountBimap := st.nodeCountBimap + 1 }, st.nodeCountBimap)

/-- The loop over the coordinates of a feature. -/
def addCoordinates : List String → Globals → Except Stop Globals
  | [], st => .ok st
  | [coord₁], st => .ok (pushCoordinate st coord₁).1
  | coord₁ :: coord₂ :: rest, st => do
    let (st, sid) := pushCoordinate st coord₁
    let (st, eid) := pushCoordinate st coord₂
    let u ← vertex sid st.map
    let v ← vertex eid st.map
    let map ← addEdge u v st.map
    addCoordinates (coord₂ :: rest) { st with map }

/-- The loop over the features of `add_data_to_list`. -/
def addFeature (st : Globals) (f : Feature) : Except Stop Globals :=
  if f.osmId ∈ st.roadsMap then .ok st
  else addCoordinates f.coordinates { st with roadsMap := insert f.osmId st.roadsMap }

/-- `add_data_to_list`. -/
def addDataToList (dataAdd : List Document) (st : Globals) : Except Stop Globals :=
  dataAdd.flatten.foldlM addFeature st

/-! ## Removing tiles -/

/-- `out_degree_from_id`. -/
def outDegreeFromId (nodeId : String) (st : Globals) : Except Stop Int :=
  match st.coordinateIdBimap.left nodeId with
  | some i => do
    let u ← vertex i st.map
    return st.map.outDegree u
  | none => .ok (-1)

/-- The loop of `remove_vertex_from_graph`, for `n` positions from `pos` on. -/
def shiftKeys : Nat → Int → Bimap String Int → Except Stop (Bimap String Int)
  | 0, _, m => .ok m
  | n + 1, pos, m => do
    let _ ← assertSome (m.right pos)
    let m ← assertSome (m.modifyRight pos (pos - 1))
    shiftKeys n (pos + 1) m

/-- `remove_vertex_from_graph`. The loop starts from `it->second` after the element of `it` has
    been erased; what is read there is the parameter `erased` of the number that it had. -/
def removeVertexFromGraph (erased : Int → Int) (nodeId : String) (st : Globals) :
    Except Stop Globals := do
  let k ← assertSome (st.coordinateIdBimap.left nodeId)
  let u ← vertex k st.map
  let map ← deref ((st.map.clearVertex u).removeVertex u)
  let m := st.coordinateIdBimap.eraseLeft nodeId
  let start := erased k + 1
  let m ← shiftKeys (st.nodeCountBimap - start).toNat start m
  return { st with coordinateIdBimap := m, nodeCountBimap := st.nodeCountBimap - 1, map }

/-- Whether the node of a coordinate goes, by its degree; `atEnd` if the coordinate is at `Begin()`
    or at `End()`. -/
def checkDegree (atEnd : Bool) (degree : Int) : Except Stop Bool :=
  if atEnd then
    if degree = 1 then .ok true
    else if degree ≤ 0 then .error .exit
    else .ok false
  else if degree ≤ 0 then .error .exit
  else if degree ≤ 2 then .ok true
  else .ok false

/-- The loop over the coordinates of a feature to be removed: those of the nodes that go. The
    `i`-th of `n` coordinates is at the front of `coords`. -/
def checkCoordinates (st : Globals) (n : Nat) : Nat → List String → Except Stop (List String)
  | _, [] => .ok []
  | i, coord :: coords => do
    let degree ← outDegreeFromId coord st
    -- `End()` is behind the last coordinate
    let goes ← checkDegree (i = 0 ∨ i = n) degree
    let rest ← checkCoordinates st n (i + 1) coords
    return if goes then coord :: rest else rest

/-- The loop over the features of `remove_data_from_list`, with the nodes to go. -/
def checkFeatures (removeRoads : List Int32) : List Feature → Globals →
    Except Stop (List String × Globals)
  | [], st => .ok ([], st)
  | f :: fs, st => do
    if f.osmId ∈ removeRoads then
      let removed ← checkCoordinates st f.coordinates.length 0 f.coordinates
      let (rest, st) ← checkFeatures removeRoads fs
        { st with roadsMap := st.roadsMap.erase f.osmId }
      return (removed ++ rest, st)
    else checkFeatures removeRoads fs st

/-- `remove_data_from_list`. -/
def removeDataFromList (erased : Int → Int) (dataDel dataHold : List Document) (st : Globals) :
    Except Stop Globals := do
  let roadIdSet := dataHold.flatten.map Feature.osmId
  let removeRoadIdSet := (dataDel.flatten.map Feature.osmId).filter (· ∉ roadIdSet)
  let (removeNodeIdSet, st) ← checkFeatures removeRoadIdSet dataDel.flatten st
  removeNodeIdSet.foldlM (fun st nodeId => removeVertexFromGraph erased nodeId st) st

end MapRelay.MapUtils
