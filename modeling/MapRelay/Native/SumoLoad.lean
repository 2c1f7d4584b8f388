import MapRelay.Native.SumoRoads

/-!
# Loading a SUMO net (`mbr_sumomap.cpp`: `loadSumoMap`, `Initialize`)

The junctions of the net become the first vertices of the road graph, the edges add roads and
the points of their shapes. The loops go from element to sibling element. What `parseBoundary`
reads from the element `location` is in the `SumoEnv`.
-/

namespace MapRelay.NS3

open ForStd

/-- The attributes of an element `junction` that are read. -/
structure SumoJunction where
  id : Option String
  x : Option String
  y : Option String

/-- The elements of a net that `loadSumoMap` goes through. -/
structure SumoNet where
  junctions : List SumoJunction
  edges : List SumoEdge

variable {K : Type} [Field K] [LinearOrder K] [FloorRing K]

/-- What the loop over the junctions does with one whose id is new. -/
def createJunction (env : SumoEnv K) (g : Graph (Site K)) (id xstr ystr : String) :
    Except Fault (Graph (Site K)) :=
  let tempX := env.atof xstr
  let tempY := env.atof ystr
  let geohash := sumoCartesian2Geohash env tempX tempY
  if geohash > 0 then
    let (x, y) := sumoCartesian2GPS env tempX tempY
    let (g, v) := g.newVertex (vertexCreate id geohash ⟨x, y, true⟩)
    .ok (graphAddVertex g v)
  else .error .assertFailed

/-- The loop of `loadSumoMap` over the junctions. Only the keys of `nodeMap` are looked at. -/
def loadJunctions (env : SumoEnv K) :
    Nat → List String → Graph (Site K) → List SumoJunction → Except Fault (Graph (Site K))
  | 0, _, _, _ => .error .timeout
  | _ + 1, _, g, [] => .ok g
  | fuel + 1, nodeMap, g, junction :: junctions => do
    let id ← attributeText junction.id
    let xstr ← attributeText junction.x
    let ystr ← attributeText junction.y
    if id ∈ nodeMap then
      -- The `continue` leaves out the step to the next sibling
      loadJunctions env fuel nodeMap g (junction :: junctions)
    else do
      let g ← createJunction env g id xstr ystr
      loadJunctions env fuel (id :: nodeMap) g junctions

/-- `loadSumoMap`: the graph, and `m_map_roadid` with what the load has added. -/
def loadSumoMap (env : SumoEnv K) (osm : Option (List OsmWay)) (fuel : Nat)
    (mapRoadid : List (String × Int32)) (net : SumoNet) :
    Except Fault (Graph (Site K) × RoadIds) := do
  let g ← loadJunctions env fuel [] graphCreate net.junctions
  loadEdges env osm g ⟨mapRoadid, 1⟩ net.edges

end MapRelay.NS3
