import MapRelay.Native.Neighbors
import MapRelay.Native.CrossVertex
import MapRelay.Native.SumoMap

/-!
# Forwarding in the simulator (`mbr_route.cc`)

`mbr_forward` looks for the intersections between the road vertices nearest to the two
vehicles, and takes a relay at the first of them around which there is a neighbour. It gives
up where it expects the destination to hear the packet directly.
-/

namespace MapRelay.NS3

open ForStd

/-! ## The vertex of a vehicle (`graph.cc`) -/

/-- `geohash_compare`. -/
def geohashCompare (a b : UInt64) : UInt64 := if a > b then a - b else b - a

/-- The variables `min1`, `min2`, `min3` and `v` of `find_Vertex_by_VehiclePosition`. -/
structure ThreeNearest where
  min1 : UInt64
  min2 : UInt64
  min3 : UInt64
  v0 : Addr
  v1 : Addr
  v2 : Addr

/-- The loop over the vertices: the three nearest ones along the curve of the geohashes. -/
def threeNearest {A : Type} (g : Graph A) (geoHash : UInt64) :
    List Addr → ThreeNearest → Except Fault ThreeNearest
  | [], s => .ok s
  | p :: rest, s => do
    let index ← g.heap.deref p
    let temp := geohashCompare index.geoHash geoHash
    if temp < s.min1 then threeNearest g geoHash rest ⟨temp, s.min1, s.min2, p, s.v0, s.v1⟩
    else if temp < s.min2 then
      threeNearest g geoHash rest { s with min2 := temp, min3 := s.min2, v1 := p, v2 := s.v1 }
    else if temp < s.min3 then threeNearest g geoHash rest { s with min3 := temp, v2 := p }
    else threeNearest g geoHash rest s

section Position

variable {K : Type} [Field K] [LinearOrder K]

/-- `get_distance` from a vertex to a position, as `find_vertex_by_square` and
    `find_Vertex_by_VehiclePosition` call it. -/
def distanceTo (env : MapEnv K) (v : Vertex (Site K)) (x y : K) : K :=
  env.getDistance v.attr.y v.attr.x y x

/-- `LAT_STEP`. -/
def latStep : K := 4 / 10000

/-- `LON_STEP`. -/
def lonStep : K := 6 / 10000

/-- `find_vertex_by_square` with `distmin` and `vmin`: the nearest vertex in the square around
    the position. -/
def findVertexBySquare (env : MapEnv K) (g : Graph (Site K)) (x y : K) :
    List Addr → K → Addr → Except Fault Addr
  | [], _, vmin => .ok vmin
  | p :: rest, distmin, vmin => do
    let index ← g.heap.deref p
    if index.attr.x > x - lonStep ∧ index.attr.x < x + lonStep ∧
        index.attr.y > y - latStep ∧ index.attr.y < y + latStep ∧
        distanceTo env index x y < distmin then
      findVertexBySquare env g x y rest (distanceTo env index x y) p
    else findVertexBySquare env g x y rest distmin vmin

/-- The second loop of `find_Vertex_by_VehiclePosition`, which ends at the first null
    pointer, with `distmin` and `vmin`. -/
def nearestOf (env : MapEnv K) (g : Graph (Site K)) (x y : K) :
    List Addr → K → Addr → Except Fault (K × Addr)
  | [], distmin, vmin => .ok (distmin, vmin)
  | p :: rest, distmin, vmin =>
    if p = NULL then .ok (distmin, vmin)
    else do
      let v ← g.heap.deref p
      if distanceTo env v x y < distmin then nearestOf env g x y rest (distanceTo env v x y) p
      else nearestOf env g x y rest distmin vmin

/-- `find_Vertex_by_VehiclePosition`. Where no vertex lies in the square,
    `find_vertex_by_square` returns a variable that it has never set, and so what `memory`
    held. -/
def findVertexByVehiclePosition (env : MapEnv K) (memory : Addr) (g : Graph (Site K))
    (geoHash : UInt64) (x y : K) : Except Fault Addr := do
  let s ← threeNearest g geoHash g.vertices.nodes
    ⟨0xffffffffffffffff, 0xffffffffffffffff, 0xffffffffffffffff, NULL, NULL, NULL⟩
  let (distmin, vmin) ← nearestOf env g x y [s.v0, s.v1, s.v2] 999 NULL
  -- The nearest cells may be far away where the curve jumps
  if distmin > 100 then findVertexBySquare env g x y g.vertices.nodes 999 memory
  else return vmin

end Position

/-! ## `mbr_forward` -/

/-- The static members of `MbrRoute`. -/
structure MbrRoute where
  relayedPktNum : UInt32
  noNeighborPktNum : UInt32
  mind : UInt32
  maxd : UInt32
  deriving DecidableEq, Repr

/-- `DBE`. -/
def dbe : Nat := 26

/-- The static members at the start: `0.707 * DBE + 14` is cut off to an integer. -/
def MbrRoute.initial : MbrRoute := ⟨0, 0, 7, 32⟩

/-- What `mbr_forward` reads of `MbrSumo`: the graph, once it is initialized. -/
structure MbrSumo (K : Type) where
  initialized : Bool
  graph : Graph (Site K)
  map : MapEnv K
  sumo : SumoEnv K

/-- What it reads of a node: the position, and the table of its first `MbrNeighborApp`. -/
structure MbrNode (K : Type) where
  x : K
  y : K
  nb : Option (List (Neighbor K))

/-- What `mbr_forward` returns, and what it writes to `to_mac` and `relay_mac`. -/
structure Forward where
  ret : Int
  toMac : Option Mac48Address
  relayMac : Option Mac48Address
  deriving DecidableEq, Repr

section Forwarding

variable {K : Type} [Field K] [LinearOrder K]

/-- The distances from the two vehicles to an intersection are such that the destination is
    expected to hear the packet directly. The square root of the source is compared with
    `DBE`; here it is its square. -/
def inRange (route : MbrRoute) (d1 d2 : K) : Bool :=
  let mind : K := (route.mind.toNat : K)
  let maxd : K := (route.maxd.toNat : K)
  if d1 ≤ mind ∨ d2 ≤ mind then true
  else if ¬ (d1 > maxd ∧ d2 > maxd) then
    let d3 := d2 - mind - mind * d2 / d1
    let d4 := d1 - mind - mind * d1 / d2
    d3 * d3 + d4 * d4 < (dbe : K) * (dbe : K)
  else false

/-- The loop of `mbr_forward` over the intersections, with its variables `dst_geohash`,
    `to_mac`, `(x_dst, y_dst)` and `(x_this, y_this)`. -/
def forwardLoop (sumomap : MbrSumo K) (now : Int) (nb : List (Neighbor K)) (route : MbrRoute)
    (dstGeohash : UInt64) (toMac : Mac48Address) (dst this : K × K) :
    List Addr → Except Fault (MbrRoute × Forward)
  | [] =>
    .ok ({ route with noNeighborPktNum := route.noNeighborPktNum + 1 }, ⟨-1, some toMac, none⟩)
  | p :: rest => do
    let v ← sumomap.graph.heap.deref p
    let geohashset := geohashGetNeighborsInSet v.geoHash
    if geohashIsGeohashInSet dstGeohash geohashset then return (route, ⟨-1, some toMac, none⟩)
    else
      match getnbFromsetBest now nb geohashset with
      | none => forwardLoop sumomap now nb route dstGeohash toMac dst this rest
      | some relaymac =>
        let d1 := sumomap.map.getDistance this.2 this.1 v.attr.y v.attr.x
        let d2 := sumomap.map.getDistance dst.2 dst.1 v.attr.y v.attr.x
        if inRange route d1 d2 then return (route, ⟨-1, some toMac, none⟩)
        else if relaymac = Mac48Address.zero then throw .assertFailed
        else
          return ({ route with relayedPktNum := route.relayedPktNum + 1 },
            ⟨0, some toMac, some relaymac⟩)

variable [FloorRing K]

/-- The list of intersections between the vertices nearest to the two vehicles. -/
def intersectionList (sumomap : MbrSumo K) (memory : Addr) (dstGeohash thisGeohash : UInt64)
    (dst this : K × K) : Except Fault (List Addr) := do
  let findVertex := findVertexByVehiclePosition sumomap.map memory sumomap.graph
  let thisVertex ← findVertex thisGeohash this.1 this.2
  let dstVertex ← findVertex dstGeohash dst.1 dst.2
  crossVertex sumomap.graph dstVertex thisVertex

/-- `mbr_forward` at time `now`. Its queries purge the table of the node as they go, and each
    of them works on a purged table anyway. `memory` is what an uninitialized pointer holds. -/
def mbrForward (sumomap : MbrSumo K) (memory : Addr) (now : Int) (thisnode : MbrNode K)
    (route : MbrRoute) (dest : UInt32) : Except Fault (MbrRoute × Forward) :=
  if sumomap.initialized = false then .ok (route, ⟨-1, none, none⟩)
  else
    match thisnode.nb with
    | none => .ok (route, ⟨-1, none, none⟩)
    | some nb => do
      let reply ← getGeohashFromIpInNb now nb dest
      match reply.written with
      | none => return (route, ⟨-1, none, none⟩)
      | some (toMac, xDst, yDst) =>
        let thisGeohash := sumoCartesian2Geohash sumomap.sumo thisnode.x thisnode.y
        let this := sumoCartesian2GPS sumomap.sumo thisnode.x thisnode.y
        let list ← intersectionList sumomap memory reply.geohash thisGeohash (xDst, yDst) this
        if list = [] then return (route, ⟨-1, some toMac, none⟩)
        else forwardLoop sumomap now nb route reply.geohash toMac (xDst, yDst) this list

end Forwarding

end MapRelay.NS3
