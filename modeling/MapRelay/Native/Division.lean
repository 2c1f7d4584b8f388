import MapRelay.Native.Graph
import MapRelay.Native.Geohash

/-!
# Road subdivision (`graph.cc`: `edge_division`, `graph_division`)

The NS-3 simulator cuts long road edges into pieces of at most `MAX_DIST` metres, so
that a vehicle always finds a road vertex nearby. Coordinates are `double`s in the
source and elements of an ordered field `K` here. `get_distance` is a parameter: it is
built from `sin`, `cos` and `asin` and rounded to decimetres, and what the code relies
on is only that it behaves like a distance along a straight road.
-/

namespace MapRelay.NS3

open ForStd

/-- The fields of the NS-3 `struct Vertex` that the kernel copy does not have. -/
structure Site (K : Type) where
  x : K
  y : K
  isIntersection : Bool
  deriving DecidableEq, Repr

/-- What the graph code reads from its surroundings: `get_distance` (latitude and longitude
    of either point) and the globals `lat_range` and `lon_range`. -/
structure MapEnv (K : Type) where
  getDistance : K → K → K → K → K
  latRange : GeoHashRange K
  lonRange : GeoHashRange K

variable {K : Type}

/-- `graph_add_vertex`: the vertex goes to the tail of the list. -/
def graphAddVertex (g : Graph (Site K)) (vertex : Addr) : Graph (Site K) :=
  { g with vertices := listAddDataTail g.vertices vertex }

variable [Field K] [LinearOrder K] [FloorRing K]

/-- `MAX_DIST`. -/
def maxDist : K := 75

/-- `AVERAGE_DIST`. -/
def averageDist : K := 50

/-- C `round`: to the nearest integer, halves away from zero. -/
def cRound (x : K) : Int := if 0 ≤ x then ⌊x + 1 / 2⌋ else -⌊-x + 1 / 2⌋

/-- The digits `printf` shows for a `%.6lf`: the nearest multiple of `10^-6`, halves to even. -/
def roundMicro (x : K) : Nat :=
  let y := x * 1000000
  let n := ⌊y⌋.toNat
  -- What was cut off decides
  let d := y - n
  if d < 1 / 2 then n else if 1 / 2 < d then n + 1 else if n % 2 = 0 then n else n + 1

/-- `n` in decimal, padded with zeros to width `w`. -/
def padDigits (w n : Nat) : List Char :=
  let ds := Nat.toDigits 10 n
  List.replicate (w - ds.length) '0' ++ ds

/-- `sprintf` with `%09.6lf`. -/
def formatCoordinate (x : K) : List Char :=
  let n := roundMicro |x|
  let sign := if x < 0 then ['-'] else []
  sign ++ padDigits (2 - sign.length) (n / 1000000) ++ '.' :: padDigits 6 (n % 1000000)

/-- `make_coordinate_string`. -/
def makeCoordinateString (x y : K) : String :=
  String.ofList (formatCoordinate x ++ ',' :: formatCoordinate y)

/-- `get_distance` between two vertices. -/
def vertexDistance (env : MapEnv K) (f t : Vertex (Site K)) : K :=
  env.getDistance f.attr.y f.attr.x t.attr.y t.attr.x

/-- The vertex that `edge_division` creates at the first stop on the way from `f` to `t`.
    `get_distance` never exceeds half the circumference of the earth, so that the
    conversion of `round(dst / AVERAGE_DIST)` to `int` cannot overflow. -/
def stopVertex (env : MapEnv K) (f t : Vertex (Site K)) : Vertex (Site K) :=
  let a := cRound (vertexDistance env f t / averageDist)
  let lat3 := f.attr.y + (t.attr.y - f.attr.y) / (a : K)
  let lng3 := f.attr.x + (t.attr.x - f.attr.x) / (a : K)
  let geo := (geohashFastEncode env.latRange env.lonRange lat3 lng3 geohashStepBit ⟨0, 0⟩).2
  vertexCreate (makeCoordinateString lat3 lng3) geo.bits ⟨lng3, lat3, false⟩

/-- `edge_division`: cut the edge from `src` to `dst` at its first stop if it is too long. -/
def edgeDivision (env : MapEnv K) (g : Graph (Site K)) (src dst : Addr) :
    Except Fault (Graph (Site K)) := do
  let f ← g.heap.deref src
  let t ← g.heap.deref dst
  if vertexDistance env f t > maxDist then
    let (g, temp) := g.newVertex (stopVertex env f t)
    let g := graphAddVertex g temp
    -- The road of the edge that is about to go, read before the new edges are in front of it
    let roadId ← findRoadId g src dst
    let g ← vertexAddEdgeToVertexUndirect g src temp roadId
    let g ← vertexAddEdgeToVertexUndirect g temp dst roadId
    vertexRemoveEdgeToVertexUndirect g src dst
  else
    return g

/-- The inner loop of `graph_division`. `n1` has moved past an edge before the edge is
    divided, and division unlinks that edge only and adds others in front of it, so that
    the nodes the loop visits are those of the list as it was on entry. -/
def divideEdges (env : MapEnv K) (g : Graph (Site K)) (v : Addr) :
    List Edge → Except Fault (Graph (Site K))
  | [] => .ok g
  | e :: n1 => do
    let g ← edgeDivision env g v e.vertex
    divideEdges env g v n1

/-- The outer loop of `graph_division` from the `i`-th vertex on. New vertices are appended
    to the list while the loop walks it. -/
def divideFrom (env : MapEnv K) : Nat → Nat → Graph (Site K) → Except Fault (Graph (Site K))
  | 0, _, _ => .error .timeout
  | fuel + 1, i, g =>
    match g.vertices.nodes[i]? with
    | none => .ok g
    | some v => do
      let vertex ← g.heap.deref v
      -- The edge list as it is now; the position `i + 1` may be one that is added meanwhile
      let g ← divideEdges env g v vertex.edges.nodes
      divideFrom env fuel (i + 1) g

/-- `graph_division`, which first sets the globals `lat_range` and `lon_range`. -/
def graphDivision (env : MapEnv K) (fuel : Nat) (g : Graph (Site K)) :
    Except Fault (Graph (Site K)) :=
  divideFrom { env with latRange := latRangeConst, lonRange := lonRangeConst } fuel 0 g

end MapRelay.NS3
