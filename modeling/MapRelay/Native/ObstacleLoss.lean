import MapRelay.ForStd.Heap
import MapRelay.Native.Division

/-!
# The loss behind obstacles (`topology.cc`)

The loss between two points is the sum of what the buildings between them take away. It is kept
in a map under the text of the four coordinates, and looked up in both orders of the points. The
range `r` and the flag `forbeacon` are not part of the text. Coordinates are exact numbers here,
and what CGAL computes of segments and windows is a parameter.
-/

namespace MapRelay.NS3

open ForStd

/-- `Point`. -/
abbrev Point (K : Type) := K × K

/-- The fields of `Obstacle` that are read. -/
structure Obstacle (K : Type) where
  polygon : List (Point K)
  beta : K
  gamma : K

/-- `m_obstacles`, from which the range tree is made. -/
abbrev Topology (K : Type) := List (Obstacle K)

/-- What is used of CGAL and of the C library: `CGAL::intersection` of two segments, if that is a
    point; whether the range tree has a point in a window; and `sqrt`. -/
structure TopologyEnv (K : Type) where
  intersection : Point K × Point K → Point K × Point K → Option (Point K)
  inWindow : Point K → Point K → Point K → Bool
  sqrt : K → K

/-- The arguments of `GetObstructedLossBetween`; `isSub1G` is not used there. -/
structure LossCall (K : Type) where
  p1 : Point K
  p2 : Point K
  r : K
  forbeacon : Bool

/-- `m_obstructedDistanceMap`. The order of its entries does not matter. -/
abbrev LossMap (K : Type) := List (List Char × K)

section Format

variable {K : Type} [Field K] [LinearOrder K] [FloorRing K]

/-- The digits `printf` shows for a `%.1f`: the nearest tenth, halves to even. -/
def roundTenth (x : K) : Nat :=
  let y := x * 10
  let n := ⌊y⌋.toNat
  let d := y - n
  if d < 1 / 2 then n else if 1 / 2 < d then n + 1 else if n % 2 = 0 then n else n + 1

/-- `sprintf` with `%010.1f`. -/
def formatTenth (x : K) : List Char :=
  let n := roundTenth |x|
  let sign := if x < 0 then ['-'] else []
  sign ++ padDigits (8 - sign.length) (n / 10) ++ '.' :: padDigits 1 (n % 10)

/-- The text of a point, `p1Pos` or `p2Pos`. -/
def formatPoint (p : Point K) : List Char := formatTenth p.1 ++ ' ' :: formatTenth p.2

/-- `key`. -/
def lossKey (p1 p2 : Point K) : List Char := formatPoint p1 ++ ' ' :: formatPoint p2

end Format

/-- The size of `buff`. -/
def buffSize : Nat := 100

section Loss

variable {K : Type} [Field K] [LinearOrder K]

/-- `Locate`: `m_center`, from the box around the polygon. -/
def Obstacle.getCenter (o : Obstacle K) : Point K :=
  match o.polygon with
  | [] => (0, 0)
  | p :: ps =>
    let bx := ps.foldl (fun x q => min x q.1) p.1
    let by_ := ps.foldl (fun y q => min y q.2) p.2
    (bx + (ps.foldl (fun x q => max x q.1) p.1 - bx),
      by_ + (ps.foldl (fun y q => max y q.2) p.2 - by_))

/-- The edges of the polygon, from `edges_begin` on. -/
def Obstacle.edges (o : Obstacle K) : List (Point K × Point K) :=
  o.polygon.zip (o.polygon.rotate 1)

/-- The loop of `GetObstructedDistance` over the edges, with `d_min`, `d_max` and
    `intersections`. -/
def intersectEdges (env : TopologyEnv K) (p1 p2 : Point K) :
    List (Point K × Point K) → K × K × Int → K × K × Int
  | [], found => found
  | s :: rest, (dMin, dMax, intersections) =>
    match env.intersection s (p1, p2) with
    | none => intersectEdges env p1 p2 rest (dMin, dMax, intersections)
    | some ipoint =>
      let dx := ipoint.1 - p1.1
      let dy := ipoint.2 - p1.2
      let distP1toIPsq := dx * dx + dy * dy
      intersectEdges env p1 p2 rest
        (if distP1toIPsq < dMin then distP1toIPsq else dMin,
          if distP1toIPsq > dMax then distP1toIPsq else dMax, intersections + 1)

/-- `GetObstructedDistance`, with the number of intersections. -/
def getObstructedDistance (env : TopologyEnv K) (p1 p2 : Point K) (obs : Obstacle K) : K × Int :=
  let (dMin, dMax, intersections) :=
    intersectEdges env p1 p2 obs.edges (999999999, -999999999, 0)
  if dMin < 999999999 ∧ dMax > 0 then
    (if dMin = dMax then 0 else env.sqrt dMax - env.sqrt dMin, intersections)
  else (0, intersections)

/-- The points are less than `r` apart. -/
def inLossRange (c : LossCall K) : Bool :=
  let dx := c.p2.1 - c.p1.1
  let dy := c.p2.2 - c.p1.2
  dx * dx + dy * dy < c.r * c.r

/-- What one obstacle adds to the loss. -/
def obstacleLoss (env : TopologyEnv K) (c : LossCall K) (obstacle : Obstacle K) : K :=
  let (obstructedDistanceBetween, intersections) :=
    getObstructedDistance env c.p1 c.p2 obstacle
  if obstructedDistanceBetween > 0 ∧ intersections > 1 then
    let beta := if c.forbeacon then obstacle.beta * (3 / 4) else obstacle.beta
    let gamma := if c.forbeacon then obstacle.gamma * (3 / 4) else obstacle.gamma
    let intersections := if obstructedDistanceBetween < 2 then 1 else intersections
    beta * (intersections : K) + gamma * obstructedDistanceBetween
  else 0

/-- `window_query` of the range tree. The order does not matter for the sum. -/
def windowQuery (env : TopologyEnv K) (topology : Topology K) (low high : Point K) :
    List (Obstacle K) :=
  topology.filter fun o => env.inWindow low high o.getCenter

/-- `GetObstructedLossBetween` without the map. -/
def computeLoss (env : TopologyEnv K) (topology : Topology K) (c : LossCall K) : K :=
  if inLossRange c then
    let low := (min c.p1.1 c.p2.1 - 1000, min c.p1.2 c.p2.2 - 1000)
    let high := (max c.p1.1 c.p2.1 + 1000, max c.p1.2 c.p2.2 + 1000)
    (windowQuery env topology low high).foldl (fun loss o => loss + obstacleLoss env c o) 0
  else 9999

variable [FloorRing K]

/-- `GetObstructedLossBetween`. -/
def getObstructedLossBetween (env : TopologyEnv K) (topology : Topology K) (map : LossMap K)
    (c : LossCall K) : Except Fault (K × LossMap K) :=
  let key := lossKey c.p1 c.p2
  -- `sprintf` writes a zero byte behind the text, and both texts have the same length
  if key.length ≥ buffSize then .error .danglingDeref
  else
    match map.lookup key with
    | some obstructedLoss => .ok (obstructedLoss, map)
    | none =>
      match map.lookup (lossKey c.p2 c.p1) with
      | some obstructedLoss => .ok (obstructedLoss, map)
      | none =>
        let obstructedLoss := computeLoss env topology c
        let map := if map.length > 1000 then [] else map
        -- The other `key` is gone with its block
        .ok (obstructedLoss, (key, obstructedLoss) :: map)

/-- A sequence of calls. -/
def lossCalls (env : TopologyEnv K) (topology : Topology K) :
    LossMap K → List (LossCall K) → Except Fault (List K)
  | _, [] => .ok []
  | map, c :: cs => do
    let (loss, map) ← getObstructedLossBetween env topology map c
    let losses ← lossCalls env topology map cs
    return loss :: losses

end Loss

end MapRelay.NS3
