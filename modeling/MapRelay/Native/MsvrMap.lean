import Mathlib.Algebra.Field.Defs
import Mathlib.Algebra.Order.Ring.Defs
import MapRelay.ForStd.Heap
import MapRelay.Native.Numerals

/-!
# The road map of GeoSVR (`geoSVR-map.cc`)

A way between two positions is looked for among several: each round of the search takes the
shortest path, writes down the types of its roads and makes them as long as can be, and the
path with the least sum of types is the answer. At the end the types are written back.
The coordinates, which are doubles, are taken from a field.
-/

namespace MapRelay.NS3.GeoSvr

open ForStd

/-- `struct Point`. Its `id_` is its place among the vertices. -/
structure Point (K : Type) where
  x : K
  y : K
  deriving DecidableEq, Repr

/-- An edge of the graph with its property, a `struct Road`. -/
structure Road where
  source : Nat
  target : Nat
  id : Int32
  type : Int32
  deriving DecidableEq, Repr

namespace Road

/-- `r` joins `u` and `v`, in either direction. -/
def Joins (r : Road) (u v : Nat) : Prop :=
  (r.source = u ∧ r.target = v) ∨ (r.source = v ∧ r.target = u)

instance (r : Road) (u v : Nat) : Decidable (r.Joins u v) :=
  inferInstanceAs (Decidable (_ ∨ _))

end Road

/-- `map_`, an undirected graph of `boost`. The id of no road is `-1`, with which
    `getRoadByNode` says that there is none. -/
structure MsvrMap (K : Type) where
  points : List (Point K)
  roads : List Road
  ends_lt : ∀ r ∈ roads, r.source < points.length ∧ r.target < points.length
  id_ne : ∀ r ∈ roads, r.id ≠ -1

/-- What the map uses of the standard library and of `boost`: `dijkstra_shortest_paths` fills the
    vector of the predecessors, or finds a negative type and throws. -/
structure MapEnv (K : Type) where
  sqrt : K → K
  dijkstra : MsvrMap K → Nat → Option (Nat → Nat)

/-- How a search can fail: out of fuel, with an exception of `boost` or of `at`, with an iterator
    past its end or with a division by the size of an empty vector. -/
inductive MapFault where
  | timeout
  | negativeEdge
  | outOfRange
  | pastTheEnd
  | divisionByZero
  deriving DecidableEq, Repr

/-- `std::numeric_limits<int>::max()`, the type of a road that is used up. -/
def intMax : Int32 := 2147483647

variable {K : Type}

namespace MsvrMap

/-- New types for the roads of the map. -/
def mapType (m : MsvrMap K) (f : Road → Int32) : MsvrMap K where
  points := m.points
  roads := m.roads.map fun r => { r with type := f r }
  ends_lt := by
    intro r' hr'
    obtain ⟨r, hr, rfl⟩ := List.mem_map.mp hr'
    exact m.ends_lt r hr
  id_ne := by
    intro r' hr'
    obtain ⟨r, hr, rfl⟩ := List.mem_map.mp hr'
    exact m.id_ne r hr

/-- The assignment to `type_` of every road that joins `u` and `v`. -/
def setType (m : MsvrMap K) (u v : Nat) (type : Int32) : MsvrMap K :=
  m.mapType fun r => if r.Joins u v then type else r.type

/-- The roads that join `u` and `v`, in the order of `edges`. -/
def roadsJoining (m : MsvrMap K) (u v : Nat) : List Road := m.roads.filter fun r => r.Joins u v

/-- `adjacent_vertices`, in the order in which the roads were added. -/
def adjacentVertices (m : MsvrMap K) (v : Nat) : List Nat :=
  m.roads.flatMap fun r =>
    (if r.source = v then [r.target] else []) ++ (if r.target = v then [r.source] else [])

/-- The loops over the roads that look for an id. -/
def roadById (m : MsvrMap K) (id : Int32) : Option Road := m.roads.find? fun r => r.id = id

/-- `getRoadByNode`. -/
def getRoadByNode (m : MsvrMap K) (src dst : Nat) : Int32 :=
  match m.roads.find? fun r => r.Joins src dst with
  | some r => r.id
  | none => -1

section Positions

variable [Field K]

/-- The position of a vertex. -/
def pos (m : MsvrMap K) (v : Nat) : Point K := m.points.getD v ⟨0, 0⟩

/-- `msvr_cal_dist`. -/
def calDist (env : MapEnv K) (p q : Point K) : K := env.sqrt ((p.x - q.x) ^ 2 + (p.y - q.y) ^ 2)

variable [LinearOrder K]

/-- The position lies in the box of the two vertices, which is `pad` larger on every side. -/
def InBox (m : MsvrMap K) (x y pad : K) (v a : Nat) : Prop :=
  min (m.pos v).x (m.pos a).x - pad ≤ x ∧ x ≤ max (m.pos v).x (m.pos a).x + pad ∧
    min (m.pos v).y (m.pos a).y - pad ≤ y ∧ y ≤ max (m.pos v).y (m.pos a).y + pad

instance (m : MsvrMap K) (x y pad : K) (v a : Nat) : Decidable (m.InBox x y pad v a) :=
  inferInstanceAs (Decidable (_ ∧ _))

/-- The loops of `getRoadByPos` over the vertices and those next to them. A box that is met from
    the target of its road is passed over. -/
def roadInBox (m : MsvrMap K) (x y pad : K) : Option Road :=
  (List.range m.points.length).findSome? fun vi =>
    (m.adjacentVertices vi).findSome? fun ai =>
      if m.InBox x y pad vi ai then m.roads.find? fun r => r.source = vi ∧ r.target = ai else none

/-- The same loops at the end of `getPaths`, where every box counts. -/
def pairInBox (m : MsvrMap K) (x y pad : K) : Option (Nat × Nat) :=
  (List.range m.points.length).findSome? fun vi =>
    (m.adjacentVertices vi).findSome? fun ai =>
      if m.InBox x y pad vi ai then some (vi, ai) else none

/-- The loop `while(true)` around either of them, in which the boxes grow. -/
def padLoop {α : Type} (look : K → Option α) : Nat → K → Except MapFault α
  | 0, _ => .error .timeout
  | fuel + 1, pad =>
    match look pad with
    | some a => .ok a
    | none => padLoop look fuel (pad + 5)

/-- `getRoadByPos`. -/
def getRoadByPos (fuel : Nat) (m : MsvrMap K) (x y : K) : Except MapFault Road :=
  padLoop (m.roadInBox x y) fuel 15

/-- The end of `r` that is nearer to the position, the target if they are equally near. -/
def nearerEnd (env : MapEnv K) (m : MsvrMap K) (r : Road) (x y : K) : Nat :=
  if calDist env (m.pos r.source) ⟨x, y⟩ < calDist env (m.pos r.target) ⟨x, y⟩ then r.source
  else r.target

/-- `getSrcAndDst` once both roads are known. A `path` that is not assigned is `(0, 0)`. -/
def chooseEnds (env : MapEnv K) (m : MsvrMap K) (x1 y1 x2 y2 : K) (srcRoad dstRoad : Road) :
    Nat × Nat :=
  match if srcRoad.id = dstRoad.id then m.roadById srcRoad.id else none with
  | some r =>
    -- Both positions are on the same road
    if calDist env (m.pos r.source) ⟨x1, y1⟩ < calDist env (m.pos r.source) ⟨x2, y2⟩ then
      (r.source, r.target)
    else (r.target, r.source)
  | none =>
    let first :=
      match m.roadById srcRoad.id with
      | some r => nearerEnd env m r x2 y2
      | none => 0
    let second :=
      match m.roadById dstRoad.id with
      | some r =>
        let second := nearerEnd env m r x1 y1
        if first = second then (if second = r.source then r.target else r.source) else second
      | none => 0
    (first, second)

/-- `getSrcAndDst`. -/
def getSrcAndDst (env : MapEnv K) (fuel : Nat) (m : MsvrMap K) (x1 y1 x2 y2 : K) :
    Except MapFault (Nat × Nat) := do
  let srcRoad ← getRoadByPos fuel m x1 y1
  let dstRoad ← getRoadByPos fuel m x2 y2
  return chooseEnds env m x1 y1 x2 y2 srcRoad dstRoad

/-- `hasNextPath`: a road that is not used up leads from `dst` nearer to `src`. -/
def HasNextPath (env : MapEnv K) (m : MsvrMap K) (src dst : Nat) : Prop :=
  ∃ r ∈ m.roads, (r.source = dst ∨ r.target = dst) ∧ r.type ≠ intMax ∧
    calDist env (m.pos src) (m.pos dst) >
      calDist env (m.pos src) (m.pos (if r.source = dst then r.target else r.source))

instance (env : MapEnv K) (m : MsvrMap K) (src dst : Nat) : Decidable (HasNextPath env m src dst) :=
  inferInstanceAs (Decidable (∃ r ∈ m.roads, _))

end Positions

end MsvrMap

/-! ## The choice among the paths -/

/-- The sum of a vector of types in an `int`. -/
def typeSum (types : List Int32) : Int32 := types.foldl (· + ·) 0

/-- The result of `meanSquare`. The quotient for the mean is one of unsigned integers, as the size
    of a vector is unsigned. -/
def deviation [Field K] (env : MapEnv K) (types : List Int32) : K :=
  let mean : K := ((typeSum types).toInt64.toUInt64 / .ofNat types.length).toNat
  let sum2 := types.foldl (fun sum2 type => sum2 + (type.toInt - mean) * (type.toInt - mean)) 0
  env.sqrt (sum2 / types.length)

/-- `meanSquare`. -/
def meanSquare [Field K] (env : MapEnv K) (types : List Int32) : Except MapFault K :=
  if types = [] then .error .divisionByZero else .ok (deviation env types)

/-- The first loop of `findMeanMin` from the place `i` on, with `index`, `cnt` and `imax`. -/
def sumLoop : List (List Int32) → Nat → Nat × Nat × Int32 → Nat × Nat × Int32
  | [], _, best => best
  | types :: rest, i, (index, cnt, imax) =>
    let sum := typeSum types
    if sum < imax then sumLoop rest (i + 1) (i, 1, sum)
    else if sum = imax then sumLoop rest (i + 1) (index, 2, imax)
    else sumLoop rest (i + 1) (index, cnt, imax)

/-- The second loop of `findMeanMin`. As `max` starts with the greatest double, the first mean is
    always taken. -/
def meanLoop [LinearOrder K] : List K → Nat → Nat → Option K → Nat
  | [], _, index, _ => index
  | mean :: rest, i, index, max =>
    if ∀ d ∈ max, mean < d then meanLoop rest (i + 1) i (some mean)
    else meanLoop rest (i + 1) index max

/-- `findMeanMin`. -/
def findMeanMin [LinearOrder K] (types : List (List Int32)) (means : List K) : Nat :=
  let (index, cnt, _) := sumLoop types 0 (0, 0, intMax)
  if cnt = 1 then index else meanLoop means 0 index none

/-! ## The search -/

/-- What a round of the search adds to the vectors `preds_vec`, `types_vec`, `paths_vec` and
    `means_vec`. -/
structure Round (K : Type) where
  pred : Nat → Nat
  types : List Int32
  path : List Nat
  mean : K

namespace MsvrMap

/-- The way of a round from `v` back to `src`: the vertices behind `v`, the types of the roads,
    and the map with these roads used up. -/
def tracePath (pred : Nat → Nat) (src : Nat) :
    Nat → Nat → MsvrMap K → Except MapFault (List Nat × List Int32 × MsvrMap K)
  | 0, _, _ => .error .timeout
  | fuel + 1, v, m =>
    if v = src then .ok ([], [], m)
    else do
      let types := (m.roadsJoining v (pred v)).map (·.type)
      let (paths, rest, m) ← tracePath pred src fuel (pred v) (m.setType v (pred v) intMax)
      return (pred v :: paths, types ++ rest, m)

/-- The same way once more, on which each step takes one of the types. -/
def restorePath (pred : Nat → Nat) (src : Nat) :
    Nat → Nat → List Int32 → MsvrMap K → Except MapFault (MsvrMap K)
  | 0, _, _, _ => .error .timeout
  | fuel + 1, v, types, m =>
    if v = src then .ok m
    else
      match types with
      | [] => .error .pastTheEnd
      | type :: types => restorePath pred src fuel (pred v) types (m.setType v (pred v) type)

section Search

variable [Field K] [LinearOrder K]

/-- The loop `while (hasNextPath(src, dst))`; `limit` is the fuel of a way back. -/
def search (env : MapEnv K) (src dst limit : Nat) :
    Nat → MsvrMap K → Except MapFault (List (Round K) × MsvrMap K)
  | 0, _ => .error .timeout
  | fuel + 1, m =>
    if HasNextPath env m src dst then
      match env.dijkstra m src with
      | none => .error .negativeEdge
      | some pred => do
        let (paths, types, m) ← tracePath pred src limit dst m
        let mean ← meanSquare env types
        let (rounds, m) ← search env src dst limit fuel m
        return (⟨pred, types, (dst :: paths).reverse, mean⟩ :: rounds, m)
    else .ok ([], m)

/-- The loop over `preds_vec` and `types_vec` that writes the types back. -/
def restore (src dst limit : Nat) (rounds : List (Round K)) (m : MsvrMap K) :
    Except MapFault (MsvrMap K) :=
  rounds.foldlM (fun m round => restorePath round.pred src limit dst round.types m) m

/-- The path that is chosen, or the two ends if there was no round. -/
def chosenPath (first second : Nat) (rounds : List (Round K)) : Except MapFault (List Nat) :=
  let index := findMeanMin (rounds.map (·.types)) (rounds.map (·.mean))
  if rounds = [] then .ok (if second ≠ first then [first, second] else [first])
  else
    match rounds[index]? with
    | some round => .ok round.path
    | none => .error .pastTheEnd

/-- The last element of `res` and the one before it, which are taken with `at`. -/
def lastTwo (res : List Nat) : Except MapFault (Nat × Nat) :=
  match res.reverse with
  | point1 :: point2 :: _ => .ok (point1, point2)
  | _ => .error .outOfRange

/-- `getPaths`: the ids of the points on the way, and the map afterwards. -/
def getPaths (env : MapEnv K) (fuel : Nat) (m : MsvrMap K) (x1 y1 x2 y2 : K) :
    Except MapFault (List Nat × MsvrMap K) := do
  let (first, second) ← getSrcAndDst env fuel m x1 y1 x2 y2
  let (rounds, m) ← search env first second fuel fuel m
  let res ← chosenPath first second rounds
  let m ← restore first second fuel rounds m
  let (point1, point2) ← lastTwo res
  let (dst1, dst2) ← padLoop (m.pairInBox x2 y2) fuel 15
  if (point1 = dst1 ∧ point2 = dst2) ∨ (point1 = dst2 ∧ point2 = dst1) then return (res, m)
  else return (res ++ [if point1 = dst1 then dst2 else dst1], m)

end Search

end MsvrMap

end MapRelay.NS3.GeoSvr
