import MapRelay.Native.AodvNeighbors
import MapRelay.Native.MsvrMap

/-!
# The neighbours of GeoSVR (`geoSVR-neighbors.cc`)

The neighbours of a node are either in a table of its own, which its hello packets fill, or in
that of the `MbrNeighborApp` of the node. In the second mode the table has no roads, and the road
of a neighbour is looked up on the map. Each function has a loop for each of the two modes. Times
are nanoseconds.
-/

namespace MapRelay.NS3.GeoSvr

open MsvrMap (calDist getRoadByPos)

variable {K : Type}

/-- `struct msvr_ninfo`. -/
structure NInfo (K : Type) where
  x : K
  y : K
  speed : K
  heading : K
  edgeid : Int32
  dst : UInt32
  deriving DecidableEq, Repr

/-- `struct msvr_nbentry`. -/
structure NbEntry (K : Type) where
  ninfo : NInfo K
  expireTime : Int
  deriving DecidableEq, Repr

/-- `class Neighbors`. `nbapp` is the table of the first `MbrNeighborApp` of `m_node`. -/
structure Neighbors (K : Type) where
  nbl : List (NbEntry K)
  nbFromMbr : Bool
  nbapp : Option (List (Neighbor K))

/-- What the neighbours use beyond `MapEnv`: the nodes of `NodeList`, and the overload of `abs`
    that the compiler takes. -/
structure NeighborsEnv (K : Type) extends MapEnv K where
  nodes : List (NodePosition K)
  abs : K → K

/-- How a function can fail: with an assertion, or in the map. -/
inductive NeighborsFault where
  | assertFailed
  | map (fault : MapFault)
  deriving DecidableEq, Repr

/-- A fault of the map. -/
def inMap {α : Type} : Except MapFault α → Except NeighborsFault α
  | .ok a => .ok a
  | .error fault => .error (.map fault)

/-- `NS_ASSERT(nbapp)`. -/
def assertApp {α : Type} : Option α → Except NeighborsFault α
  | some a => .ok a
  | none => .error .assertFailed

/-- `m_entryLifeTime`. -/
def entryLifeTime : Int := 2000000000

namespace Neighbors

/-- `Purge`. -/
def purge (now : Int) (t : Neighbors K) : Neighbors K :=
  { t with nbl := t.nbl.filter fun nb => !decide (nb.expireTime < now) }

/-- The loop of `Update`: refresh the first entry for the address, if there is one. -/
def refresh (now : Int) (ip : NInfo K) : List (NbEntry K) → Option (List (NbEntry K))
  | [] => none
  | nb :: rest =>
    if nb.ninfo.dst = ip.dst then
      some (⟨ip, max (entryLifeTime + now) nb.expireTime⟩ :: rest)
    else (refresh now ip rest).map (nb :: ·)

/-- `Update`. -/
def update (now : Int) (ip : NInfo K) (t : Neighbors K) : Neighbors K :=
  match refresh now ip t.nbl with
  | some nbl => { t with nbl }
  | none => purge now { t with nbl := ⟨ip, entryLifeTime + now⟩ :: t.nbl }

/-- `isNeighbor`, with the tables that it leaves: `IsNeighbor` purges that of the application. -/
def isNeighbor (now : Int) (dst : UInt32) (t : Neighbors K) : Bool × Neighbors K :=
  if t.nbFromMbr then
    match t.nbapp with
    | some nb =>
      let nb := NS3.purge now nb
      (nb.any (·.ipAddress == dst), { t with nbapp := some nb })
    | none => (false, t)
  else
    let t := t.purge now
    (t.nbl.any (·.ninfo.dst == dst), t)

/-- `GetCartesianPosition`: the position of the node with the address of the entry. -/
def getCartesianPosition [Zero K] (env : NeighborsEnv K) (nb : Neighbor K) : Point K :=
  match env.nodes.find? (·.addr == nb.ipAddress) with
  | some node => ⟨node.x, node.y⟩
  | none => ⟨0, 0⟩

variable [Field K] [LinearOrder K]

/-! ## The furthest neighbour -/

/-- The arguments of `find_furthest_nhop`. -/
structure FurthestArgs (K : Type) where
  edgeid1 : Int32
  edgeid2 : Int32
  x1 : K
  y1 : K

/-- The branches in front of a neighbour at `p` on the road `edgeid`, which have the same body:
    the new `len`, if the neighbour is taken. -/
def FurthestArgs.newLen (env : NeighborsEnv K) (a : FurthestArgs K) (edgeid : Int32)
    (p : Point K) (len : K) : Option K :=
  let tmplen := calDist env.toMapEnv ⟨a.x1, a.y1⟩ p
  let body := if tmplen ≥ len then some tmplen else none
  if edgeid = a.edgeid1 then body
  else if a.edgeid2 ≠ -1 ∧ edgeid = a.edgeid2 then body
  else none

/-! ## The next hop -/

/-- The arguments of `find_next_hop`. -/
structure NextHopArgs (K : Type) where
  edgeid1 : Int32
  edgeid2 : Int32
  edgeid3 : Int32
  x1 : K
  y1 : K
  x2 : K
  y2 : K

/-- The branches in front of a neighbour at `p` on the road `edgeid`, which have the same body:
    the new `len1`, if the neighbour is taken. -/
def NextHopArgs.newLen (env : NeighborsEnv K) (a : NextHopArgs K) (edgeid : Int32)
    (p : Point K) (len1 : K) : Option K :=
  let rlen : K := 200
  let goal : K := 195
  let len2 := calDist env.toMapEnv ⟨a.x1, a.y1⟩ ⟨a.x2, a.y2⟩
  let tmplen := calDist env.toMapEnv ⟨a.x1, a.y1⟩ p
  let dstlen := calDist env.toMapEnv ⟨a.x2, a.y2⟩ p
  let body :=
    if env.abs (tmplen - goal) < len1 ∧ dstlen < len2 ∧ tmplen < rlen then
      some (env.abs (tmplen - goal))
    else none
  if edgeid = a.edgeid1 then body
  else if a.edgeid2 ≠ -1 ∧ edgeid = a.edgeid2 then body
  else if edgeid = a.edgeid3 then body
  else none

/-! ## The loops -/

/-- The body of the loop over the own table, with `res`. -/
def ownStep (newLen : Int32 → Point K → K → Option K) (s : Option (NbEntry K) × K)
    (nb : NbEntry K) : Option (NbEntry K) × K :=
  match newLen nb.ninfo.edgeid ⟨nb.ninfo.x, nb.ninfo.y⟩ s.2 with
  | some len => (some nb, len)
  | none => s

/-- The mode with the own table. -/
def findOwn (newLen : Int32 → Point K → K → Option K) (start : K) (nbl : List (NbEntry K)) :
    UInt32 :=
  match (nbl.foldl (ownStep newLen) (none, start)).1 with
  | none => 0
  | some res => res.ninfo.dst

/-- The body of the loop over the table of the application, with `ipfound`. -/
def mbrStep (env : NeighborsEnv K) (fuel : Nat) (map : MsvrMap K)
    (newLen : Int32 → Point K → K → Option K) (s : UInt32 × K) (nb : Neighbor K) :
    Except NeighborsFault (UInt32 × K) := do
  let v := getCartesianPosition env nb
  let road ← inMap (getRoadByPos fuel map v.x v.y)
  return match newLen road.id v s.2 with
    | some len => (nb.ipAddress, len)
    | none => s

/-- The mode with the table of the application. The loop starts at 1. -/
def findMbr (env : NeighborsEnv K) (fuel : Nat) (map : MsvrMap K)
    (newLen : Int32 → Point K → K → Option K) (start : K) (nb : List (Neighbor K)) :
    Except NeighborsFault UInt32 := do
  let s ← (nb.drop 1).foldlM (mbrStep env fuel map newLen) (0, start)
  return s.1

/-- `find_furthest_nhop`, with the tables that it leaves; `map` is the map that it makes. -/
def findFurthestNhop (env : NeighborsEnv K) (fuel : Nat) (map : MsvrMap K) (now : Int)
    (t : Neighbors K) (a : FurthestArgs K) : Except NeighborsFault (UInt32 × Neighbors K) := do
  let len : K := 0
  if t.nbFromMbr then
    let nb ← assertApp t.nbapp
    if nb.isEmpty then return (0, t)
    return (← findMbr env fuel map (a.newLen env) len nb, t)
  else
    let t := t.purge now
    return (findOwn (a.newLen env) len t.nbl, t)

/-- `find_next_hop`, with the tables that it leaves; `map` is the map that it makes. -/
def findNextHop (env : NeighborsEnv K) (fuel : Nat) (map : MsvrMap K) (now : Int)
    (t : Neighbors K) (a : NextHopArgs K) : Except NeighborsFault (UInt32 × Neighbors K) := do
  let len1 : K := 200
  if t.nbFromMbr then
    let nb ← assertApp t.nbapp
    return (← findMbr env fuel map (a.newLen env) len1 nb, t)
  else
    let t := t.purge now
    return (findOwn (a.newLen env) len1 t.nbl, t)

end Neighbors

end MapRelay.NS3.GeoSvr
