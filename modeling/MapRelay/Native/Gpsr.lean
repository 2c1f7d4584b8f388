import Mathlib.Order.Defs.LinearOrder
import Mathlib.Order.Lattice
import MapRelay.Native.Numerals

/-!
# Geographic forwarding (`gpsr.cc`, `gpsr-ptable.cc`)

GPSR sends a packet to the neighbour nearest to its destination, if that one is nearer than
the node itself, and else enters its recovery mode. This is the routing protocol with its own
position table. Where the recovery mode takes a packet is left out. Times are nanoseconds.
-/

namespace MapRelay.NS3.Gpsr

variable {K : Type}

/-- `Vector`. -/
structure Vector3D (K : Type) where
  x : K
  y : K
  z : K
  deriving DecidableEq, Repr

/-- An entry of `m_table`: a position, and the time of its update. -/
structure PositionEntry (K : Type) where
  id : UInt32
  position : Vector3D K
  updateTime : Int
  deriving DecidableEq, Repr

/-- `m_table`, in the order of its keys. -/
structure PositionTable (K : Type) where
  entries : List (PositionEntry K)
  sorted : entries.Pairwise (·.id < ·.id)

/-- What the protocol uses of ns-3 and of the standard library: the distance of two positions,
    and what is read behind the end of `m_table`. -/
structure GpsrEnv (K : Type) where
  calculateDistance : Vector3D K → Vector3D K → K
  endEntry : PositionEntry K

/-! ## The position table -/

/-- `m_entryLifeTime`. -/
def entryLifeTime : Int := 1000000000

namespace PositionTable

def find (table : PositionTable K) (id : UInt32) : Option (PositionEntry K) :=
  table.entries.find? (·.id == id)

def erase (table : PositionTable K) (id : UInt32) : PositionTable K where
  entries := table.entries.filter (·.id != id)
  sorted := table.sorted.sublist List.filter_sublist

/-- `GetEntryUpdateTime`, which does not check that it has found the entry. -/
def getEntryUpdateTime (env : GpsrEnv K) (table : PositionTable K) (id : UInt32) : Int :=
  if id = 0 then 0 else ((table.find id).getD env.endEntry).updateTime

/-- The first loop of `Purge`. -/
def toErase (env : GpsrEnv K) (now : Int) (table : PositionTable K) : List UInt32 :=
  table.entries.foldl (fun toErase i =>
    if entryLifeTime + table.getEntryUpdateTime env i.id ≤ now then i.id :: toErase
    else toErase) []

/-- `Purge`. -/
def purge (env : GpsrEnv K) (now : Int) (table : PositionTable K) : PositionTable K :=
  (table.toErase env now).foldl erase table

/-- `isNeighbour`, which reads the key of the entry also if there is none. -/
def isNeighbour (env : GpsrEnv K) (table : PositionTable K) (id : UInt32) : Bool :=
  (table.find id).isSome || id == env.endEntry.id

variable [LinearOrder K]

/-- The loop of `BestNeighbor`, with `bestFoundID` and `bestFoundDistance`. -/
def bestFound (env : GpsrEnv K) (position : Vector3D K) :
    List (PositionEntry K) → UInt32 × K → UInt32 × K
  | [], best => best
  | i :: rest, best =>
    if best.2 > env.calculateDistance i.position position then
      bestFound env position rest (i.id, env.calculateDistance i.position position)
    else bestFound env position rest best

/-- `BestNeighbor`. -/
def bestNeighbor (env : GpsrEnv K) (now : Int) (table : PositionTable K)
    (position nodePos : Vector3D K) : UInt32 :=
  let initialDistance := env.calculateDistance nodePos position
  match (table.purge env now).entries with
  | [] => 0
  | first :: rest =>
    let best := bestFound env position (first :: rest)
      (first.id, env.calculateDistance first.position position)
    if initialDistance > best.2 then best.1 else 0

end PositionTable

/-! ## Forwarding -/

/-- `class PositionHeader`. -/
structure PositionHeader (K : Type) where
  srcPosx : K
  srcPosy : K
  dstPosx : K
  dstPosy : K
  updated : UInt32
  recPosx : K
  recPosy : K
  inRec : UInt8
  lastPosx : K
  lastPosy : K
  deriving DecidableEq, Repr

/-- The location service of a node. -/
structure LocationService (K : Type) where
  getPosition : UInt32 → Vector3D K
  getEntryUpdateTime : UInt32 → UInt32
  invalidPosition : Vector3D K
  isInSearch : UInt32 → Bool

/-- What `Forwarding` does with a packet. -/
inductive Forwarded (K : Type) where
  | drop
  | recoveryMode (hdr : PositionHeader K)
  | forward (gateway : UInt32) (hdr : PositionHeader K)
  deriving DecidableEq, Repr

/-- What `RouteOutput` returns. -/
inductive Routed where
  | noRoute
  | loopback
  /-- The loopback route, with a tag that says that the route is to be found later. -/
  | deferred
  | route (gateway : UInt32)
  deriving DecidableEq, Repr

variable [Zero K]

/-- The position of a node, of which the protocol takes two coordinates. -/
def planar (pos : Vector3D K) : Vector3D K := ⟨pos.x, pos.y, 0⟩

/-- `PositionHeader ()`. -/
def PositionHeader.default : PositionHeader K := ⟨0, 0, 0, 0, 0, 0, 0, 0, 0, 0⟩

/-- The position of the destination for `Forwarding`, with the time of its update: that of the
    header, unless the node has heard of a later one. -/
def PositionHeader.destination (hdr : PositionHeader K) (locationService : LocationService K)
    (dst : UInt32) : Vector3D K × UInt32 :=
  if locationService.getEntryUpdateTime dst > hdr.updated then
    (locationService.getPosition dst, locationService.getEntryUpdateTime dst)
  else (⟨hdr.dstPosx, hdr.dstPosy, 0⟩, hdr.updated)

/-- `IsBoardcast`. -/
def isBoardcast (ip : UInt32) : Bool := ip &&& 0xff == 0xff

variable [LinearOrder K]

/-- `inRec` after the test whether the packet is nearer to its destination than where it
    entered the recovery mode. -/
def PositionHeader.stillInRec (env : GpsrEnv K) (hdr : PositionHeader K) (myPos : Vector3D K) :
    UInt8 :=
  if hdr.inRec = 1 ∧ env.calculateDistance myPos ⟨hdr.dstPosx, hdr.dstPosy, 0⟩ <
      env.calculateDistance ⟨hdr.recPosx, hdr.recPosy, 0⟩ ⟨hdr.dstPosx, hdr.dstPosy, 0⟩ then 0
  else hdr.inRec

/-- `Forwarding` at a node at `pos`. `typeValid` says whether the type of the packet is valid,
    and `hdr` is the position header, if the type says that there is one. -/
def forwarding (env : GpsrEnv K) (now : Int) (table : PositionTable K)
    (locationService : LocationService K) (pos : Vector3D K) (typeValid : Bool)
    (hdr : Option (PositionHeader K)) (dst : UInt32) : Forwarded K :=
  let table := table.purge env now
  if typeValid = false then .drop
  else
    let hdr := hdr.getD .default
    let myPos := planar pos
    let hdr := { hdr with inRec := hdr.stillInRec env myPos }
    if hdr.inRec ≠ 0 then .recoveryMode hdr
    else
      let (dstPos, updated) := hdr.destination locationService dst
      let posHeader := ⟨hdr.srcPosx, hdr.srcPosy, dstPos.x, dstPos.y, updated, 0, 0, 0, myPos.x,
        myPos.y⟩
      if table.isNeighbour env dst then .forward dst posHeader
      else
        let nextHop := table.bestNeighbor env now dstPos myPos
        if nextHop ≠ 0 then .forward nextHop posHeader
        else
          .recoveryMode { hdr with
            inRec := 1
            recPosx := myPos.x
            recPosy := myPos.y
            -- The first edge is that to the destination
            lastPosx := dstPos.x
            lastPosy := dstPos.y }

/-- `RouteOutput` at a node at `pos`. `packet` and `interfaces` say whether there is a packet
    and an interface, and `oifDiffers` whether another device is asked for than that of the
    route. -/
def routeOutput (env : GpsrEnv K) (now : Int) (table : PositionTable K)
    (locationService : LocationService K) (pos : Vector3D K) (packet interfaces oifDiffers : Bool)
    (dst : UInt32) : Routed :=
  if packet = false then .loopback
  else if interfaces = false then .noRoute
  else if isBoardcast dst then if oifDiffers then .noRoute else .route dst
  else
    let dstPos := locationService.getPosition dst
    if env.calculateDistance dstPos locationService.invalidPosition = 0 ∧
        locationService.isInSearch dst then .deferred
    else
      let nextHop :=
        if table.isNeighbour env dst then dst
        else table.bestNeighbor env now dstPos (planar pos)
      if nextHop ≠ 0 then if oifDiffers then .noRoute else .route nextHop
      else .deferred

/-! ## The nodes of a network -/

/-- A call of `Forwarding` or `RouteOutput` at a node: the time, what the node knows, and the
    other arguments. -/
inductive GpsrEvent (K : Type) where
  | forwarding (now : Int) (table : PositionTable K) (locationService : LocationService K)
      (typeValid : Bool) (hdr : Option (PositionHeader K))
  | routeOutput (now : Int) (table : PositionTable K) (locationService : LocationService K)
      (packet interfaces oifDiffers : Bool)

namespace GpsrEvent

def now : GpsrEvent K → Int
  | .forwarding now .. => now
  | .routeOutput now .. => now

def table : GpsrEvent K → PositionTable K
  | .forwarding _ table .. => table
  | .routeOutput _ table .. => table

/-- The position of the destination as the call knows it. -/
def destination (dst : UInt32) : GpsrEvent K → Vector3D K
  | .forwarding _ _ locationService _ hdr =>
    ((hdr.getD .default).destination locationService dst).1
  | .routeOutput _ _ locationService .. => locationService.getPosition dst

/-- The destination is addressed directly. -/
def direct (env : GpsrEnv K) (dst : UInt32) : GpsrEvent K → Bool
  | .forwarding now table .. => (table.purge env now).isNeighbour env dst
  | .routeOutput _ table .. => isBoardcast dst || table.isNeighbour env dst

/-- Where the packet is sent in greedy mode. -/
def gateway (env : GpsrEnv K) (pos : Vector3D K) (dst : UInt32) : GpsrEvent K → Option UInt32
  | .forwarding now table locationService typeValid hdr =>
    match Gpsr.forwarding env now table locationService pos typeValid hdr dst with
    | .forward gateway _ => some gateway
    | .drop | .recoveryMode _ => none
  | .routeOutput now table locationService packet interfaces oifDiffers =>
    match Gpsr.routeOutput env now table locationService pos packet interfaces oifDiffers dst with
    | .route gateway => some gateway
    | .noRoute | .loopback | .deferred => none

end GpsrEvent

/-- The table has the positions of nodes, which have addresses other than zero. -/
structure PositionTable.Accurate (pos : UInt32 → Vector3D K) (table : PositionTable K) : Prop where
  id_ne : ∀ e ∈ table.entries, e.id ≠ 0
  position_eq : ∀ e ∈ table.entries, e.position = planar (pos e.id)

/-- A hop in greedy mode. The list has the nodes that have been visited, the last one first;
    at its destination a packet is delivered, and not forwarded. -/
inductive GreedyStep (env : GpsrEnv K) (pos : UInt32 → Vector3D K) (dst : UInt32)
    (dstPos : Vector3D K) : List UInt32 → GpsrEvent K → List UInt32 → Prop where
  | hop {cur gateway : UInt32} {past : List UInt32} {event : GpsrEvent K} (hcur : cur ≠ dst)
      (haccurate : event.table.Accurate pos) (hdestination : event.destination dst = dstPos)
      (hgateway : event.gateway env (pos cur) dst = some gateway) :
      GreedyStep env pos dst dstPos (cur :: past) event (gateway :: cur :: past)

end MapRelay.NS3.Gpsr
