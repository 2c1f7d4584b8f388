import MapRelay.Native.GeoSvrNeighbors
import MapRelay.Native.GeoSvrPacket

/-!
# The request queue of GeoSVR (`geoSVR-rqueue.cc`, `geoSVR.cc`)

Packets wait in a queue for the position of their destination. `SendPacketFromQueue` takes those
for one destination out of it and hands them to `Forwarding`, each with the two callbacks that it
came with: one to forward it, and one to report that it was dropped. The calls of the callbacks
are a part of the results here, in their order. `U` and `E` are the types of the callbacks.
-/

namespace MapRelay.NS3.GeoSvr

open ForStd
open MsvrMap (getRoadByPos)

variable {K U E : Type}

/-- How the routing can fail: beyond the end of a packet or with the assertion of a header, on the
    heap, in the map or the neighbours, with the id of no point, or out of fuel. -/
inductive RoutingFault where
  | packet
  | memory (fault : Fault)
  | neighbors (fault : NeighborsFault)
  | outOfRange
  | outOfFuel
  deriving DecidableEq, Repr

/-- A fault of the heap. -/
def onHeap {α : Type} : Except Fault α → Except RoutingFault α
  | .ok a => .ok a
  | .error fault => .error (.memory fault)

/-- A fault of the neighbours or of the map. -/
def inNeighbors {α : Type} : Except NeighborsFault α → Except RoutingFault α
  | .ok a => .ok a
  | .error fault => .error (.neighbors fault)

/-! ## The type header -/

/-- `enum MessageType`. -/
inductive MessageType where
  | hello
  | datapacket
  deriving DecidableEq, Repr

/-- `class TypeHeader`. -/
structure TypeHeader where
  type : MessageType
  valid : Bool
  deriving DecidableEq, Repr

namespace TypeHeader

/-- The constructor. -/
def new (type : MessageType) : TypeHeader := ⟨type, true⟩

/-- `Serialize`. -/
def serialize (i : Buffer) (h : TypeHeader) : List UInt8 :=
  match h.type with
  | .hello => i.u8.write 0
  | .datapacket => i.u8.write 1

/-- `Deserialize` into the header `h`. -/
def deserialize (i : Buffer) (h : TypeHeader) : Reader TypeHeader := do
  let type ← i.u8.read
  if type = 0 then return ⟨.hello, true⟩
  else if type = 1 then return ⟨.datapacket, true⟩
  else return { h with valid := false }

end TypeHeader

/-- `RemoveHeader`, with what is left of the packet. -/
def removeHeader {α : Type} (read : Reader α) (p : List UInt8) :
    Except RoutingFault (α × List UInt8) :=
  match read.run p with
  | some r => .ok r
  | none => .error .packet

/-! ## The queue -/

/-- What the routing reads of an `Ipv4Header`. -/
structure Ipv4Header where
  source : UInt32
  destination : UInt32
  deriving DecidableEq, Repr

/-- `class Ipv4Route`, with the number of its interface. -/
structure Ipv4Route where
  destination : UInt32
  source : UInt32
  gateway : UInt32
  outputDevice : UInt32
  deriving DecidableEq, Repr

/-- `class QueueEntry`. -/
structure QueueEntry (U E : Type) where
  packet : List UInt8
  header : Ipv4Header
  ucb : U
  ecb : E
  expire : Int
  deriving DecidableEq, Repr

/-- A call of a callback: of `ucb`, or of `ecb` with `ERROR_NOROUTETOHOST`. -/
inductive Callback (U E : Type) where
  | unicast (ucb : U) (route : Ipv4Route) (packet : List UInt8) (header : Ipv4Header)
  | error (ecb : E) (packet : List UInt8) (header : Ipv4Header)
  deriving DecidableEq, Repr

namespace RequestQueue

/-- `IsExpired`. -/
def isExpired (now : Int) (e : QueueEntry U E) : Bool := decide (e.expire - now < 0)

/-- `IsEqual`. -/
def isEqual (dst : UInt32) (e : QueueEntry U E) : Bool := e.header.destination == dst

/-- `Drop`. -/
def drop (e : QueueEntry U E) : Callback U E := .error e.ecb e.packet e.header

/-- `Purge`. -/
def purge (now : Int) (queue : List (QueueEntry U E)) :
    List (Callback U E) × List (QueueEntry U E) :=
  ((queue.filter (isExpired now)).map drop, queue.filter (!isExpired now ·))

/-- `DropPacketWithDst`. -/
def dropPacketWithDst (now : Int) (dst : UInt32) (queue : List (QueueEntry U E)) :
    List (Callback U E) × List (QueueEntry U E) :=
  let (calls, queue) := purge now queue
  (calls ++ (queue.filter (isEqual dst)).map drop, queue.filter (!isEqual dst ·))

/-- `Dequeue`, with the calls of its `Purge`. -/
def dequeue (now : Int) (dst : UInt32) (queue : List (QueueEntry U E)) :
    List (Callback U E) × Option (QueueEntry U E) × List (QueueEntry U E) :=
  let (calls, queue) := purge now queue
  match queue.find? (isEqual dst) with
  | some e => (calls, some e, queue.eraseP (isEqual dst))
  | none => (calls, none, queue)

end RequestQueue

/-! ## Forwarding -/

/-- What the routing uses: the packet buffer, the location service, the position of the node, and
    the map that a new `MsvrMap` has. -/
structure RoutingEnv (K : Type) extends NeighborsEnv K where
  buffer : Buffer
  isInSearch : UInt32 → Bool
  hasPosition : UInt32 → Bool
  position : Point K
  newMap : MsvrMap K

/-- A packet whose headers have been removed, with `relayPos`. -/
structure Opened (K : Type) where
  tHeader : TypeHeader
  mem : Blocks
  hdr : DatapacketHeader
  payload : List UInt8
  relayPos : Point K

/-- The beginning of `Forwarding`; a packet of an unknown type is not opened. The blocks of the
    header are the only ones that `Forwarding` uses. -/
def openPacket [Zero K] (env : RoutingEnv K) (packet : List UInt8) :
    Except RoutingFault (Option (Opened K)) := do
  let (tHeader, p) ← removeHeader (TypeHeader.deserialize env.buffer (.new .datapacket)) packet
  if !tHeader.valid then return none
  else
    match tHeader.type with
    | .datapacket => do
      let ((mem, hdr, _), p) ← removeHeader
        (DatapacketHeader.deserialize env.buffer Heap.empty .default) p
      return some ⟨tHeader, mem, hdr, p, env.position⟩
    | .hello => return some ⟨tHeader, Heap.empty, .default, p, ⟨0, 0⟩⟩

/-- The two calls of `AddHeader`. -/
def Opened.close (env : RoutingEnv K) (o : Opened K) : Except RoutingFault (List UInt8) := do
  let (_, bytes) ← onHeap (o.hdr.serialize env.buffer o.mem)
  return o.tHeader.serialize env.buffer ++ (bytes ++ o.payload)

/-- `getMap()[id]`. -/
def pointAt (map : MsvrMap K) (id : Nat) : Except RoutingFault (Point K) :=
  match map.points[id]? with
  | some p => .ok p
  | none => .error .outOfRange

variable [Field K] [LinearOrder K]

/-- The id of the road that `getRoadByPos` finds. -/
def roadIdAt (fuel : Nat) (map : MsvrMap K) (p : Point K) : Except RoutingFault Int32 := do
  let road ← inNeighbors (inMap (getRoadByPos fuel map p.x p.y))
  return road.id

/-- The first point of a path is taken off when the node is on the road behind it. -/
def trimPath (fuel : Nat) (map : MsvrMap K) (relayPos : Point K) :
    List Nat → Except RoutingFault (List Nat)
  | v0 :: v1 :: v2 :: rest => do
    let road ← roadIdAt fuel map relayPos
    return if road = map.getRoadByNode v0 v1 then v1 :: v2 :: rest else v0 :: v1 :: v2 :: rest
  | paths => .ok paths

/-- The roads and the goal that are looked for a next hop with. -/
def hopArgs (fuel : Nat) (map : MsvrMap K) (relayPos : Point K) (v0 v1 : Nat) (rest : List Nat) :
    Except RoutingFault (Neighbors.NextHopArgs K) := do
  let roadid1 := map.getRoadByNode v0 v1
  let myroad ← roadIdAt fuel map relayPos
  let (roadid2, nextPos) ←
    match rest with
    | v2 :: _ =>
      if myroad = roadid1 then do pure (map.getRoadByNode v1 v2, ← pointAt map v2)
      else do pure (-1, ← pointAt map v1)
    | [] => do pure (-1, ← pointAt map v1)
  let roadid3 ← roadIdAt fuel map relayPos
  return ⟨roadid1, roadid2, roadid3, relayPos.x, relayPos.y, nextPos.x, nextPos.y⟩

/-- The branch of `Forwarding` for a destination that is no neighbour, with the tables that it
    leaves: the next hop and the path, if there is one. The ids of the path are bytes. -/
def chooseHop (env : RoutingEnv K) (fuel : Nat) (now : Int) (map : MsvrMap K) (t : Neighbors K)
    (o : Opened K) : Except RoutingFault (Option (UInt32 × List Nat) × Neighbors K) := do
  let (ids, _) ← onHeap (o.hdr.decodePath o.mem [])
  let paths ← trimPath fuel map o.relayPos (ids.map Int32.toNatClampNeg)
  match paths with
  | v0 :: v1 :: rest => do
    let args ← hopArgs fuel map o.relayPos v0 v1 rest
    let (nextHop, t) ← inNeighbors
      (Neighbors.findNextHop env.toNeighborsEnv fuel env.newMap now t args)
    return (if nextHop ≠ 0 then some (nextHop, v0 :: v1 :: rest) else none, t)
  | _ => return (none, t)

/-- The route that `Forwarding` makes. -/
def routeVia (header : Ipv4Header) (nextHop : UInt32) : Ipv4Route :=
  ⟨header.destination, header.source, nextHop, 1⟩

/-- `Forwarding`, with the tables that it leaves and the calls that it makes. -/
def forwarding (env : RoutingEnv K) (fuel : Nat) (now : Int) (map : MsvrMap K) (t : Neighbors K)
    (packet : List UInt8) (header : Ipv4Header) (ucb : U) :
    Except RoutingFault (Bool × Neighbors K × List (Callback U E)) := do
  match ← openPacket env packet with
  | none => return (false, t, [])
  | some o => do
    let dst := header.destination
    let (near, t) := t.isNeighbor now dst
    if near then
      let p ← o.close env
      return (true, t, [.unicast ucb (routeVia header dst) p header])
    else
      let (hop, t) ← chooseHop env fuel now map t o
      match hop with
      | some (nextHop, paths) => do
        let (mem, hdr) ← onHeap (o.hdr.encodePath o.mem (paths.map fun id => Int32.ofNat id))
        let p ← Opened.close env { o with mem, hdr }
        return (true, t, [.unicast ucb (routeVia header nextHop) p header])
      | none => return (false, t, [])

/-! ## `SendPacketFromQueue` -/

/-- `class RoutingProtocol`, as far as the queue needs it. -/
structure RoutingProtocol (K U E : Type) where
  queue : List (QueueEntry U E)
  neighbors : Neighbors K
  map : MsvrMap K

/-- The loop. -/
def sendLoop (env : RoutingEnv K) (fuel : Nat) (now : Int) (dst : UInt32) :
    Nat → RoutingProtocol K U E →
      Except RoutingFault (Bool × RoutingProtocol K U E × List (Callback U E))
  | 0, _ => .error .outOfFuel
  | n + 1, s =>
    match RequestQueue.dequeue now dst s.queue with
    | (calls, none, queue) => .ok (true, { s with queue }, calls)
    | (calls, some e, queue) => do
      let (sent, neighbors, calls') ←
        forwarding env fuel now s.map s.neighbors e.packet e.header e.ucb
      let s := { s with queue, neighbors }
      if !sent then return (false, s, calls ++ calls')
      else
        let (done, s, rest) ← sendLoop env fuel now dst n s
        return (done, s, calls ++ (calls' ++ rest))

/-- `SendPacketFromQueue`. Each round of its loop takes an entry out of the queue. -/
def sendPacketFromQueue (env : RoutingEnv K) (fuel : Nat) (now : Int) (dst : UInt32)
    (s : RoutingProtocol K U E) :
    Except RoutingFault (Bool × RoutingProtocol K U E × List (Callback U E)) :=
  if env.isInSearch dst then .ok (false, s, [])
  else if !env.hasPosition dst then
    let (calls, queue) := RequestQueue.dropPacketWithDst now dst s.queue
    .ok (true, { s with queue }, calls)
  else sendLoop env fuel now dst (s.queue.length + 1) s

end MapRelay.NS3.GeoSvr
