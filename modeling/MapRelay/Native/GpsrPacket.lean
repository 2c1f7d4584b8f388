import MapRelay.Native.GpsrRoute
import MapRelay.Native.RequestQueue

/-!
# The packets of GPSR (`gpsr-packet.cc`, `gpsr.cc`)

A packet has a type header in front, behind it a position header if the type says so, and behind
these what the source has sent. Here are the headers as they stand in the packet, and the
functions of the routing protocol with the packets that they take apart and put together again.
What they decide is in `Gpsr` and `GpsrRecovery`.
-/

namespace MapRelay.NS3.Gpsr

open ForStd
open GeoSvr (Callback Ipv4Header Ipv4Route RoutingFault removeHeader)

variable {K U E : Type}

/-! ## The headers -/

/-- What the headers use of the packet buffer beside `Buffer`: `WriteU32`, and how a `double` is
    moved to a word and back. -/
structure PacketEnv (K : Type) extends RecoveryEnv K where
  buffer : Buffer
  u32 : Codec UInt32
  width_u32 : u32.width = 4
  toBits : K → UInt64
  ofBits : UInt64 → K

attribute [simp] PacketEnv.width_u32

namespace PacketEnv

/-- `memcpy` to a word and `WriteHtonU64`. -/
def writeDouble (env : PacketEnv K) (x : K) : List UInt8 := env.buffer.htonU64.write (env.toBits x)

/-- `ReadNtohU64` and `memcpy`. -/
def readDouble (env : PacketEnv K) : Reader K := do return env.ofBits (← env.buffer.htonU64.read)

end PacketEnv

/-- `enum MessageType`. -/
inductive MessageType where
  | hello
  | pos
  deriving DecidableEq, Repr

/-- `class TypeHeader`. -/
structure TypeHeader where
  type : MessageType
  valid : Bool
  deriving DecidableEq, Repr

namespace TypeHeader

/-- The constructor. -/
def new (type : MessageType) : TypeHeader := ⟨type, true⟩

/-- `GetSerializedSize`. -/
def getSerializedSize : Nat := 1

/-- `Serialize`. -/
def serialize (i : Buffer) (h : TypeHeader) : List UInt8 :=
  match h.type with
  | .hello => i.u8.write 0
  | .pos => i.u8.write 1

/-- `Deserialize` into the header `h`. -/
def deserialize (i : Buffer) (h : TypeHeader) : Reader TypeHeader := do
  let type ← i.u8.read
  if type = 0 then return ⟨.hello, true⟩
  else if type = 1 then return ⟨.pos, true⟩
  else return { h with valid := false }

end TypeHeader

/-- `class HelloHeader`. -/
structure HelloHeader (K : Type) where
  originPosx : K
  originPosy : K
  deriving DecidableEq, Repr

namespace HelloHeader

/-- `GetSerializedSize`. -/
def getSerializedSize : Nat := 16

/-- `Serialize`. -/
def serialize (env : PacketEnv K) (h : HelloHeader K) : List UInt8 :=
  env.writeDouble h.originPosx ++ env.writeDouble h.originPosy

/-- `Deserialize`. -/
def deserialize (env : PacketEnv K) : Reader (HelloHeader K) := do
  let x ← env.readDouble
  let y ← env.readDouble
  return ⟨x, y⟩

end HelloHeader

namespace PositionHeader

/-- `GetSerializedSize`. -/
def getSerializedSize : Nat := 69

/-- `Serialize`. -/
def serialize (env : PacketEnv K) (h : PositionHeader K) : List UInt8 :=
  env.writeDouble h.srcPosx ++ (env.writeDouble h.srcPosy ++
    (env.writeDouble h.dstPosx ++ (env.writeDouble h.dstPosy ++
      (env.u32.write h.updated ++
        (env.writeDouble h.recPosx ++ (env.writeDouble h.recPosy ++
          (env.buffer.u8.write h.inRec ++
            (env.writeDouble h.lastPosx ++ env.writeDouble h.lastPosy))))))))

/-- `Deserialize`. -/
def deserialize (env : PacketEnv K) : Reader (PositionHeader K) := do
  let srcPosx ← env.readDouble
  let srcPosy ← env.readDouble
  let dstPosx ← env.readDouble
  let dstPosy ← env.readDouble
  let updated ← env.u32.read
  let recPosx ← env.readDouble
  let recPosy ← env.readDouble
  let inRec ← env.buffer.u8.read
  let lastPosx ← env.readDouble
  let lastPosy ← env.readDouble
  return ⟨srcPosx, srcPosy, dstPosx, dstPosy, updated, recPosx, recPosy, inRec, lastPosx, lastPosy⟩

end PositionHeader

/-! ## Taking packets apart -/

/-- A packet whose headers have been removed. -/
structure Opened (K : Type) where
  tHeader : TypeHeader
  hdr : Option (PositionHeader K)
  payload : List UInt8

/-- How every function begins: it removes the type header, and behind a valid one that says so the
    position header. -/
def openPacket (env : PacketEnv K) (p : List UInt8) : Except RoutingFault (Opened K) := do
  let (tHeader, p) ← removeHeader (TypeHeader.deserialize env.buffer (.new .pos)) p
  if tHeader.valid ∧ tHeader.type = .pos then do
    let (hdr, p) ← removeHeader (PositionHeader.deserialize env) p
    return ⟨tHeader, some hdr, p⟩
  else return ⟨tHeader, none, p⟩

/-- The two calls of `AddHeader`, for a header `hdr`. -/
def Opened.close (env : PacketEnv K) (o : Opened K) (hdr : PositionHeader K) : List UInt8 :=
  o.tHeader.serialize env.buffer ++ (hdr.serialize env ++ o.payload)

/-- The packet that `AddHeaders` makes of `payload`. -/
def newPacket [Zero K] (env : PacketEnv K) (locationService : LocationService K)
    (pos : Vector3D K) (destination : UInt32) (payload : List UInt8) : List UInt8 :=
  Opened.close env ⟨.new .pos, none, payload⟩ (addHeaders locationService pos destination)

/-! ## Forwarding -/

/-- What the protocol does with a packet: it calls a callback, or one of its trace sources. -/
inductive Output (U E : Type) where
  | call (c : Callback U E)
  | recCount (packet : List UInt8)
  | dropPkt (packet : List UInt8)
  deriving DecidableEq, Repr

/-- The output is more than a count. -/
def Output.isAnswer : Output U E → Bool
  | .recCount _ => false
  | _ => true

/-- The route by which a packet to `dst` is sent on. -/
def routeVia (dst : UInt32) (header : Ipv4Header) (gateway : UInt32) : Ipv4Route :=
  ⟨dst, header.source, gateway, 1⟩

variable [Field K] [LinearOrder K]

/-- `RecoveryMode` with its packet. -/
def recoveryModePacket (env : PacketEnv K) (now : Int) (t : NeighborTable K) (pos : Vector3D K)
    (dst : UInt32) (p : List UInt8) (ucb : U) (header : Ipv4Header) :
    Except RoutingFault (List (Output U E)) := do
  let o ← openPacket env p
  match recoveryMode env.toRecoveryEnv now t pos o.tHeader.valid o.hdr with
  | .invalid => return [.recCount p]
  | .dropPkt hdr => return [.recCount p, .dropPkt (o.close env hdr)]
  | .forward gateway hdr =>
    return [.recCount p,
      .call (.unicast ucb (routeVia dst header gateway) (o.close env hdr) header)]

/-- `Forwarding` with its packet. -/
def forwardingPacket (env : PacketEnv K) (now : Int) (t : NeighborTable K)
    (locationService : LocationService K) (pos : Vector3D K) (packet : List UInt8)
    (header : Ipv4Header) (ucb : U) : Except RoutingFault (Bool × List (Output U E)) := do
  let o ← openPacket env packet
  let dst := header.destination
  match t.forwarding env.toRecoveryEnv now locationService pos o.tHeader.valid o.hdr dst with
  | (.drop, _) => return (false, [])
  | (.forward gateway hdr, _) =>
    return (true, [.call (.unicast ucb (routeVia dst header gateway) (o.close env hdr) header)])
  | (.recoveryMode hdr, t) => do
    let outputs ← recoveryModePacket env now t pos dst (o.close env hdr) ucb header
    return (true, outputs)

/-! ## The deferred packets -/

/-- `Ipv4Address ("102.102.102.102")`. -/
def unsetSource : UInt32 := 0x66666666

/-- What `SendPacketFromQueue` is called with at a node: what the location service says, and the
    position and the address of the node. -/
structure SendEnv (K : Type) extends PacketEnv K where
  locationService : LocationService K
  hasPosition : UInt32 → Bool
  pos : Vector3D K
  address : UInt32

/-- The loop of `SendPacketFromQueue` that sends the packets for a destination to the next hop.
    Each round takes a packet out of the queue. -/
def forwardLoop (env : SendEnv K) (now : Int) (dst nextHop : UInt32) :
    Nat → RequestQueue U E → Except RoutingFault (RequestQueue U E × List (Output U E))
  | 0, _ => .error .outOfFuel
  | n + 1, queue =>
    match queue.dequeue now dst with
    | (calls, none, queue) => .ok (queue, calls.map .call)
    | (calls, some e, queue) => do
      let header :=
        if e.header.source = unsetSource then { e.header with source := env.address }
        else e.header
      let (queue, rest) ← forwardLoop env now dst nextHop n queue
      return (queue, calls.map .call ++
        .call (.unicast e.ucb (routeVia dst header nextHop) e.packet header) :: rest)

/-- The loop of `SendPacketFromQueue` that takes the packets for a destination into the recovery
    mode. `vars` are the variables outside of it, which a packet without a position header leaves
    as they are. -/
def recoverLoop (env : SendEnv K) (now : Int) (dst : UInt32) :
    Nat → NeighborTable K → PositionHeader K → RequestQueue U E →
      Except RoutingFault (Bool × NeighborTable K × RequestQueue U E × List (Output U E))
  | 0, _, _, _ => .error .outOfFuel
  | n + 1, t, vars, queue =>
    match queue.dequeue now dst with
    | (calls, none, queue) => .ok (true, t, queue, calls.map .call)
    | (calls, some e, queue) => do
      let o ← openPacket env.toPacketEnv e.packet
      -- The packet has been taken out of the queue and is not sent
      if o.tHeader.valid = false then return (false, t, queue, calls.map .call)
      else
        let vars := o.hdr.getD vars
        let myPos := planar env.pos
        let posHeader := { vars with recPosx := myPos.x, recPosy := myPos.y, inRec := 1 }
        let outputs ← recoveryModePacket env.toPacketEnv now t env.pos dst
          (o.close env.toPacketEnv posHeader) e.ucb e.header
        let (done, t, queue, rest) ←
          recoverLoop env now dst n (t.purge env.toGpsrEnv now) vars queue
        return (done, t, queue, calls.map .call ++ (outputs ++ rest))

/-- `SendPacketFromQueue`. -/
def sendPackets (env : SendEnv K) (now : Int) :
    SendPacket U E RoutingFault (NeighborTable K) (Output U E) := fun dst t queue =>
  if env.locationService.isInSearch dst then .ok (false, t, queue, [])
  else if env.hasPosition dst = false then
    let (calls, queue) := queue.dropPacketWithDst now dst
    .ok (true, t, queue, calls.map .call)
  else
    let (direct, t) := t.isNeighbour env.toGpsrEnv now dst
    let (nextHop, t) :=
      if direct then (dst, t)
      else t.bestNeighbor env.toRecoveryEnv now (env.locationService.getPosition dst)
        (planar env.pos)
    if direct = false ∧ nextHop = 0 then
      recoverLoop env now dst (queue.queue.length + 1) t .default queue
    else do
      let (queue, outputs) ← forwardLoop env now dst nextHop (queue.queue.length + 1) queue
      return (true, t, queue, outputs)

/-! ## What comes in -/

/-- What `RouteInput` does with a packet, at a node with an interface. -/
inductive Input (U E : Type) where
  | deferred (entry : QueuedPacket U E)
  | ignored
  | deliver (packet : List UInt8)
  | forwarded (sent : Bool) (outputs : List (Output U E))
  deriving DecidableEq, Repr

/-- What is known of a packet that comes in: its number, whether it has the tag of
    `RouteOutput`, its callbacks, and what the node says of its addresses. -/
structure Incoming (U E : Type) where
  uid : UInt64
  deferredTag : Bool
  ucb : U
  ecb : E
  isMyOwnAddress : Bool
  isDestinationAddress : Bool

/-- `RouteInput`. What the protocol defers goes to `deferredRouteOutput`. -/
def routeInput (env : PacketEnv K) (now : Int) (t : NeighborTable K)
    (locationService : LocationService K) (pos : Vector3D K) (p : List UInt8)
    (header : Ipv4Header) (i : Incoming U E) : Except RoutingFault (Input U E) :=
  if i.deferredTag ∧ i.isMyOwnAddress then
    .ok (.deferred ⟨⟨p, header, i.ucb, i.ecb, 0⟩, i.uid⟩)
  else if i.isDestinationAddress then do
    let o ← openPacket env p
    if o.tHeader.valid = false then return .ignored
    else return .deliver o.payload
  else do
    let (sent, outputs) ← forwardingPacket env now t locationService pos p header i.ucb
    return .forwarded sent outputs

end MapRelay.NS3.Gpsr
