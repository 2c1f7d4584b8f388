import MapRelay.Native.GpsrPacket

/-!
# Packets of a GeoSVR node (`geoSVR.cc`)

`RouteOutput` looks for a path on the map and leaves it in a byte tag of the packet, and
`AddHeaders` makes the data header of it. A packet that comes back by the loopback route is put
into the queue; it already has its header by then. A packet that comes from elsewhere is delivered
or goes to `Forwarding`.
-/

namespace MapRelay.NS3.GeoSvr

open ForStd
open Gpsr (Incoming Vector3D isBoardcast)

variable {K U E : Type}

/-- What `RouteOutput` and `AddHeaders` use besides: the rest of the location service, the address
    of the node, the tag buffer, and how a `double` is moved to a word. -/
structure OutputEnv (K : Type) extends RoutingEnv K where
  getPosition : UInt32 → Vector3D K
  invalidPosition : Vector3D K
  calculateDistance : Vector3D K → Vector3D K → K
  address : UInt32
  tagBuffer : TagBuffer
  toBits : K → UInt64

/-- The route of `RouteOutput`. A source `102.102.102.102` is not set yet. -/
def routeFrom (env : OutputEnv K) (header : Ipv4Header) (nextHop : UInt32) : Ipv4Route :=
  ⟨header.destination, if header.source = 0x66666666 then env.address else header.source,
    nextHop, 1⟩

/-- What `RouteOutput` returns: the loopback route, for a packet that it has tagged as deferred if
    need be, no route, or a route. -/
inductive Routed where
  | loopback
  | noRoute
  | deferred
  | route (route : Ipv4Route)
  deriving DecidableEq, Repr

/-- The outcome of `RouteOutput`: the bytes of the path tag that it has added to the packet, the
    `paths` that it has found, and the map and the tables that it leaves. -/
structure RouteOutput (K : Type) where
  routed : Routed
  tag : Option (List UInt8)
  paths : List Nat
  map : MsvrMap K
  neighbors : Neighbors K

/-- `SetPath` of a new tag, and `AddByteTag`. -/
def addByteTag (env : OutputEnv K) (mem : Blocks) (enpaths : Addr) :
    Except RoutingFault (List UInt8) := do
  let (_, bytes) ← onHeap ((Tag.new.setPath enpaths).serialize env.tagBuffer mem)
  return bytes

/-- `FindFirstMatchingByteTag`, which reads the bytes of the tag that the packet has. -/
def findByteTag (env : OutputEnv K) : Option (List UInt8) → Except RoutingFault (Option Tag)
  | none => .ok none
  | some bytes => do
    let (tag, _) ← removeHeader (Tag.new.deserialize env.tagBuffer) bytes
    return some tag

/-- `AddHeaders`, for a packet with the path tag `tag`, if it has one. -/
def newPacket [Zero K] (env : OutputEnv K) (tag : Option (List UInt8)) (destination : UInt32)
    (payload : List UInt8) : Except RoutingFault (List UInt8) := do
  let tag ← findByteTag env tag
  let srcPos := if isBoardcast destination then ⟨0, 0⟩ else env.position
  let dstPos := if isBoardcast destination then ⟨0, 0, 0⟩ else env.getPosition destination
  let (mem, hdr) ← onHeap (addHeaders Heap.empty tag 1 2 1 (env.toBits srcPos.x)
    (env.toBits srcPos.y) (env.toBits dstPos.x) (env.toBits dstPos.y))
  Opened.close env.toRoutingEnv ⟨.new .datapacket, mem, hdr, payload, env.position⟩

variable [Field K] [LinearOrder K]

/-- The branch of `RouteOutput` for a destination that is no neighbour: the next hop, `paths`, and
    the map and the tables that it leaves. -/
def pathHop (env : OutputEnv K) (fuel : Nat) (now : Int) (map : MsvrMap K) (t : Neighbors K)
    (dst : UInt32) : Except RoutingFault (UInt32 × List Nat × MsvrMap K × Neighbors K) := do
  let srcPos := env.position
  let dstPos := env.getPosition dst
  let (paths, map) ← inNeighbors (inMap
    (map.getPaths env.toMapEnv fuel srcPos.x srcPos.y dstPos.x dstPos.y))
  let paths ← trimPath fuel map srcPos paths
  match paths with
  | v0 :: v1 :: rest => do
    let args ← hopArgs fuel map srcPos v0 v1 rest
    let (nextHop, t) ← inNeighbors
      (Neighbors.findNextHop env.toNeighborsEnv fuel env.newMap now t args)
    return (nextHop, v0 :: v1 :: rest, map, t)
  | _ => .error .outOfRange

/-- `RouteOutput`, for a packet if `packet`, at a node with an interface if `interfaces`; the
    device that is asked for is another one than that of the route if `oifDiffers`. -/
def routeOutput (env : OutputEnv K) (fuel : Nat) (now : Int) (map : MsvrMap K) (t : Neighbors K)
    (packet interfaces oifDiffers : Bool) (header : Ipv4Header) :
    Except RoutingFault (RouteOutput K) :=
  let dst := header.destination
  let found nextHop := if oifDiffers then .noRoute else .route (routeFrom env header nextHop)
  if packet = false then .ok ⟨.loopback, none, [], map, t⟩
  else if interfaces = false then .ok ⟨.noRoute, none, [], map, t⟩
  else if isBoardcast dst then do
    let tag ← addByteTag env Heap.empty NULL
    return ⟨found dst, some tag, [], map, t⟩
  else if env.calculateDistance (env.getPosition dst) env.invalidPosition = 0 ∧
      env.isInSearch dst then .ok ⟨.deferred, none, [], map, t⟩
  else do
    let (near, t) := t.isNeighbor now dst
    let (nextHop, paths, map, t) ←
      if near then pure (dst, [], map, t) else pathHop env fuel now map t dst
    if nextHop = 0 then return ⟨.deferred, none, paths, map, t⟩
    else if near then do
      let tag ← addByteTag env Heap.empty NULL
      return ⟨found nextHop, some tag, paths, map, t⟩
    else do
      let (mem, hdr) ← onHeap
        (DatapacketHeader.default.encodePath Heap.empty (paths.map fun id => Int32.ofNat id))
      let tag ← addByteTag env mem hdr.path
      return ⟨found nextHop, some tag, paths, map, t⟩

/-! ## The deferred packets -/

/-- The loop of `SendPacketFromQueue`. -/
def sendQueued (env : RoutingEnv K) (fuel : Nat) (now : Int) (map : MsvrMap K) (dst : UInt32) :
    Nat → Neighbors K → RequestQueue U E →
      Except RoutingFault (Bool × Neighbors K × RequestQueue U E × List (Callback U E))
  | 0, _, _ => .error .outOfFuel
  | n + 1, t, queue =>
    match queue.dequeue now dst with
    | (calls, none, queue) => .ok (true, t, queue, calls)
    | (calls, some e, queue) => do
      let (sent, t, calls') ← forwarding env fuel now map t e.packet e.header e.ucb
      if sent = false then return (false, t, queue, calls ++ calls')
      else
        let (done, t, queue, rest) ← sendQueued env fuel now map dst n t queue
        return (done, t, queue, calls ++ (calls' ++ rest))

/-- `SendPacketFromQueue` on the queue with the numbers of its packets. -/
def sendPackets (env : RoutingEnv K) (fuel : Nat) (now : Int) (map : MsvrMap K) :
    SendPacket U E RoutingFault (Neighbors K) (Callback U E) := fun dst t queue =>
  if env.isInSearch dst then .ok (false, t, queue, [])
  else if env.hasPosition dst = false then
    let (calls, queue) := queue.dropPacketWithDst now dst
    .ok (true, t, queue, calls)
  else sendQueued env fuel now map dst (queue.queue.length + 1) t queue

/-! ## What comes in -/

/-- What `RouteInput` does with a packet, at a node with an interface. -/
inductive Input (U E : Type) where
  | deferred (entry : QueuedPacket U E)
  | ignored
  | deliver (packet : List UInt8)
  | forwarded (sent : Bool) (calls : List (Callback U E))
  deriving DecidableEq, Repr

/-- `RouteInput`. What the protocol defers goes to `deferredRouteOutput`. -/
def routeInput (env : RoutingEnv K) (fuel : Nat) (now : Int) (map : MsvrMap K) (t : Neighbors K)
    (p : List UInt8) (header : Ipv4Header) (i : Incoming U E) :
    Except RoutingFault (Input U E) :=
  if i.deferredTag ∧ i.isMyOwnAddress then
    .ok (.deferred ⟨⟨p, header, i.ucb, i.ecb, 0⟩, i.uid⟩)
  else if i.isDestinationAddress then do
    match ← openPacket env p with
    | none => return .ignored
    | some o => return .deliver o.payload
  else do
    let (sent, _, calls) ← forwarding env fuel now map t p header i.ucb
    return .forwarded sent calls

end MapRelay.NS3.GeoSvr
