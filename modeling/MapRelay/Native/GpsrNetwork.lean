import MapRelay.Native.GpsrPacket

/-!
# A network of GPSR nodes

The nodes send packets of their applications, receive those of each other and check their queues,
in any order. A packet in the air comes to the node that it was sent to, or is lost. What the
nodes know of each other may change between any two steps, and they may move. Broadcasts are left
out.
-/

namespace MapRelay.NS3.Gpsr

open GeoSvr (Callback Ipv4Header RoutingFault)

variable {K : Type}

/-- A packet in the air, on its way to a node. -/
structure Transit where
  gateway : UInt32
  header : Ipv4Header
  packet : List UInt8
  deriving DecidableEq, Repr

/-- The packet that an output puts into the air. -/
def Output.transit : Output Unit Unit → Option Transit
  | .call (.unicast _ route p header) => some ⟨route.gateway, header, p⟩
  | _ => none

/-- The output reports the end of a packet. -/
def Output.isReport (out : Output Unit Unit) : Bool := out.isAnswer && out.transit.isNone

/-- What an application sends or is given. -/
structure Message where
  destination : UInt32
  payload : List UInt8
  deriving DecidableEq, Repr

/-- A node with the packets that it has deferred. -/
structure GpsrNode where
  address : UInt32
  packets : DeferredPackets Unit Unit

/-- The nodes and what is in the air; what has been sent, delivered to an application or lost in
    the air; and the reports of packets that have ended otherwise. -/
structure NetworkState where
  nodes : List GpsrNode
  inFlight : List Transit
  sent : List Message
  delivered : List Message
  lost : List Message
  reports : List (Output Unit Unit)

/-- Nodes that have deferred nothing. -/
def NetworkState.start (addresses : List UInt32) : NetworkState :=
  ⟨addresses.map fun address => ⟨address, .new⟩, [], [], [], [], []⟩

/-- The network after a node has put packets into the air and made reports. -/
def NetworkState.emit (s : NetworkState) (outputs : List (Output Unit Unit)) : NetworkState :=
  { s with
    inFlight := s.inFlight ++ outputs.filterMap Output.transit
    reports := s.reports ++ outputs.filter Output.isReport }

/-- A packet as it comes to a node that has not deferred it before. -/
def arriving (address dst : UInt32) : Incoming Unit Unit := ⟨0, false, (), (), false, dst = address⟩

/-- The packet that comes back by the loopback route of the node that sends it. -/
def loopedBack (uid : UInt64) : Incoming Unit Unit := ⟨uid, true, (), (), true, false⟩

/-- The network after `RouteInput` at a node. -/
def NetworkState.input (s : NetworkState) (address : UInt32) : Input Unit Unit → NetworkState
  | .deliver p => { s with delivered := s.delivered ++ [⟨address, p⟩] }
  | .forwarded _ outputs => s.emit outputs
  | .ignored => s
  | .deferred _ => s

variable [Field K] [LinearOrder K]

/-- A step of the network: a message is sent, by a route or through the queue; a packet comes to
    the node that it was sent to, or is lost; or a node checks its queue. -/
inductive NetworkStep (env : PacketEnv K) : NetworkState → NetworkState → Prop where
  | route {s : NetworkState} {now : Int} {t t' : NeighborTable K}
      {locationService : LocationService K} {pos : Vector3D K} {oifDiffers : Bool}
      {source dst gateway : UInt32} {payload : List UInt8}
      (hsource : source ∈ s.nodes.map (·.address)) (hunicast : isBoardcast dst = false)
      (h : t.routeOutput env.toRecoveryEnv now locationService pos true true oifDiffers dst =
        (.route gateway, t')) :
      NetworkStep env s { s with
        inFlight := s.inFlight ++
          [⟨gateway, ⟨source, dst⟩, newPacket env locationService pos dst payload⟩]
        sent := s.sent ++ [⟨dst, payload⟩] }
  | defer {s : NetworkState} {now : Int} {t t' : NeighborTable K}
      {locationService : LocationService K} {pos : Vector3D K} {oifDiffers : Bool}
      {dst : UInt32} {payload : List UInt8} {before after : List GpsrNode} {node : GpsrNode}
      {uid : UInt64} {entry : QueuedPacket Unit Unit} {calls : List (Callback Unit Unit)}
      {packets : DeferredPackets Unit Unit} (hnode : s.nodes = before ++ node :: after)
      (h : t.routeOutput env.toRecoveryEnv now locationService pos true true oifDiffers dst =
        (.deferred, t'))
      (hnew : ∀ e ∈ node.packets.queue.queue, e.uid ≠ uid)
      (hinput : routeInput env now t' locationService pos
        (newPacket env locationService pos dst payload) ⟨node.address, dst⟩ (loopedBack uid) =
          .ok (.deferred entry))
      (hdefer : deferredRouteOutput now entry node.packets = some (calls, packets)) :
      NetworkStep env s (NetworkState.emit { s with
        nodes := before ++ { node with packets } :: after
        sent := s.sent ++ [⟨dst, payload⟩] } (calls.map .call))
  | receive {s : NetworkState} {now : Int} {t : NeighborTable K}
      {locationService : LocationService K} {pos : Vector3D K} {before after : List Transit}
      {x : Transit} {input : Input Unit Unit} (hflight : s.inFlight = before ++ x :: after)
      (h : routeInput env now t locationService pos x.packet x.header
        (arriving x.gateway x.header.destination) = .ok input) :
      NetworkStep env s
        (NetworkState.input { s with inFlight := before ++ after } x.gateway input)
  | lose {s : NetworkState} {before after : List Transit} {x : Transit} {payload : List UInt8}
      (hflight : s.inFlight = before ++ x :: after)
      (h : (openPacket env x.packet).map (·.payload) = .ok payload) :
      NetworkStep env s { s with
        inFlight := before ++ after
        lost := s.lost ++ [⟨x.header.destination, payload⟩] }
  | checkQueue {s : NetworkState} {now : Int} {t t' : NeighborTable K} {senv : SendEnv K}
      {before after : List GpsrNode} {node : GpsrNode} {outputs : List (Output Unit Unit)}
      {packets : DeferredPackets Unit Unit} (hnode : s.nodes = before ++ node :: after)
      (henv : senv.toPacketEnv = env) (haddress : senv.address = node.address)
      (h : checkQueue (sendPackets senv now) now t node.packets = .ok (outputs, t', packets)) :
      NetworkStep env s (NetworkState.emit { s with
        nodes := before ++ { node with packets } :: after } outputs)

end MapRelay.NS3.Gpsr
