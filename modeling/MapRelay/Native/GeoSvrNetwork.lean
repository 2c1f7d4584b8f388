import MapRelay.Native.GeoSvrRoute
import MapRelay.Native.GpsrNetwork

/-!
# A network of GeoSVR nodes

As in `GpsrNetwork` the nodes send, receive and check their queues in any order, and a packet in
the air comes to the node that it was sent to or is lost. What the nodes know, the map included,
may change between any two steps. With a message that is sent the path is written down that
`RouteOutput` has found for it.
-/

namespace MapRelay.NS3.GeoSvr

open Gpsr (Message Transit arriving isBoardcast loopedBack)

variable {K : Type}

/-- The packet that a call puts into the air. -/
def Callback.transit : Callback Unit Unit → Option Transit
  | .unicast _ route p header => some ⟨route.gateway, header, p⟩
  | .error .. => none

/-- A message that was sent, with its path. -/
structure Sent where
  message : Message
  paths : List Nat
  deriving DecidableEq, Repr

/-- A node with the packets that it has deferred. -/
structure GeoSvrNode where
  address : UInt32
  packets : DeferredPackets Unit Unit

/-- The nodes and what is in the air, and what has been sent and delivered. -/
structure NetworkState where
  nodes : List GeoSvrNode
  inFlight : List Transit
  sent : List Sent
  delivered : List Message

/-- Nodes that have deferred nothing. -/
def NetworkState.start (addresses : List UInt32) : NetworkState :=
  ⟨addresses.map fun address => ⟨address, .new⟩, [], [], []⟩

/-- The network after a node has made calls. -/
def NetworkState.emit (s : NetworkState) (calls : List (Callback Unit Unit)) : NetworkState :=
  { s with inFlight := s.inFlight ++ calls.filterMap Callback.transit }

/-- The network after `RouteInput` at a node. -/
def NetworkState.input (s : NetworkState) (address : UInt32) : Input Unit Unit → NetworkState
  | .deliver p => { s with delivered := s.delivered ++ [⟨address, p⟩] }
  | .forwarded _ calls => s.emit calls
  | .ignored => s
  | .deferred _ => s

variable [Field K] [LinearOrder K]

/-- A step of the network, in which all nodes have the same packet buffer. -/
inductive NetworkStep (K : Type) [Field K] [LinearOrder K] (i : Buffer) :
    NetworkState → NetworkState → Prop where
  | route {s : NetworkState} {env : OutputEnv K} {fuel : Nat} {now : Int} {map : MsvrMap K}
      {t : Neighbors K} {oifDiffers : Bool} {header : Ipv4Header} {r : RouteOutput K}
      {route : Ipv4Route} {payload p : List UInt8} (henv : env.buffer = i)
      (haddress : env.address ∈ s.nodes.map (·.address))
      (hunicast : isBoardcast header.destination = false)
      (h : routeOutput env fuel now map t true true oifDiffers header = .ok r)
      (hroute : r.routed = .route route)
      (hp : newPacket env r.tag header.destination payload = .ok p) :
      NetworkStep K i s { s with
        inFlight := s.inFlight ++ [⟨route.gateway, ⟨route.source, route.destination⟩, p⟩]
        sent := s.sent ++ [⟨⟨header.destination, payload⟩, r.paths⟩] }
  | defer {s : NetworkState} {env : OutputEnv K} {fuel : Nat} {now : Int} {map : MsvrMap K}
      {t : Neighbors K} {oifDiffers : Bool} {header : Ipv4Header} {r : RouteOutput K}
      {payload p : List UInt8} {before after : List GeoSvrNode} {node : GeoSvrNode}
      {uid : UInt64} {entry : QueuedPacket Unit Unit} {calls : List (Callback Unit Unit)}
      {packets : DeferredPackets Unit Unit} (henv : env.buffer = i)
      (hnode : s.nodes = before ++ node :: after)
      (h : routeOutput env fuel now map t true true oifDiffers header = .ok r)
      (hdeferred : r.routed = .deferred)
      (hp : newPacket env r.tag header.destination payload = .ok p)
      (hnew : ∀ e ∈ node.packets.queue.queue, e.uid ≠ uid)
      (hinput : routeInput env.toRoutingEnv fuel now r.map r.neighbors p
        ⟨node.address, header.destination⟩ (loopedBack uid) = .ok (.deferred entry))
      (hdefer : deferredRouteOutput now entry node.packets = some (calls, packets)) :
      NetworkStep K i s (NetworkState.emit { s with
        nodes := before ++ { node with packets } :: after
        sent := s.sent ++ [⟨⟨header.destination, payload⟩, []⟩] } calls)
  | receive {s : NetworkState} {env : RoutingEnv K} {fuel : Nat} {now : Int} {map : MsvrMap K}
      {t : Neighbors K} {before after : List Transit} {x : Transit} {input : Input Unit Unit}
      (henv : env.buffer = i) (hflight : s.inFlight = before ++ x :: after)
      (h : routeInput env fuel now map t x.packet x.header
        (arriving x.gateway x.header.destination) = .ok input) :
      NetworkStep K i s
        (NetworkState.input { s with inFlight := before ++ after } x.gateway input)
  | lose {s : NetworkState} {before after : List Transit} {x : Transit}
      (hflight : s.inFlight = before ++ x :: after) :
      NetworkStep K i s { s with inFlight := before ++ after }
  | checkQueue {s : NetworkState} {env : RoutingEnv K} {fuel : Nat} {now : Int} {map : MsvrMap K}
      {t t' : Neighbors K} {before after : List GeoSvrNode} {node : GeoSvrNode}
      {calls : List (Callback Unit Unit)} {packets : DeferredPackets Unit Unit}
      (henv : env.buffer = i) (hnode : s.nodes = before ++ node :: after)
      (h : checkQueue (sendPackets env fuel now map) now t node.packets =
        .ok (calls, t', packets)) :
      NetworkStep K i s (NetworkState.emit { s with
        nodes := before ++ { node with packets } :: after } calls)

end MapRelay.NS3.GeoSvr
