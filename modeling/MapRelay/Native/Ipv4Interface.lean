import MapRelay.Native.Forward
import MapRelay.Native.OcbWifiMac

/-!
# Sending a packet (`ipv4-interface.cc`)

`Send` asks `mbr_forward` for a relay before it resolves an address. The relay goes down to
the MAC layer in a tag of the packet (`mbr-packet-tag.cc`), and packet tags stay with a
packet from node to node.
-/

namespace MapRelay.NS3

open ForStd

/-! ## Packet tags -/

/-- `MbrTag::GetSerializedSize`. -/
def MbrTag.getSerializedSize : Nat := 7

/-- `MbrTag::Serialize`, with the accessor for bytes of the tag buffer. -/
def MbrTag.serialize (i : Codec UInt8) (tag : MbrTag) : List UInt8 :=
  i.write tag.relayflag ++ (i.array 6).write tag.relayMac

/-- `MbrTag::Deserialize`. -/
def MbrTag.deserialize (i : Codec UInt8) : Reader MbrTag := do
  let relayflag ← i.read
  let relayMac ← (i.array 6).read
  return ⟨relayflag, relayMac⟩

/-- `RemovePacketTag`. -/
def Packet.removePacketTag (packet : Packet) : Packet := { packet with mbrTag := none }

/-- `AddPacketTag`, which asserts that the packet has no tag of the type. The packet keeps the
    bytes of the tag, and so what is read out of them. -/
def Packet.addPacketTag (i : Codec UInt8) (packet : Packet) (tag : MbrTag) :
    Except Fault Packet :=
  if packet.mbrTag.isSome then .error .assertFailed
  else .ok { packet with mbrTag := ((MbrTag.deserialize i).run (tag.serialize i)).map (·.1) }

def Packet.addHeader (packet : Packet) (hdr : List UInt8) : Packet :=
  { packet with bytes := hdr ++ packet.bytes }

/-! ## `Send` -/

/-- What `Send` uses of `Ipv4Address` and of the tag buffer. -/
structure Ipv4Env where
  isBroadcast : UInt32 → Bool
  isMulticast : UInt32 → Bool
  isSubnetDirectedBroadcast : UInt32 → UInt32 → Bool
  tagBuffer : Codec UInt8

/-- These parts of ns-3. -/
def Ipv4Env.ns3 : Ipv4Env where
  isBroadcast dest := dest == 0xffffffff
  isMulticast dest := decide (0xe0000000 ≤ dest ∧ dest ≤ 0xefffffff)
  isSubnetDirectedBroadcast dest mask := mask != 0xffffffff && dest ||| mask == 0xffffffff
  tagBuffer := .word 1 UInt8.toNat UInt8.ofNat (fun a => a.toNat_lt) fun _ => UInt8.ofNat_toNat

/-- What it uses of a `NetDevice`. -/
structure NetDevice where
  isLoopback : Bool
  needsArp : Bool
  isMulticast : Bool
  broadcast : Mac48Address
  multicast : UInt32 → Mac48Address

/-- `class Ipv4InterfaceAddress`. -/
structure Ipv4InterfaceAddress where
  localAddr : UInt32
  mask : UInt32

/-- `class Ipv4Interface`. `tc` says whether the pointer to the traffic control layer is set,
    and `arpLookup` is what the address resolution finds in the cache of the interface. -/
structure Ipv4Interface where
  ifup : Bool
  device : NetDevice
  tc : Bool
  ifaddrs : List Ipv4InterfaceAddress
  arpLookup : UInt32 → Option Mac48Address

/-- The arguments of `mbr_forward` apart from the destination, and the static variables that
    it reads. -/
structure MbrCall (K : Type) where
  sumomap : MbrSumo K
  memory : Addr
  now : Int
  thisnode : MbrNode K
  route : MbrRoute

/-- What the arrays `to_mac` and `relay_mac` of `Send` hold at first. -/
structure SendMemory where
  toMac : Mac48Address
  relayMac : Mac48Address

/-- `class Ipv4QueueDiscItem`. -/
structure Ipv4QueueDiscItem where
  packet : Packet
  address : Mac48Address
  hdr : List UInt8
  deriving DecidableEq, Repr

/-- Where `Send` leaves the packet. -/
inductive Handover where
  | nowhere
  | loopback (packet : Packet)
  | receive (packet : Packet)
  | trafficControl (item : Ipv4QueueDiscItem)
  /-- The packet waits for its address to be resolved. -/
  | arpQueue (packet : Packet) (hdr : List UInt8)
  deriving DecidableEq, Repr

/-- The packet that leaves the station, now or once its address is resolved. -/
def Handover.outgoing : Handover → Option Packet
  | .trafficControl item => some item.packet
  | .arpQueue packet _ => some packet
  | .nowhere | .loopback _ | .receive _ => none

variable {K : Type} [Field K] [LinearOrder K] [FloorRing K]

def MbrCall.forward (call : MbrCall K) (dest : UInt32) : Except Fault (MbrRoute × Forward) :=
  mbrForward call.sumomap call.memory call.now call.thisnode call.route dest

namespace Ipv4Interface

/-- The loop over the addresses of the interface that both parts of `Send` contain. -/
def isSubnetBroadcast (env : Ipv4Env) (i : Ipv4Interface) (dest : UInt32) : Bool :=
  i.ifaddrs.any fun addr => env.isSubnetDirectedBroadcast dest addr.mask

/-- The block of `Send` that asks for a relay: the packet, and the item that is sent if there
    is a relay. -/
def sendByMbr (env : Ipv4Env) (i : Ipv4Interface) (call : MbrCall K) (memory : SendMemory)
    (p : Packet) (hdr : List UInt8) (dest : UInt32) :
    Except Fault (MbrRoute × Packet × Option Ipv4QueueDiscItem) :=
  if i.isSubnetBroadcast env dest then .ok (call.route, p, none)
  else do
    let (route, forward) ← call.forward dest
    let p := if p.mbrTag.isSome then p.removePacketTag else p
    if forward.ret = 0 then do
      let p ← p.addPacketTag env.tagBuffer ⟨1, forward.relayMac.getD memory.relayMac⟩
      return (route, p, some ⟨p, forward.toMac.getD memory.toMac, hdr⟩)
    else return (route, p, none)

/-- The rest of `Send`, with and without address resolution. -/
def sendDirectly (env : Ipv4Env) (i : Ipv4Interface) (p : Packet) (hdr : List UInt8)
    (dest : UInt32) : Except Fault Handover :=
  if i.device.needsArp then
    if env.isBroadcast dest then .ok (.trafficControl ⟨p, i.device.broadcast, hdr⟩)
    else if env.isMulticast dest then
      if i.device.isMulticast then .ok (.trafficControl ⟨p, i.device.multicast dest, hdr⟩)
      else .error .assertFailed
    else if i.isSubnetBroadcast env dest then
      .ok (.trafficControl ⟨p, i.device.broadcast, hdr⟩)
    else
      match i.arpLookup dest with
      | some address => .ok (.trafficControl ⟨p, address, hdr⟩)
      | none => .ok (.arpQueue p hdr)
  else .ok (.trafficControl ⟨p, i.device.broadcast, hdr⟩)

/-- `Send`. -/
def send (env : Ipv4Env) (i : Ipv4Interface) (call : MbrCall K) (memory : SendMemory)
    (p : Packet) (hdr : List UInt8) (dest : UInt32) : Except Fault (MbrRoute × Handover) :=
  if i.ifup = false then .ok (call.route, .nowhere)
  else if i.device.isLoopback then .ok (call.route, .loopback (p.addHeader hdr))
  else if i.tc = false then .error .assertFailed
  else if i.ifaddrs.any (dest == ·.localAddr) then .ok (call.route, .receive (p.addHeader hdr))
  else do
    let (route, p, item) ←
      if ¬ env.isBroadcast dest ∧ ¬ env.isMulticast dest then
        sendByMbr env i call memory p hdr dest
      else pure (call.route, p, none)
    match item with
    | some item => return (route, .trafficControl item)
    | none =>
      let handover ← sendDirectly env i p hdr dest
      return (route, handover)

end Ipv4Interface

end MapRelay.NS3
