import MapRelay.Native.MbrNeighborApp
import MapRelay.Native.Ipv4Interface
import MapRelay.Spec.RelayTag

/-!
# Vehicles that relay for each other

The stack of a vehicle from `Ipv4Interface` down to the bytes of the frames. Which relay a packet
gets is decided by `mbr_forward` on the neighbour table that the beacons of the other vehicles
have filled; the relay reads it off the header of the frame that it hears. Between the MAC layers
are `MacLow` and the radio: they fill in the header and carry each frame once to the station of
its first address.
-/

namespace MapRelay.NS3

open ForStd

/-- What `MacLow` transmits for a header: it fills in the sequence number, the duration and the
    flags with values that fit, and leaves the type and the addresses. -/
structure WifiMacHeader.SentAs (hdr tx : WifiMacHeader) : Prop where
  fit : tx.FieldsFit
  ctrlType : tx.ctrlType = hdr.ctrlType
  ctrlSubtype : tx.ctrlSubtype = hdr.ctrlSubtype
  addr1 : tx.addr1 = hdr.addr1
  addr2 : tx.addr2 = hdr.addr2
  addr3 : tx.addr3 = hdr.addr3
  addr4 : tx.addr4 = hdr.addr4

/-- The packet that comes to the MAC layer, behind the header of the network layer and one of the
    link layer, and the address for which it comes. A packet that waited goes to the address that
    was found in the end. -/
def Handover.Enqueues : Handover → Packet → Mac48Address → Prop
  | .trafficControl item, q, address =>
    (∃ llc, q = ⟨llc ++ (item.hdr ++ item.packet.bytes), item.packet.mbrTag⟩) ∧
      address = item.address
  | .arpQueue packet hdr, q, _ => ∃ llc, q = ⟨llc ++ (hdr ++ packet.bytes), packet.mbrTag⟩
  | .nowhere, _, _ | .loopback _, _, _ | .receive _, _, _ => False

/-- Vehicles with a map, which is the one their beacons use, and with addresses that are not given
    twice. -/
structure RelayVehicles (V K : Type) extends Vehicles V K where
  htSupported : V → Bool
  vhtSupported : V → Bool
  sumomap : MbrSumo K
  ipv4 : Ipv4Env
  iterator : WifiMacHeader.Iterator
  sumo_eq : env.sumo = sumomap.sumo
  mac_injective : ∀ v w, (app v).mac = (app w).mac → v = w

/-- The MAC layer of a vehicle. -/
def RelayVehicles.station {V K : Type} (R : RelayVehicles V K) (v : V) : OcbWifiMac :=
  ⟨(R.app v).mac, R.htSupported v, R.vhtSupported v⟩

/-- A frame in the air, as bytes. `id` is the number of the packet, and its tag stays with it. -/
structure WireFrame where
  id : Nat
  wire : List UInt8
  mbrTag : Option MbrTag

/-- A packet that was handed to the MAC layer: who sent it and to whom, the packet with its
    headers and its link address, and what `mbr_forward` had decided. -/
structure Posted (V : Type) where
  sender : V
  dest : UInt32
  packet : Packet
  address : Mac48Address
  forward : Forward

/-- The vehicles with their beacons, the static variables of `MbrRoute`, the frames in the air,
    and what was forwarded up, relayed and posted so far. -/
structure RelayState (V K : Type) where
  waves : WaveState V K
  route : MbrRoute
  inFlight : List WireFrame
  up : List Delivery
  relayed : List (Nat × Mac48Address)
  posted : List (Posted V)

def RelayState.initial (V K : Type) (now : Int) : RelayState V K :=
  ⟨.initial V K now, .initial, [], [], [], []⟩

/-- The call of `mbr_forward` that a vehicle makes now. -/
def RelayVehicles.call {V K : Type} (R : RelayVehicles V K) (s : RelayState V K) (v : V)
    (memory : Addr) : MbrCall K where
  sumomap := R.sumomap
  memory := memory
  now := s.waves.now
  thisnode := ⟨(R.position v s.waves.now).1, (R.position v s.waves.now).2,
    some (s.waves.tables v)⟩
  route := s.route

/-- What happens: something with the beacons, a packet is sent, or a frame is received. -/
inductive RelayEvent (V : Type) where
  | wave (event : WaveEvent V)
  | send (v : V)
  | receive (frame : WireFrame)

section Step

variable {V K : Type} [DecidableEq V] [Field K] [LinearOrder K] [FloorRing K]

/-- The events in any order. A packet for which no relay was found goes to an address that the
    address resolution has found, which is a vehicle's. A frame is received once, by the vehicle
    whose address its header names. -/
inductive RelayStep (R : RelayVehicles V K) :
    RelayState V K → RelayEvent V → RelayState V K → Prop where
  | wave {s : RelayState V K} {event : WaveEvent V} {waves : WaveState V K}
      (hwave : WaveStep R.toVehicles s.waves event waves) :
      RelayStep R s (.wave event) { s with waves }
  | send {s : RelayState V K} {v : V} {iface : Ipv4Interface} {pointer : Addr}
      {memory : SendMemory} {p q : Packet} {hdr bytes : List UInt8} {dest : UInt32}
      {route : MbrRoute} {forward : Forward} {handover : Handover} {address : Mac48Address}
      {stack : StackMemory} {tx : WifiMacHeader}
      (hforwards : Ipv4Interface.Forwards R.ipv4 iface dest)
      (hforward : (R.call s v pointer).forward dest = .ok (route, forward))
      (hsend : iface.send R.ipv4 (R.call s v pointer) memory p hdr dest = .ok (route, handover))
      (henqueues : handover.Enqueues q address)
      (haddress : forward.ret ≠ 0 → ∃ u, (R.app u).mac = address)
      (hsent : ((R.station v).enqueue stack q address).SentAs tx)
      (hwire : tx.serialize R.iterator = .ok bytes) :
      RelayStep R s (.send v) { s with
        route := route
        inFlight := s.inFlight ++ [⟨s.posted.length, bytes ++ q.bytes, q.mbrTag⟩]
        posted := s.posted ++ [⟨v, dest, q, address, forward⟩] }
  | forwardUp {s : RelayState V K} {before after : List WireFrame} {frame : WireFrame} {v : V}
      {memory rx : WifiMacHeader} {n : Nat} {rest : List UInt8} {packet : Packet}
      {source dest : Mac48Address} (hair : s.inFlight = before ++ frame :: after)
      (hread : (memory.deserialize R.iterator).run frame.wire = some ((rx, n), rest))
      (hstation : rx.addr1 = (R.app v).mac)
      (hreceive : (R.station v).receive ⟨rest, frame.mbrTag⟩ rx =
        .forwardUp packet source dest) :
      RelayStep R s (.receive frame) { s with
        inFlight := before ++ after
        up := s.up ++ [⟨frame.id, (R.app v).mac, packet, source, dest⟩] }
  | relay {s : RelayState V K} {before after : List WireFrame} {frame : WireFrame} {v : V}
      {memory rx hdr tx : WifiMacHeader} {n : Nat} {rest bytes : List UInt8} {packet : Packet}
      (hair : s.inFlight = before ++ frame :: after)
      (hread : (memory.deserialize R.iterator).run frame.wire = some ((rx, n), rest))
      (hstation : rx.addr1 = (R.app v).mac)
      (hreceive : (R.station v).receive ⟨rest, frame.mbrTag⟩ rx = .queue packet hdr)
      (hsent : hdr.SentAs tx) (hwire : tx.serialize R.iterator = .ok bytes) :
      RelayStep R s (.receive frame) { s with
        inFlight := before ++ after ++ [⟨frame.id, bytes ++ packet.bytes, packet.mbrTag⟩]
        relayed := s.relayed ++ [(frame.id, (R.app v).mac)] }
  | drop {s : RelayState V K} {before after : List WireFrame} {frame : WireFrame} {v : V}
      {memory rx : WifiMacHeader} {n : Nat} {rest : List UInt8}
      (hair : s.inFlight = before ++ frame :: after)
      (hread : (memory.deserialize R.iterator).run frame.wire = some ((rx, n), rest))
      (hstation : rx.addr1 = (R.app v).mac)
      (hreceive : (R.station v).receive ⟨rest, frame.mbrTag⟩ rx ∈
        [.assertFailed, .deaggregateAmsdu, .management]) :
      RelayStep R s (.receive frame) { s with inFlight := before ++ after }

end Step

end MapRelay.NS3
