import MapRelay.Native.WifiMacHeader

/-!
# Relaying in the MAC layer (`ocb-wifi-mac.cc`)

A packet that the routing layer has tagged with a relay goes to the relay as an MBR data
frame, with the real destination in the fourth address. The relay sends it on as a plain
data frame. What the two functions do to the queues and to the rate control is left out:
queueing a frame means transmitting it.
-/

namespace MapRelay.NS3

/-- `class MbrTag`. -/
structure MbrTag where
  relayflag : UInt8
  relayMac : Mac48Address
  deriving DecidableEq, Repr

/-- `isRelaying`, as a condition. -/
def MbrTag.isRelaying (tag : MbrTag) : Bool := tag.relayflag != 0

/-- A packet: its bytes and its `MbrTag`, if it has one. -/
structure Packet where
  bytes : List UInt8
  mbrTag : Option MbrTag
  deriving DecidableEq, Repr

/-- `PeekPacketTag` into a new `MbrTag`, whose address is what `memory` held. -/
def Packet.peekMbrTag (packet : Packet) (memory : Mac48Address) : MbrTag :=
  packet.mbrTag.getD ⟨0, memory⟩

/-- `WILDCARD_BSSID`. -/
def wildcardBssid : Mac48Address := Mac48Address.broadcast

/-- The attributes of an `OcbWifiMac` that its functions read. -/
structure OcbWifiMac where
  address : Mac48Address
  htSupported : Bool
  vhtSupported : Bool
  deriving DecidableEq, Repr

/-- What the local variables `hdr` and `mbrtag` of `Enqueue` hold before their constructors
    run. -/
structure StackMemory where
  hdr : WifiMacHeader
  relayMac : Mac48Address

/-- `Enqueue`: the header with which the packet is queued. -/
def OcbWifiMac.enqueue (mac : OcbWifiMac) (memory : StackMemory) (packet : Packet)
    (dest : Mac48Address) : WifiMacHeader :=
  let hdr := WifiMacHeader.create memory.hdr
  let mbrtag := packet.peekMbrTag memory.relayMac
  let hdr :=
    -- To the relay, with the destination in the fourth address; or straight to the destination
    if mbrtag.isRelaying then
      (((((hdr.setTypeMBRData.setAddr1 mbrtag.relayMac).setAddr2 mac.address).setAddr3
        wildcardBssid).setAddr4 dest).setDsNotFrom).setDsNotTo
    else
      ((((hdr.setTypeData.setAddr1 dest).setAddr2 mac.address).setAddr3
        wildcardBssid).setDsNotFrom).setDsNotTo
  if mac.htSupported || mac.vhtSupported then hdr.setNoOrder else hdr

/-- What `Receive` does with a frame. -/
inductive Reception where
  | assertFailed
  | deaggregateAmsdu
  | queue (packet : Packet) (hdr : WifiMacHeader)
  | forwardUp (packet : Packet) (source dest : Mac48Address)
  /-- Management frames, and the receive handler of the parent class. -/
  | management
  deriving DecidableEq, Repr

/-- The header `hdr_relay` with which `Receive` sends an MBR data frame on. -/
def OcbWifiMac.hdrRelay (mac : OcbWifiMac) (hdr : WifiMacHeader) : WifiMacHeader :=
  ((((hdr.setTypeData.setAddr1 hdr.addr4).setAddr2 mac.address).setAddr3
    wildcardBssid).setDsNotFrom).setDsNotTo

/-- `Receive`. -/
def OcbWifiMac.receive (mac : OcbWifiMac) (packet : Packet) (hdr : WifiMacHeader) : Reception :=
  -- The two assertions at the start
  if hdr.isCtl || hdr.addr3 != wildcardBssid then .assertFailed
  else if hdr.isData then
    if hdr.isQosData && hdr.isQosAmsdu then .deaggregateAmsdu
    else if hdr.isMBRData then .queue packet (mac.hdrRelay hdr)
    else .forwardUp packet hdr.addr2 hdr.addr1
  else .management

/-! ## The stations and the air between them -/

/-- A frame in the air. `id` is the number of the `Enqueue` call that the packet came from. -/
structure Frame where
  id : Nat
  packet : Packet
  hdr : WifiMacHeader

/-- A packet that was forwarded up at a station. -/
structure Delivery where
  id : Nat
  station : Mac48Address
  packet : Packet
  source : Mac48Address
  dest : Mac48Address

/-- The frame a station transmits is received as `rx`: the lower layers fill in sequence
    number, duration and flags, and the fourth address is part of MBR data frames only. -/
structure WifiMacHeader.ReceivedAs (hdr rx : WifiMacHeader) : Prop where
  ctrlType : rx.ctrlType = hdr.ctrlType
  ctrlSubtype : rx.ctrlSubtype = hdr.ctrlSubtype
  addr1 : rx.addr1 = hdr.addr1
  addr2 : rx.addr2 = hdr.addr2
  addr3 : rx.addr3 = hdr.addr3
  addr4 : hdr.isMBRData = true → rx.addr4 = hdr.addr4

/-- A call of `Enqueue`. -/
structure Enqueued where
  sender : OcbWifiMac
  packet : Packet
  dest : Mac48Address

/-- The frames in the air, the packets forwarded up, the relay transmissions (message and
    station), and the calls of `Enqueue` so far. -/
structure Air where
  inFlight : List Frame
  up : List Delivery
  relayed : List (Nat × Mac48Address)
  enqueued : List Enqueued

/-- Nothing has been sent. -/
def Air.silent : Air := ⟨[], [], [], []⟩

/-- What happens on the air: a packet is enqueued, or a frame is received. -/
inductive AirEvent where
  | enqueue (call : Enqueued) (memory : StackMemory)
  | receive (frame : Frame) (rx : WifiMacHeader)

/-- The packet may be handed to `Enqueue`: its destination is a station, and so is its relay,
    if it has one, which is neither the destination nor the sender. -/
def Enqueued.Admissible (stations : Mac48Address → Option OcbWifiMac) (call : Enqueued) : Prop :=
  stations call.sender.address = some call.sender ∧ (stations call.dest).isSome ∧
    ∀ tag, call.packet.mbrTag = some tag → tag.isRelaying = true →
      (stations tag.relayMac).isSome ∧ tag.relayMac ≠ call.dest ∧
        tag.relayMac ≠ call.sender.address

/-- The events in any order. A frame is received once, by the station its first address
    names; what `Receive` queues there is in the air again. -/
inductive AirStep (stations : Mac48Address → Option OcbWifiMac) : Air → AirEvent → Air → Prop where
  | enqueue {a : Air} {call : Enqueued} {memory : StackMemory}
      (hcall : call.Admissible stations) :
      AirStep stations a (.enqueue call memory)
        { a with
          inFlight := a.inFlight ++
            [⟨a.enqueued.length, call.packet, call.sender.enqueue memory call.packet call.dest⟩]
          enqueued := a.enqueued ++ [call] }
  | forwardUp {a : Air} {l₁ l₂ : List Frame} {frame : Frame} {rx : WifiMacHeader}
      {mac : OcbWifiMac} {packet : Packet} {source dest : Mac48Address}
      (hflight : a.inFlight = l₁ ++ frame :: l₂) (hrx : frame.hdr.ReceivedAs rx)
      (hmac : stations frame.hdr.addr1 = some mac)
      (hreceive : mac.receive frame.packet rx = .forwardUp packet source dest) :
      AirStep stations a (.receive frame rx)
        { a with
          inFlight := l₁ ++ l₂
          up := a.up ++ [⟨frame.id, frame.hdr.addr1, packet, source, dest⟩] }
  | queue {a : Air} {l₁ l₂ : List Frame} {frame : Frame} {rx : WifiMacHeader}
      {mac : OcbWifiMac} {packet : Packet} {hdr : WifiMacHeader}
      (hflight : a.inFlight = l₁ ++ frame :: l₂) (hrx : frame.hdr.ReceivedAs rx)
      (hmac : stations frame.hdr.addr1 = some mac)
      (hreceive : mac.receive frame.packet rx = .queue packet hdr) :
      AirStep stations a (.receive frame rx)
        { a with
          inFlight := l₁ ++ l₂ ++ [⟨frame.id, packet, hdr⟩]
          relayed := a.relayed ++ [(frame.id, frame.hdr.addr1)] }
  | other {a : Air} {l₁ l₂ : List Frame} {frame : Frame} {rx : WifiMacHeader}
      {mac : OcbWifiMac}
      (hflight : a.inFlight = l₁ ++ frame :: l₂) (hrx : frame.hdr.ReceivedAs rx)
      (hmac : stations frame.hdr.addr1 = some mac)
      (hreceive : mac.receive frame.packet rx ∈
        [.assertFailed, .deaggregateAmsdu, .management]) :
      AirStep stations a (.receive frame rx) { a with inFlight := l₁ ++ l₂ }

end MapRelay.NS3
