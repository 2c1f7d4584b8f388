import Mathlib.Data.Rat.Floor
import Mathlib.Tactic.FinCases
import MapRelay.Native.RelayNetwork
import MapRelay.Spec.Beaconing
import MapRelay.Spec.RelayMac

/-!
# A packet reaches its destination once, over the relay that was chosen for it

The frames of the vehicles are those of the protocol in `RelayMac`, written as bytes: what
`Deserialize` reads is what the relay needs to send the packet on. That the relay is another
vehicle than the sender and the destination, which `RelayMac` assumes, follows from what beacons
leave in a neighbour table.
-/

namespace MapRelay.NS3

open ForStd

/-! ## From headers to bytes -/

namespace WifiMacHeader

variable {i : Iterator} {hdr tx rx : WifiMacHeader}

/-- A data frame is read back with the fields that it carries, and its payload is what is left. -/
private theorem data_read_back (h : hdr.FieldsFit) (hdata : hdr.ctrlType = typeData)
    (htype : hdr.macType ∈ macTypes) :
    ∃ bytes, hdr.serialize i = .ok bytes ∧ ∀ h₀ rest, ∃ rx n,
      (deserialize i h₀).run (bytes ++ rest) = some ((rx, n), rest) ∧ hdr.RestoredIn rx := by
  obtain ⟨body, hwrite, -, hread⟩ := bodyRoundTrip_data (i := i) h hdata
  refine ⟨i.htolsbU16.write hdr.getFrameControl ++
    (i.htolsbU16.write hdr.duration ++ (i.address.write hdr.addr1 ++ body)), ?_, ?_⟩
  · rw [serialize, hwrite]
    rfl
  · intro h₀ rest
    obtain ⟨rx, hrun, hrx⟩ := run_deserialize h htype h₀ fun h₁ => hread h₁ rest
    exact ⟨rx, _, hrun, hrx⟩

/-- What is filled in on the way out and read on the way in leaves type and addresses alone. -/
theorem SentAs.received (hsent : hdr.SentAs tx) (hdata : hdr.ctrlType = typeData)
    (hrx : tx.RestoredIn rx) : hdr.ReceivedAs rx where
  ctrlType := hrx.ctrlType.trans hsent.ctrlType
  ctrlSubtype := hrx.ctrlSubtype.trans hsent.ctrlSubtype
  addr1 := hrx.addr1.trans hsent.addr1
  addr2 := by
    -- A data frame is neither an ACK nor a CTS, the two kinds without a second address
    have hno : tx.macType ∉ [(typeCtl, 12), (typeCtl, 13)] := by
      have htype := hsent.ctrlType.trans hdata
      simp [macType, htype, typeData, typeCtl]
    exact (hrx.addr2 hno).trans hsent.addr2
  addr3 := by
    -- Nor is it a control frame, which would lack the third
    have hno : tx.ctrlType ≠ typeCtl := by
      rw [hsent.ctrlType, hdata]
      decide
    exact (hrx.addr3 hno).trans hsent.addr3
  addr4 hmbr := by
    -- The fourth address is there when the frame is one of the MBR module
    have htx : tx.isMBRData = true := by
      rw [isMBRData, hsent.ctrlType, hsent.ctrlSubtype]
      exact hmbr
    exact (hrx.addr4 (.inl htx)).trans hsent.addr4

/-- There is always something to fill in. -/
private theorem exists_sentAs (hdr : WifiMacHeader) : ∃ tx, hdr.SentAs tx :=
  ⟨{ relayedFrame with
      ctrlType := hdr.ctrlType
      ctrlSubtype := hdr.ctrlSubtype
      addr1 := hdr.addr1
      addr2 := hdr.addr2
      addr3 := hdr.addr3
      addr4 := hdr.addr4 }, ⟨{ relayedFrame_fit with }, rfl, rfl, rfl, rfl, rfl, rfl⟩⟩

end WifiMacHeader

/-- The two kinds of frames that are in the air. -/
def IsRelayed (hdr : WifiMacHeader) : Prop :=
  hdr.ctrlType = WifiMacHeader.typeData ∧ (hdr.ctrlSubtype = 0 ∨ hdr.ctrlSubtype = 16)

/-- A frame of the two kinds is sent with a type that can be set. -/
theorem IsRelayed.macType {hdr tx : WifiMacHeader} (h : IsRelayed hdr) (hsent : hdr.SentAs tx) :
    tx.ctrlType = WifiMacHeader.typeData ∧ tx.macType ∈ WifiMacHeader.macTypes := by
  obtain ⟨htype, hsub⟩ := h
  have htx := hsent.ctrlType.trans htype
  refine ⟨htx, ?_⟩
  rcases hsub with hsub | hsub
  · rw [WifiMacHeader.macType, htx, hsent.ctrlSubtype, hsub]
    decide
  · rw [WifiMacHeader.macType, htx, hsent.ctrlSubtype, hsub]
    decide

/-- `Enqueue` makes frames of the two kinds. -/
private theorem isRelayed_enqueue (mac : OcbWifiMac) (memory : StackMemory) (packet : Packet)
    (dest : Mac48Address) : IsRelayed (mac.enqueue memory packet dest) := by
  have hheader := enqueue_header mac memory packet dest
  cases hrelay : packet.relayOf with
  | some relay =>
    rw [hrelay] at hheader
    exact ⟨hheader.ctrlType, .inr hheader.ctrlSubtype⟩
  | none =>
    rw [hrelay] at hheader
    exact ⟨hheader.ctrlType, .inl hheader.ctrlSubtype⟩

/-- The bytes of a frame: its header as `MacLow` has filled it in, and its packet. -/
structure Carries (i : WifiMacHeader.Iterator) (w : WireFrame) (f : Frame) : Prop where
  id : w.id = f.id
  mbrTag : w.mbrTag = f.packet.mbrTag
  kind : IsRelayed f.hdr
  wire : ∃ tx bytes, f.hdr.SentAs tx ∧ tx.serialize i = .ok bytes ∧
    w.wire = bytes ++ f.packet.bytes

/-- Whoever reads the bytes has the packet, and the header as `ReceivedAs` says. -/
theorem Carries.read {i : WifiMacHeader.Iterator} {w : WireFrame} {f : Frame}
    (h : Carries i w f) (memory : WifiMacHeader) :
    ∃ rx n, (memory.deserialize i).run w.wire = some ((rx, n), f.packet.bytes) ∧
      f.hdr.ReceivedAs rx := by
  obtain ⟨tx, bytes, hsent, hbytes, hwire⟩ := h.wire
  obtain ⟨htype, hmem⟩ := h.kind.macType hsent
  obtain ⟨bytes', hbytes', hread⟩ := WifiMacHeader.data_read_back (i := i) hsent.fit htype hmem
  cases hbytes.symm.trans hbytes'
  obtain ⟨rx, n, hrun, hrx⟩ := hread memory f.packet.bytes
  refine ⟨rx, n, ?_, hsent.received h.kind.1 hrx⟩
  rw [hwire]
  exact hrun

/-- Every frame can be written. -/
private theorem exists_wire (i : WifiMacHeader.Iterator) {hdr : WifiMacHeader} (h : IsRelayed hdr) :
    ∃ tx bytes, hdr.SentAs tx ∧ tx.serialize i = .ok bytes := by
  obtain ⟨tx, hsent⟩ := hdr.exists_sentAs
  obtain ⟨htype, hmem⟩ := h.macType hsent
  obtain ⟨bytes, hbytes, -⟩ := WifiMacHeader.data_read_back (i := i) hsent.fit htype hmem
  exact ⟨tx, bytes, hsent, hbytes⟩

/-! ## What is posted -/

variable {V K : Type} {R : RelayVehicles V K} {s s' : RelayState V K} {waves waves' : WaveState V K}

/-- What a relay is good for: it is a vehicle that the sender has heard, as it has heard the
    destination, and it is neither of the two. -/
structure Relays (R : RelayVehicles V K) (waves : WaveState V K) (m : Posted V) (u v : V) :
    Prop where
  relay_ne_sender : u ≠ m.sender
  relay_ne_dest : u ≠ v
  dest : m.dest = (R.app v).ipOrigin
  address : m.address = (R.app v).mac
  relayOf : m.packet.relayOf = some (R.app u).mac
  heard_relay : ∃ t, Reaches R.toVehicles waves u m.sender t
  heard_dest : ∃ t, Reaches R.toVehicles waves v m.sender t

/-- A packet has a relay exactly if `mbr_forward` has found one, and without one it goes to the
    address of a vehicle. -/
def Decided (R : RelayVehicles V K) (waves : WaveState V K) (m : Posted V) : Prop :=
  (m.forward.ret = 0 ∧ ∃ u v, Relays R waves m u v) ∨
    (m.forward.ret ≠ 0 ∧ m.packet.relayOf = none ∧ ∃ v, m.address = (R.app v).mac)

/-- What has been decided stays so when more beacons are sent. -/
theorem Decided.mono {m : Posted V} (h : Decided R waves m)
    (hsent : ∀ v, waves.sent v ⊆ waves'.sent v) : Decided R waves' m := by
  rcases h with ⟨hret, u, v, h⟩ | h
  · obtain ⟨t, hu, hreach⟩ := h.heard_relay
    obtain ⟨t', hv, hreach'⟩ := h.heard_dest
    exact .inl ⟨hret, u, v, { h with
      heard_relay := ⟨t, hsent u hu, hreach⟩
      heard_dest := ⟨t', hsent v hv, hreach'⟩ }⟩
  · exact .inr h

/-! ## The vehicles as stations -/

open Classical in
/-- The station with an address, if it is that of a vehicle. -/
noncomputable def RelayVehicles.stations (R : RelayVehicles V K) (address : Mac48Address) :
    Option OcbWifiMac :=
  if h : ∃ v, (R.app v).mac = address then some (R.station h.choose) else none

/-- A vehicle is the station with its address. -/
private theorem stations_mac (R : RelayVehicles V K) (v : V) :
    R.stations (R.app v).mac = some (R.station v) := by
  have hex : ∃ u, (R.app u).mac = (R.app v).mac := ⟨v, rfl⟩
  rw [RelayVehicles.stations, dif_pos hex, R.mac_injective _ _ hex.choose_spec]

/-- Every station is a vehicle. -/
private theorem exists_of_stations {address : Mac48Address} {mac : OcbWifiMac}
    (h : R.stations address = some mac) : ∃ v, (R.app v).mac = address ∧ mac = R.station v := by
  unfold RelayVehicles.stations at h
  split at h
  · next hex => exact ⟨_, hex.choose_spec, (Option.some.inj h).symm⟩
  · cases h

/-- The call of `Enqueue` for a packet. -/
def Posted.call (R : RelayVehicles V K) (m : Posted V) : Enqueued :=
  ⟨R.station m.sender, m.packet, m.address⟩

/-- What `RelayMac` asks of a call. -/
theorem Decided.admissible {m : Posted V} (h : Decided R waves m) :
    (m.call R).Admissible R.stations := by
  refine ⟨stations_mac R m.sender, ?_, fun tag htag hrelaying => ?_⟩
  -- The address is that of a vehicle or the broadcast one
  · show (R.stations m.address).isSome
    rcases h with ⟨-, u, v, h⟩ | ⟨-, -, v, haddress⟩
    · rw [h.address, stations_mac]
      rfl
    · rw [haddress, stations_mac]
      rfl
  -- With a tag the packet goes over a relay, which the decision has chosen
  · have hrelayOf : m.packet.relayOf = some tag.relayMac := by
      have htag : m.packet.mbrTag = some tag := htag
      simp [Packet.relayOf, htag, hrelaying]
    rcases h with ⟨-, u, v, h⟩ | ⟨-, hnone, -⟩
    · have hmac : tag.relayMac = (R.app u).mac :=
        Option.some.inj (hrelayOf.symm.trans h.relayOf)
      rw [hmac]
      -- The relay is a station, and neither the receiver nor the sender
      refine ⟨?_, fun heq => ?_, fun heq => ?_⟩
      · rw [stations_mac]
        rfl
      · exact h.relay_ne_dest (R.mac_injective _ _ (heq.trans h.address))
      · exact h.relay_ne_sender (R.mac_injective _ _ heq)
    · rw [hnone] at hrelayOf
      cases hrelayOf

/-! ## The relay that is chosen -/

variable [Field K] [LinearOrder K] [FloorRing K]

/-- A relay and the destination are two entries of the table. -/
private theorem mbrForward_relay {sumomap : MbrSumo K} {memory : Addr} {now : Int}
    {thisnode : MbrNode K} {route route' : MbrRoute} {dest : UInt32} {out : Forward}
    (hnodup : ∀ nb, thisnode.nb = some nb → (nb.map Neighbor.ipAddress).Nodup)
    (hrun : mbrForward sumomap memory now thisnode route dest = .ok (route', out))
    (hret : out.ret = 0) :
    ∃ nb dst relay, thisnode.nb = some nb ∧ dst ∈ nb ∧ relay ∈ nb ∧ dst.ipAddress = dest ∧
      relay.ipAddress ≠ dest ∧ out.toMac = some dst.hardwareAddress ∧
      out.relayMac = some relay.hardwareAddress := by
  rcases mbrForward_cases hnodup hrun with ⟨hminus, -⟩ |
    ⟨nb, dst, list, hdecides, -, ⟨-, hminus, -⟩ | ⟨-, hloop⟩⟩
  · rw [hret] at hminus
    cases hminus
  · rw [hret] at hminus
    cases hminus
  · rcases forwardLoop_cases hloop with ⟨p, relay, hrelay, rfl, -⟩ | ⟨rfl, -⟩
    · have hdst := (List.mem_filter.mp hdecides.dst_mem).1
      have hmem := (List.mem_filter.mp hrelay.relay_mem).1
      refine ⟨nb, dst, relay, hdecides.table, hdst, hmem, hdecides.dst_ip, ?_, rfl, rfl⟩
      intro hip
      -- The relay is in a zone in which the destination is not
      have hsame : relay = dst := List.inj_on_of_nodup_map (hnodup nb hdecides.table) hmem hdst
        (hip.trans hdecides.dst_ip.symm)
      obtain ⟨v, -, hin, hout, -⟩ := hrelay.zone
      rw [hsame] at hin
      exact hout hin
    · cases hret

/-- What `Send` makes of the decision of `mbr_forward` on a table that beacons have filled. -/
private theorem decided_of_send (hwaves : WaveOk R.toVehicles s.waves) {v : V}
    {iface : Ipv4Interface}
    {pointer : Addr} {memory : SendMemory} {p q : Packet} {hdr : List UInt8} {dest : UInt32}
    {route : MbrRoute} {forward : Forward} {handover : Handover} {address : Mac48Address}
    (hforwards : Ipv4Interface.Forwards R.ipv4 iface dest)
    (hforward : (R.call s v pointer).forward dest = .ok (route, forward))
    (hsend : iface.send R.ipv4 (R.call s v pointer) memory p hdr dest = .ok (route, handover))
    (henqueues : handover.Enqueues q address)
    (haddress : forward.ret ≠ 0 → ∃ u, (R.app u).mac = address) :
    Decided R s.waves ⟨v, dest, q, address, forward⟩ := by
  by_cases hret : forward.ret = 0
  · -- The tag and the address are those of two entries
    have hnodup : ∀ nb, (R.call s v pointer).thisnode.nb = some nb →
        (nb.map Neighbor.ipAddress).Nodup := by
      intro nb hnb
      cases hnb
      exact (hwaves.table v).nodup
    obtain ⟨nb, dst, relay, hnb, hdst, hrelay, hip, hne, hto, hrelayMac⟩ :=
      mbrForward_relay hnodup hforward hret
    cases hnb
    obtain ⟨u, t, hreach, huip, humac, -⟩ := hwaves.names v relay hrelay
    obtain ⟨w, t', hreach', hwip, hwmac, -⟩ := hwaves.names v dst hdst
    obtain ⟨toMac, relayMac, hto', hrelayMac', hsend'⟩ :=
      Ipv4Interface.send_relay hforwards hforward hret memory p hdr
    cases hsend.symm.trans hsend'
    obtain ⟨⟨llc, rfl⟩, rfl⟩ := henqueues
    cases hto.symm.trans hto'
    cases hrelayMac.symm.trans hrelayMac'
    refine .inl ⟨hret, u, w, ?_, ?_, ?_, hwmac, ?_, ⟨t, hreach⟩, ⟨t', hreach'⟩⟩
    · intro heq
      have heq : u = v := heq
      rw [heq] at hreach
      exact R.not_mem_reach v t hreach.2
    · intro heq
      rw [heq] at huip
      exact hne (huip.trans (hwip.symm.trans hip))
    · exact hip.symm.trans hwip
    · rw [← humac]
      rfl
  · obtain ⟨handover', hsend', hout⟩ :=
      Ipv4Interface.send_no_relay hforwards hforward hret memory p hdr
    cases hsend.symm.trans hsend'
    obtain ⟨u, hu⟩ := haddress hret
    refine .inr ⟨hret, ?_, u, hu.symm⟩
    -- The packet has no tag, now or when its address is known
    cases handover with
    | trafficControl item =>
      have hpacket : item.packet = { p with mbrTag := none } := Option.some.inj hout
      obtain ⟨⟨llc, rfl⟩, -⟩ := henqueues
      simp [Packet.relayOf, hpacket]
    | arpQueue packet hdr =>
      have hpacket : packet = { p with mbrTag := none } := Option.some.inj hout
      obtain ⟨llc, rfl⟩ := henqueues
      simp [Packet.relayOf, hpacket]
    | nowhere => exact henqueues.elim
    | loopback packet => exact henqueues.elim
    | receive packet => exact henqueues.elim

/-! ## The bytes carry out the protocol -/

/-- The vehicles are in a state of the protocol. -/
structure Matches (R : RelayVehicles V K) (s : RelayState V K) (a : Air) : Prop where
  waves : WaveOk R.toVehicles s.waves
  decided : ∀ m ∈ s.posted, Decided R s.waves m
  frames : List.Forall₂ (Carries R.iterator) s.inFlight a.inFlight
  up : a.up = s.up
  relayed : a.relayed = s.relayed
  posted : a.enqueued = s.posted.map (Posted.call R)
  ok : AirOk R.stations a

/-- The bytes have the numbers of the frames. -/
private theorem countP_carries {i : WifiMacHeader.Iterator} {ws : List WireFrame} {fs : List Frame}
    (h : List.Forall₂ (Carries i) ws fs) (k : Nat) :
    ws.countP (·.id == k) = fs.countP (·.id == k) := by
  induction h with
  | nil => rfl
  | cons hcarries _ ih => rw [List.countP_cons, List.countP_cons, ih, hcarries.id]

/-- A frame among others is matched by one among others. -/
private theorem forall₂_split {α β : Type} {P : α → β → Prop} {before after : List α} {x : α}
    {l : List β} (h : List.Forall₂ P (before ++ x :: after) l) :
    ∃ l₁ y l₂, l = l₁ ++ y :: l₂ ∧ List.Forall₂ P before l₁ ∧ P x y ∧
      List.Forall₂ P after l₂ := by
  induction before generalizing l with
  | nil =>
    obtain ⟨y, l₂, hxy, hrest, rfl⟩ := List.forall₂_cons_left_iff.mp h
    exact ⟨[], y, l₂, rfl, .nil, hxy, hrest⟩
  | cons z before ih =>
    obtain ⟨w, rest, hzw, hrest, rfl⟩ := List.forall₂_cons_left_iff.mp h
    obtain ⟨l₁, y, l₂, rfl, hbefore, hxy, hafter⟩ := ih hrest
    exact ⟨w :: l₁, y, l₂, rfl, .cons hzw hbefore, hxy, hafter⟩

/-- A frame that a vehicle has read is a frame of the protocol that has come to it. -/
theorem Matches.read {a : Air} (h : Matches R s a) {before after : List WireFrame}
    {frame : WireFrame} (hair : s.inFlight = before ++ frame :: after) {v : V}
    {memory rx : WifiMacHeader} {n : Nat} {rest : List UInt8}
    (hread : (memory.deserialize R.iterator).run frame.wire = some ((rx, n), rest))
    (hstation : rx.addr1 = (R.app v).mac) :
    ∃ l₁ f l₂, a.inFlight = l₁ ++ f :: l₂ ∧
      List.Forall₂ (Carries R.iterator) (before ++ after) (l₁ ++ l₂) ∧ frame.id = f.id ∧
      f.hdr.addr1 = (R.app v).mac ∧ R.stations f.hdr.addr1 = some (R.station v) ∧
      f.hdr.ReceivedAs rx ∧ f.packet = ⟨rest, frame.mbrTag⟩ := by
  have hframes := h.frames
  -- The frame that is read stands at the same place among the abstract ones
  rw [hair] at hframes
  obtain ⟨l₁, f, l₂, hl, hbefore, hcarries, hafter⟩ := forall₂_split hframes
  obtain ⟨rx', n', hread', hrx⟩ := hcarries.read memory
  -- What was read is what the sender had written
  obtain ⟨⟨rfl, rfl⟩, rfl⟩ : (rx = rx' ∧ n = n') ∧ rest = f.packet.bytes := by
    simpa using hread.symm.trans hread'
  -- The station it is for is the vehicle that reads it
  have haddr : f.hdr.addr1 = (R.app v).mac := hrx.addr1.symm.trans hstation
  refine ⟨l₁, f, l₂, hl, List.rel_append hbefore hafter, hcarries.id, haddr, ?_, hrx, ?_⟩
  · rw [haddr, stations_mac]
  · rw [hcarries.mbrTag]

/-- No beacon that was sent is forgotten. -/
private theorem WaveStep.sent_subset [DecidableEq V] {W : Vehicles V K} {w w' : WaveState V K}
    {event : WaveEvent V} (hstep : WaveStep W w event w') (v : V) : w.sent v ⊆ w'.sent v := by
  cases hstep with
  | tick | start | receive | purge | stop => exact fun t ht => ht
  | @generate u txDelay hevent hdelay =>
    intro t ht
    show t ∈ Function.update w.sent u _ v
    by_cases hv : v = u
    · rw [hv, Function.update_self]
      rw [hv] at ht
      exact List.mem_append_left _ ht
    · rwa [Function.update_of_ne hv]

/-- The beacons go on. -/
theorem Matches.wave [DecidableEq V] {a : Air} (hR : R.toVehicles.Regular) (h : Matches R s a)
    {event : WaveEvent V} {waves : WaveState V K}
    (hwave : WaveStep R.toVehicles s.waves event waves) : Matches R { s with waves } a :=
  { h with
    waves := h.waves.step hR hwave
    decided := fun m hm => (h.decided m hm).mono hwave.sent_subset }

/-- A packet that is posted is enqueued. -/
theorem Matches.send {a : Air} (h : Matches R s a) {m : Posted V} (hm : Decided R s.waves m)
    {stack : StackMemory} {tx : WifiMacHeader} {bytes : List UInt8} (route : MbrRoute)
    (hsent : ((R.station m.sender).enqueue stack m.packet m.address).SentAs tx)
    (hwire : tx.serialize R.iterator = .ok bytes) :
    ∃ event a', AirStep R.stations a event a' ∧ event.isReceive = false ∧
      Matches R { s with
        route := route
        inFlight := s.inFlight ++ [⟨s.posted.length, bytes ++ m.packet.bytes, m.packet.mbrTag⟩]
        posted := s.posted ++ [m] } a' := by
  -- The abstract station enqueues the same packet
  have hstep : AirStep R.stations a (.enqueue (m.call R) stack) _ := .enqueue hm.admissible
  have hlength : a.enqueued.length = s.posted.length := by
    rw [h.posted, List.length_map]
  -- Each part of the correspondence, one call and one frame longer
  refine ⟨_, _, hstep, rfl, h.waves, ?_, ?_, h.up, h.relayed, ?_, (h.ok.step hstep).1⟩
  · intro m' hm'
    rcases List.mem_append.mp hm' with hm' | hm'
    · exact h.decided m' hm'
    · rw [List.mem_singleton.mp hm']
      exact hm
  -- The new frame is the one the header was written for
  · refine List.rel_append h.frames (.cons ?_ .nil)
    exact ⟨hlength.symm, rfl, isRelayed_enqueue _ _ _ _, tx, bytes, hsent, hwire, rfl⟩
  · show a.enqueued ++ [m.call R] = _
    rw [h.posted, List.map_append]
    rfl

/-- A frame that is received is received by the protocol. -/
theorem Matches.receive [DecidableEq V] {a : Air} (h : Matches R s a) {frame : WireFrame}
    (hstep : RelayStep R s (.receive frame) s') :
    ∃ event a', AirStep R.stations a event a' ∧ event.isReceive = true ∧ Matches R s' a' := by
  -- Forwarded up, relayed, or dropped
  cases hstep with
  | @forwardUp before after _ v memory rx n rest packet source dest hair hread hstation hreceive =>
    obtain ⟨l₁, f, l₂, hl, hframes, hid, haddr, hmac, hrx, hpacket⟩ := h.read hair hread hstation
    rw [← hpacket] at hreceive
    have hstep : AirStep R.stations a (.receive f rx) _ := .forwardUp hl hrx hmac hreceive
    refine ⟨_, _, hstep, rfl, h.waves, h.decided, hframes, ?_, h.relayed, h.posted,
      (h.ok.step hstep).1⟩
    show a.up ++ [_] = s.up ++ [_]
    rw [h.up, hid, haddr]
  | @relay before after _ v memory rx hdr tx n rest bytes packet hair hread hstation hreceive
      hsent hwire =>
    obtain ⟨l₁, f, l₂, hl, hframes, hid, haddr, hmac, hrx, hpacket⟩ := h.read hair hread hstation
    rw [← hpacket] at hreceive
    have hstep : AirStep R.stations a (.receive f rx) _ := .queue hl hrx hmac hreceive
    -- Only a frame for a relay comes back into the queue
    have hkind : IsRelayed hdr := by
      obtain ⟨call, -, -, ⟨-, -, hqueue, hplain⟩ | ⟨-, -, hup⟩⟩ :=
        h.ok.receive_cases (by simp [hl]) hrx (R.station v)
      · cases hreceive.symm.trans hqueue
        exact ⟨hplain.ctrlType, .inl hplain.ctrlSubtype⟩
      · cases hreceive.symm.trans hup
    refine ⟨_, _, hstep, rfl, h.waves, h.decided, ?_, h.up, ?_, h.posted, (h.ok.step hstep).1⟩
    · refine List.rel_append hframes (.cons ?_ .nil)
      exact ⟨hid, rfl, hkind, tx, bytes, hsent, hwire, rfl⟩
    · show a.relayed ++ [_] = s.relayed ++ [_]
      rw [h.relayed, hid, haddr]
  | @drop before after _ v memory rx n rest hair hread hstation hreceive =>
    obtain ⟨l₁, f, l₂, hl, hframes, hid, haddr, hmac, hrx, hpacket⟩ := h.read hair hread hstation
    rw [← hpacket] at hreceive
    have hstep : AirStep R.stations a (.receive f rx) _ := .other hl hrx hmac hreceive
    exact ⟨_, _, hstep, rfl, h.waves, h.decided, hframes, h.up, h.relayed, h.posted,
      (h.ok.step hstep).1⟩

/-! ## A relay transmits once -/

/-- The transmissions of a relay for message `k`, and the frames that ask for one. -/
def Air.relayings (a : Air) (k : Nat) : Nat :=
  a.relayed.countP (·.1 == k) + a.inFlight.countP fun f => f.id == k && f.hdr.isMBRData

/-- A message with a relay is transmitted by it once, and any other message never. -/
def RelayedOnce (a : Air) : Prop :=
  ∀ k, a.relayings k =
    if (a.enqueued[k]?.bind fun call => call.packet.relayOf).isSome then 1 else 0

/-- Every step keeps the count of the transmissions for the relays. -/
theorem RelayedOnce.step {stations : Mac48Address → Option OcbWifiMac} {a a' : Air}
    {event : AirEvent} (h : RelayedOnce a) (hok : AirOk stations a)
    (hstep : AirStep stations a event a') : RelayedOnce a' := by
  intro k
  have hk := h k
  cases hstep with
  | @enqueue call memory hcall =>
    have hheader := enqueue_header call.sender memory call.packet call.dest
    show a.relayed.countP _ + (a.inFlight ++ [_]).countP _ =
      if (Option.bind (a.enqueued ++ [call])[k]? _).isSome then 1 else 0
    rw [List.countP_append, List.countP_singleton, ← Nat.add_assoc]
    show a.relayings k + _ = _
    rcases Nat.lt_trichotomy k a.enqueued.length with hlt | rfl | hgt
    · rw [List.getElem?_append_left hlt, hk]
      have hne : (a.enqueued.length == k) = false := by simp; omega
      simp [hne]
    · -- The frame of the new message asks for its relay
      rw [List.getElem?_concat_length, hk]
      cases hrelay : call.packet.relayOf with
      | some relay =>
        rw [hrelay] at hheader
        simp [hrelay, hheader.mbr]
      | none =>
        rw [hrelay] at hheader
        simp [hrelay, hheader.not_mbr]
    · have hnone : (a.enqueued ++ [call])[k]? = none := by
        rw [List.getElem?_eq_none_iff, List.length_append, List.length_singleton]
        omega
      have hnone' : a.enqueued[k]? = none := by
        rw [List.getElem?_eq_none_iff]
        omega
      have hne : (a.enqueued.length == k) = false := by simp; omega
      rw [hk, hnone, hnone']
      simp [hne]
  | @forwardUp l₁ l₂ f rx mac packet source dest hflight hrx hmac hreceive =>
    obtain ⟨call, -, -, ⟨-, -, hqueue, -⟩ | ⟨hmbr, -, -⟩⟩ :=
      hok.receive_cases (by simp [hflight]) hrx mac
    · cases hreceive.symm.trans hqueue
    · -- A plain data frame does not count
      rw [← hk, Air.relayings, Air.relayings, hflight]
      simp [hmbr]
  | @queue l₁ l₂ f rx mac packet hdr hflight hrx hmac hreceive =>
    obtain ⟨call, -, -, ⟨hmbr, -, hqueue, hplain⟩ | ⟨-, -, hup⟩⟩ :=
      hok.receive_cases (by simp [hflight]) hrx mac
    · -- Where a frame asked for a transmission there now is one
      cases hreceive.symm.trans hqueue
      rw [← hk, Air.relayings, Air.relayings, hflight]
      simp [List.countP_append, List.countP_cons, hmbr, hplain.not_mbr]
      omega
    · cases hreceive.symm.trans hup
  | @other l₁ l₂ f rx mac hflight hrx hmac hreceive =>
    obtain ⟨call, -, -, ⟨-, -, hqueue, -⟩ | ⟨-, -, hup⟩⟩ :=
      hok.receive_cases (by simp [hflight]) hrx mac
    · rw [hqueue] at hreceive
      simp at hreceive
    · rw [hup] at hreceive
      simp at hreceive

/-- In every run each call with a relay has one transmission for it, and the others none. -/
theorem relayedOnce_of_run {stations : Mac48Address → Option OcbWifiMac} {a : Air}
    {events : List AirEvent} (hrun : Run (AirStep stations) Air.silent events a) :
    RelayedOnce a := by
  have h : AirOk stations a ∧ RelayedOnce a := by
    refine hrun.invariant (I := fun a => AirOk stations a ∧ RelayedOnce a)
      ⟨AirOk.silent, fun k => rfl⟩ ?_
    intro a event a' ⟨hok, h⟩ hstep
    exact ⟨(hok.step hstep).1, h.step hok hstep⟩
  exact h.2

/-! ## Runs -/

/-- A frame is received. -/
def RelayEvent.isReceive : RelayEvent V → Bool
  | .wave _ | .send _ => false
  | .receive _ => true

variable [DecidableEq V]

/-- Every run of the vehicles is a run of the protocol. -/
theorem matches_of_run (hR : R.toVehicles.Regular) {t₀ : Int} {events : List (RelayEvent V)}
    (hrun : Run (RelayStep R) (.initial V K t₀) events s) :
    ∃ moves a, Run (AirStep R.stations) Air.silent moves a ∧ Matches R s a ∧
      moves.countP AirEvent.isReceive = events.countP RelayEvent.isReceive := by
  refine hrun.refine (R := fun events s moves a => Matches R s a ∧
    moves.countP AirEvent.isReceive = events.countP RelayEvent.isReceive) ⟨?_, rfl⟩ ?_
  · exact ⟨WaveOk.initial t₀, by simp [RelayState.initial], .nil, rfl, rfl, rfl, AirOk.silent⟩
  · intro events s event s' moves a ⟨h, hcount⟩ hstep
    -- A frame that is received is one move, and so is a packet that is sent
    have hone : (∃ move a', AirStep R.stations a move a' ∧ move.isReceive = event.isReceive ∧
        Matches R s' a') → ∃ moves' a', Run (AirStep R.stations) a moves' a' ∧
          Matches R s' a' ∧ (moves ++ moves').countP AirEvent.isReceive =
            (events ++ [event]).countP RelayEvent.isReceive := by
      intro ⟨move, a', hmove, hkind, h'⟩
      refine ⟨_, a', Run.nil.snoc hmove, h', ?_⟩
      simp [List.countP_append, List.countP_cons, hcount, hkind]
    cases event with
    | wave event =>
      cases hstep with
      | wave hwave =>
        refine ⟨[], a, .nil, h.wave hR hwave, ?_⟩
        simp [hcount, RelayEvent.isReceive]
    | send v =>
      cases hstep with
      | send hforwards hforward hsend henqueues haddress hsent hwire =>
        exact hone (h.send (decided_of_send h.waves hforwards hforward hsend henqueues haddress)
          _ hsent hwire)
    | receive frame => exact hone (h.receive hstep)

/-- Each packet is in one place, in the air or forwarded up. It is forwarded up as it was posted,
    at its destination. If `mbr_forward` has found a relay for it, this is a vehicle that the
    sender has heard, other than the sender and the destination, and it has transmitted the packet
    once by then; a packet without a relay was transmitted by nobody but its sender. -/
structure DeliversOverRelay (R : RelayVehicles V K) (events : List (RelayEvent V))
    (s : RelayState V K) : Prop where
  once : ∀ k < s.posted.length,
    s.up.countP (·.id == k) + s.inFlight.countP (·.id == k) = 1
  decided : ∀ m ∈ s.posted, Decided R s.waves m
  delivered : ∀ d ∈ s.up, ∃ m, s.posted[d.id]? = some m ∧ d.station = m.address ∧
    d.packet = m.packet ∧ s.relayed.countP (·.1 == d.id) = if m.forward.ret = 0 then 1 else 0
  relayed : ∀ r ∈ s.relayed, ∃ m, s.posted[r.1]? = some m ∧ m.packet.relayOf = some r.2
  relayedOnce : ∀ k, s.relayed.countP (·.1 == k) ≤ 1
  bounded : events.countP RelayEvent.isReceive ≤ 2 * s.posted.length

omit [DecidableEq V] in
/-- A state of the protocol that a run has reached says how the packets of the vehicles fare. -/
private theorem Matches.delivers {a : Air} {moves : List AirEvent} (h : Matches R s a)
    (hrun : Run (AirStep R.stations) Air.silent moves a) {events : List (RelayEvent V)}
    (hcount : moves.countP AirEvent.isReceive = events.countP RelayEvent.isReceive) :
    DeliversOverRelay R events s := by
  have honce := (deliversOnce_of_run hrun).2
  have hrelays := relayedOnce_of_run hrun
  have hlength : a.enqueued.length = s.posted.length := by
    rw [h.posted, List.length_map]
  have hcall : ∀ {k : Nat} {call : Enqueued}, a.enqueued[k]? = some call →
      ∃ m : Posted V, s.posted[k]? = some m ∧ m.call R = call := by
    intro k call hk
    rw [h.posted, List.getElem?_map] at hk
    exact Option.map_eq_some_iff.mp hk
  refine ⟨fun k hk => ?_, h.decided, fun d hd => ?_, fun r hr => ?_, fun k => ?_, ?_⟩
  · have hplace := honce.once k (hlength ▸ hk)
    rw [h.up, ← countP_carries h.frames] at hplace
    exact hplace
  · obtain ⟨call, hk, hstation, hpacket, -⟩ := honce.delivered d (h.up ▸ hd)
    obtain ⟨m, hm, rfl⟩ := hcall hk
    refine ⟨m, hm, hstation, hpacket, ?_⟩
    -- A packet that was forwarded up is not in the air any more
    have hplace := honce.once d.id (List.getElem?_eq_some_iff.mp hk).1
    have hup : 0 < a.up.countP (·.id == d.id) :=
      List.countP_pos_iff.mpr ⟨d, h.up ▸ hd, beq_self_eq_true _⟩
    have hair : a.inFlight.countP (fun f => f.id == d.id && f.hdr.isMBRData) ≤
        a.inFlight.countP (·.id == d.id) :=
      List.countP_mono_left fun f _ hf => (Bool.and_eq_true_iff.mp hf).1
    have htransmitted := hrelays d.id
    rw [Air.relayings, h.relayed, hk] at htransmitted
    have hrelayOf : m.packet.relayOf.isSome = true ↔ m.forward.ret = 0 := by
      rcases h.decided m (List.mem_of_getElem? hm) with ⟨hret, u, v, hr⟩ | ⟨hret, hnone, -⟩
      · rw [hr.relayOf]
        exact iff_of_true rfl hret
      · rw [hnone]
        exact iff_of_false (by simp) hret
    have hiff : (Option.bind (some (m.call R)) fun call => call.packet.relayOf).isSome = true ↔
        m.forward.ret = 0 := hrelayOf
    simp only [hiff] at htransmitted
    omega
  · obtain ⟨call, hk, hrelay⟩ := honce.relayed r (h.relayed ▸ hr)
    obtain ⟨m, hm, rfl⟩ := hcall hk
    exact ⟨m, hm, hrelay⟩
  · have htransmitted := hrelays k
    rw [Air.relayings, h.relayed] at htransmitted
    split at htransmitted <;> omega
  · rw [← hcount, ← hlength]
    exact honce.bounded

/-- Whatever is in the air can be received. -/
theorem Matches.progress {a : Air} (h : Matches R s a) {frame : WireFrame}
    {rest : List WireFrame} (hair : s.inFlight = frame :: rest) :
    ∃ s', RelayStep R s (.receive frame) s' := by
  have hframes := h.frames
  rw [hair] at hframes
  obtain ⟨f, l₂, hcarries, -, hl⟩ := List.forall₂_cons_left_iff.mp hframes
  have hf : f ∈ a.inFlight := by simp [hl]
  obtain ⟨rx, n, hread, hrx⟩ := hcarries.read f.hdr
  obtain ⟨mac, hmac⟩ := h.ok.station hf
  obtain ⟨v, hv, rfl⟩ := exists_of_stations hmac
  have hair' : s.inFlight = [] ++ frame :: rest := hair
  have hstation : rx.addr1 = (R.app v).mac := hrx.addr1.trans hv.symm
  have hpacket : (⟨f.packet.bytes, frame.mbrTag⟩ : Packet) = f.packet := by
    rw [hcarries.mbrTag]
  obtain ⟨call, -, -, ⟨-, -, hqueue, hplain⟩ | ⟨-, -, hup⟩⟩ :=
    h.ok.receive_cases hf hrx (R.station v)
  · obtain ⟨tx, bytes, hsent, hwire⟩ :=
      exists_wire R.iterator ⟨hplain.ctrlType, .inl hplain.ctrlSubtype⟩
    exact ⟨_, .relay hair' hread hstation (by rw [hpacket]; exact hqueue) hsent hwire⟩
  · exact ⟨_, .forwardUp hair' hread hstation (by rw [hpacket]; exact hup)⟩

omit [DecidableEq V] in
/-- A reception posts nothing. -/
private theorem RelayStep.posted_eq [DecidableEq V] {frame : WireFrame}
    (hstep : RelayStep R s (.receive frame) s') : s'.posted = s.posted := by
  cases hstep with
  | forwardUp | relay | drop => rfl

/-- From every state the frames in the air can be received until none is left. -/
theorem Matches.drain {a : Air} (h : Matches R s a) :
    ∃ events s', (∀ event ∈ events, RelayEvent.isReceive event = true) ∧
      Run (RelayStep R) s events s' ∧ s'.inFlight = [] ∧ s'.posted = s.posted := by
  -- Every reception takes something from the budget of the protocol
  induction hn : Traffic.budget airView a.traffic using Nat.strongRecOn generalizing s a with
  | ind n ih =>
    cases hair : s.inFlight with
    | nil => exact ⟨[], s, by simp, .nil, hair, rfl⟩
    | cons frame rest =>
      obtain ⟨s₁, hstep⟩ := h.progress hair
      obtain ⟨move, a₁, hmove, hkind, h₁⟩ := h.receive hstep
      have hhop := (h.ok.step hmove).2
      rw [hkind] at hhop
      obtain ⟨events, s', hreceive, hrun, hempty, hposted⟩ := ih _ (hn ▸ hhop.budget_lt) h₁ rfl
      refine ⟨.receive frame :: events, s', ?_, (Run.nil.snoc hstep).append hrun, hempty,
        hposted.trans hstep.posted_eq⟩
      intro event hevent
      rcases List.mem_cons.mp hevent with rfl | hevent
      · rfl
      · exact hreceive event hevent

/-- In every run of the vehicles each packet is delivered once, over the relay that was chosen
    for it, and every run can be continued until all packets have been delivered. -/
theorem relay_network (hR : R.toVehicles.Regular) {t₀ : Int} {events : List (RelayEvent V)}
    (hrun : Run (RelayStep R) (.initial V K t₀) events s) :
    DeliversOverRelay R events s ∧
      ∃ events' s', (∀ event ∈ events', RelayEvent.isReceive event = true) ∧
        Run (RelayStep R) s events' s' ∧ DeliversOverRelay R (events ++ events') s' ∧
        s'.inFlight = [] ∧ s'.posted = s.posted := by
  obtain ⟨moves, a, hmoves, h, hcount⟩ := matches_of_run hR hrun
  obtain ⟨events', s', hreceive, hrun', hempty, hposted⟩ := h.drain
  obtain ⟨moves', a', hmoves', h', hcount'⟩ := matches_of_run hR (hrun.append hrun')
  exact ⟨h.delivers hmoves hcount, events', s', hreceive, hrun', h'.delivers hmoves' hcount',
    hempty, hposted⟩

/-! ### A packet around a corner -/

/-- Three vehicles at corners of a block: the destination is not next to the sender. -/
def streetPosition (v : Fin 3) : ℚ × ℚ :=
  if v = 0 then (1164000 / 10000, 399000 / 10000)
  else if v = 1 then (1164015 / 10000, 399015 / 10000)
  else (1164000 / 10000, 399015 / 10000)

/-- The cell of a position. -/
def streetCell (p : ℚ × ℚ) : UInt64 :=
  (geohashFastEncode latRangeConst lonRangeConst p.2 p.1 geohashStepBit ⟨0, 0⟩).2.bits

/-- Distances along the sides of the block, of which each is 60 m long. -/
def streetEnv : MapEnv ℚ :=
  ⟨fun lat1 lng1 lat2 lng2 => (|lat2 - lat1| + |lng2 - lng1|) * 40000, latRangeConst,
    lonRangeConst⟩

/-- The streets around the block. -/
def streetOps : List (GraphOp ℚ) :=
  let corner (id : String) (x y : ℚ) : GraphOp ℚ := .addVertex id x y (streetCell (x, y)) true
  [corner "f" (1164000 / 10000) (399000 / 10000), corner "a" (1164015 / 10000) (399000 / 10000),
    corner "b" (1164000 / 10000) (399015 / 10000), corner "t" (1164015 / 10000) (399015 / 10000),
    .addEdgeExclusive 1 3 1, .addEdgeExclusive 3 4 2, .addEdgeExclusive 1 2 1,
    .addEdgeExclusive 2 4 2]

def streetGraph : Graph (Site ℚ) :=
  match streetOps.foldlM (GraphOp.apply streetEnv) graphCreate with
  | .ok g => g
  | .error _ => graphCreate

def streetSumo : SumoEnv ℚ := ⟨fun _ => 0, fun u v => (u / radToDeg, v / radToDeg), 0, 0⟩

def streetVehicles : RelayVehicles (Fin 3) ℚ where
  env := ⟨streetSumo, .network, fun x => UInt32.ofInt ⌊x * 10000⌋, fun n => n.toNat / 10000⟩
  app v := ⟨v.val.toUInt32, .ofBytes 2 0 0 0 0 v.val.toUInt8, 250000000, 1000000000, 10000000, 40⟩
  position v _ := streetPosition v
  reach v _ := if v = 0 then [1, 2] else [0]
  latency := 1000
  ipOrigin_injective := by decide
  not_mem_reach v _ := by
    revert v
    decide
  htSupported _ := false
  vhtSupported _ := false
  sumomap := ⟨true, streetGraph, streetEnv, streetSumo⟩
  ipv4 := .ns3
  iterator := .lsb
  sumo_eq := rfl
  mac_injective := by decide

/-- The delays of the vehicles on the street are regular. -/
private theorem streetVehicles_regular : streetVehicles.toVehicles.Regular where
  delay_le := by decide
  latency_nonneg := by decide

/-- The entries that the beacons of the two other vehicles make at the sender. -/
def streetTable : List (Neighbor ℚ) :=
  [(streetVehicles.beacon 1 0 1000000000).neighbor 1000000000,
    (streetVehicles.beacon 2 0 1000000000).neighbor 1000000000]

/-- The two are started, and send their first beacons at the same time. -/
private theorem street_heard : ∃ events waves,
    Run (WaveStep streetVehicles.toVehicles) (.initial (Fin 3) ℚ 0) events waves ∧
      waves.now = 1000000000 ∧ waves.tables 0 = streetTable := by
  have hstart : ∀ {v : Fin 3} {s : WaveState (Fin 3) ℚ}, s.started v = none →
      WaveStep streetVehicles.toVehicles s (.start v 0 0) _ :=
    fun hnew => .start hnew (UInt32.zero_le) (UInt32.zero_le)
  have hgenerate : ∀ {v : Fin 3} {s : WaveState (Fin 3) ℚ}, (s.timers v).event = some s.now →
      WaveStep streetVehicles.toVehicles s (.generate v 5) _ :=
    fun hevent => .generate hevent (show (5 : UInt32) ≤ 10000000 by decide)
  have hreceive : ∀ {b : WaveTransit (Fin 3)} {s : WaveState (Fin 3) ℚ} {after nb},
      s.inAir = b :: after → receiveWavePacket streetVehicles.env (streetVehicles.app b.receiver)
        MbrHeader.hello s.now (s.tables b.receiver) b.packet = some nb →
      WaveStep streetVehicles.toVehicles s (.receive b MbrHeader.hello) _ :=
    fun hair hreceive => .receive (show _ = [] ++ _ :: _ from hair) hreceive
  have hrun : Run (WaveStep streetVehicles.toVehicles) (.initial (Fin 3) ℚ 0) [] _ := .nil
  have hrun := hrun.snoc (hstart (v := 1) rfl)
  have hrun := hrun.snoc (hstart (v := 2) rfl)
  have hrun := hrun.snoc (.tick (t := 1000000000) (by decide)
    (fun v e he => by fin_cases v <;> cases he <;> decide) (by simp [WaveState.initial]))
  have hrun := hrun.snoc (hgenerate (v := 1) rfl)
  have hrun := hrun.snoc (hgenerate (v := 2) rfl)
  have hrun := hrun.snoc (hreceive rfl (receiveWavePacket_packet 1 0 _ _ _ _))
  have hrun := hrun.snoc (hreceive rfl (receiveWavePacket_packet 2 0 _ _ _ _))
  exact ⟨_, _, hrun, rfl, rfl⟩

/-- On that table the vehicle at the third corner is the relay. -/
private theorem street_forward : mbrForward streetVehicles.sumomap NULL 1000000000
    ⟨(streetPosition 0).1, (streetPosition 0).2, some streetTable⟩ .initial 1 =
      .ok (⟨1, 0, 7, 32⟩, ⟨0, some (.ofBytes 2 0 0 0 0 1), some (.ofBytes 2 0 0 0 0 2)⟩) := by
  decide +kernel

/-- The beacons alone. -/
private theorem run_waves {waves₀ : WaveState V K} {events : List (WaveEvent V)}
    (hs : s.waves = waves₀) (hrun : Run (WaveStep R.toVehicles) waves₀ events waves) :
    Run (RelayStep R) s (events.map .wave) { s with waves } := by
  induction hrun with
  | nil =>
    rw [← hs]
    exact .nil
  | snoc _ hstep ih =>
    rw [List.map_append]
    exact ih.snoc (.wave hstep)

/-- A run in which a packet goes around the corner over a relay. -/
theorem relay_network_corner : ∃ events s m,
    Run (RelayStep streetVehicles) (.initial (Fin 3) ℚ 0) events s ∧ s.posted = [m] ∧
      m.forward.ret = 0 ∧ DeliversOverRelay streetVehicles events s ∧
      ∃ events' s', (∀ event ∈ events', RelayEvent.isReceive event = true) ∧
        Run (RelayStep streetVehicles) s events' s' ∧
        DeliversOverRelay streetVehicles (events ++ events') s' ∧
        s'.inFlight = [] ∧ s'.posted = s.posted := by
  obtain ⟨events, waves, hwaves, hnow, htable⟩ := street_heard
  have hrun := run_waves (R := streetVehicles) (s := .initial (Fin 3) ℚ 0) rfl hwaves
  have hforwards : Ipv4Interface.Forwards streetVehicles.ipv4 vehicleInterface 1 := by
    constructor <;> decide
  -- The table is the one that the two beacons have left
  have hforward : ((streetVehicles.call { RelayState.initial (Fin 3) ℚ 0 with waves } 0
      NULL).forward 1) = .ok (⟨1, 0, 7, 32⟩,
        ⟨0, some (.ofBytes 2 0 0 0 0 1), some (.ofBytes 2 0 0 0 0 2)⟩) := by
    unfold MbrCall.forward RelayVehicles.call
    dsimp only
    rw [hnow, htable]
    exact street_forward
  obtain ⟨toMac, relayMac, hto, hrelay, hsend⟩ := Ipv4Interface.send_relay hforwards hforward rfl
    ⟨.zero, .zero⟩ ⟨[7], none⟩ [0x45]
  have henqueues : Handover.Enqueues (.trafficControl ⟨⟨[7], some ⟨1, relayMac⟩⟩, toMac, [0x45]⟩)
      ⟨[] ++ ([0x45] ++ [7]), some ⟨1, relayMac⟩⟩ toMac := ⟨⟨[], rfl⟩, rfl⟩
  obtain ⟨tx, bytes, hsent, hwire⟩ := exists_wire streetVehicles.iterator
    (isRelayed_enqueue (streetVehicles.station 0) zeroMemory
      ⟨[] ++ ([0x45] ++ [7]), some ⟨1, relayMac⟩⟩ toMac)
  have hrun := hrun.snoc (.send hforwards hforward hsend henqueues
    (fun hret => absurd rfl hret) hsent hwire)
  exact ⟨_, _, _, hrun, rfl, rfl, relay_network streetVehicles_regular hrun⟩

end MapRelay.NS3
