import MapRelay.ForStd.Run
import MapRelay.Native.Ipv4Interface
import MapRelay.Spec.Forward
import MapRelay.Spec.RelayMac
import MapRelay.Spec.WifiMacHeader

/-!
# No relay is left over from the hop before

The tag that named the relay of one hop is still on the packet at the next node. `Send` takes
it off whenever it asks for a relay, so that the tag of the packet it hands on is always its
own, on every way out of the function and over a route of any length.
-/

namespace MapRelay.NS3

open ForStd

/-! ## Packet tags -/

/-- A tag has the announced size. -/
theorem MbrTag.length_serialize {i : Codec UInt8} (hwidth : i.width = 1) (tag : MbrTag) :
    (tag.serialize i).length = MbrTag.getSerializedSize := by
  simp [MbrTag.serialize, MbrTag.getSerializedSize, hwidth]

/-- A tag is read back. -/
theorem MbrTag.run_deserialize (i : Codec UInt8) (tag : MbrTag) :
    (MbrTag.deserialize i).run (tag.serialize i) = some (tag, []) := by
  simp only [MbrTag.deserialize, MbrTag.serialize, Codec.run_read_write,
    Codec.run_read_write_nil]
  rfl

/-- The assertion in `AddPacketTag` holds for a packet without a tag. -/
private theorem Packet.addPacketTag_eq {packet : Packet} (h : packet.mbrTag = none)
    (i : Codec UInt8)
    (tag : MbrTag) : packet.addPacketTag i tag = .ok { packet with mbrTag := some tag } := by
  simp [Packet.addPacketTag, h, MbrTag.run_deserialize]

/-- After the tag was looked for, and removed if it was found, there is none. -/
theorem Packet.removed (packet : Packet) :
    (if packet.mbrTag.isSome then packet.removePacketTag else packet) =
      { packet with mbrTag := none } := by
  obtain ⟨bytes, tag⟩ := packet
  cases tag <;> rfl

/-! ## One hop -/

variable {K : Type} [Field K] [LinearOrder K] [FloorRing K]

/-- A relay is returned along with both addresses. -/
private theorem mbrForward_written {sumomap : MbrSumo K} {memory : Addr} {now : Int}
    {thisnode : MbrNode K} {route route' : MbrRoute} {dest : UInt32} {out : Forward}
    (hrun : mbrForward sumomap memory now thisnode route dest = .ok (route', out))
    (hret : out.ret = 0) :
    ∃ toMac relayMac, out.toMac = some toMac ∧ out.relayMac = some relayMac := by
  unfold mbrForward at hrun
  split at hrun
  · cases hrun
    cases hret
  cases htable : thisnode.nb with
  | none =>
    rw [htable] at hrun
    cases hrun
    cases hret
  | some nb =>
    rw [htable] at hrun
    obtain ⟨reply, -, hrun⟩ := bind_eq_ok.mp hrun
    split at hrun
    · cases hrun
      cases hret
    obtain ⟨list, -, hrun⟩ := bind_eq_ok.mp hrun
    split at hrun
    · cases hrun
      cases hret
    -- Only the loop over the intersections finds a relay
    rcases forwardLoop_cases hrun with ⟨p, relay, -, rfl, -⟩ | ⟨rfl, -⟩
    · exact ⟨_, _, rfl, rfl⟩
    · cases hret

namespace Ipv4Interface

variable {env : Ipv4Env} {i : Ipv4Interface} {call : MbrCall K} {memory : SendMemory}
  {p : Packet} {hdr : List UInt8} {dest : UInt32} {route : MbrRoute} {f : Forward}

/-- `Send` on an interface that is up and not the loopback interface, to a destination that is
    neither local nor a broadcast or multicast address. -/
structure Forwards (env : Ipv4Env) (i : Ipv4Interface) (dest : UInt32) : Prop where
  ifup : i.ifup = true
  isLoopback : i.device.isLoopback = false
  tc : i.tc = true
  notLocal : i.ifaddrs.any (dest == ·.localAddr) = false
  isBroadcast : env.isBroadcast dest = false
  isMulticast : env.isMulticast dest = false
  isSubnetBroadcast : i.isSubnetBroadcast env dest = false

/-- What is left of `Send` for such a destination. -/
private theorem send_eq (h : Forwards env i dest) (call : MbrCall K) (memory : SendMemory)
    (p : Packet) (hdr : List UInt8) :
    i.send env call memory p hdr dest = (do
      let (route, forward) ← call.forward dest
      if forward.ret = 0 then
        return (route, .trafficControl
          ⟨{ p with mbrTag := some ⟨1, forward.relayMac.getD memory.relayMac⟩ },
            forward.toMac.getD memory.toMac, hdr⟩)
      else do
        let handover ← sendDirectly env i { p with mbrTag := none } hdr dest
        return (route, handover)) := by
  -- The guards before the question to the relay module all pass
  have hasked : ¬ env.isBroadcast dest = true ∧ ¬ env.isMulticast dest = true := by
    simp [h.isBroadcast, h.isMulticast]
  rw [send, if_neg (by simp [h.ifup]), if_neg (by simp [h.isLoopback]), if_neg (by simp [h.tc]),
    if_neg (by simp [h.notLocal]), if_pos hasked, sendByMbr, if_neg (by simp [h.isSubnetBroadcast])]
  cases call.forward dest with
  | error e => rfl
  | ok result =>
    obtain ⟨route, forward⟩ := result
    simp only [Packet.removed]
    -- With a relay the packet gets the tag, without one it loses it
    by_cases hret : forward.ret = 0
    · simp only [bind, Except.bind, if_pos hret, Packet.addPacketTag_eq]
      rfl
    · simp only [bind, Except.bind, if_neg hret]
      rfl

/-- Without a relay the packet is handed on as it is. -/
private theorem sendDirectly_outgoing (h : Forwards env i dest) (p : Packet) (hdr : List UInt8) :
    ∃ handover, sendDirectly env i p hdr dest = .ok handover ∧ handover.outgoing = some p := by
  unfold sendDirectly
  simp only [h.isBroadcast, h.isMulticast, h.isSubnetBroadcast, Bool.false_eq_true, if_false]
  split
  · split
    · exact ⟨_, rfl, rfl⟩
    · exact ⟨_, rfl, rfl⟩
  · exact ⟨_, rfl, rfl⟩

/-- With a relay the packet has a new tag, whatever it had before. -/
theorem send_relay (h : Forwards env i dest) (hforward : call.forward dest = .ok (route, f))
    (hret : f.ret = 0) (memory : SendMemory) (p : Packet) (hdr : List UInt8) :
    ∃ toMac relayMac, f.toMac = some toMac ∧ f.relayMac = some relayMac ∧
      i.send env call memory p hdr dest = .ok (route, .trafficControl
        ⟨{ p with mbrTag := some ⟨1, relayMac⟩ }, toMac, hdr⟩) := by
  obtain ⟨toMac, relayMac, hto, hrelay⟩ := mbrForward_written hforward hret
  refine ⟨toMac, relayMac, hto, hrelay, ?_⟩
  rw [send_eq h, hforward]
  simp only [bind, Except.bind, if_pos hret, hto, hrelay, Option.getD_some]
  rfl

/-- Without a relay it has none. -/
theorem send_no_relay (h : Forwards env i dest) (hforward : call.forward dest = .ok (route, f))
    (hret : f.ret ≠ 0) (memory : SendMemory) (p : Packet) (hdr : List UInt8) :
    ∃ handover, i.send env call memory p hdr dest = .ok (route, handover) ∧
      handover.outgoing = some { p with mbrTag := none } := by
  obtain ⟨handover, hsend, hout⟩ := sendDirectly_outgoing h { p with mbrTag := none } hdr
  refine ⟨handover, ?_, hout⟩
  rw [send_eq h, hforward]
  simp only [bind, Except.bind, if_neg hret, hsend]
  rfl

end Ipv4Interface

/-! ## A route -/

/-- A node on the way of a packet: its interface, its call of `mbr_forward`, and its MAC layer. -/
structure Hop (K : Type) where
  iface : Ipv4Interface
  call : MbrCall K
  memory : SendMemory
  hdr : List UInt8
  dest : UInt32
  mac : OcbWifiMac
  stack : StackMemory

def Hop.send (env : Ipv4Env) (hop : Hop K) (p : Packet) : Except Fault (MbrRoute × Handover) :=
  hop.iface.send env hop.call hop.memory p hop.hdr hop.dest

/-- The packet, with other bytes around it, comes to the MAC layer for this address. A packet
    that waited goes to the address that was found in the end. -/
def Handover.ArrivesAs : Handover → Packet → Mac48Address → Prop
  | .trafficControl item, q, address => q.mbrTag = item.packet.mbrTag ∧ address = item.address
  | .arpQueue packet _, q, _ => q.mbrTag = packet.mbrTag
  | .nowhere, _, _ | .loopback _, _, _ | .receive _, _, _ => False

/-- A packet on its way, and the headers with which it was enqueued. -/
structure Journey (K : Type) where
  packet : Packet
  frames : List (Hop K × WifiMacHeader)

/-- The packet leaves a node, and arrives at the next one with its tag. -/
structure HopStep (env : Ipv4Env) (s : Journey K) (hop : Hop K) (s' : Journey K) : Prop where
  forwards : Ipv4Interface.Forwards env hop.iface hop.dest
  leaves : ∃ route handover q address, hop.send env s.packet = .ok (route, handover) ∧
    handover.ArrivesAs q address ∧ s'.packet.mbrTag = q.mbrTag ∧
    s'.frames = s.frames ++ [(hop, hop.mac.enqueue hop.stack q address)]

/-- The header is of an MBR data frame exactly if the hop has chosen a relay, and then it is
    the relay of this hop, and its destination. -/
def Hop.Decided (hop : Hop K) (hdr : WifiMacHeader) : Prop :=
  ∃ route f, hop.call.forward hop.dest = .ok (route, f) ∧ (hdr.isMBRData = true ↔ f.ret = 0) ∧
    (f.ret = 0 → f.relayMac = some hdr.addr1 ∧ f.toMac = some hdr.addr4)

/-- The tag arrives as it was handed over. -/
theorem Handover.ArrivesAs.mbrTag {handover : Handover} {q p : Packet} {address : Mac48Address}
    (h : handover.ArrivesAs q address) (hout : handover.outgoing = some p) :
    q.mbrTag = p.mbrTag := by
  cases handover with
  | trafficControl item =>
    cases hout
    exact h.1
  | arpQueue packet hdr =>
    cases hout
    exact h
  | nowhere => exact h.elim
  | loopback packet => exact h.elim
  | receive packet => exact h.elim

/-- The frame of a hop does not depend on the hops before. -/
theorem HopStep.decided {env : Ipv4Env} {s s' : Journey K} {hop : Hop K}
    (h : HopStep env s hop s') :
    ∃ hdr, s'.frames = s.frames ++ [(hop, hdr)] ∧ hop.Decided hdr := by
  obtain ⟨route, handover, q, address, hsend, harrives, -, hframes⟩ := h.leaves
  refine ⟨_, hframes, ?_⟩
  have hheader := enqueue_header hop.mac hop.stack q address
  cases hforward : hop.call.forward hop.dest with
  | error e =>
    rw [Hop.send, Ipv4Interface.send_eq h.forwards, hforward] at hsend
    cases hsend
  | ok result =>
    obtain ⟨route', f⟩ := result
    refine ⟨route', f, hforward, ?_⟩
    by_cases hret : f.ret = 0
    · -- The tag of this hop is the one that the MAC sees
      obtain ⟨toMac, relayMac, hto, hrelay, hsend'⟩ :=
        Ipv4Interface.send_relay h.forwards hforward hret hop.memory s.packet hop.hdr
      cases hsend.symm.trans hsend'
      obtain ⟨htag, rfl⟩ := harrives
      have hrelayOf : q.relayOf = some relayMac := by
        rw [Packet.relayOf, htag]
        rfl
      rw [hrelayOf] at hheader
      exact ⟨iff_of_true hheader.mbr hret, fun _ => ⟨by rw [hrelay, hheader.addr1],
        by rw [hto, hheader.addr4]⟩⟩
    -- Without a relay the packet goes out without a tag
    · obtain ⟨handover', hsend', hout⟩ :=
        Ipv4Interface.send_no_relay h.forwards hforward hret hop.memory s.packet hop.hdr
      cases hsend.symm.trans hsend'
      have hrelayOf : q.relayOf = none := by
        rw [Packet.relayOf, harrives.mbrTag hout]
      rw [hrelayOf] at hheader
      exact ⟨iff_of_false (by simp [hheader.not_mbr]) hret, fun hzero => absurd hzero hret⟩

/-- Every node on a route of any length decides on its own frame. -/
theorem decided_of_run {env : Ipv4Env} {p : Packet} {hops : List (Hop K)} {s : Journey K}
    (hrun : Run (HopStep env) ⟨p, []⟩ hops s) :
    s.frames.map (·.1) = hops ∧ ∀ frame ∈ s.frames, frame.1.Decided frame.2 := by
  -- Each hop adds one frame, decided by its own call
  refine hrun.invariant_inputs (I := fun hops s => s.frames.map (·.1) = hops ∧
    ∀ frame ∈ s.frames, frame.1.Decided frame.2) ⟨rfl, by simp⟩ ?_
  intro hops s hop s' ⟨hhops, hdecided⟩ hstep
  obtain ⟨hdr, hframes, hnew⟩ := hstep.decided
  rw [hframes]
  constructor
  · rw [List.map_append, hhops]
    rfl
  · intro frame hframe
    -- An older frame, or the one of this hop
    rcases List.mem_append.mp hframe with hold | hlast
    · exact hdecided frame hold
    · rw [List.mem_singleton.mp hlast]
      exact hnew

/-- Whatever tag a packet has, `Send` hands it on with a relaying tag exactly if `mbr_forward`
    has found a relay for this hop, and the tag and the link address are those of this hop.
    So on any route a hop sends an MBR data frame exactly if it has chosen a relay. -/
theorem relay_tag_fresh (env : Ipv4Env) :
    (∀ hop : Hop K, Ipv4Interface.Forwards env hop.iface hop.dest → ∀ p : Packet,
      (∀ e, hop.call.forward hop.dest = .error e → hop.send env p = .error e) ∧
      ∀ route f, hop.call.forward hop.dest = .ok (route, f) →
        ∃ handover q, hop.send env p = .ok (route, handover) ∧ handover.outgoing = some q ∧
          (q.relayOf.isSome = true ↔ f.ret = 0) ∧
          (f.ret = 0 → ∃ item relayMac, handover = .trafficControl item ∧
            q.mbrTag = some ⟨1, relayMac⟩ ∧ f.relayMac = some relayMac ∧
            f.toMac = some item.address)) ∧
    ∀ p (hops : List (Hop K)) s, Run (HopStep env) ⟨p, []⟩ hops s →
      s.frames.map (·.1) = hops ∧ ∀ frame ∈ s.frames, frame.1.Decided frame.2 := by
  refine ⟨fun hop h p => ⟨fun e hforward => ?_, fun route f hforward => ?_⟩,
    fun p hops s => decided_of_run⟩
  -- The error of the relay module goes up unchanged
  · rw [Hop.send, Ipv4Interface.send_eq h, hforward]
    rfl
  · by_cases hret : f.ret = 0
    · obtain ⟨toMac, relayMac, hto, hrelay, hsend⟩ :=
        Ipv4Interface.send_relay h hforward hret hop.memory p hop.hdr
      refine ⟨_, _, hsend, rfl, iff_of_true rfl hret, fun _ => ?_⟩
      exact ⟨_, relayMac, rfl, rfl, hrelay, hto⟩
    · obtain ⟨handover, hsend, hout⟩ :=
        Ipv4Interface.send_no_relay h hforward hret hop.memory p hop.hdr
      refine ⟨handover, _, hsend, hout, iff_of_false ?_ hret, fun hzero => absurd hzero hret⟩
      simp [Packet.relayOf]

/-! ### A route of two hops -/

/-- An interface of a vehicle. -/
def vehicleInterface : Ipv4Interface where
  ifup := true
  device := ⟨false, true, true, Mac48Address.broadcast, fun _ => Mac48Address.broadcast⟩
  tc := true
  ifaddrs := [⟨0x0a000003, 0xff000000⟩]
  arpLookup _ := some oppositeNeighbor.hardwareAddress

/-- The vehicle knows a relay to the destination, if it has the map. -/
def vehicleHop (initialized : Bool) : Hop ℚ where
  iface := vehicleInterface
  call := ⟨{ blockMap with initialized }, NULL, 10,
    ⟨0, 0, some [oppositeNeighbor, cornerNeighbor]⟩, .initial⟩
  memory := ⟨.zero, .zero⟩
  hdr := []
  dest := 1
  mac := ⟨.ofBytes 2 0 0 0 0 3, false, false⟩
  stack := ⟨WifiMacHeader.create WifiMacHeader.relayedFrame, .zero⟩

/-- The vehicle of the example forwards. -/
private theorem vehicleHop_forwards (initialized : Bool) :
    Ipv4Interface.Forwards .ns3 (vehicleHop initialized).iface (vehicleHop initialized).dest := by
  constructor <;> decide +revert

/-- A packet that still has the tag of a hop before. -/
def stalePacket : Packet := ⟨[0x45], some ⟨1, .broadcast⟩⟩

/-- The packet after the first hop, and after the second. -/
def relayedPacket : Packet := ⟨[0x45], some ⟨1, cornerNeighbor.hardwareAddress⟩⟩

def directPacket : Packet := ⟨[0x45], none⟩

/-- What the vehicle hands over, with the graph set and without it. -/
private theorem vehicleHop_send :
    (vehicleHop true).send .ns3 stalePacket = .ok (⟨1, 0, 7, 32⟩,
        .trafficControl ⟨relayedPacket, oppositeNeighbor.hardwareAddress, []⟩) ∧
      (vehicleHop false).send .ns3 relayedPacket = .ok (.initial,
        .trafficControl ⟨directPacket, oppositeNeighbor.hardwareAddress, []⟩) := by
  decide +kernel

/-- What `mbr_forward` decides at the vehicle. -/
private theorem vehicleHop_forward :
    (vehicleHop true).call.forward 1 = .ok (⟨1, 0, 7, 32⟩,
      ⟨0, some oppositeNeighbor.hardwareAddress, some cornerNeighbor.hardwareAddress⟩) := by
  decide +kernel

/-- A packet with an old tag, over two hops. -/
theorem relay_tag_fresh_two_hops :
    (∃ handover q, (vehicleHop true).send .ns3 stalePacket = .ok (⟨1, 0, 7, 32⟩, handover) ∧
      handover.outgoing = some q ∧ q.mbrTag = some ⟨1, cornerNeighbor.hardwareAddress⟩) ∧
    ∃ s, Run (HopStep .ns3) ⟨stalePacket, []⟩ [vehicleHop true, vehicleHop false] s ∧
      s.frames.map (·.1) = [vehicleHop true, vehicleHop false] ∧
      ∀ frame ∈ s.frames, frame.1.Decided frame.2 := by
  obtain ⟨hhop, hroute⟩ := relay_tag_fresh (K := ℚ) .ns3
  constructor
  · obtain ⟨-, hhop⟩ := hhop (vehicleHop true) (vehicleHop_forwards true) stalePacket
    obtain ⟨handover, q, hsend, hout, -, htag⟩ := hhop _ _ vehicleHop_forward
    obtain ⟨item, relayMac, -, htag, hrelay, -⟩ := htag rfl
    cases hrelay
    exact ⟨handover, q, hsend, hout, htag⟩
  · have hfirst : HopStep .ns3 ⟨stalePacket, []⟩ (vehicleHop true) ⟨relayedPacket, _⟩ :=
      ⟨vehicleHop_forwards true, _, _, relayedPacket, _, vehicleHop_send.1, ⟨rfl, rfl⟩, rfl, rfl⟩
    have hsecond (frames) :
        HopStep .ns3 ⟨relayedPacket, frames⟩ (vehicleHop false) ⟨directPacket, frames ++ _⟩ :=
      ⟨vehicleHop_forwards false, _, _, directPacket, _, vehicleHop_send.2, ⟨rfl, rfl⟩, rfl, rfl⟩
    have hrun := (Run.nil.snoc hfirst).snoc (hsecond _)
    exact ⟨_, hrun, hroute _ _ _ hrun⟩

end MapRelay.NS3
