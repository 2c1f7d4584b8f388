import MapRelay.ForStd.Traffic
import MapRelay.Native.OcbWifiMac

/-!
# Relayed packets arrive exactly once

A frame on its way to a relay has one hop left, a plain data frame none. Every event on the
air is a hop of the message it belongs to, so that no message is lost, doubled or kept
circulating, and every message that is taken out of the air is taken out by its destination.
-/

namespace MapRelay.NS3

open ForStd

/-! ## The two kinds of frames -/

/-- The relay that the tag of a packet names. -/
def Packet.relayOf (packet : Packet) : Option Mac48Address :=
  match packet.mbrTag with
  | some tag => if tag.isRelaying then some tag.relayMac else none
  | none => none

/-- A data frame to `dest`. -/
structure IsPlainHeader (hdr : WifiMacHeader) (dest : Mac48Address) : Prop where
  ctrlType : hdr.ctrlType = WifiMacHeader.typeData
  ctrlSubtype : hdr.ctrlSubtype = 0
  addr1 : hdr.addr1 = dest
  addr3 : hdr.addr3 = wildcardBssid

/-- An MBR data frame to `relay`, for `dest`. -/
structure IsRelayHeader (hdr : WifiMacHeader) (relay dest : Mac48Address) : Prop where
  ctrlType : hdr.ctrlType = WifiMacHeader.typeData
  ctrlSubtype : hdr.ctrlSubtype = 16
  addr1 : hdr.addr1 = relay
  addr3 : hdr.addr3 = wildcardBssid
  addr4 : hdr.addr4 = dest

variable {hdr rx : WifiMacHeader} {relay dest : Mac48Address}

/-- A plain data frame is not taken for one to a relay. -/
theorem IsPlainHeader.not_mbr (h : IsPlainHeader hdr dest) : hdr.isMBRData = false := by
  simp [WifiMacHeader.isMBRData, h.ctrlSubtype]

/-- A frame to a relay is taken for one. -/
theorem IsRelayHeader.mbr (h : IsRelayHeader hdr relay dest) : hdr.isMBRData = true := by
  simp [WifiMacHeader.isMBRData, h.ctrlType, h.ctrlSubtype]

/-- A plain data frame is received as one. -/
theorem IsPlainHeader.received (h : IsPlainHeader hdr dest) (hrx : hdr.ReceivedAs rx) :
    IsPlainHeader rx dest where
  ctrlType := hrx.ctrlType.trans h.ctrlType
  ctrlSubtype := hrx.ctrlSubtype.trans h.ctrlSubtype
  addr1 := hrx.addr1.trans h.addr1
  addr3 := hrx.addr3.trans h.addr3

/-- A frame to a relay is received as one. -/
theorem IsRelayHeader.received (h : IsRelayHeader hdr relay dest) (hrx : hdr.ReceivedAs rx) :
    IsRelayHeader rx relay dest where
  ctrlType := hrx.ctrlType.trans h.ctrlType
  ctrlSubtype := hrx.ctrlSubtype.trans h.ctrlSubtype
  addr1 := hrx.addr1.trans h.addr1
  addr3 := hrx.addr3.trans h.addr3
  addr4 := (hrx.addr4 h.mbr).trans h.addr4

/-- `Enqueue` sends a packet to its relay, or to its destination if it has none. -/
theorem enqueue_header (mac : OcbWifiMac) (memory : StackMemory) (packet : Packet)
    (dest : Mac48Address) :
    match packet.relayOf with
    | some relay => IsRelayHeader (mac.enqueue memory packet dest) relay dest
    | none => IsPlainHeader (mac.enqueue memory packet dest) dest := by
  -- Without a tag in the packet the flag of the new `MbrTag` is zero
  have hrelay : packet.relayOf = if (packet.peekMbrTag memory.relayMac).isRelaying then
      some (packet.peekMbrTag memory.relayMac).relayMac else none := by
    unfold Packet.relayOf Packet.peekMbrTag
    cases packet.mbrTag <;> rfl
  rw [hrelay]
  unfold OcbWifiMac.enqueue
  dsimp only
  by_cases hflag : (packet.peekMbrTag memory.relayMac).isRelaying = true
  · rw [if_pos hflag, if_pos hflag]
    dsimp only
    split <;> exact ⟨rfl, rfl, rfl, rfl, rfl⟩
  · rw [if_neg hflag, if_neg hflag]
    dsimp only
    split <;> exact ⟨rfl, rfl, rfl, rfl⟩

/-- A plain data frame is forwarded up. -/
private theorem receive_plain (mac : OcbWifiMac) (packet : Packet) (h : IsPlainHeader rx dest) :
    mac.receive packet rx = .forwardUp packet rx.addr2 dest := by
  simp [OcbWifiMac.receive, WifiMacHeader.isCtl, WifiMacHeader.isData, WifiMacHeader.isQosData,
    WifiMacHeader.isMBRData, h.ctrlType, h.ctrlSubtype, h.addr1, h.addr3,
    WifiMacHeader.typeData, WifiMacHeader.typeCtl]

/-- An MBR data frame is sent on as a plain data frame: 16 is not a QoS subtype. -/
private theorem receive_relay (mac : OcbWifiMac) (packet : Packet)
    (h : IsRelayHeader rx relay dest) :
    mac.receive packet rx = .queue packet (mac.hdrRelay rx) := by
  -- The tests for QoS frames come first in `Receive`
  have hbit : (16 : UInt8) &&& 8 = 0 := by decide
  simp [hbit, OcbWifiMac.receive, WifiMacHeader.isCtl, WifiMacHeader.isData,
    WifiMacHeader.isQosData, WifiMacHeader.isMBRData, h.ctrlType, h.ctrlSubtype, h.addr3,
    WifiMacHeader.typeData, WifiMacHeader.typeCtl]

/-- The relay sends the frame on as a plain one, to its destination. -/
private theorem hdrRelay_plain (mac : OcbWifiMac) (h : IsRelayHeader rx relay dest) :
    IsPlainHeader (mac.hdrRelay rx) dest :=
  ⟨rfl, rfl, h.addr4, rfl⟩

/-! ## The invariant -/

/-- How the frames, deliveries and relay transmissions belong to calls of `Enqueue`. -/
structure AirOk (stations : Mac48Address → Option OcbWifiMac) (a : Air) : Prop where
  admissible : ∀ call ∈ a.enqueued, call.Admissible stations
  frame : ∀ f ∈ a.inFlight, ∃ call, a.enqueued[f.id]? = some call ∧ f.packet = call.packet ∧
    ((∃ relay, call.packet.relayOf = some relay ∧ IsRelayHeader f.hdr relay call.dest) ∨
      IsPlainHeader f.hdr call.dest)
  delivery : ∀ d ∈ a.up, ∃ call, a.enqueued[d.id]? = some call ∧ d.station = call.dest ∧
    d.packet = call.packet
  relay : ∀ r ∈ a.relayed, ∃ call, a.enqueued[r.1]? = some call ∧
    call.packet.relayOf = some r.2

/-- Messages on the air as hopping messages: an MBR data frame has one hop left. -/
def airView : FrameView Frame Delivery where
  id := Frame.id
  hops f := if f.hdr.isMBRData then 1 else 0
  doneId := Delivery.id

def Air.traffic (a : Air) : Traffic Frame Delivery :=
  ⟨a.inFlight, a.up, a.relayed.map Prod.fst, a.enqueued.length⟩

/-- A frame is received. -/
def AirEvent.isReceive : AirEvent → Bool
  | .enqueue _ _ => false
  | .receive _ _ => true

variable {stations : Mac48Address → Option OcbWifiMac} {a a' : Air} {event : AirEvent}

/-- A call keeps its number when others follow. -/
private theorem enqueued_append_left {calls : List Enqueued} {k : Nat} {call : Enqueued}
    (h : calls[k]? = some call) (new : Enqueued) : (calls ++ [new])[k]? = some call := by
  rw [List.getElem?_append_left (List.getElem?_eq_some_iff.mp h).1, h]

/-- The frames that are left were in the air. -/
private theorem mem_of_mem_erased {fs l₁ l₂ : List Frame} {f f' : Frame} (hfs : fs = l₁ ++ f :: l₂)
    (hf' : f' ∈ l₁ ++ l₂) : f' ∈ fs := by
  rw [hfs]
  rcases List.mem_append.mp hf' with hf' | hf'
  · exact List.mem_append_left _ hf'
  · exact List.mem_append_right _ (List.mem_cons_of_mem _ hf')

/-- A frame in the air, and what its reception does. -/
theorem AirOk.receive_cases (h : AirOk stations a) {f : Frame} (hf : f ∈ a.inFlight)
    {rx : WifiMacHeader} (hrx : f.hdr.ReceivedAs rx) (mac : OcbWifiMac) :
    ∃ call, a.enqueued[f.id]? = some call ∧ f.packet = call.packet ∧
      ((f.hdr.isMBRData = true ∧ call.packet.relayOf = some f.hdr.addr1 ∧
          mac.receive f.packet rx = .queue f.packet (mac.hdrRelay rx) ∧
          IsPlainHeader (mac.hdrRelay rx) call.dest) ∨
        (f.hdr.isMBRData = false ∧ f.hdr.addr1 = call.dest ∧
          mac.receive f.packet rx = .forwardUp f.packet rx.addr2 call.dest)) := by
  -- The frame carries its call, towards the relay or as plain data
  obtain ⟨call, hcall, hpacket, ⟨relay, hrelay, hhdr⟩ | hhdr⟩ := h.frame f hf
  -- For the relay: the packet is queued again
  · refine ⟨call, hcall, hpacket, .inl ⟨hhdr.mbr, ?_, ?_, ?_⟩⟩
    · rw [hrelay, hhdr.addr1]
    · exact receive_relay mac f.packet (hhdr.received hrx)
    · exact hdrRelay_plain mac (hhdr.received hrx)
  -- Plain data is handed up
  · refine ⟨call, hcall, hpacket, .inr ⟨hhdr.not_mbr, hhdr.addr1, ?_⟩⟩
    exact receive_plain mac f.packet (hhdr.received hrx)

/-- A call of `Enqueue` is one more message, which is in the air with the header that
    `Enqueue` makes. -/
theorem AirOk.enqueue (h : AirOk stations a) {call : Enqueued} (memory : StackMemory)
    (hcall : call.Admissible stations) :
    AirOk stations { a with
      inFlight := a.inFlight ++
        [⟨a.enqueued.length, call.packet, call.sender.enqueue memory call.packet call.dest⟩]
      enqueued := a.enqueued ++ [call] } where
  -- The calls admitted so far, and the new one
  admissible c hc := by
    rcases List.mem_append.mp hc with hc | hc
    · exact h.admissible c hc
    · rw [List.mem_singleton.mp hc]
      exact hcall
  -- The frames of before keep their call, as calls are only added
  frame f hf := by
    rcases List.mem_append.mp hf with hf | hf
    · obtain ⟨c, hc, hrest⟩ := h.frame f hf
      exact ⟨c, enqueued_append_left hc call, hrest⟩
    · -- The frame of the new call
      rw [List.mem_singleton.mp hf]
      refine ⟨call, List.getElem?_concat_length, rfl, ?_⟩
      have hheader := enqueue_header call.sender memory call.packet call.dest
      cases hrelay : call.packet.relayOf with
      | some relay =>
        rw [hrelay] at hheader
        exact .inl ⟨relay, rfl, hheader⟩
      | none =>
        rw [hrelay] at hheader
        exact .inr hheader
  delivery d hd := by
    obtain ⟨c, hc, hrest⟩ := h.delivery d hd
    exact ⟨c, enqueued_append_left hc call, hrest⟩
  relay r hr := by
    obtain ⟨c, hc, hrest⟩ := h.relay r hr
    exact ⟨c, enqueued_append_left hc call, hrest⟩

/-- A call of `Enqueue` puts one new message on the air. -/
private theorem hop_enqueue (a : Air) (call : Enqueued) (hdr : WifiMacHeader) :
    Traffic.Hop airView 1 a.traffic false
      ({ a with
          inFlight := a.inFlight ++ [⟨a.enqueued.length, call.packet, hdr⟩]
          enqueued := a.enqueued ++ [call] } : Air).traffic := by
  have hhops : airView.hops ⟨a.enqueued.length, call.packet, hdr⟩ ≤ 1 := by
    show (if _ then 1 else 0) ≤ 1
    split <;> omega
  show Traffic.Hop airView 1 _ false ⟨_, _, _, (a.enqueued ++ [call]).length⟩
  rw [List.length_append, List.length_singleton]
  exact .enter rfl hhops

variable {l₁ l₂ : List Frame} {f : Frame} {call : Enqueued}

/-- A frame leaves the air at the destination of its message. -/
theorem AirOk.forwardUp (h : AirOk stations a) (hflight : a.inFlight = l₁ ++ f :: l₂)
    (hcall : a.enqueued[f.id]? = some call) (hpacket : f.packet = call.packet)
    (haddr : f.hdr.addr1 = call.dest) (source : Mac48Address) :
    AirOk stations { a with
      inFlight := l₁ ++ l₂
      up := a.up ++ [⟨f.id, f.hdr.addr1, f.packet, source, call.dest⟩] } where
  admissible := h.admissible
  frame f' hf' := h.frame f' (mem_of_mem_erased hflight hf')
  delivery d hd := by
    rcases List.mem_append.mp hd with hd | hd
    · exact h.delivery d hd
    · rw [List.mem_singleton.mp hd]
      exact ⟨call, hcall, haddr, hpacket⟩
  relay := h.relay

/-- The relay of a message queues the packet it has received, now with a plain header. -/
theorem AirOk.queue (h : AirOk stations a) (hflight : a.inFlight = l₁ ++ f :: l₂)
    (hcall : a.enqueued[f.id]? = some call) (hpacket : f.packet = call.packet)
    (hrelay : call.packet.relayOf = some f.hdr.addr1) (hplain : IsPlainHeader hdr call.dest) :
    AirOk stations { a with
      inFlight := l₁ ++ l₂ ++ [⟨f.id, f.packet, hdr⟩]
      relayed := a.relayed ++ [(f.id, f.hdr.addr1)] } where
  admissible := h.admissible
  -- The relayed frame is plain data for the destination of the call
  frame f' hf' := by
    rcases List.mem_append.mp hf' with hf' | hf'
    · exact h.frame f' (mem_of_mem_erased hflight hf')
    · rw [List.mem_singleton.mp hf']
      exact ⟨call, hcall, hpacket, .inr hplain⟩
  delivery := h.delivery
  -- The relay was the one the call asks for
  relay r hr := by
    rcases List.mem_append.mp hr with hr | hr
    · exact h.relay r hr
    · rw [List.mem_singleton.mp hr]
      exact ⟨call, hcall, hrelay⟩

/-- A plain data frame has no hop left. -/
private theorem hops_lt (hmbr : f.hdr.isMBRData = true) (hplain : IsPlainHeader hdr dest) :
    airView.hops ⟨f.id, f.packet, hdr⟩ < airView.hops f := by
  show (if hdr.isMBRData then 1 else 0) < if f.hdr.isMBRData then 1 else 0
  rw [hplain.not_mbr, hmbr]
  decide

/-- Every event on the air is a hop of a message, and keeps the invariant. -/
theorem AirOk.step (h : AirOk stations a) (hstep : AirStep stations a event a') :
    AirOk stations a' ∧ Traffic.Hop airView 1 a.traffic event.isReceive a'.traffic := by
  cases hstep with
  | @enqueue call memory hcall => exact ⟨h.enqueue memory hcall, hop_enqueue a call _⟩
  | @forwardUp l₁ l₂ f rx mac packet source dest hflight hrx hmac hreceive =>
    have hf : f ∈ a.inFlight := by simp [hflight]
    obtain ⟨call, hcall, hpacket, ⟨-, -, hqueue, -⟩ | ⟨-, haddr, hup⟩⟩ :=
      h.receive_cases hf hrx mac
    · -- An MBR data frame is not forwarded up
      rw [hqueue] at hreceive
      cases hreceive
    · rw [hup] at hreceive
      cases hreceive
      refine ⟨h.forwardUp hflight hcall hpacket haddr rx.addr2, ?_⟩
      rw [Air.traffic, hflight]
      exact .take rfl
  | @queue l₁ l₂ f rx mac packet hdr hflight hrx hmac hreceive =>
    have hf : f ∈ a.inFlight := by simp [hflight]
    obtain ⟨call, hcall, hpacket, ⟨hmbr, hrelay, hqueue, hplain⟩ | ⟨-, -, hup⟩⟩ :=
      h.receive_cases hf hrx mac
    · rw [hqueue] at hreceive
      cases hreceive
      refine ⟨h.queue hflight hcall hpacket hrelay hplain, ?_⟩
      rw [Air.traffic, Air.traffic, hflight, List.map_append]
      exact .forward rfl (hops_lt hmbr hplain)
    · -- A plain data frame is not sent on
      rw [hup] at hreceive
      cases hreceive
  | @other l₁ l₂ f rx mac hflight hrx hmac hreceive =>
    -- Neither kind of frame fails an assertion, is an A-MSDU or is a management frame
    have hf : f ∈ a.inFlight := by simp [hflight]
    obtain ⟨call, hcall, hpacket, ⟨-, -, hqueue, -⟩ | ⟨-, -, hup⟩⟩ := h.receive_cases hf hrx mac
    · rw [hqueue] at hreceive
      simp at hreceive
    · rw [hup] at hreceive
      simp at hreceive

/-! ## Runs -/

/-- Before the first call the invariant holds. -/
theorem AirOk.silent : AirOk stations Air.silent where
  admissible := by simp [Air.silent]
  frame := by simp [Air.silent]
  delivery := by simp [Air.silent]
  relay := by simp [Air.silent]

/-- The tag of a packet with a relay. -/
private theorem relayOf_eq_some {packet : Packet} (h : packet.relayOf = some relay) :
    ∃ tag, packet.mbrTag = some tag ∧ tag.isRelaying = true ∧ tag.relayMac = relay := by
  unfold Packet.relayOf at h
  split at h
  · next tag htag =>
    by_cases hflag : tag.isRelaying = true
    · rw [if_pos hflag] at h
      exact ⟨tag, htag, hflag, Option.some.inj h⟩
    · rw [if_neg hflag] at h
      cases h
  · cases h

/-- The relay of a packet is a station other than its destination. -/
private theorem Enqueued.Admissible.relay_ne {call : Enqueued} (h : call.Admissible stations)
    (hrelay : call.packet.relayOf = some relay) :
    (stations relay).isSome ∧ relay ≠ call.dest := by
  obtain ⟨tag, htag, hflag, rfl⟩ := relayOf_eq_some hrelay
  exact ⟨(h.2.2 tag htag hflag).1, (h.2.2 tag htag hflag).2.1⟩

/-- Every call that was made was admissible. -/
private theorem AirOk.call_admissible (h : AirOk stations a) {k : Nat} {call : Enqueued}
    (hcall : a.enqueued[k]? = some call) : call.Admissible stations :=
  h.admissible call (List.mem_of_getElem? hcall)

/-- Every frame in the air is on its way to a station. -/
theorem AirOk.station (h : AirOk stations a) {f : Frame} (hf : f ∈ a.inFlight) :
    ∃ mac, stations f.hdr.addr1 = some mac := by
  obtain ⟨call, hcall, -, ⟨relay, hrelay, hhdr⟩ | hhdr⟩ := h.frame f hf
  · rw [hhdr.addr1]
    exact Option.isSome_iff_exists.mp ((h.call_admissible hcall).relay_ne hrelay).1
  · rw [hhdr.addr1]
    exact Option.isSome_iff_exists.mp (h.call_admissible hcall).2.1

/-- Every frame in the air can be received, whatever the lower layers filled in. -/
theorem AirOk.progress (h : AirOk stations a) {f : Frame} (hf : f ∈ a.inFlight)
    (hrx : f.hdr.ReceivedAs rx) : ∃ a', AirStep stations a (.receive f rx) a' := by
  obtain ⟨l₁, l₂, hflight⟩ := List.append_of_mem hf
  obtain ⟨mac, hmac⟩ := h.station hf
  obtain ⟨call, -, -, ⟨-, -, hqueue, -⟩ | ⟨-, -, hup⟩⟩ := h.receive_cases hf hrx mac
  · exact ⟨_, .queue hflight hrx hmac hqueue⟩
  · exact ⟨_, .forwardUp hflight hrx hmac hup⟩

/-- A reception leaves the calls of `Enqueue` as they are. -/
private theorem AirStep.enqueued_eq (hstep : AirStep stations a event a')
    (hreceive : event.isReceive = true) : a'.enqueued = a.enqueued := by
  cases hstep <;> first | rfl | cases hreceive

/-- From every state of the air the frames can be received until none is left. -/
theorem AirOk.drain (h : AirOk stations a) :
    ∃ events a', (∀ event ∈ events, AirEvent.isReceive event = true) ∧
      Run (AirStep stations) a events a' ∧ a'.inFlight = [] ∧ a'.enqueued = a.enqueued := by
  -- Every reception takes something from the budget of the traffic
  induction hn : Traffic.budget airView a.traffic using Nat.strongRecOn generalizing a with
  | ind n ih =>
    cases hflight : a.inFlight with
    | nil => exact ⟨[], a, by simp, .nil, hflight, rfl⟩
    | cons f fs =>
      -- Receive the first frame, as it was sent
      have hf : f ∈ a.inFlight := by simp [hflight]
      have hrx : f.hdr.ReceivedAs f.hdr := ⟨rfl, rfl, rfl, rfl, rfl, fun _ => rfl⟩
      obtain ⟨a', hstep⟩ := h.progress hf hrx
      obtain ⟨hok, hhop⟩ := h.step hstep
      obtain ⟨events, a'', hreceive, hrun, hempty, henqueued⟩ :=
        ih _ (hn ▸ hhop.budget_lt) hok rfl
      refine ⟨.receive f f.hdr :: events, a'', ?_, ?_, hempty, ?_⟩
      · intro event hevent
        rcases List.mem_cons.mp hevent with rfl | hevent
        · rfl
        · exact hreceive event hevent
      · exact (Run.nil.snoc hstep).append hrun
      · rw [henqueued, hstep.enqueued_eq rfl]

/-- Each packet is in one place: in the air or forwarded up. It is forwarded up as it was
    enqueued, at its destination and not at its relay, and sent on by its relay at most once.
    There are at most two receptions for each packet, and any frame in the air can be
    received. -/
structure DeliversOnce (stations : Mac48Address → Option OcbWifiMac) (events : List AirEvent)
    (a : Air) : Prop where
  once : ∀ k < a.enqueued.length,
    a.up.countP (·.id == k) + a.inFlight.countP (·.id == k) = 1
  delivered : ∀ d ∈ a.up, ∃ call, a.enqueued[d.id]? = some call ∧ d.station = call.dest ∧
    d.packet = call.packet ∧ call.packet.relayOf ≠ some d.station
  relayedOnce : ∀ k, (a.relayed.map Prod.fst).count k ≤ 1
  relayed : ∀ r ∈ a.relayed, ∃ call, a.enqueued[r.1]? = some call ∧
    call.packet.relayOf = some r.2
  bounded : events.countP AirEvent.isReceive ≤ 2 * a.enqueued.length
  progress : ∀ f ∈ a.inFlight, ∀ rx, f.hdr.ReceivedAs rx →
    ∃ a', AirStep stations a (.receive f rx) a'

/-- Every run keeps the invariant and delivers at most once. -/
theorem deliversOnce_of_run {events : List AirEvent}
    (hrun : Run (AirStep stations) Air.silent events a) :
    AirOk stations a ∧ DeliversOnce stations events a := by
  -- The traffic of the air, with at most one hop for each message
  obtain ⟨hok, htraffic⟩ : AirOk stations a ∧
      Run (Traffic.Hop airView 1) Air.silent.traffic (events.map AirEvent.isReceive) a.traffic :=
    hrun.simulate AirOk.silent fun _ _ _ h hstep => h.step hstep
  refine ⟨hok, ?_, ?_, ?_, hok.relay, ?_, fun f hf rx hrx => hok.progress hf hrx⟩
  -- Every message is at one place
  · intro k hk
    have hcopies := Traffic.copies_of_run htraffic k
    rw [if_pos (show k < a.traffic.entered from hk)] at hcopies
    exact hcopies
  -- What goes up goes up at the station the call was for
  · intro d hd
    obtain ⟨call, hcall, hstation, hpacket⟩ := hok.delivery d hd
    refine ⟨call, hcall, hstation, hpacket, ?_⟩
    intro hrelay
    exact ((hok.call_admissible hcall).relay_ne hrelay).2 hstation
  · -- A message enters with at most one hop
    intro k
    have hhops := Traffic.hopsOf_of_run htraffic k
    have hle : (if k < a.traffic.entered then 1 else 0) ≤ 1 := by split <;> omega
    exact Nat.le_trans (Nat.le_trans (Nat.le_add_right _ _) hhops) hle
  · -- A message with one hop is received at most twice
    have hreceived := Traffic.received_of_run htraffic
    rw [List.count, List.countP_map] at hreceived
    have hcomp : ((· == true) ∘ AirEvent.isReceive) = AirEvent.isReceive := by
      funext event
      simp
    rw [hcomp] at hreceived
    have hentered : a.traffic.entered = a.enqueued.length := rfl
    omega

/-- In every run each packet is delivered once, unmodified, at its destination, after at most
    one transmission by its relay, and every run can be continued by receptions until all
    packets have been delivered. -/
theorem relay_protocol {events : List AirEvent}
    (hrun : Run (AirStep stations) Air.silent events a) :
    DeliversOnce stations events a ∧
      ∃ events' a', (∀ event ∈ events', AirEvent.isReceive event = true) ∧
        Run (AirStep stations) a events' a' ∧ DeliversOnce stations (events ++ events') a' ∧
        a'.inFlight = [] ∧ a'.enqueued = a.enqueued ∧
        ∀ k < a.enqueued.length, a'.up.countP (·.id == k) = 1 := by
  -- What is in flight can always be received, so the run goes on until the air is empty
  obtain ⟨hok, honce⟩ := deliversOnce_of_run hrun
  obtain ⟨events', a', hreceive, hrun', hempty, henqueued⟩ := hok.drain
  have honce' := (deliversOnce_of_run (hrun.append hrun')).2
  refine ⟨honce, events', a', hreceive, hrun', honce', hempty, henqueued, ?_⟩
  -- With nothing in flight a message can only be up
  intro k hk
  have hplace := honce'.once k (henqueued ▸ hk)
  rw [hempty] at hplace
  simpa using hplace

/-- Three stations; the last one is the relay below. -/
def stationA : OcbWifiMac := ⟨.ofBytes 2 0 0 0 0 1, false, false⟩

def stationB : OcbWifiMac := ⟨.ofBytes 2 0 0 0 0 2, true, true⟩

def stationR : OcbWifiMac := ⟨.ofBytes 2 0 0 0 0 3, false, false⟩

def threeStations (address : Mac48Address) : Option OcbWifiMac :=
  [stationA, stationB, stationR].find? (·.address == address)

/-- A packet from the first station to the second one, over the third one. -/
def relayedCall : Enqueued :=
  ⟨stationA, ⟨[7], some ⟨1, stationR.address⟩⟩, stationB.address⟩

/-- An answer that is sent directly. -/
def directCall : Enqueued := ⟨stationB, ⟨[8], none⟩, stationA.address⟩

def zeroMemory : StackMemory :=
  ⟨⟨0, 0, 0, 0, 0, 0, 0, 0, 0, 0, .zero, .zero, .zero, 0, 0, .zero, 0, 0, 0, 0, 0⟩, .zero⟩

/-- The relayed packet in the air, before and after it has been at the relay. -/
def relayedFrame : Frame :=
  ⟨0, relayedCall.packet, stationA.enqueue zeroMemory relayedCall.packet stationB.address⟩

/-- The call with a relay is admissible. -/
private theorem relayedCall_admissible : relayedCall.Admissible threeStations := by
  refine ⟨by decide, by decide, ?_⟩
  intro tag htag _
  cases htag
  decide

/-- The call without a relay is admissible. -/
private theorem directCall_admissible : directCall.Admissible threeStations :=
  ⟨by decide, by decide, fun tag htag => by cases htag⟩

/-- A run with a relayed and a direct packet. -/
theorem relay_protocol_mixed :
    ∃ events a, Run (AirStep threeStations) Air.silent events a ∧
      events.length = 3 ∧ a.relayed = [(0, stationR.address)] ∧
      DeliversOnce threeStations events a ∧
      ∃ events' a', (∀ event ∈ events', AirEvent.isReceive event = true) ∧
        Run (AirStep threeStations) a events' a' ∧
        DeliversOnce threeStations (events ++ events') a' ∧
        a'.inFlight = [] ∧ a'.enqueued = a.enqueued ∧
        ∀ k < a.enqueued.length, a'.up.countP (·.id == k) = 1 := by
  have hrx : relayedFrame.hdr.ReceivedAs relayedFrame.hdr :=
    ⟨rfl, rfl, rfl, rfl, rfl, fun _ => rfl⟩
  -- Both calls, and the relay receives the first of them
  have hrun : Run (AirStep threeStations) Air.silent
      [.enqueue relayedCall zeroMemory, .enqueue directCall zeroMemory,
        .receive relayedFrame relayedFrame.hdr] _ :=
    ((Run.nil.snoc (AirStep.enqueue relayedCall_admissible)).snoc
      (AirStep.enqueue directCall_admissible)).snoc
      (@AirStep.queue _ _ [] _ relayedFrame _ stationR _ _ rfl hrx (by decide) rfl)
  exact ⟨_, _, hrun, rfl, rfl, relay_protocol hrun⟩

end MapRelay.NS3
