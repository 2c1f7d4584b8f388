import MapRelay.Native.GpsrPacket

/-!
# The payload of a GPSR packet

The headers are read back as they were written. So a packet that has once been given its headers
can be taken apart by every node on its way, and whatever a node does with it, the bytes behind
the headers stay what the source has sent.
-/

namespace MapRelay.NS3.Gpsr

open ForStd
open GeoSvr (Callback Ipv4Header Ipv4Route RoutingFault removeHeader)

variable {K U E : Type}

/-! ## The headers -/

section Headers

variable (env : PacketEnv K)

/-- The coordinate as it comes out of a packet. -/
def PacketEnv.received (x : K) : K := env.ofBits (env.toBits x)

/-- The header as it comes out of a packet. -/
def PositionHeader.received (h : PositionHeader K) : PositionHeader K :=
  { h with
    srcPosx := env.received h.srcPosx
    srcPosy := env.received h.srcPosy
    dstPosx := env.received h.dstPosx
    dstPosy := env.received h.dstPosy
    recPosx := env.received h.recPosx
    recPosy := env.received h.recPosy
    lastPosx := env.received h.lastPosx
    lastPosy := env.received h.lastPosy }

/-- A double has 8 bytes. -/
@[simp] theorem PacketEnv.length_writeDouble (x : K) : (env.writeDouble x).length = 8 := by
  simp [writeDouble]

/-- A double is read back as it comes out of a packet. -/
@[simp] theorem PacketEnv.run_readDouble {β : Type} (k : K → Reader β) (x : K)
    (rest : List UInt8) :
    (env.readDouble >>= k).run (env.writeDouble x ++ rest) = (k (env.received x)).run rest := by
  rw [readDouble, writeDouble, bind_assoc, Codec.run_read_write]
  rfl

/-- The type of a packet has the announced size. -/
theorem TypeHeader.length_serialize (h : TypeHeader) :
    (h.serialize env.buffer).length = getSerializedSize := by
  cases htype : h.type <;> simp [serialize, htype, getSerializedSize]

/-- The type of a packet is read back. -/
theorem TypeHeader.run_deserialize (type : MessageType) (h₀ : TypeHeader) (rest : List UInt8) :
    (h₀.deserialize env.buffer).run ((TypeHeader.new type).serialize env.buffer ++ rest) =
      some (.new type, rest) := by
  cases type with
  | hello =>
    simp only [deserialize, serialize, new, Codec.run_read_write]
    rfl
  | pos =>
    simp only [deserialize, serialize, new, Codec.run_read_write]
    rfl

/-- A hello has the announced size. -/
theorem HelloHeader.length_serialize (h : HelloHeader K) :
    (h.serialize env).length = getSerializedSize := by
  simp [serialize, getSerializedSize]

/-- A hello is read back, with the coordinates as they come out. -/
theorem HelloHeader.run_deserialize (h : HelloHeader K) (rest : List UInt8) :
    (deserialize env).run (h.serialize env ++ rest) =
      some (⟨env.received h.originPosx, env.received h.originPosy⟩, rest) := by
  simp only [deserialize, serialize, List.append_assoc, PacketEnv.run_readDouble]
  rfl

/-- A position header has the announced size. -/
theorem PositionHeader.length_serialize (h : PositionHeader K) :
    (h.serialize env).length = getSerializedSize := by
  simp [serialize, getSerializedSize]

/-- A position header is read back, with the coordinates as they come out. -/
theorem PositionHeader.run_deserialize (h : PositionHeader K) (rest : List UInt8) :
    (deserialize env).run (h.serialize env ++ rest) = some (h.received env, rest) := by
  simp only [deserialize, serialize, List.append_assoc, PacketEnv.run_readDouble,
    Codec.run_read_write]
  rfl

end Headers

/-! ## Taking packets apart -/

section Carries

variable {env : PacketEnv K} {payload p : List UInt8}

/-- The packet is what the source has sent, behind the headers. -/
def Carries (env : PacketEnv K) (payload p : List UInt8) : Prop :=
  ∃ hdr : PositionHeader K, p = Opened.close env ⟨.new .pos, none, payload⟩ hdr

/-- A packet that has been put together is taken apart again. -/
theorem openPacket_close (env : PacketEnv K) (o : Opened K) (hdr : PositionHeader K)
    (htype : o.tHeader = .new .pos) :
    openPacket env (o.close env hdr) = .ok ⟨.new .pos, some (hdr.received env), o.payload⟩ := by
  have hread := TypeHeader.run_deserialize env .pos (.new .pos) (hdr.serialize env ++ o.payload)
  have hpos := hdr.run_deserialize env o.payload
  rw [Opened.close, htype]
  simp only [openPacket, removeHeader, hread, hpos, bind, Except.bind]
  rfl

/-- A packet that carries a payload can be opened. -/
theorem Carries.open (h : Carries env payload p) :
    ∃ hdr, openPacket env p = .ok ⟨.new .pos, some hdr, payload⟩ := by
  obtain ⟨hdr, rfl⟩ := h
  exact ⟨hdr.received env, openPacket_close env _ hdr rfl⟩

/-- An opened packet that is closed carries its payload. -/
theorem Carries.close (o : Opened K) (hdr : PositionHeader K) (htype : o.tHeader = .new .pos) :
    Carries env o.payload (o.close env hdr) := by
  refine ⟨hdr, ?_⟩
  rw [Opened.close, Opened.close, htype]

/-- A packet carries one payload only. -/
theorem Carries.unique {payload' : List UInt8} (h : Carries env payload p)
    (h' : Carries env payload' p) : payload = payload' := by
  obtain ⟨hdr, hopen⟩ := h.open
  obtain ⟨hdr', hopen'⟩ := h'.open
  rw [hopen] at hopen'
  cases hopen'
  rfl

/-- A new packet carries the payload of the source. -/
theorem carries_newPacket [Zero K] (env : PacketEnv K) (locationService : LocationService K)
    (pos : Vector3D K) (destination : UInt32) (payload : List UInt8) :
    Carries env payload (newPacket env locationService pos destination payload) :=
  ⟨_, rfl⟩

end Carries

/-! ## What becomes of a packet -/

section Forwarding

variable [Field K] [LinearOrder K] {env : PacketEnv K} {now : Int} {t : NeighborTable K}
  {pos : Vector3D K} {payload p : List UInt8} {ucb : U} {header : Ipv4Header}

/-- The packet is sent on, or reported as dropped, with its payload. -/
inductive Output.Settles (env : PacketEnv K) (payload : List UInt8) (ucb : U) (dst : UInt32)
    (header : Ipv4Header) : Output U E → Prop where
  | unicast {gateway : UInt32} {p : List UInt8} (h : Carries env payload p) :
      Settles env payload ucb dst header
        (.call (.unicast ucb (routeVia dst header gateway) p header))
  | dropPkt {p : List UInt8} (h : Carries env payload p) :
      Settles env payload ucb dst header (.dropPkt p)

omit [Field K] [LinearOrder K] in
/-- What settles a packet is an answer. -/
theorem Output.Settles.isAnswer {dst : UInt32} {out : Output U E}
    (h : out.Settles env payload ucb dst header) : out.isAnswer = true := by
  cases h with
  | unicast => rfl
  | dropPkt => rfl

/-- The recovery mode settles every packet that carries a payload. -/
theorem recoveryModePacket_of_carries (h : Carries env payload p) (now : Int)
    (t : NeighborTable K) (pos : Vector3D K) (dst : UInt32) (ucb : U) (header : Ipv4Header) :
    ∃ out : Output U E, recoveryModePacket env now t pos dst p ucb header =
      .ok [.recCount p, out] ∧ out.Settles env payload ucb dst header := by
  obtain ⟨hdr, hopen⟩ := h.open
  simp only [recoveryModePacket, hopen, bind, Except.bind, recoveryMode, TypeHeader.new,
    Bool.true_eq_false, if_false]
  split
  · next hinvalid =>
    split at hinvalid
    · cases hinvalid
    · cases hinvalid
  · exact ⟨_, rfl, .dropPkt (.close _ _ rfl)⟩
  · exact ⟨_, rfl, .unicast (.close _ _ rfl)⟩

/-- A packet of a known type is not dropped. -/
private theorem forwarding_ne_drop (env : RecoveryEnv K) (now : Int) (t : NeighborTable K)
    (locationService : LocationService K) (pos : Vector3D K) (hdr : Option (PositionHeader K))
    (dst : UInt32) : (t.forwarding env now locationService pos true hdr dst).1 ≠ .drop := by
  unfold NeighborTable.forwarding
  simp only [Bool.true_eq_false, if_false]
  split
  · simp
  split
  · simp
  split
  · simp
  · simp

/-- Forwarding settles every packet that carries a payload. -/
theorem forwardingPacket_of_carries (h : Carries env payload p) (now : Int) (t : NeighborTable K)
    (locationService : LocationService K) (pos : Vector3D K) (ucb : U) (header : Ipv4Header) :
    ∃ (outputs : List (Output U E)) (out : Output U E),
      forwardingPacket env now t locationService pos p header ucb = .ok (true, outputs) ∧
        outputs.filter Output.isAnswer = [out] ∧
        out.Settles env payload ucb header.destination header := by
  obtain ⟨hdr, hopen⟩ := h.open
  have hdrop := forwarding_ne_drop env.toRecoveryEnv now t locationService pos (some hdr)
    header.destination
  simp only [forwardingPacket, hopen, bind, Except.bind, TypeHeader.new]
  generalize t.forwarding env.toRecoveryEnv now locationService pos true (some hdr)
    header.destination = forwarded at hdrop
  obtain ⟨forwarded, t'⟩ := forwarded
  cases forwarded with
  | drop => exact absurd rfl hdrop
  | forward gateway hdr' => exact ⟨_, _, rfl, rfl, .unicast (.close _ _ rfl)⟩
  | recoveryMode hdr' =>
    have hcarries : Carries env payload
        (Opened.close env ⟨.new .pos, some hdr, payload⟩ hdr') := .close _ _ rfl
    obtain ⟨out, hrecovery, hsettles⟩ := recoveryModePacket_of_carries (E := E) hcarries now t' pos
      header.destination ucb header
    refine ⟨_, out, by rw [TypeHeader.new] at hrecovery; simp only [hrecovery]; rfl, ?_, hsettles⟩
    rw [List.filter_cons_of_neg (by simp [Output.isAnswer]),
      List.filter_cons_of_pos hsettles.isAnswer]
    rfl

end Forwarding

end MapRelay.NS3.Gpsr
