import MapRelay.Native.Buffer
import MapRelay.Native.WifiMacHeader

/-!
# The widened subtype on the wire

The fifth bit of the subtype takes the place of the bit below, so that the type moves down
by one as well. The fields of the frame control still do not overlap, and the three
functions that repeat the layout of the header agree on it, so that a header comes back
with everything its frame carries.
-/

namespace MapRelay.NS3

open ForStd

namespace WifiMacHeader

variable {i : Iterator} {hdr hdr' h₀ h₁ rx : WifiMacHeader} {type : UInt8 × UInt8}

attribute [simp] Iterator.width_htolsbU16 Iterator.width_address

/-- The two numbers that `SetType` sets. -/
def macType (hdr : WifiMacHeader) : UInt8 × UInt8 := (hdr.ctrlType, hdr.ctrlSubtype)

/-- Flags are bits, and the numbers fit into the bits that the header has for them. -/
structure FieldsFit (hdr : WifiMacHeader) : Prop where
  ctrlToDs : hdr.ctrlToDs.toNat < 2 ^ 1
  ctrlFromDs : hdr.ctrlFromDs.toNat < 2 ^ 1
  ctrlMoreFrag : hdr.ctrlMoreFrag.toNat < 2 ^ 1
  ctrlRetry : hdr.ctrlRetry.toNat < 2 ^ 1
  ctrlMoreData : hdr.ctrlMoreData.toNat < 2 ^ 1
  ctrlWep : hdr.ctrlWep.toNat < 2 ^ 1
  ctrlOrder : hdr.ctrlOrder.toNat < 2 ^ 1
  seqFrag : hdr.seqFrag.toNat < 2 ^ 4
  seqSeq : hdr.seqSeq.toNat < 2 ^ 12
  qosTid : hdr.qosTid.toNat < 2 ^ 4
  qosEosp : hdr.qosEosp.toNat < 2 ^ 1
  qosAckPolicy : hdr.qosAckPolicy.toNat < 2 ^ 2
  amsduPresent : hdr.amsduPresent.toNat < 2 ^ 1
  qosStuff : hdr.qosStuff.toNat < 2 ^ 8

/-- `SetType` leaves such a header, of a type of the list. -/
theorem FieldsFit.setType (h : hdr.FieldsFit) (htype : type ∈ macTypes) :
    (hdr.setType type).FieldsFit ∧ (hdr.setType type).macType ∈ macTypes :=
  ⟨{ h with ctrlToDs := Nat.two_pow_pos 1, ctrlFromDs := Nat.two_pow_pos 1 }, htype⟩

/-- A property of the types is checked on the list of them. -/
private theorem of_mem_macTypes {P : UInt8 × UInt8 → Prop} [DecidablePred P]
    (hall : macTypes.all (fun type => decide (P type)) = true) (h : type ∈ macTypes) : P type :=
  of_decide_eq_true (List.all_eq_true.mp hall type h)

/-- A type that can be set fits into its two bits. -/
private theorem ctrlType_lt (h : type ∈ macTypes) : type.1.toNat < 2 ^ 2 :=
  of_mem_macTypes (P := fun type => type.1.toNat < 2 ^ 2) (by decide) h

/-- Its subtype may need five. -/
private theorem ctrlSubtype_lt (h : type ∈ macTypes) : type.2.toNat < 2 ^ 5 :=
  of_mem_macTypes (P := fun type => type.2.toNat < 2 ^ 5) (by decide) h

/-- A byte in range is under the mask as a word, too. -/
private theorem toUInt16_and_mask {x : UInt8} {k : Nat} (mask : UInt16) (hx : x.toNat < 2 ^ k)
    (hmask : mask.toNat = 2 ^ k - 1) : x.toUInt16 &&& mask = x.toUInt16 :=
  and_mask_of_lt (by simpa using hx) hmask

/-! ## The three words -/

/-- The fields of the frame control. -/
def controlFields (hdr : WifiMacHeader) :
    (UInt8 × UInt8) × UInt8 × UInt8 × UInt8 × UInt8 × UInt8 × UInt8 × UInt8 :=
  (hdr.macType, hdr.ctrlToDs, hdr.ctrlFromDs, hdr.ctrlMoreFrag, hdr.ctrlRetry,
    hdr.ctrlMoreData, hdr.ctrlWep, hdr.ctrlOrder)

/-- The frame control is read back. -/
private theorem setFrameControl_getFrameControl (h : hdr.FieldsFit) (htype : hdr.macType ∈ macTypes)
    (h₀ : WifiMacHeader) :
    h₀.setFrameControl hdr.getFrameControl =
      { h₀ with
        ctrlType := hdr.ctrlType
        ctrlSubtype := hdr.ctrlSubtype
        ctrlToDs := hdr.ctrlToDs
        ctrlFromDs := hdr.ctrlFromDs
        ctrlMoreFrag := hdr.ctrlMoreFrag
        ctrlRetry := hdr.ctrlRetry
        ctrlMoreData := hdr.ctrlMoreData
        ctrlWep := hdr.ctrlWep
        ctrlOrder := hdr.ctrlOrder } := by
  have htypeFits := toUInt16_and_mask 0x3 (ctrlType_lt htype) rfl
  have hsubtypeFits := toUInt16_and_mask 0x1f (ctrlSubtype_lt htype) rfl
  have htoDs := toUInt16_and_mask 0x1 h.ctrlToDs rfl
  have hfromDs := toUInt16_and_mask 0x1 h.ctrlFromDs rfl
  have hmoreFrag := toUInt16_and_mask 0x1 h.ctrlMoreFrag rfl
  have hretry := toUInt16_and_mask 0x1 h.ctrlRetry rfl
  have hmoreData := toUInt16_and_mask 0x1 h.ctrlMoreData rfl
  have hwep := toUInt16_and_mask 0x1 h.ctrlWep rfl
  have horder := toUInt16_and_mask 0x1 h.ctrlOrder rfl
  simp only [macType] at htypeFits hsubtypeFits
  -- Every field is alone under its mask
  simp (disch := first | assumption | decide) only [setFrameControl, getFrameControl, extract_or,
    extract_place_disjoint, extract_place_self, UInt16.or_zero, UInt16.zero_or,
    UInt8.toUInt8_toUInt16]

/-- The frame control tells its fields. -/
private theorem getFrameControl_injective (h : hdr.FieldsFit) (htype : hdr.macType ∈ macTypes)
    (h' : hdr'.FieldsFit) (htype' : hdr'.macType ∈ macTypes)
    (heq : hdr'.getFrameControl = hdr.getFrameControl) :
    hdr'.controlFields = hdr.controlFields := by
  have hset := setFrameControl_getFrameControl h htype hdr
  rw [← heq, setFrameControl_getFrameControl h' htype'] at hset
  simpa only [controlFields, macType] using congrArg controlFields hset

/-- The sequence control is read back. -/
private theorem setSequenceControl_getSequenceControl (h : hdr.FieldsFit) (h₀ : WifiMacHeader) :
    h₀.setSequenceControl hdr.getSequenceControl =
      { h₀ with seqFrag := hdr.seqFrag, seqSeq := hdr.seqSeq } := by
  have hfrag := toUInt16_and_mask 0x0f h.seqFrag rfl
  have hseq : hdr.seqSeq &&& 0x0fff = hdr.seqSeq := and_mask_of_lt h.seqSeq rfl
  have hword : hdr.getSequenceControl =
      place hdr.seqSeq 0x0fff 4 ||| place hdr.seqFrag.toUInt16 0x0f 0 := by
    rw [getSequenceControl, shiftLeft_eq_place hseq, ← shiftLeft_eq_place hfrag,
      UInt16.shiftLeft_zero]
  rw [hword]
  simp (disch := first | assumption | decide) only [setSequenceControl, extract_or,
    extract_place_disjoint, extract_place_self, UInt16.or_zero, UInt16.zero_or,
    UInt8.toUInt8_toUInt16]

/-- The QoS control is read back. -/
private theorem setQosControl_getQosControl (h : hdr.FieldsFit) (h₀ : WifiMacHeader) :
    h₀.setQosControl hdr.getQosControl =
      { h₀ with
        qosTid := hdr.qosTid
        qosEosp := hdr.qosEosp
        qosAckPolicy := hdr.qosAckPolicy
        amsduPresent := hdr.amsduPresent
        qosStuff := hdr.qosStuff } := by
  -- Each field keeps within its mask
  have htid := toUInt16_and_mask 0x000f h.qosTid rfl
  have heosp := toUInt16_and_mask 0x0001 h.qosEosp rfl
  have hack := toUInt16_and_mask 0x0003 h.qosAckPolicy rfl
  have hamsdu := toUInt16_and_mask 0x0001 h.amsduPresent rfl
  have hstuff : hdr.qosStuff &&& 0x00ff = hdr.qosStuff := and_mask_of_lt h.qosStuff rfl
  -- The fields do not overlap, so that the word is their union
  have hword : hdr.getQosControl =
      place hdr.qosTid.toUInt16 0x000f 0 ||| place hdr.qosEosp.toUInt16 0x0001 4 |||
        place hdr.qosAckPolicy.toUInt16 0x0003 5 ||| place hdr.amsduPresent.toUInt16 0x0001 7 |||
          place hdr.qosStuff 0x00ff 8 := by
    rw [getQosControl, shiftLeft_eq_place heosp, shiftLeft_eq_place hack,
      shiftLeft_eq_place hamsdu, shiftLeft_eq_place hstuff, ← shiftLeft_eq_place htid,
      UInt16.shiftLeft_zero]
  -- Out of the union each mask takes its own field
  rw [hword]
  simp (disch := first | assumption | decide) only [setQosControl, extract_or,
    extract_place_disjoint, extract_place_self, UInt16.or_zero, UInt16.zero_or,
    UInt8.toUInt8_toUInt16]

/-! ## The parts of the body -/

/-- The second address is read back. -/
private theorem run_readAddr2 (hdr h₁ : WifiMacHeader) (rest : List UInt8) :
    (readAddr2 i h₁).run (i.address.write hdr.addr2 ++ rest) =
      some ({ h₁ with addr2 := hdr.addr2 }, rest) := by
  rw [readAddr2, Codec.run_read_write]
  rfl

/-- The second and third address and the sequence control are read back. -/
private theorem run_readAddresses (h : hdr.FieldsFit) (h₁ : WifiMacHeader) (rest : List UInt8) :
    (readAddresses i h₁).run (writeAddresses i hdr ++ rest) =
      some ({ h₁ with
        addr2 := hdr.addr2
        addr3 := hdr.addr3
        seqFrag := hdr.seqFrag
        seqSeq := hdr.seqSeq }, rest) := by
  simp only [readAddresses, writeAddresses, List.append_assoc, Codec.run_read_write,
    setSequenceControl_getSequenceControl h]
  rfl

/-- The fourth address is read back where there is one. -/
private theorem run_readAddr4 (h₁ : WifiMacHeader) (hsame : h₁.hasAddr4 = hdr.hasAddr4)
    (rest : List UInt8) :
    (readAddr4 i h₁).run (writeAddr4 i hdr ++ rest) =
      some (if hdr.hasAddr4 then { h₁ with addr4 := hdr.addr4 } else h₁, rest) := by
  rw [readAddr4, writeAddr4, hsame]
  split
  · rw [Codec.run_read_write]
    rfl
  · rfl

/-- The QoS control is read back where there is one. -/
private theorem run_readQosControl (h : hdr.FieldsFit) (h₁ : WifiMacHeader)
    (hsame : h₁.hasQosControl = hdr.hasQosControl) (rest : List UInt8) :
    (readQosControl i h₁).run (writeQosControl i hdr ++ rest) =
      some (if hdr.hasQosControl then
        { h₁ with
          qosTid := hdr.qosTid
          qosEosp := hdr.qosEosp
          qosAckPolicy := hdr.qosAckPolicy
          amsduPresent := hdr.amsduPresent
          qosStuff := hdr.qosStuff } else h₁, rest) := by
  -- The word is there or not for both headers alike
  rw [readQosControl, writeQosControl, hsame]
  split
  · rw [Codec.run_read_write, setQosControl_getQosControl h]
    rfl
  · rfl

/-- The fourth address takes six bytes or none. -/
private theorem length_writeAddr4 :
    (writeAddr4 i hdr).length = if hdr.hasAddr4 then 6 else 0 := by
  rw [writeAddr4]
  split <;> simp

/-- The QoS control takes two bytes or none. -/
private theorem length_writeQosControl :
    (writeQosControl i hdr).length = if hdr.hasQosControl then 2 else 0 := by
  rw [writeQosControl]
  split <;> simp

/-! ## The round trip -/

/-- `rx` has the fields of `hdr` that every frame carries. -/
structure StartRestoredIn (hdr rx : WifiMacHeader) : Prop where
  control : rx.controlFields = hdr.controlFields
  duration : rx.duration = hdr.duration
  addr1 : rx.addr1 = hdr.addr1

/-- `rx` has every field of `hdr` that a frame of its type carries. -/
structure RestoredIn (hdr rx : WifiMacHeader) : Prop extends StartRestoredIn hdr rx where
  -- CTS and ACK frames have a receiver only
  addr2 : hdr.macType ∉ [(typeCtl, 12), (typeCtl, 13)] → rx.addr2 = hdr.addr2
  addr3 : hdr.ctrlType ≠ typeCtl → rx.addr3 = hdr.addr3
  seqFrag : hdr.ctrlType ≠ typeCtl → rx.seqFrag = hdr.seqFrag
  seqSeq : hdr.ctrlType ≠ typeCtl → rx.seqSeq = hdr.seqSeq
  addr4 : hdr.isMBRData = true ∨
    hdr.isData = true ∧ hdr.ctrlToDs ≠ 0 ∧ hdr.ctrlFromDs ≠ 0 → rx.addr4 = hdr.addr4
  qosTid : hdr.isQosData = true → rx.qosTid = hdr.qosTid
  qosEosp : hdr.isQosData = true → rx.qosEosp = hdr.qosEosp
  qosAckPolicy : hdr.isQosData = true → rx.qosAckPolicy = hdr.qosAckPolicy
  amsduPresent : hdr.isQosData = true → rx.amsduPresent = hdr.amsduPresent
  qosStuff : hdr.isQosData = true → rx.qosStuff = hdr.qosStuff

namespace StartRestoredIn

/-- The restored start has the type of the header. -/
theorem ctrlType (h : hdr.StartRestoredIn h₁) : h₁.ctrlType = hdr.ctrlType :=
  congrArg (·.1.1) h.control

/-- The restored start has the subtype of the header. -/
theorem ctrlSubtype (h : hdr.StartRestoredIn h₁) : h₁.ctrlSubtype = hdr.ctrlSubtype :=
  congrArg (·.1.2) h.control

/-- The restored start tells whether there is a fourth address. -/
theorem hasAddr4 (h : hdr.StartRestoredIn h₁) : h₁.hasAddr4 = hdr.hasAddr4 := by
  have htoDs : h₁.ctrlToDs = hdr.ctrlToDs := congrArg (·.2.1) h.control
  have hfromDs : h₁.ctrlFromDs = hdr.ctrlFromDs := congrArg (·.2.2.1) h.control
  rw [WifiMacHeader.hasAddr4, htoDs, hfromDs, h.ctrlSubtype, WifiMacHeader.hasAddr4]

/-- The restored start tells whether there is QoS control. -/
theorem hasQosControl (h : hdr.StartRestoredIn h₁) : h₁.hasQosControl = hdr.hasQosControl := by
  rw [WifiMacHeader.hasQosControl, h.ctrlSubtype, WifiMacHeader.hasQosControl]

end StartRestoredIn

/-- The fourth address and the QoS control are parts of data frames only. -/
private theorem RestoredIn.of_not_data (hdata : hdr.ctrlType ≠ typeData)
    (hstart : hdr.StartRestoredIn rx)
    (haddr2 : hdr.macType ∉ [(typeCtl, 12), (typeCtl, 13)] → rx.addr2 = hdr.addr2)
    (hrest : hdr.ctrlType ≠ typeCtl →
      rx.addr3 = hdr.addr3 ∧ rx.seqFrag = hdr.seqFrag ∧ rx.seqSeq = hdr.seqSeq) :
    hdr.RestoredIn rx := by
  -- Other frames have neither the QoS control word nor the fourth address
  have hqos : ¬ hdr.isQosData = true := by simp [isQosData, hdata]
  have haddr4 : ¬ (hdr.isMBRData = true ∨
      hdr.isData = true ∧ hdr.ctrlToDs ≠ 0 ∧ hdr.ctrlFromDs ≠ 0) := by
    simp [isMBRData, isData, hdata]
  exact {
    toStartRestoredIn := hstart
    addr2 := haddr2
    addr3 := fun h => (hrest h).1
    seqFrag := fun h => (hrest h).2.1
    seqSeq := fun h => (hrest h).2.2
    addr4 := fun h => absurd h haddr4
    qosTid := fun h => absurd h hqos
    qosEosp := fun h => absurd h hqos
    qosAckPolicy := fun h => absurd h hqos
    amsduPresent := fun h => absurd h hqos
    qosStuff := fun h => absurd h hqos }

/-- In a data frame the two tests decide on the parts behind the addresses. -/
private theorem RestoredIn.of_data (hdata : hdr.ctrlType = typeData)
    (hstart : hdr.StartRestoredIn rx)
    (haddresses : rx.addr2 = hdr.addr2 ∧ rx.addr3 = hdr.addr3 ∧ rx.seqFrag = hdr.seqFrag ∧
      rx.seqSeq = hdr.seqSeq)
    (haddr4 : hdr.hasAddr4 = true → rx.addr4 = hdr.addr4)
    (hqos : hdr.hasQosControl = true → rx.qosTid = hdr.qosTid ∧ rx.qosEosp = hdr.qosEosp ∧
      rx.qosAckPolicy = hdr.qosAckPolicy ∧ rx.amsduPresent = hdr.amsduPresent ∧
      rx.qosStuff = hdr.qosStuff) :
    hdr.RestoredIn rx := by
  -- In a data frame the word is there just for the QoS types, which write it
  have hqosData : hdr.isQosData = hdr.hasQosControl := by simp [isQosData, hasQosControl, hdata]
  have hfour : hdr.isMBRData = true ∨
      hdr.isData = true ∧ hdr.ctrlToDs ≠ 0 ∧ hdr.ctrlFromDs ≠ 0 → hdr.hasAddr4 = true := by
    simp [isMBRData, isData, WifiMacHeader.hasAddr4, hdata, or_comm]
  obtain ⟨haddr2, haddr3, hfrag, hseq⟩ := haddresses
  rw [← hqosData] at hqos
  exact {
    toStartRestoredIn := hstart
    addr2 := fun _ => haddr2
    addr3 := fun _ => haddr3
    seqFrag := fun _ => hfrag
    seqSeq := fun _ => hseq
    addr4 := fun h => haddr4 (hfour h)
    qosTid := fun h => (hqos h).1
    qosEosp := fun h => (hqos h).2.1
    qosAckPolicy := fun h => (hqos h).2.2.1
    amsduPresent := fun h => (hqos h).2.2.2.1
    qosStuff := fun h => (hqos h).2.2.2.2 }

/-- The body has the size that the header announces, and it is read back behind the fields
    in front of it. -/
def BodyRoundTrip (i : Iterator) (hdr : WifiMacHeader) : Prop :=
  ∃ body, writeBody i hdr = .ok body ∧ 10 + body.length = hdr.getSize ∧
    ∀ h₁ rest, hdr.StartRestoredIn h₁ →
      ∃ rx, (readBody i h₁).run (body ++ rest) = some (rx, rest) ∧ hdr.RestoredIn rx

/-- The body of a management frame makes the round trip. -/
private theorem bodyRoundTrip_mgt (h : hdr.FieldsFit) (hmgt : hdr.ctrlType = typeMgt) :
    BodyRoundTrip i hdr := by
  refine ⟨writeAddresses i hdr, ?_, ?_, ?_⟩
  · rw [writeBody, if_pos hmgt]
    rfl
  · simp [writeAddresses, getSize, hmgt]
  · intro h₁ rest hstart
    have hbody : readBody i h₁ = readAddresses i h₁ := by
      rw [readBody, if_pos (hstart.ctrlType.trans hmgt)]
    rw [hbody]
    refine ⟨_, run_readAddresses h h₁ rest, ?_⟩
    exact .of_not_data (by rw [hmgt]; decide) ⟨hstart.control, hstart.duration, hstart.addr1⟩
      (fun _ => rfl) fun _ => ⟨rfl, rfl, rfl⟩

/-- RTS frames and block acknowledgements. -/
private theorem bodyRoundTrip_addr2 (hctl : hdr.ctrlType = typeCtl)
    (hsub : hdr.ctrlSubtype = 11 ∨ hdr.ctrlSubtype = 8 ∨ hdr.ctrlSubtype = 9) :
    BodyRoundTrip i hdr := by
  -- A control frame with two addresses is neither a management frame nor a data frame
  have hmgt : typeCtl ≠ typeMgt := by decide
  have hdata : hdr.ctrlType ≠ typeData := by rw [hctl]; decide
  refine ⟨i.address.write hdr.addr2, ?_, ?_, ?_⟩
  -- What is written: the second address alone
  · rw [writeBody, if_neg (by rwa [hctl]), if_pos hctl]
    obtain hsub | hsub | hsub := hsub <;> rw [hsub] <;> rfl
  -- Its size as GetSerializedSize has it
  · obtain hsub | hsub | hsub := hsub <;> simp [getSize, hctl, hmgt, hsub]
  -- What is read from it
  · intro h₁ rest hstart
    have hbody : readBody i h₁ = readAddr2 i h₁ := by
      rw [readBody, hstart.ctrlType, hstart.ctrlSubtype, if_neg (by rwa [hctl]), if_pos hctl]
      obtain hsub | hsub | hsub := hsub <;> rw [hsub] <;> rfl
    rw [hbody]
    refine ⟨_, run_readAddr2 hdr h₁ rest, ?_⟩
    exact .of_not_data hdata ⟨hstart.control, hstart.duration, hstart.addr1⟩
      (fun _ => rfl) fun hno => absurd hctl hno

/-- CTS and ACK frames. -/
private theorem bodyRoundTrip_nil (hctl : hdr.ctrlType = typeCtl)
    (hsub : hdr.ctrlSubtype = 12 ∨ hdr.ctrlSubtype = 13) : BodyRoundTrip i hdr := by
  -- A control frame with one address is neither a management frame nor a data frame
  have hmgt : typeCtl ≠ typeMgt := by decide
  have hdata : hdr.ctrlType ≠ typeData := by rw [hctl]; decide
  refine ⟨[], ?_, ?_, ?_⟩
  -- Nothing is written after the first address
  · rw [writeBody, if_neg (by rwa [hctl]), if_pos hctl]
    obtain hsub | hsub := hsub <;> rw [hsub] <;> rfl
  · obtain hsub | hsub := hsub <;> simp [getSize, hctl, hmgt, hsub]
  · intro h₁ rest hstart
    have hbody : readBody i h₁ = pure h₁ := by
      rw [readBody, hstart.ctrlType, hstart.ctrlSubtype, if_neg (by rwa [hctl]), if_pos hctl]
      obtain hsub | hsub := hsub <;> rw [hsub] <;> rfl
    rw [hbody]
    refine ⟨h₁, rfl, .of_not_data hdata hstart (fun hno => ?_) fun hno => absurd hctl hno⟩
    obtain hsub | hsub := hsub <;> simp [macType, hctl, hsub] at hno

/-- The body of a data frame makes the round trip. -/
theorem bodyRoundTrip_data (h : hdr.FieldsFit) (hdata : hdr.ctrlType = typeData) :
    BodyRoundTrip i hdr := by
  have hmgt : hdr.ctrlType ≠ typeMgt := by rw [hdata]; decide
  have hctl : hdr.ctrlType ≠ typeCtl := by rw [hdata]; decide
  refine ⟨writeAddresses i hdr ++ (writeAddr4 i hdr ++ writeQosControl i hdr), ?_, ?_, ?_⟩
  · rw [writeBody, if_neg hmgt, if_neg hctl, if_pos hdata]
    rfl
  · rw [getSize, if_neg hmgt, if_neg hctl, if_pos hdata]
    simp [writeAddresses, length_writeAddr4, length_writeQosControl]
    omega
  · intro h₁ rest hstart
    have hbody : readBody i h₁ = (do
        let h₂ ← readAddresses i h₁
        let h₃ ← readAddr4 i h₂
        readQosControl i h₃) := by
      rw [readBody, hstart.ctrlType, if_neg hmgt, if_neg hctl, if_pos hdata]
    rw [hbody, List.append_assoc, List.append_assoc, StateT.run_bind, run_readAddresses h]
    simp only [Option.bind_eq_bind, Option.bind_some, StateT.run_bind]
    -- Neither of the two conditions depends on what has been read since
    generalize hh₂ : ({ h₁ with
      addr2 := hdr.addr2
      addr3 := hdr.addr3
      seqFrag := hdr.seqFrag
      seqSeq := hdr.seqSeq } : WifiMacHeader) = h₂
    have hstart₂ : hdr.StartRestoredIn h₂ := by
      subst hh₂
      exact ⟨hstart.control, hstart.duration, hstart.addr1⟩
    rw [run_readAddr4 _ hstart₂.hasAddr4, Option.bind_some]
    generalize hh₃ : (if hdr.hasAddr4 = true then { h₂ with addr4 := hdr.addr4 } else h₂) = h₃
    have hstart₃ : hdr.StartRestoredIn h₃ := by
      subst hh₃
      split
      · exact ⟨hstart₂.control, hstart₂.duration, hstart₂.addr1⟩
      · exact hstart₂
    rw [run_readQosControl h _ hstart₃.hasQosControl]
    have haddresses₃ : h₃.addr2 = hdr.addr2 ∧ h₃.addr3 = hdr.addr3 ∧ h₃.seqFrag = hdr.seqFrag ∧
        h₃.seqSeq = hdr.seqSeq := by
      subst hh₃ hh₂
      split <;> exact ⟨rfl, rfl, rfl, rfl⟩
    have haddr4 : hdr.hasAddr4 = true → h₃.addr4 = hdr.addr4 := by
      intro hfour
      rw [← hh₃, if_pos hfour]
    refine ⟨_, rfl, ?_⟩
    split
    · exact .of_data hdata ⟨hstart₃.control, hstart₃.duration, hstart₃.addr1⟩ haddresses₃ haddr4
        fun _ => ⟨rfl, rfl, rfl, rfl, rfl⟩
    next hqos => exact .of_data hdata hstart₃ haddresses₃ haddr4 fun h => absurd h hqos

/-- The layouts that `Serialize` distinguishes. -/
private theorem macType_cases (h : hdr.macType ∈ macTypes) (hwrap : hdr.macType ≠ (typeCtl, 7)) :
    hdr.ctrlType = typeMgt ∨
    (hdr.ctrlType = typeCtl ∧ (hdr.ctrlSubtype = 11 ∨ hdr.ctrlSubtype = 8 ∨
      hdr.ctrlSubtype = 9)) ∨
    (hdr.ctrlType = typeCtl ∧ (hdr.ctrlSubtype = 12 ∨ hdr.ctrlSubtype = 13)) ∨
    hdr.ctrlType = typeData :=
  of_mem_macTypes (P := fun type => type ≠ (typeCtl, 7) →
    type.1 = typeMgt ∨ (type.1 = typeCtl ∧ (type.2 = 11 ∨ type.2 = 8 ∨ type.2 = 9)) ∨
      (type.1 = typeCtl ∧ (type.2 = 12 ∨ type.2 = 13)) ∨ type.1 = typeData) (by decide) h hwrap

/-- The body of any type but the control wrapper makes the round trip. -/
private theorem bodyRoundTrip (h : hdr.FieldsFit) (htype : hdr.macType ∈ macTypes)
    (hwrap : hdr.macType ≠ (typeCtl, 7)) : BodyRoundTrip i hdr := by
  obtain hmgt | ⟨hctl, hsub⟩ | ⟨hctl, hsub⟩ | hdata := macType_cases htype hwrap
  · exact bodyRoundTrip_mgt h hmgt
  · exact bodyRoundTrip_addr2 hctl hsub
  · exact bodyRoundTrip_nil hctl hsub
  · exact bodyRoundTrip_data h hdata

/-- Behind the fields at the start `Deserialize` goes on with the body. -/
theorem run_deserialize (h : hdr.FieldsFit) (htype : hdr.macType ∈ macTypes) (h₀ : WifiMacHeader)
    {body rest : List UInt8}
    (hread : ∀ h₁, hdr.StartRestoredIn h₁ →
      ∃ rx, (readBody i h₁).run (body ++ rest) = some (rx, rest) ∧ hdr.RestoredIn rx) :
    ∃ rx, (h₀.deserialize i).run (i.htolsbU16.write hdr.getFrameControl ++
      (i.htolsbU16.write hdr.duration ++ (i.address.write hdr.addr1 ++ body)) ++ rest) =
        some ((rx, 10 + body.length), rest) ∧ hdr.RestoredIn rx := by
  -- The first three fields have been read, which is what `hread` starts from
  have hstart : hdr.StartRestoredIn { h₀.setFrameControl hdr.getFrameControl with
      duration := hdr.duration
      addr1 := hdr.addr1 } := by
    rw [setFrameControl_getFrameControl h htype]
    exact ⟨rfl, rfl, rfl⟩
  obtain ⟨rx, hrun, hrx⟩ := hread _ hstart
  refine ⟨rx, ?_, hrx⟩
  simp only [deserialize, StateT.run_bind, StateT.run_get, pure_bind, List.append_assoc,
    Codec.run_read, Option.bind_eq_bind, Option.bind_some, hrun]
  simp
  omega

/-- `Serialize` writes as much as `GetSize` says, `Deserialize` restores what the frame
    carries, and the frame control is different for different fields. -/
theorem deserialize_serialize (i : Iterator) (hdr : WifiMacHeader) (h : hdr.FieldsFit)
    (htype : hdr.macType ∈ macTypes) (hwrap : hdr.macType ≠ (typeCtl, 7)) :
    (∃ bytes, hdr.serialize i = .ok bytes ∧ bytes.length = hdr.getSize ∧
      ∀ h₀ rest, ∃ rx, (deserialize i h₀).run (bytes ++ rest) =
        some ((rx, hdr.getSize), rest) ∧ hdr.RestoredIn rx) ∧
    ∀ hdr' : WifiMacHeader, hdr'.FieldsFit → hdr'.macType ∈ macTypes →
      hdr'.getFrameControl = hdr.getFrameControl → hdr'.controlFields = hdr.controlFields := by
  -- The body is read back by its own round trip
  obtain ⟨body, hwrite, hsize, hread⟩ := bodyRoundTrip (i := i) h htype hwrap
  have hbytes : hdr.serialize i = .ok (i.htolsbU16.write hdr.getFrameControl ++
      (i.htolsbU16.write hdr.duration ++ (i.address.write hdr.addr1 ++ body))) := by
    rw [serialize, hwrite]
    rfl
  constructor
  -- The bytes have the announced size and give the header back
  · refine ⟨_, hbytes, ?_, ?_⟩
    · rw [← hsize]
      simp
      omega
    · intro h₀ rest
      rw [← hsize]
      exact run_deserialize h htype h₀ fun h₁ => hread h₁ rest
  -- No other header has this frame control word
  · intro hdr' h' htype' heq
    exact getFrameControl_injective h htype h' htype' heq

/-- A frame to a relay, whose fourth address is there although both DS bits are 0. -/
def relayedFrame : WifiMacHeader where
  ctrlType := typeData
  ctrlSubtype := 16
  ctrlToDs := 0
  ctrlFromDs := 0
  ctrlMoreFrag := 0
  ctrlRetry := 1
  ctrlMoreData := 0
  ctrlWep := 0
  ctrlOrder := 0
  duration := 44
  addr1 := .ofBytes 2 0 0 0 0 2
  addr2 := .ofBytes 2 0 0 0 0 1
  addr3 := Mac48Address.broadcast
  seqFrag := 0
  seqSeq := 4095
  addr4 := .ofBytes 2 0 0 0 0 3
  qosTid := 0
  qosEosp := 0
  qosAckPolicy := 0
  amsduPresent := 0
  qosStuff := 0

/-- The fields of the frame to a relay fit. -/
theorem relayedFrame_fit : relayedFrame.FieldsFit := by
  constructor <;> decide

/-- The round trip of that frame. -/
theorem deserialize_serialize_relayed :
    (∃ bytes, relayedFrame.serialize .lsb = .ok bytes ∧ bytes.length = relayedFrame.getSize ∧
      ∀ h₀ rest, ∃ rx, (deserialize .lsb h₀).run (bytes ++ rest) =
        some ((rx, relayedFrame.getSize), rest) ∧ relayedFrame.RestoredIn rx) ∧
    ∀ hdr' : WifiMacHeader, hdr'.FieldsFit → hdr'.macType ∈ macTypes →
      hdr'.getFrameControl = relayedFrame.getFrameControl →
        hdr'.controlFields = relayedFrame.controlFields :=
  deserialize_serialize .lsb relayedFrame relayedFrame_fit (by decide) (by decide)

example : relayedFrame.getSize = 30 ∧ relayedFrame.getFrameControl = 0x884 := by decide

end WifiMacHeader

end MapRelay.NS3
