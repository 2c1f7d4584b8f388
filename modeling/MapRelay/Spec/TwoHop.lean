import MapRelay.Native.PktOutput

/-!
# A packet over two hops

The real destination of a relayed packet travels in front of the Ethernet header, then in the
place of the header that is otherwise in front of the type, and is found there by the relay.
What the relay sends is an ordinary frame with the packet in it.
-/

namespace MapRelay.Kernel

open ForStd

/-! ## Words in network byte order -/

/-- The second byte is the lower one. -/
private theorem readBe16_toUInt8 (a b : UInt8) : (readBe16 a b).toUInt8 = b := by
  apply UInt8.toBitVec_inj.mp
  apply BitVec.eq_of_getLsbD_eq
  intro i hi
  have hi' : i < 8 := hi
  simp [readBe16, hi']

/-- The first byte is the upper one. -/
private theorem readBe16_shiftRight (a b : UInt8) : (readBe16 a b >>> 8).toUInt8 = a := by
  apply UInt8.toBitVec_inj.mp
  apply BitVec.eq_of_getLsbD_eq
  intro i hi
  have hi' : i < 8 := hi
  simp [readBe16, hi', show 8 + i < 16 by omega]

/-- A number is read back from its two bytes. -/
private theorem readBe16_bytes (x : UInt16) : readBe16 (x >>> 8).toUInt8 x.toUInt8 = x := by
  apply UInt16.toNat_inj.mp
  have hlow : x.toNat % 2 ^ 8 < 2 ^ 8 := by omega
  have hlt := x.toNat_lt
  have hshift : UInt16.toNat 8 % 16 = 8 := rfl
  simp only [readBe16, UInt16.toNat_or, UInt16.toNat_shiftLeft, UInt8.toNat_toUInt16,
    UInt16.toNat_toUInt8, UInt16.toNat_shiftRight, hshift]
  rw [Nat.shiftRight_eq_div_pow, Nat.shiftLeft_eq, Nat.mod_eq_of_lt (by omega),
    ← Nat.shiftLeft_eq, ← Nat.shiftLeft_add_eq_or_of_lt hlow, Nat.shiftLeft_eq]
  omega

/-- A word that is stored after `htons` stands in memory with its high byte first. -/
private theorem bytes_htons (e : Endian) (x : UInt16) :
    e.bytes (e.htons x) = [(x >>> 8).toUInt8, x.toUInt8] := by
  cases e with
  | little => simp [Endian.bytes, Endian.htons, readBe16_toUInt8, readBe16_shiftRight]
  | big => rfl

/-- Reading the bytes of a word one by one does what `htons` does. -/
private theorem readWord_eq_htons (e : Endian) (x : UInt16) : e.readWord x = e.htons x := by
  cases e with
  | little => rfl
  | big => exact readBe16_bytes x

/-! ## The sender -/

variable {f : List UInt8} {skb : SkBuff}

/-- The buffer has room for `n` bytes in front of the data. -/
theorem exists_front (skb : SkBuff) {n : Nat} (h : n ≤ skb.front.length) :
    ∃ f g, g.length = n ∧ skb = ⟨f ++ g, skb.data⟩ := by
  refine ⟨skb.front.take (skb.front.length - n), skb.front.drop (skb.front.length - n), ?_, ?_⟩
  · rw [List.length_drop]
    omega
  · rw [List.take_append_drop]

/-- `skb_push` uncovers the bytes before the data. -/
private theorem skbPush_append {n : Nat} {g : List UInt8} (hg : g.length = n) (f d : List UInt8) :
    skbPush ⟨f ++ g, d⟩ n = .ok ⟨f, g ++ d⟩ := by
  rw [skbPush, ← hg, Window.push_append]

/-- `skb_pull` covers them again. -/
theorem skbPull_append {n : Nat} {g : List UInt8} (hg : g.length = n) (f d : List UInt8) :
    skbPull ⟨f, g ++ d⟩ n = .ok ⟨f ++ g, d⟩ := by
  rw [skbPull, ← hg, Window.pull_append]

/-- Bytes that are pushed take the place of as many bytes in front. -/
theorem skbPushBytes_append {g bytes : List UInt8} (hg : g.length = bytes.length)
    (f d : List UInt8) : skbPushBytes ⟨f ++ g, d⟩ bytes = .ok ⟨f, bytes ++ d⟩ := by
  simp only [skbPushBytes, skbPush_append hg, bind, Except.bind]
  exact congrArg Except.ok (Window.write_append f [] g bytes d hg)

/-- The header that `eth_header_dirty` writes. -/
theorem ethHeaderDirty_eq (e : Endian) {g : List UInt8} (hg : g.length = 14) (d : List UInt8)
    {type : UInt16} (htype : type ≠ ethP8023 ∧ type ≠ ethP8022) (daddr saddr : Mac48Address)
    (len : Nat) :
    ethHeaderDirty e ⟨f ++ g, d⟩ type (some daddr) (some saddr) len =
      .ok (14, ⟨f, daddr.1 ++ (saddr.1 ++ ([(type >>> 8).toUInt8, type.toUInt8] ++ d))⟩) := by
  -- The three parts of the header, as they were before
  obtain ⟨g₁, g₂, g₃, h₁, h₂, h₃, rfl⟩ : ∃ g₁ g₂ g₃ : List UInt8, g₁.length = 6 ∧
      g₂.length = 6 ∧ g₃.length = 2 ∧ g = g₁ ++ (g₂ ++ g₃) := by
    refine ⟨g.take 6, (g.drop 6).take 6, (g.drop 6).drop 6, ?_, ?_, ?_, ?_⟩
    · simp [hg]
    · simp [hg]
    · simp [hg]
    · rw [List.take_append_drop, List.take_append_drop]
  have hproto := Window.write_append f (g₁ ++ g₂) g₃ [(type >>> 8).toUInt8, type.toUInt8] d h₃
  have hsource := Window.write_append f g₁ g₂ saddr.1
    ([(type >>> 8).toUInt8, type.toUInt8] ++ d) (h₂.trans saddr.2.symm)
  have hdest := Window.write_append f [] g₁ daddr.1
    (saddr.1 ++ ([(type >>> 8).toUInt8, type.toUInt8] ++ d)) (h₁.trans daddr.2.symm)
  rw [List.length_append, h₁, h₂] at hproto
  rw [h₁] at hsource
  simp only [List.append_assoc] at hproto
  simp only [ethHeaderDirty, skbPush_append hg, bind, Except.bind, if_pos htype, bytes_htons,
    List.append_assoc]
  rw [hproto, hsource]
  exact congrArg (fun skb => Except.ok (14, skb)) hdest

/-- The address stays in front of the data, which does not change. -/
private theorem pushRealDstMac_eq (expand : Nat → Option (List UInt8)) {g : List UInt8}
    (hg : g.length = 6) (d : List UInt8) (addr : Mac48Address) :
    pushRealDstMac expand ⟨f ++ g, d⟩ addr = .ok (0, ⟨f ++ addr.1, d⟩) := by
  have hneed : ¬ 0 < 6 - (f ++ g).length := by
    rw [List.length_append]
    omega
  simp only [pushRealDstMac, if_neg hneed, List.nil_append,
    skbPushBytes_append (hg.trans addr.2.symm), skbPull_append addr.2, bind, Except.bind]
  rfl

/-- Taking the own address does not start the relaying. -/
@[simp] theorem OutputStatus.mbrStart_initAddr (st : OutputStatus)
    (devAddrs : List Mac48Address) : (st.initAddr devAddrs).mbrStart = st.mbrStart := by
  unfold OutputStatus.initAddr
  split <;> rfl

/-- What the output hook transmits once there is a relay. -/
private theorem outputHandler_stolen (e : Endian) (expand : Nat → Option (List UInt8))
    (devAddrs : List Mac48Address) (memory : Mac48Address) {st : OutputStatus}
    (hstart : st.mbrStart = true) (dst relay : Mac48Address) {networkOffset : Nat}
    (hoffset : networkOffset ≤ skb.data.length)
    (hroom : 6 + 14 ≤ skb.front.length + networkOffset) :
    ∃ f, outputHandler e expand devAddrs memory st ⟨0, some dst, some relay⟩ networkOffset
      (some skb) = .ok (st.initAddr devAddrs, .stolen ⟨f ++ dst.1,
        relay.1 ++ ((st.initAddr devAddrs).globalMacThis.1 ++
          ([0x65, 0x59] ++ skb.data.drop networkOffset))⟩) := by
  have hpull : skbPull skb networkOffset =
      .ok ⟨skb.front ++ skb.data.take networkOffset, skb.data.drop networkOffset⟩ := by
    rw [skbPull, Window.pull, if_pos hoffset]
  have hlen : 6 + 14 ≤ (skb.front ++ skb.data.take networkOffset).length := by
    rw [List.length_append, List.length_take]
    omega
  -- The room for the address, and the room for the header behind it
  obtain ⟨f, g, hg, hskb⟩ := exists_front ⟨_, skb.data.drop networkOffset⟩ hlen
  have hsplit : g = g.take 6 ++ g.drop 6 := (List.take_append_drop 6 g).symm
  have haddr : (g.take 6).length = 6 := by
    rw [List.length_take]
    omega
  have hheader : (g.drop 6).length = 14 := by
    rw [List.length_drop]
    omega
  rw [hskb, hsplit, ← List.append_assoc] at hpull
  have hstart' : ¬ (st.initAddr devAddrs).mbrStart = false := by
    rw [OutputStatus.mbrStart_initAddr, hstart]
    decide
  refine ⟨f, ?_⟩
  simp only [outputHandler, if_neg hstart', Int.lt_irrefl, if_false, hpull, bind, Except.bind,
    ethHeaderDirty_eq e hheader _ (by decide : ethPMapRelay ≠ ethP8023 ∧ ethPMapRelay ≠ ethP8022),
    pushRealDstMac_eq expand haddr, Option.getD_some]
  rfl

/-! ## The relay -/

/-- The six bytes of an address. -/
theorem exists_bytes (addr : Mac48Address) :
    ∃ a₀ a₁ a₂ a₃ a₄ a₅, addr = ⟨[a₀, a₁, a₂, a₃, a₄, a₅], rfl⟩ := by
  obtain ⟨bytes, hlen⟩ := addr
  match bytes, hlen with
  | [a₀, a₁, a₂, a₃, a₄, a₅], _ => exact ⟨a₀, a₁, a₂, a₃, a₄, a₅, rfl⟩

/-- On air the real destination is between the 802.11 header and the type. -/
private theorem dataFrom8023_mapRelay (m : Mac80211) (dst relay this : Mac48Address)
    (payload : List UInt8) :
    dataFrom8023 m ⟨f ++ dst.1, relay.1 ++ (this.1 ++ ([0x65, 0x59] ++ payload))⟩ =
      .ok (some (m.header relay this ++ (dst.1 ++ ([0x65, 0x59] ++ payload)))) := by
  have hlast : Window.lastOfFront 6 ⟨f ++ dst.1,
      relay.1 ++ (this.1 ++ ([0x65, 0x59] ++ payload))⟩ = some dst.1 := by
    have h := Window.lastOfFront_append f dst.1 (relay.1 ++ (this.1 ++ ([0x65, 0x59] ++ payload)))
    rwa [dst.2] at h
  have hencaps : encapsOf ⟨f ++ dst.1, relay.1 ++ (this.1 ++ ([0x65, 0x59] ++ payload))⟩
      (readBe16 0x65 0x59) = .ok (dst.1, 14 - 2) := by
    rw [encapsOf, if_neg (by decide), if_pos (by decide), hlast]
  obtain ⟨r₀, r₁, r₂, r₃, r₄, r₅, rfl⟩ := exists_bytes relay
  obtain ⟨t₀, t₁, t₂, t₃, t₄, t₅, rfl⟩ := exists_bytes this
  simp only [List.cons_append, List.nil_append] at hencaps ⊢
  simp only [dataFrom8023, hencaps, bind, Except.bind]
  rfl

/-- There is room for bytes that are pushed. -/
private theorem skbPushBytes_of_le (skb : SkBuff) (bytes : List UInt8)
    (h : bytes.length ≤ skb.front.length) :
    ∃ f, f.length + bytes.length = skb.front.length ∧
      skbPushBytes skb bytes = .ok ⟨f, bytes ++ skb.data⟩ := by
  obtain ⟨f, g, hg, hskb⟩ := exists_front skb h
  refine ⟨f, ?_, ?_⟩
  · rw [hskb, List.length_append, hg]
  · rw [hskb, skbPushBytes_append hg]

/-- The relay takes the real destination for the destination of the frame, and itself for its
    source. -/
private theorem dataTo8023_mapRelay (m : Mac80211) {dst : Mac48Address}
    (hrfc : dst.1 ≠ rfc1042Header)
    (hbridge : dst.1 ≠ bridgeTunnelHeader) (relay this : Mac48Address)
    (front payload : List UInt8) :
    ∃ f, dataTo8023 m ⟨front, m.header relay this ++ (dst.1 ++ ([0x65, 0x59] ++ payload))⟩ =
      .ok (some ⟨f, dst.1 ++ (relay.1 ++ ([0x65, 0x59] ++ payload))⟩) := by
  have hlen := m.length_header relay this
  have hle := m.le_hdrlen
  have hdrop : (m.header relay this ++ (dst.1 ++ ([0x65, 0x59] ++ payload))).drop m.hdrlen =
      dst.1 ++ ([0x65, 0x59] ++ payload) := by
    rw [← hlen, List.drop_left]
  -- The 802.11 header and the real destination are taken off together
  have hpull : skbPull ⟨front, m.header relay this ++ (dst.1 ++ ([0x65, 0x59] ++ payload))⟩
      (m.hdrlen + 6) = .ok ⟨front ++ (m.header relay this ++ dst.1), [0x65, 0x59] ++ payload⟩ := by
    have hboth : (m.header relay this ++ dst.1).length = m.hdrlen + 6 := by
      rw [List.length_append, hlen, dst.2]
    rw [← List.append_assoc, skbPull_append hboth]
  have hroom : relay.1.length + dst.1.length ≤
      (front ++ (m.header relay this ++ dst.1)).length := by
    rw [List.length_append, List.length_append, hlen, dst.2, relay.2]
    omega
  obtain ⟨f₁, hf₁, hpush₁⟩ := skbPushBytes_of_le
    ⟨front ++ (m.header relay this ++ dst.1), [0x65, 0x59] ++ payload⟩ relay.1
    (Nat.le_of_add_right_le hroom)
  obtain ⟨f₂, -, hpush₂⟩ := skbPushBytes_of_le
    ⟨f₁, relay.1 ++ ([0x65, 0x59] ++ payload)⟩ dst.1 (by
      dsimp only at hf₁ ⊢
      omega)
  refine ⟨f₂, ?_⟩
  have hda := m.getDA_header relay this (dst.1 ++ ([0x65, 0x59] ++ payload))
  obtain ⟨d₀, d₁, d₂, d₃, d₄, d₅, rfl⟩ := exists_bytes dst
  have hnormal : ¬ (([d₀, d₁, d₂, d₃, d₄, d₅] = rfc1042Header ∧
      readBe16 0x65 0x59 ≠ ethPAarp ∧ readBe16 0x65 0x59 ≠ ethPIpx) ∨
        [d₀, d₁, d₂, d₃, d₄, d₅] = bridgeTunnelHeader) := by
    rintro (⟨heq, -⟩ | heq)
    · exact hrfc heq
    · exact hbridge heq
  simp only [dataTo8023, hdrop, hda]
  simp only [List.cons_append, List.nil_append] at hpull hpush₁ hpush₂ ⊢
  rw [if_neg hnormal, if_pos (by decide)]
  simp only [hpull, hpush₁, hpush₂, bind, Except.bind]
  rfl

/-- The frame that the relay sends on has the type of an IP packet. -/
private theorem deliverSkb_mapRelay (e : Endian) (dst relay : Mac48Address) (payload : List UInt8) :
    deliverSkb e ⟨f, dst.1 ++ (relay.1 ++ ([0x65, 0x59] ++ payload))⟩ =
      .xmit ⟨f, dst.1 ++ (relay.1 ++ ([0x08, 0x00] ++ payload))⟩ := by
  have hwrite := Window.write_append f (dst.1 ++ relay.1) [0x65, 0x59] [0x08, 0x00] payload rfl
  rw [List.length_append, dst.2, relay.2, List.append_assoc, List.append_assoc] at hwrite
  have hbytes : e.bytes (e.readWord ethPIp) = [0x08, 0x00] := by
    rw [readWord_eq_htons, bytes_htons]
    rfl
  obtain ⟨d₀, d₁, d₂, d₃, d₄, d₅, rfl⟩ := exists_bytes dst
  obtain ⟨r₀, r₁, r₂, r₃, r₄, r₅, rfl⟩ := exists_bytes relay
  have hrelay : readBe16 0x65 0x59 = ethPMapRelay := by decide
  simp only [List.cons_append, List.nil_append] at hwrite ⊢
  simp only [deliverSkb, hrelay, if_true, hbytes]
  rw [hwrite]

/-- The output hook and the sending half of mac80211, and then the receiving half at the relay:
    the relay sends the packet on in a frame with the type of IP, from itself to the real
    destination, whatever the byte orders of the two hosts are. -/
theorem relayed_frame (m : Mac80211) (e e' : Endian) (expand : Nat → Option (List UInt8))
    (devAddrs : List Mac48Address) (memory : Mac48Address) (st : OutputStatus) (skb : SkBuff)
    (networkOffset : Nat) (dst relay : Mac48Address) (hstart : st.mbrStart = true)
    (hoffset : networkOffset ≤ skb.data.length)
    (hroom : 6 + 14 ≤ skb.front.length + networkOffset)
    (hrfc : dst.1 ≠ rfc1042Header) (hbridge : dst.1 ≠ bridgeTunnelHeader) :
    ∃ st' sent air, outputHandler e expand devAddrs memory st ⟨0, some dst, some relay⟩
        networkOffset (some skb) = .ok (st', .stolen sent) ∧
      dataFrom8023 m sent = .ok (some air) ∧
      ∀ front, ∃ received f, dataTo8023 m ⟨front, air⟩ = .ok (some received) ∧
        deliverSkb e' received = .xmit ⟨f, dst.1 ++ (relay.1 ++ ([0x08, 0x00] ++
          skb.data.drop networkOffset))⟩ := by
  obtain ⟨f, houtput⟩ :=
    outputHandler_stolen e expand devAddrs memory hstart dst relay hoffset hroom
  refine ⟨_, _, _, houtput, dataFrom8023_mapRelay m dst relay _ _, fun front => ?_⟩
  obtain ⟨f', hreceived⟩ := dataTo8023_mapRelay m hrfc hbridge relay
    (st.initAddr devAddrs).globalMacThis front (skb.data.drop networkOffset)
  exact ⟨_, f', hreceived, deliverSkb_mapRelay e' dst relay _⟩

/-- The header of a data frame outside of a BSS. -/
def Mac80211.ocb : Mac80211 where
  hdrlen := 24
  header da sa := [0x08, 0, 0, 0] ++ (da.1 ++ (sa.1 ++ (Mac48Address.broadcast.1 ++ [0, 0])))
  getDA := macAt 4
  getSA := macAt 10
  le_hdrlen := Nat.le_refl 24
  length_header da sa := by simp [da.2, sa.2, Mac48Address.broadcast]
  getDA_header da sa payload := by
    obtain ⟨a₀, a₁, a₂, a₃, a₄, a₅, rfl⟩ := exists_bytes da
    rfl
  getSA_header da sa payload := by
    obtain ⟨a₀, a₁, a₂, a₃, a₄, a₅, rfl⟩ := exists_bytes da
    obtain ⟨b₀, b₁, b₂, b₃, b₄, b₅, rfl⟩ := exists_bytes sa
    rfl

/-- A packet with just enough room in front. -/
def ipPacket : SkBuff := ⟨List.replicate 20 0, [0x45, 0, 0, 20, 1, 2, 3]⟩

/-- A frame from a machine of one byte order to one of the other. -/
theorem relayed_frame_little_to_big :
    ∃ st' sent air, outputHandler .little (fun _ => none) [] .zero
        ⟨true, true, ⟨[2, 0, 0, 0, 0, 1], rfl⟩⟩
        ⟨0, some ⟨[2, 0, 0, 0, 0, 3], rfl⟩, some ⟨[2, 0, 0, 0, 0, 2], rfl⟩⟩ 0 (some ipPacket) =
          .ok (st', .stolen sent) ∧
      dataFrom8023 .ocb sent = .ok (some air) ∧
      ∀ front, ∃ received f, dataTo8023 .ocb ⟨front, air⟩ = .ok (some received) ∧
        deliverSkb .big received = .xmit ⟨f, [2, 0, 0, 0, 0, 3, 2, 0, 0, 0, 0, 2, 0x08, 0x00,
          0x45, 0, 0, 20, 1, 2, 3]⟩ :=
  relayed_frame .ocb .little .big (fun _ => none) [] .zero ⟨true, true, ⟨[2, 0, 0, 0, 0, 1], rfl⟩⟩
    ipPacket 0 ⟨[2, 0, 0, 0, 0, 3], rfl⟩ ⟨[2, 0, 0, 0, 0, 2], rfl⟩ rfl (Nat.zero_le _) (by decide)
    (by decide) (by decide)

end MapRelay.Kernel
