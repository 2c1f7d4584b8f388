import MapRelay.Spec.TwoHop

/-!
# The real destination in front of a relayed frame

The driver takes the six bytes in front of a relay frame for its real destination, whatever they
are. `push_real_dst_mac` puts them there, and makes room for them where there is none. If it gets
no memory the output hook reports this, and transmits the frame all the same.
-/

namespace MapRelay.Kernel

open ForStd

/-- What mac80211 relies on in a relay frame: the header that leads to the relay, and the real
    destination right in front of it. -/
structure CarriesDst (dst relay this : Mac48Address) (frame : SkBuff) : Prop where
  lastOfFront : frame.lastOfFront 6 = some dst.1
  header : frame.data.take 14 = relay.1 ++ (this.1 ++ [0x65, 0x59])

/-- The frame has the type `ETH_P_MAPRELAY`. -/
def IsRelayFrame (frame : SkBuff) : Prop := (frame.data.drop 12).take 2 = [0x65, 0x59]

variable {expand : Nat → Option (List UInt8)} {f d : List UInt8} {addr : Mac48Address}

/-! ## The two outcomes of `push_real_dst_mac` -/

/-- There is no room for the address, and no memory for it either. -/
def NoRoom (expand : Nat → Option (List UInt8)) (room : Nat) : Prop :=
  room < 6 ∧ expand (6 - room) = none

/-- Without room the call fails and leaves the frame. -/
private theorem pushRealDstMac_noRoom (h : NoRoom expand f.length) :
    pushRealDstMac expand ⟨f, d⟩ addr = .ok (-12, ⟨f, d⟩) := by
  have hneed : 0 < 6 - f.length := Nat.sub_pos_of_lt h.1
  simp only [pushRealDstMac, if_pos hneed, h.2]

/-- `skb_push` needs room in front. -/
private theorem le_of_skbPush {skb skb' : SkBuff} {n : Nat} (h : skbPush skb n = .ok skb') :
    n ≤ skb.front.length := by
  rw [skbPush, Window.push] at h
  split at h
  next heq =>
    split at heq
    · assumption
    · cases heq
  next => cases h

/-- Otherwise the address is there when the function returns. -/
private theorem pushRealDstMac_room (h : ¬ NoRoom expand f.length) {ret : Int} {skb : SkBuff}
    (hok : pushRealDstMac expand ⟨f, d⟩ addr = .ok (ret, skb)) :
    skb.lastOfFront 6 = some addr.1 ∧ skb.data = d := by
  obtain ⟨memory, hmemory⟩ : ∃ memory : List UInt8,
      (if 0 < 6 - f.length then expand (6 - f.length) else some []) = some memory := by
    split
    · exact Option.ne_none_iff_exists'.mp fun hnone => h ⟨by omega, hnone⟩
    · exact ⟨[], rfl⟩
  simp only [pushRealDstMac, hmemory] at hok
  obtain ⟨skb₁, hpush, hok⟩ := bind_eq_ok.mp hok
  obtain ⟨skb₀, hstart, -⟩ := bind_eq_ok.mp hpush
  -- What is in front is overwritten, and then it is in front again
  obtain ⟨f', g, hg, hskb⟩ := exists_front _ (le_of_skbPush hstart)
  rw [hskb, skbPushBytes_append hg] at hpush
  cases hpush
  obtain ⟨skb₂, hpull, hok⟩ := bind_eq_ok.mp hok
  rw [skbPull_append addr.2] at hpull
  cases hpull
  cases hok
  have hlast := Window.lastOfFront_append f' addr.1 d
  rw [addr.2] at hlast
  exact ⟨hlast, rfl⟩

/-! ## The output hook -/

/-- The hook is about to push the address: there is a relay, and the headers could be moved. -/
structure Relays (st : OutputStatus) (forward : Forward) (networkOffset : Nat) (skb : SkBuff) :
    Prop where
  started : st.mbrStart = true
  forwarded : 0 ≤ forward.ret
  offset_le : networkOffset ≤ skb.data.length
  room : 14 ≤ skb.front.length + networkOffset

variable {e : Endian} {devAddrs : List Mac48Address} {memory : Mac48Address} {st st' : OutputStatus}
  {forward : Forward} {networkOffset : Nat} {skb : SkBuff}

/-- A frame that was taken over is relayed. -/
private theorem Relays.of_stolen {frame : SkBuff}
    (hok : outputHandler e expand devAddrs memory st forward networkOffset (some skb) =
      .ok (st', .stolen frame)) : Relays st forward networkOffset skb := by
  simp only [outputHandler, OutputStatus.mbrStart_initAddr] at hok
  split at hok
  · cases hok
  next hstart =>
  split at hok
  · cases hok
  next hret =>
  -- The room for the header is what `skb_push` asks for behind `skb_pull`
  obtain ⟨skb₁, hpull, hok⟩ := bind_eq_ok.mp hok
  obtain ⟨header, hheader, -⟩ := bind_eq_ok.mp hok
  obtain ⟨skb₂, hpush, -⟩ := bind_eq_ok.mp hheader
  have hroom := le_of_skbPush hpush
  rw [skbPull, Window.pull] at hpull
  split at hpull
  next heq =>
    split at heq
    next hoffset =>
      cases heq
      cases hpull
      rw [List.length_append, List.length_take, Nat.min_eq_left hoffset] at hroom
      exact ⟨by simpa using hstart, Int.not_lt.mp hret, hoffset, hroom⟩
    next => cases heq
  next => cases hpull

/-- The frame without the address. -/
private theorem Relays.outputHandler_eq (h : Relays st forward networkOffset skb) (e : Endian)
    (expand : Nat → Option (List UInt8)) (devAddrs : List Mac48Address) (memory : Mac48Address) :
    ∃ f, f.length + 14 = skb.front.length + networkOffset ∧
      outputHandler e expand devAddrs memory st forward networkOffset (some skb) = (do
        let (_, frame) ← pushRealDstMac expand ⟨f, (forward.relayMac.getD memory).1 ++
          ((st.initAddr devAddrs).globalMacThis.1 ++
            ([0x65, 0x59] ++ skb.data.drop networkOffset))⟩ (forward.dstMac.getD memory)
        return (st.initAddr devAddrs, .stolen frame)) := by
  have hpull : skbPull skb networkOffset =
      .ok ⟨skb.front ++ skb.data.take networkOffset, skb.data.drop networkOffset⟩ := by
    rw [skbPull, Window.pull, if_pos h.offset_le]
  have hlen : (skb.front ++ skb.data.take networkOffset).length =
      skb.front.length + networkOffset := by
    rw [List.length_append, List.length_take, Nat.min_eq_left h.offset_le]
  obtain ⟨f, g, hg, hskb⟩ := exists_front ⟨_, skb.data.drop networkOffset⟩ (hlen ▸ h.room)
  have hfront : skb.front ++ skb.data.take networkOffset = f ++ g := congrArg Window.front hskb
  rw [hfront] at hpull hlen
  have hstart : ¬ (st.initAddr devAddrs).mbrStart = false := by
    rw [OutputStatus.mbrStart_initAddr, h.started]
    decide
  refine ⟨f, by rw [← hlen, List.length_append, hg], ?_⟩
  simp only [outputHandler, if_neg hstart, if_neg (Int.not_lt.mpr h.forwarded), hpull, bind,
    Except.bind,
    ethHeaderDirty_eq e hg _ (by decide : ethPMapRelay ≠ ethP8023 ∧ ethPMapRelay ≠ ethP8022)]
  rfl

/-- The hook has no room for the address, and gets no memory for it. -/
def SendsBare (expand : Nat → Option (List UInt8)) (st : OutputStatus) (forward : Forward)
    (networkOffset : Nat) : Option SkBuff → Prop
  | none => False
  | some skb => Relays st forward networkOffset skb ∧
      NoRoom expand (skb.front.length + networkOffset - 14)

/-- The frame is for the relay, and has the destination exactly if it is in front of the header. -/
private theorem header_of_relay (dst relay this : Mac48Address) (payload : List UInt8)
    {frame : SkBuff} (hdata : frame.data = relay.1 ++ (this.1 ++ ([0x65, 0x59] ++ payload))) :
    IsRelayFrame frame ∧
      (CarriesDst dst relay this frame ↔ frame.lastOfFront 6 = some dst.1) := by
  obtain ⟨r₀, r₁, r₂, r₃, r₄, r₅, rfl⟩ := exists_bytes relay
  obtain ⟨t₀, t₁, t₂, t₃, t₄, t₅, rfl⟩ := exists_bytes this
  refine ⟨by rw [IsRelayFrame, hdata]; rfl, fun h => h.lastOfFront, fun h => ⟨h, ?_⟩⟩
  rw [hdata]
  rfl

/-- A relay frame that the hook transmits has its real destination in front, and leads from this
    node to the relay, unless there was neither room nor memory for the destination. -/
theorem outputHandler_carriesDst_iff (e : Endian) (expand : Nat → Option (List UInt8))
    (devAddrs : List Mac48Address) (memory : Mac48Address) (st : OutputStatus) (forward : Forward)
    (networkOffset : Nat) (skb : Option SkBuff) :
    (∀ st' frame,
        outputHandler e expand devAddrs memory st forward networkOffset skb =
          .ok (st', .stolen frame) →
        IsRelayFrame frame →
        CarriesDst (forward.dstMac.getD memory) (forward.relayMac.getD memory)
          (st.initAddr devAddrs).globalMacThis frame) ↔
      ¬ SendsBare expand st forward networkOffset skb := by
  cases skb with
  | none => simp [outputHandler, SendsBare]
  | some skb =>
    by_cases hrelays : Relays st forward networkOffset skb
    · obtain ⟨f, hf, hrun⟩ := hrelays.outputHandler_eq e expand devAddrs memory
      have hroom : skb.front.length + networkOffset - 14 = f.length := by omega
      rw [hrun, SendsBare, and_iff_right hrelays, hroom]
      by_cases hnoRoom : NoRoom expand f.length
      · -- The frame goes out as it is
        rw [pushRealDstMac_noRoom hnoRoom]
        refine iff_of_false (fun hall => ?_) (not_not_intro hnoRoom)
        have hheader := @header_of_relay (forward.dstMac.getD memory)
          (forward.relayMac.getD memory) (st.initAddr devAddrs).globalMacThis
          (skb.data.drop networkOffset) ⟨f, _⟩ rfl
        have hlast := hheader.2.mp (hall _ _ rfl hheader.1)
        rw [Window.lastOfFront, if_neg (Nat.not_le.mpr hnoRoom.1)] at hlast
        cases hlast
      · -- `push_real_dst_mac` has put the address there
        refine iff_of_true (fun st' frame hok _ => ?_) hnoRoom
        obtain ⟨⟨ret, frame'⟩, hpush, hok⟩ := bind_eq_ok.mp hok
        cases hok
        obtain ⟨hlast, hdata⟩ := pushRealDstMac_room hnoRoom hpush
        exact (header_of_relay _ _ _ _ hdata).2.mpr hlast
    · -- Nothing is transmitted
      refine iff_of_true (fun st' frame hok _ => ?_) fun hbare => hrelays hbare.1
      exact absurd (.of_stolen hok) hrelays

/-- The packet with one byte of room less, and no memory: it is sent to the relay, and five bytes
    are in front of it. -/
theorem outputHandler_sends_bare :
    ∃ frame, outputHandler .little (fun _ => none) [] .zero
        ⟨true, true, ⟨[2, 0, 0, 0, 0, 1], rfl⟩⟩
        ⟨0, some ⟨[2, 0, 0, 0, 0, 3], rfl⟩, some ⟨[2, 0, 0, 0, 0, 2], rfl⟩⟩ 0
        (some { ipPacket with front := List.replicate 19 0 }) =
          .ok (⟨true, true, ⟨[2, 0, 0, 0, 0, 1], rfl⟩⟩, .stolen frame) ∧
      IsRelayFrame frame ∧
      ¬ CarriesDst ⟨[2, 0, 0, 0, 0, 3], rfl⟩ ⟨[2, 0, 0, 0, 0, 2], rfl⟩
        ⟨[2, 0, 0, 0, 0, 1], rfl⟩ frame := by
  refine ⟨⟨List.replicate 5 0, [2, 0, 0, 0, 0, 2, 2, 0, 0, 0, 0, 1, 0x65, 0x59, 0x45, 0, 0, 20, 1,
    2, 3]⟩, by decide, rfl, fun h => ?_⟩
  exact absurd h.lastOfFront (by decide)

end MapRelay.Kernel
