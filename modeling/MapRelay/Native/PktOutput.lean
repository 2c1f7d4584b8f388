import MapRelay.ForStd.Heap
import MapRelay.ForStd.Window
import MapRelay.Native.MbrRoute

/-!
# Sending to a relay (`pkt_output.c` and the patch of mac80211)

The output hook of the kernel module gives a packet an Ethernet header to the relay, and
leaves the real destination in the six bytes in front of the frame. The patched functions of
mac80211 carry it from there to the relay, which sends the packet on as an ordinary frame. Of
the functions that are patched, the parts that are not in the patch are those of the kernel:
they put the 802.11 header in front of a frame and take it off.
-/

namespace MapRelay.Kernel

open ForStd

/-- `struct sk_buff`: the bytes in front of the data, and the data. -/
abbrev SkBuff := Window UInt8

/-! ## Words of two bytes -/

/-- The byte order of a host. -/
inductive Endian where
  | little
  | big
  deriving DecidableEq, Repr

/-- `(p[0] << 8) | p[1]`. -/
def readBe16 (b₀ b₁ : UInt8) : UInt16 := b₀.toUInt16 <<< 8 ||| b₁.toUInt16

/-- The bytes of a word in memory. -/
def Endian.bytes (e : Endian) (x : UInt16) : List UInt8 :=
  match e with
  | .little => [x.toUInt8, (x >>> 8).toUInt8]
  | .big => [(x >>> 8).toUInt8, x.toUInt8]

/-- `htons`. -/
def Endian.htons (e : Endian) (x : UInt16) : UInt16 :=
  match e with
  | .little => readBe16 x.toUInt8 (x >>> 8).toUInt8
  | .big => x

/-- `(p[0] << 8) | p[1]` for a pointer to the word `x`. -/
def Endian.readWord (e : Endian) (x : UInt16) : UInt16 :=
  match e with
  | .little => readBe16 x.toUInt8 (x >>> 8).toUInt8
  | .big => readBe16 (x >>> 8).toUInt8 x.toUInt8

/-! ## Constants of the kernel -/

def ethPMapRelay : UInt16 := 0x6559
def ethPIp : UInt16 := 0x0800
def ethPAarp : UInt16 := 0x80f3
def ethPIpx : UInt16 := 0x8137
def ethP8023 : UInt16 := 0x0001
def ethP8022 : UInt16 := 0x0004

/-- `ETH_P_802_3_MIN`. -/
def ethP8023Min : UInt16 := 0x0600

def rfc1042Header : List UInt8 := [0xaa, 0xaa, 0x03, 0x00, 0x00, 0x00]

def bridgeTunnelHeader : List UInt8 := [0xaa, 0xaa, 0x03, 0x00, 0x00, 0xf8]

/-! ## `pkt_output.c` -/

/-- `skb_push`, which panics if there is no room. -/
def skbPush (skb : SkBuff) (n : Nat) : Except Fault SkBuff :=
  match skb.push n with
  | some skb => .ok skb
  | none => .error .assertFailed

/-- `__skb_pull`, which is a bug if there are fewer bytes. -/
def skbPull (skb : SkBuff) (n : Nat) : Except Fault SkBuff :=
  match skb.pull n with
  | some skb => .ok skb
  | none => .error .assertFailed

/-- `memcpy(skb_push(skb, n), bytes, n)`. -/
def skbPushBytes (skb : SkBuff) (bytes : List UInt8) : Except Fault SkBuff := do
  let skb ← skbPush skb bytes.length
  return skb.write 0 bytes

/-- `push_real_dst_mac`, with its value. `expand` is the new memory that `pskb_expand_head`
    puts in front, if it gets any. -/
def pushRealDstMac (expand : Nat → Option (List UInt8)) (skb : SkBuff) (addr : Mac48Address) :
    Except Fault (Int × SkBuff) :=
  let headNeed := 6 - skb.front.length
  let expanded := if 0 < headNeed then expand headNeed else some []
  match expanded with
  | none => .ok (-12, skb)
  | some memory => do
    let skb ← skbPushBytes { skb with front := memory ++ skb.front } addr.1
    -- Restore the start of the data
    let skb ← skbPull skb 6
    return (0, skb)

/-- `eth_header_dirty`. -/
def ethHeaderDirty (e : Endian) (skb : SkBuff) (type : UInt16) (daddr saddr : Option Mac48Address)
    (len : Nat) : Except Fault (Int × SkBuff) := do
  let skb ← skbPush skb 14
  let proto := if type ≠ ethP8023 ∧ type ≠ ethP8022 then type else UInt16.ofNat len
  let skb := skb.write 12 (e.bytes (e.htons proto))
  let skb := match saddr with
    | some saddr => skb.write 6 saddr.1
    | none => skb
  let skb := match daddr with
    | some daddr => skb.write 0 daddr.1
    | none => skb
  return (14, skb)

/-- The static variables of the output hook, apart from its statistics. -/
structure OutputStatus where
  mbrStart : Bool
  addrinitFlag : Bool
  globalMacThis : Mac48Address
  deriving DecidableEq, Repr

/-- The first call of the hook: the last address of the device is the one that stays. -/
def OutputStatus.initAddr (st : OutputStatus) (devAddrs : List Mac48Address) : OutputStatus :=
  if st.addrinitFlag then st
  else { st with
    addrinitFlag := true
    globalMacThis := devAddrs.getLast?.getD st.globalMacThis }

/-- The verdicts of the hook. A stolen packet is transmitted. -/
inductive Verdict where
  | accept
  | stolen (xmit : SkBuff)
  deriving DecidableEq, Repr

/-- `output_handler`, for a packet whose network header is `networkOffset` behind the start of
    its data, once `mbr_forward` has decided on it. `devAddrs` are the addresses of the device,
    and `memory` is what the two arrays on the stack hold. -/
def outputHandler (e : Endian) (expand : Nat → Option (List UInt8)) (devAddrs : List Mac48Address)
    (memory : Mac48Address) (st : OutputStatus) (forward : Forward) (networkOffset : Nat)
    (skb : Option SkBuff) : Except Fault (OutputStatus × Verdict) :=
  let st := st.initAddr devAddrs
  match skb with
  | none => .ok (st, .accept)
  | some skb =>
    if st.mbrStart = false then .ok (st, .accept)
    else if forward.ret < 0 then .ok (st, .accept)
    else do
      let skb ← skbPull skb networkOffset
      let relayMac := forward.relayMac.getD memory
      let (_, skb) ← ethHeaderDirty e skb ethPMapRelay (some relayMac) (some st.globalMacThis)
        skb.data.length
      -- An error of either function is only reported
      let (_, skb) ← pushRealDstMac expand skb (forward.dstMac.getD memory)
      return (st, .stolen skb)

/-! ## The patched functions of mac80211 -/

/-- An address in a byte string. -/
def macAt (k : Nat) (bytes : List UInt8) : Mac48Address :=
  if h : ((bytes.drop k).take 6).length = 6 then ⟨(bytes.drop k).take 6, h⟩ else .zero

/-- The 802.11 header of a data frame with its destination and source address, as the kernel
    builds it and as it reads it again. -/
structure Mac80211 where
  hdrlen : Nat
  header : Mac48Address → Mac48Address → List UInt8
  getDA : List UInt8 → Mac48Address
  getSA : List UInt8 → Mac48Address
  le_hdrlen : 24 ≤ hdrlen
  length_header : ∀ da sa, (header da sa).length = hdrlen
  getDA_header : ∀ da sa payload, getDA (header da sa ++ payload) = da
  getSA_header : ∀ da sa payload, getSA (header da sa ++ payload) = sa

/-- The branches on the type of a frame in `ieee80211_build_hdr` and
    `ieee80211_data_from_8023`: `encaps_data`, and `skip_header_bytes`. -/
def encapsOf (skb : SkBuff) (ethertype : UInt16) : Except Fault (List UInt8 × Nat) :=
  if ethertype = ethPAarp ∨ ethertype = ethPIpx then .ok (bridgeTunnelHeader, 14 - 2)
  else if ethertype = ethPMapRelay then
    -- The six bytes in front of the frame
    match skb.lastOfFront 6 with
    | some relayAddr => .ok (relayAddr, 14 - 2)
    | none => .error .danglingDeref
  else if ethP8023Min ≤ ethertype then .ok (rfc1042Header, 14 - 2)
  else .ok ([], 14)

/-- `ieee80211_data_from_8023`, and the same in `ieee80211_build_hdr`: the bytes that go on
    air. `none` stands for the error. -/
def dataFrom8023 (m : Mac80211) (skb : SkBuff) : Except Fault (Option (List UInt8)) :=
  match skb.data with
  | _ :: _ :: _ :: _ :: _ :: _ :: _ :: _ :: _ :: _ :: _ :: _ :: b₀ :: b₁ :: _ => do
    let (encapsData, skipHeaderBytes) ← encapsOf skb (readBe16 b₀ b₁)
    return some (m.header (macAt 0 skb.data) (macAt 6 skb.data) ++
      (encapsData ++ skb.data.drop skipHeaderBytes))
  | _ => .ok none

/-- `ieee80211_data_to_8023` for a data frame; `none` stands for the error. -/
def dataTo8023 (m : Mac80211) (skb : SkBuff) : Except Fault (Option SkBuff) :=
  let dst := m.getDA skb.data
  let src := m.getSA skb.data
  match skb.data.drop m.hdrlen with
  | p₀ :: p₁ :: p₂ :: p₃ :: p₄ :: p₅ :: b₀ :: b₁ :: _ =>
    let payload := [p₀, p₁, p₂, p₃, p₄, p₅]
    let ethertype := readBe16 b₀ b₁
    if (payload = rfc1042Header ∧ ethertype ≠ ethPAarp ∧ ethertype ≠ ethPIpx) ∨
        payload = bridgeTunnelHeader then do
      let skb ← skbPull skb (m.hdrlen + 6)
      let skb ← skbPushBytes skb src.1
      return some (← skbPushBytes skb dst.1)
    else if ethertype = ethPMapRelay then do
      let skb ← skbPull skb (m.hdrlen + 6)
      -- This node is the source now, and the real destination the destination
      let skb ← skbPushBytes skb dst.1
      return some (← skbPushBytes skb payload)
    else do
      let skb ← skbPull skb m.hdrlen
      -- The length of the frame in the place of a type
      let len := UInt16.ofNat skb.data.length
      return some (← skbPushBytes skb (dst.1 ++ (src.1 ++ [(len >>> 8).toUInt8, len.toUInt8])))
  | _ => .ok none

/-- Where `ieee80211_deliver_skb` leaves a frame: with the host, or on its way out again. -/
inductive Delivered where
  | up (skb : SkBuff)
  | xmit (skb : SkBuff)
  deriving DecidableEq, Repr

/-- `ieee80211_deliver_skb`, on an interface that is not an access point. -/
def deliverSkb (e : Endian) (skb : SkBuff) : Delivered :=
  match skb.data with
  | _ :: _ :: _ :: _ :: _ :: _ :: _ :: _ :: _ :: _ :: _ :: _ :: b₀ :: b₁ :: _ =>
    if readBe16 b₀ b₁ = ethPMapRelay then
      .xmit (skb.write 12 (e.bytes (e.readWord ethPIp)))
    else .up skb
  | _ => .up skb

end MapRelay.Kernel
