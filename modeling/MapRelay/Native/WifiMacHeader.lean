import MapRelay.ForStd.BitField
import MapRelay.ForStd.Codec
import MapRelay.ForStd.Heap
import MapRelay.Native.Mac48Address

/-!
# The 802.11 header (`wifi-mac-header.cc`)

The simulator widens the subtype of a frame to five bits and uses the new subtype 16 for
data frames that are relayed (`SetTypeMBRData`).
-/

namespace MapRelay.NS3

open ForStd

/-- `class WifiMacHeader`. -/
structure WifiMacHeader where
  ctrlType : UInt8
  ctrlSubtype : UInt8
  ctrlToDs : UInt8
  ctrlFromDs : UInt8
  ctrlMoreFrag : UInt8
  ctrlRetry : UInt8
  ctrlMoreData : UInt8
  ctrlWep : UInt8
  ctrlOrder : UInt8
  duration : UInt16
  addr1 : Mac48Address
  addr2 : Mac48Address
  addr3 : Mac48Address
  seqFrag : UInt8
  seqSeq : UInt16
  addr4 : Mac48Address
  qosTid : UInt8
  qosEosp : UInt8
  qosAckPolicy : UInt8
  amsduPresent : UInt8
  qosStuff : UInt16
  deriving DecidableEq, Repr

namespace WifiMacHeader

/-- `TYPE_MGT`, `TYPE_CTL` and `TYPE_DATA`. -/
def typeMgt : UInt8 := 0

def typeCtl : UInt8 := 1

def typeData : UInt8 := 2

/-- The constructor, over whatever `memory` held: it sets four fields, and the addresses are
    zero addresses by their own constructor. -/
def create (memory : WifiMacHeader) : WifiMacHeader :=
  { memory with
    ctrlMoreData := 0
    ctrlWep := 0
    ctrlOrder := 1
    amsduPresent := 0
    addr1 := .zero
    addr2 := .zero
    addr3 := .zero
    addr4 := .zero }

def setTypeData (hdr : WifiMacHeader) : WifiMacHeader :=
  { hdr with ctrlType := typeData, ctrlSubtype := 0 }

def setTypeMBRData (hdr : WifiMacHeader) : WifiMacHeader :=
  { hdr with ctrlType := typeData, ctrlSubtype := 16 }

def setAddr1 (hdr : WifiMacHeader) (address : Mac48Address) : WifiMacHeader :=
  { hdr with addr1 := address }

def setAddr2 (hdr : WifiMacHeader) (address : Mac48Address) : WifiMacHeader :=
  { hdr with addr2 := address }

def setAddr3 (hdr : WifiMacHeader) (address : Mac48Address) : WifiMacHeader :=
  { hdr with addr3 := address }

def setAddr4 (hdr : WifiMacHeader) (address : Mac48Address) : WifiMacHeader :=
  { hdr with addr4 := address }

def setDsNotFrom (hdr : WifiMacHeader) : WifiMacHeader := { hdr with ctrlFromDs := 0 }

def setDsNotTo (hdr : WifiMacHeader) : WifiMacHeader := { hdr with ctrlToDs := 0 }

def setNoOrder (hdr : WifiMacHeader) : WifiMacHeader := { hdr with ctrlOrder := 0 }

def isData (hdr : WifiMacHeader) : Bool := hdr.ctrlType == typeData

def isCtl (hdr : WifiMacHeader) : Bool := hdr.ctrlType == typeCtl

def isQosData (hdr : WifiMacHeader) : Bool :=
  hdr.ctrlType == typeData && hdr.ctrlSubtype &&& 0x08 != 0

def isMBRData (hdr : WifiMacHeader) : Bool := hdr.ctrlType == typeData && hdr.ctrlSubtype == 16

/-- `IsQosAmsdu`, which is only asked of QoS data frames. -/
def isQosAmsdu (hdr : WifiMacHeader) : Bool := hdr.amsduPresent == 1

/-! ## The types -/

/-- `enum WifiMacType`, and the subtypes that `SetType` sets for it. -/
def macTypes : List (UInt8 × UInt8) :=
  -- Control wrapper, block ack request and response, RTS, CTS, ACK
  [(typeCtl, 7), (typeCtl, 8), (typeCtl, 9), (typeCtl, 11), (typeCtl, 12), (typeCtl, 13),
    -- Association, reassociation and probe frames, beacon
    (typeMgt, 0), (typeMgt, 1), (typeMgt, 2), (typeMgt, 3), (typeMgt, 4), (typeMgt, 5),
    (typeMgt, 8),
    -- Disassociation, authentication, deauthentication, action frames
    (typeMgt, 10), (typeMgt, 11), (typeMgt, 12), (typeMgt, 13), (typeMgt, 14), (typeMgt, 15),
    -- Data frames, with QoS from 8 on, and MBR data
    (typeData, 0), (typeData, 1), (typeData, 2), (typeData, 3), (typeData, 4), (typeData, 5),
    (typeData, 6), (typeData, 7), (typeData, 8), (typeData, 9), (typeData, 10), (typeData, 11),
    (typeData, 12), (typeData, 14), (typeData, 15), (typeData, 16)]

/-- `SetType`, with the type by the two numbers it stands for. -/
def setType (hdr : WifiMacHeader) (type : UInt8 × UInt8) : WifiMacHeader :=
  { hdr with ctrlType := type.1, ctrlSubtype := type.2, ctrlToDs := 0, ctrlFromDs := 0 }

/-! ## On the wire -/

/-- `GetFrameControl`. -/
def getFrameControl (hdr : WifiMacHeader) : UInt16 :=
  place hdr.ctrlType.toUInt16 0x3 1 |||
  place hdr.ctrlSubtype.toUInt16 0x1f 3 |||
  place hdr.ctrlToDs.toUInt16 0x1 8 |||
  place hdr.ctrlFromDs.toUInt16 0x1 9 |||
  place hdr.ctrlMoreFrag.toUInt16 0x1 10 |||
  place hdr.ctrlRetry.toUInt16 0x1 11 |||
  place hdr.ctrlMoreData.toUInt16 0x1 13 |||
  place hdr.ctrlWep.toUInt16 0x1 14 |||
  place hdr.ctrlOrder.toUInt16 0x1 15

/-- `SetFrameControl`. -/
def setFrameControl (hdr : WifiMacHeader) (ctrl : UInt16) : WifiMacHeader :=
  { hdr with
    ctrlType := (extract ctrl 0x03 1).toUInt8
    ctrlSubtype := (extract ctrl 0x1f 3).toUInt8
    ctrlToDs := (extract ctrl 0x01 8).toUInt8
    ctrlFromDs := (extract ctrl 0x01 9).toUInt8
    ctrlMoreFrag := (extract ctrl 0x01 10).toUInt8
    ctrlRetry := (extract ctrl 0x01 11).toUInt8
    ctrlMoreData := (extract ctrl 0x01 13).toUInt8
    ctrlWep := (extract ctrl 0x01 14).toUInt8
    ctrlOrder := (extract ctrl 0x01 15).toUInt8 }

/-- `GetSequenceControl`. -/
def getSequenceControl (hdr : WifiMacHeader) : UInt16 :=
  hdr.seqSeq <<< 4 ||| hdr.seqFrag.toUInt16

/-- `SetSequenceControl`. -/
def setSequenceControl (hdr : WifiMacHeader) (seq : UInt16) : WifiMacHeader :=
  { hdr with
    seqFrag := (extract seq 0x0f 0).toUInt8
    seqSeq := extract seq 0x0fff 4 }

/-- `GetQosControl`. -/
def getQosControl (hdr : WifiMacHeader) : UInt16 :=
  hdr.qosTid.toUInt16 |||
  hdr.qosEosp.toUInt16 <<< 4 |||
  hdr.qosAckPolicy.toUInt16 <<< 5 |||
  hdr.amsduPresent.toUInt16 <<< 7 |||
  hdr.qosStuff <<< 8

/-- `SetQosControl`. -/
def setQosControl (hdr : WifiMacHeader) (qos : UInt16) : WifiMacHeader :=
  { hdr with
    qosTid := (extract qos 0x000f 0).toUInt8
    qosEosp := (extract qos 0x0001 4).toUInt8
    qosAckPolicy := (extract qos 0x0003 5).toUInt8
    amsduPresent := (extract qos 0x0001 7).toUInt8
    qosStuff := extract qos 0x00ff 8 }

/-- The test for the fourth address of a data frame. -/
def hasAddr4 (hdr : WifiMacHeader) : Bool :=
  (hdr.ctrlToDs != 0 && hdr.ctrlFromDs != 0) || hdr.ctrlSubtype == 16

/-- The test for the QoS control of a data frame. -/
def hasQosControl (hdr : WifiMacHeader) : Bool := hdr.ctrlSubtype &&& 0x08 != 0

/-- `GetSize`. -/
def getSize (hdr : WifiMacHeader) : Nat :=
  if hdr.ctrlType = typeMgt then 2 + 2 + 6 + 6 + 6 + 2
  else if hdr.ctrlType = typeCtl then
    if hdr.ctrlSubtype = 11 then 2 + 2 + 6 + 6
    else if hdr.ctrlSubtype = 12 ∨ hdr.ctrlSubtype = 13 then 2 + 2 + 6
    else if hdr.ctrlSubtype = 8 ∨ hdr.ctrlSubtype = 9 then 2 + 2 + 6 + 6
    else if hdr.ctrlSubtype = 7 then 2 + 2 + 6 + 2 + 4
    else 0
  else if hdr.ctrlType = typeData then
    2 + 2 + 6 + 6 + 6 + 2 + (if hdr.hasAddr4 then 6 else 0) +
      (if hdr.hasQosControl then 2 else 0)
  else 0

/-- The accessors of the buffer iterator that the header uses. -/
structure Iterator where
  htolsbU16 : Codec UInt16
  address : Codec Mac48Address
  width_htolsbU16 : htolsbU16.width = 2
  width_address : address.width = 6

/-- The iterator of ns-3: words with the least significant byte first, and the six bytes of an
    address in their order. -/
def Iterator.lsb : Iterator where
  htolsbU16 := (Codec.word 2 UInt16.toNat UInt16.ofNat (fun a => a.toNat_lt)
    fun _ => UInt16.ofNat_toNat).reversed
  address := (Codec.word 1 UInt8.toNat UInt8.ofNat (fun a => a.toNat_lt)
    fun _ => UInt8.ofNat_toNat).array 6
  width_htolsbU16 := rfl
  width_address := rfl

/-- The second and third address and the sequence control. -/
def writeAddresses (i : Iterator) (hdr : WifiMacHeader) : List UInt8 :=
  i.address.write hdr.addr2 ++ (i.address.write hdr.addr3 ++
    i.htolsbU16.write hdr.getSequenceControl)

/-- The parts of a data frame behind them. -/
def writeAddr4 (i : Iterator) (hdr : WifiMacHeader) : List UInt8 :=
  if hdr.hasAddr4 then i.address.write hdr.addr4 else []

def writeQosControl (i : Iterator) (hdr : WifiMacHeader) : List UInt8 :=
  if hdr.hasQosControl then i.htolsbU16.write hdr.getQosControl else []

/-- The switch over the type in `Serialize`. -/
def writeBody (i : Iterator) (hdr : WifiMacHeader) : Except Fault (List UInt8) :=
  if hdr.ctrlType = typeMgt then return writeAddresses i hdr
  else if hdr.ctrlType = typeCtl then
    if hdr.ctrlSubtype = 11 then return i.address.write hdr.addr2
    else if hdr.ctrlSubtype = 12 ∨ hdr.ctrlSubtype = 13 then return []
    else if hdr.ctrlSubtype = 8 ∨ hdr.ctrlSubtype = 9 then return i.address.write hdr.addr2
    else throw .assertFailed
  else if hdr.ctrlType = typeData then
    return writeAddresses i hdr ++ (writeAddr4 i hdr ++ writeQosControl i hdr)
  else throw .assertFailed

/-- `Serialize`. -/
def serialize (i : Iterator) (hdr : WifiMacHeader) : Except Fault (List UInt8) := do
  let body ← writeBody i hdr
  return i.htolsbU16.write hdr.getFrameControl ++ (i.htolsbU16.write hdr.duration ++
    (i.address.write hdr.addr1 ++ body))

def readAddr2 (i : Iterator) (hdr : WifiMacHeader) : Reader WifiMacHeader := do
  let addr2 ← i.address.read
  return { hdr with addr2 }

def readAddresses (i : Iterator) (hdr : WifiMacHeader) : Reader WifiMacHeader := do
  let addr2 ← i.address.read
  let addr3 ← i.address.read
  let seq ← i.htolsbU16.read
  return { hdr with addr2, addr3 }.setSequenceControl seq

def readAddr4 (i : Iterator) (hdr : WifiMacHeader) : Reader WifiMacHeader :=
  if hdr.hasAddr4 then do
    let addr4 ← i.address.read
    return { hdr with addr4 }
  else return hdr

def readQosControl (i : Iterator) (hdr : WifiMacHeader) : Reader WifiMacHeader :=
  if hdr.hasQosControl then do
    let qos ← i.htolsbU16.read
    return hdr.setQosControl qos
  else return hdr

/-- The switch over the type in `Deserialize`. -/
def readBody (i : Iterator) (hdr : WifiMacHeader) : Reader WifiMacHeader :=
  if hdr.ctrlType = typeMgt then readAddresses i hdr
  else if hdr.ctrlType = typeCtl then
    if hdr.ctrlSubtype = 11 then readAddr2 i hdr
    else if hdr.ctrlSubtype = 12 ∨ hdr.ctrlSubtype = 13 then return hdr
    else if hdr.ctrlSubtype = 8 ∨ hdr.ctrlSubtype = 9 then readAddr2 i hdr
    else return hdr
  else if hdr.ctrlType = typeData then do
    let hdr ← readAddresses i hdr
    let hdr ← readAddr4 i hdr
    readQosControl i hdr
  else return hdr

/-- `Deserialize` into the header `hdr`; the second component is the distance the iterator
    has moved. -/
def deserialize (i : Iterator) (hdr : WifiMacHeader) : Reader (WifiMacHeader × Nat) := do
  let start ← get
  let ctrl ← i.htolsbU16.read
  let duration ← i.htolsbU16.read
  let addr1 ← i.address.read
  let hdr ← readBody i { hdr.setFrameControl ctrl with duration, addr1 }
  let rest ← get
  return (hdr, start.length - rest.length)

end WifiMacHeader

end MapRelay.NS3
