import MapRelay.Native.Buffer
import MapRelay.Native.Mac48Address

/-!
# The hello packet (`mbr-header.cc`)

The beacon a vehicle sends: the fields of a route reply, of which it uses the address of
its sender, and behind them the position of the vehicle.
-/

namespace MapRelay.NS3

open ForStd

/-- `class MbrHeader`. The two `float`s are kept as the bits that `memcpy` moves, an
    `Ipv4Address` as the number it wraps, and the array of six bytes as an address. -/
structure MbrHeader where
  flags : UInt8
  prefixSize : UInt8
  hopCount : UInt8
  dst : UInt32
  dstSeqNo : UInt32
  origin : UInt32
  geohash : UInt64
  mac : Mac48Address
  direction : UInt16
  latitude : UInt32
  longitude : UInt32
  lifeTime : UInt32
  deriving DecidableEq, Repr

/-- The constructor with its default arguments, over whatever `memory` held: without a
    `mac` the array stays as it is. -/
def MbrHeader.default (memory : MbrHeader) : MbrHeader where
  flags := 0
  prefixSize := 0
  hopCount := 0
  dst := 0
  dstSeqNo := 0
  origin := 0
  geohash := 0
  mac := memory.mac
  direction := 0
  latitude := 0
  longitude := 0
  lifeTime := 0

/-- `GetSerializedSize`. -/
def MbrHeader.getSerializedSize : Nat := 41

/-- `Serialize`. -/
def MbrHeader.serialize (i : Buffer) (h : MbrHeader) : List UInt8 :=
  -- `m_direction` is not written
  i.u8.write h.flags ++ (i.u8.write h.prefixSize ++ (i.u8.write h.hopCount ++
    (i.address.write h.dst ++ (i.htonU32.write h.dstSeqNo ++ (i.address.write h.origin ++
      (i.htonU32.write h.lifeTime ++ (i.htonU64.write h.geohash ++
        ((i.u8.array 6).write h.mac ++ (i.htonU32.write h.latitude ++
          i.htonU32.write h.longitude)))))))))

/-- `Deserialize` into the header `h`; the second component is the distance the iterator
    has moved. -/
def MbrHeader.deserialize (i : Buffer) (h : MbrHeader) : Reader (MbrHeader × Nat) := do
  let start ← get
  let flags ← i.u8.read
  let prefixSize ← i.u8.read
  let hopCount ← i.u8.read
  let dst ← i.address.read
  let dstSeqNo ← i.htonU32.read
  let origin ← i.address.read
  let lifeTime ← i.htonU32.read
  let geohash ← i.htonU64.read
  let mac ← (i.u8.array 6).read
  let latitude ← i.htonU32.read
  let longitude ← i.htonU32.read
  let rest ← get
  -- `m_direction` keeps what the object held before
  return ({ h with
    flags, prefixSize, hopCount, dst, dstSeqNo, origin, lifeTime, geohash, mac,
    latitude, longitude }, start.length - rest.length)

/-- `operator==`. -/
def MbrHeader.operatorEq (h o : MbrHeader) : Bool :=
  h.flags == o.flags && h.prefixSize == o.prefixSize && h.hopCount == o.hopCount &&
    h.dst == o.dst && h.dstSeqNo == o.dstSeqNo && h.origin == o.origin && h.lifeTime == o.lifeTime

end MapRelay.NS3
