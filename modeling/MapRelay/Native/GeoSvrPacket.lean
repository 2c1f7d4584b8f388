import MapRelay.ForStd.Blocks
import MapRelay.Native.Buffer

/-!
# The path of a packet in GeoSVR (`geoSVR-packet.cc`, `geoSVR-packet-tag.cc`)

The node that sends a packet puts the road nodes of its way into a byte tag, and `AddHeaders`
moves them from the tag into the data header. On the heap a path is a block with its length in
the first byte. `Serialize` frees the block it has written, of the tag as well as of the header.
-/

namespace MapRelay.NS3.GeoSvr

open ForStd Blocks

/-- What the tag needs of the tag buffer of ns-3. -/
structure TagBuffer where
  u32 : Codec UInt32
  width_u32 : u32.width = 4

attribute [simp] TagBuffer.width_u32

/-- The tag buffer of ns-3 writes the low byte first. -/
def TagBuffer.ns3 : TagBuffer := ⟨networkU32.reversed, rfl⟩

/-- `class DatapacketHeader`. The coordinates are kept as the bits that `memcpy` moves. -/
structure DatapacketHeader where
  length : UInt32
  m : BitVec 1
  t : BitVec 2
  c : BitVec 1
  sx : UInt64
  sy : UInt64
  dx : UInt64
  dy : UInt64
  path : Addr
  deriving DecidableEq, Repr

namespace DatapacketHeader

/-- The constructor, which cuts three of its arguments off to bit fields. -/
def new (length m1 t1 c1 : UInt32) (sx sy dx dy : UInt64) (path : Addr) : DatapacketHeader :=
  ⟨length, .ofNat 1 m1.toNat, .ofNat 2 t1.toNat, .ofNat 1 c1.toNat, sx, sy, dx, dy, path⟩

/-- The constructor with its default arguments. -/
def default : DatapacketHeader := new 0 0 0 0 0 0 0 0 NULL

/-- `GetSerializedSize`. -/
def getSerializedSize (h : DatapacketHeader) : UInt32 := 48 + h.length

/-- `Serialize`. -/
def serialize (i : Buffer) (mem : Blocks) (h : DatapacketHeader) :
    Except Fault (Blocks × List UInt8) := do
  let path ← bytesFrom mem h.path 1 h.length.toNat
  let mem ← release mem h.path
  return (mem,
    i.htonU32.write h.length ++ (i.htonU32.write (.ofNat h.m.toNat) ++
      (i.htonU32.write (.ofNat h.t.toNat) ++ (i.htonU32.write (.ofNat h.c.toNat) ++
        (i.htonU64.write h.sx ++ (i.htonU64.write h.sy ++ (i.htonU64.write h.dx ++
          (i.htonU64.write h.dy ++ i.u8.writeAll path))))))))

/-- `Deserialize` into the header `h`; the last component is the distance the iterator has
    moved, which is checked by an assertion. -/
def deserialize (i : Buffer) (mem : Blocks) (h : DatapacketHeader) :
    Reader (Blocks × DatapacketHeader × Nat) := do
  let start ← get
  let length ← i.htonU32.read
  let m ← i.htonU32.read
  let t ← i.htonU32.read
  let c ← i.htonU32.read
  let sx ← i.htonU64.read
  let sy ← i.htonU64.read
  let dx ← i.htonU64.read
  let dy ← i.htonU64.read
  -- Without a path the pointer stays as it is
  let (mem, path) ←
    if length = 0 then pure (mem, h.path)
    else do
      let bytes ← i.u8.readN length.toNat
      pure (mem.alloc (length.toUInt8 :: bytes))
  let rest ← get
  let h := new length m t c sx sy dx dy path
  let dist := start.length - rest.length
  if dist = h.getSerializedSize.toNat then return (mem, h, dist) else failure

/-- `encode_path`; `malloc` is taken to succeed, so that the value is always `true`. -/
def encodePath (mem : Blocks) (h : DatapacketHeader) (paths : List Int32) :
    Except Fault (Blocks × DatapacketHeader) := do
  let size := UInt8.ofNat paths.length
  let (mem, enpath) := mem.alloc (size :: paths.map fun id => id.toUInt32.toUInt8)
  let mem ← release mem h.path
  return (mem, { h with length := size.toUInt32, path := enpath })

/-- `decode_path`, which appends to `paths`. -/
def decodePath (mem : Blocks) (h : DatapacketHeader) (paths : List Int32) :
    Except Fault (List Int32 × Bool) :=
  if h.path = NULL then .ok (paths, false)
  else do
    let len ← byteAt mem h.path 0
    let ids ← bytesFrom mem h.path 1 len.toNat
    return (paths ++ ids.map fun id => id.toUInt32.toInt32, true)

/-- `==` on two `double`s, which are given by their bits. -/
def eqDouble (x y : UInt64) : Bool := Float.ofBits x == Float.ofBits y

/-- `operator==`. -/
def operatorEq (h o : DatapacketHeader) : Bool :=
  eqDouble h.sx o.sx && eqDouble h.sy o.sy && eqDouble h.dx o.dy && eqDouble h.dy o.dy

end DatapacketHeader

/-- `class geoSVRTag`. A tag that is sent has the pointer, one that was received the vector. -/
structure Tag where
  path : Addr
  pathVector : List Int32
  deriving DecidableEq, Repr

namespace Tag

/-- The constructor. -/
def new : Tag := ⟨NULL, []⟩

/-- `SetPath`. -/
def setPath (tag : Tag) (path : Addr) : Tag := { tag with path }

/-- `GetSerializedSize`. -/
def getSerializedSize (mem : Blocks) (tag : Tag) : Except Fault Nat :=
  if tag.path = NULL then .ok 4
  else do
    let len ← byteAt mem tag.path 0
    return 4 + len.toNat * 4

/-- `Serialize`. -/
def serialize (i : TagBuffer) (mem : Blocks) (tag : Tag) : Except Fault (Blocks × List UInt8) :=
  if tag.path = NULL then .ok (mem, i.u32.write 0)
  else do
    let len ← byteAt mem tag.path 0
    let ids ← bytesFrom mem tag.path 1 len.toNat
    let mem ← release mem tag.path
    return (mem, i.u32.write len.toUInt32 ++ i.u32.writeAll (ids.map UInt8.toUInt32))

/-- `Deserialize`: the length becomes the first element of the vector. -/
def deserialize (i : TagBuffer) (tag : Tag) : Reader Tag := do
  let len ← i.u32.read
  let ids ← i.u32.readN len.toNat
  return { tag with pathVector := len.toInt32 :: ids.map UInt32.toInt32 }

/-- `GetPath`. The block has one byte more than the vector has elements, which nobody sets. -/
def getPath (mem : Blocks) (tag : Tag) : Blocks × Addr :=
  mem.alloc (tag.pathVector.map (fun id => id.toUInt32.toUInt8) ++ [0])

end Tag

/-- `AddHeaders` as far as the header goes, for the tag of the packet, if it finds one. There
    `m`, `t` and `c` are 1, 2 and 1. -/
def addHeaders (mem : Blocks) (tag : Option Tag) (m t c : UInt32) (sx sy dx dy : UInt64) :
    Except Fault (Blocks × DatapacketHeader) := do
  let (mem, enpaths) := match tag with
    | some tag => tag.getPath mem
    | none => (mem, NULL)
  let length ← if enpaths = NULL then pure 0 else (byteAt mem enpaths 0).map UInt8.toUInt32
  return (mem, .new length m t c sx sy dx dy enpaths)

end MapRelay.NS3.GeoSvr
