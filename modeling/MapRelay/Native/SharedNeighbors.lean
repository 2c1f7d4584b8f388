import MapRelay.ForStd.Memory
import MapRelay.ForStd.StructLayout
import MapRelay.Native.Buffer
import MapRelay.Native.Mac48Address
import MapRelay.Native.PktOutput

/-!
# The neighbour table in shared memory (`rcv.c`, `neighbors.h`)

A user process receives the beacons and writes them into the pages that it shares with the
kernel module: a byte that says whether it is at work, the number of entries, and the entries.
The two programs declare the struct of an entry separately; the kernel's has one member more.
-/

namespace MapRelay

open ForStd Memory

/-- A word of four bytes in memory. -/
def Kernel.Endian.u32 : Kernel.Endian → Codec UInt32
  | .little => NS3.networkU32.reversed
  | .big => NS3.networkU32

/-- A word of eight bytes in memory. -/
def Kernel.Endian.u64 : Kernel.Endian → Codec UInt64
  | .little => NS3.Buffer.network.htonU64.reversed
  | .big => NS3.Buffer.network.htonU64

/-- A byte in memory. -/
def u8Codec : Codec UInt8 := NS3.Buffer.network.u8

/-! ## The layout -/

/-- The length of the mapping, `4096 * 4`. -/
def sharedLength : Nat := 4096 * 4

/-- `NEIGH_STATUS_OFFSET`. -/
def neighStatusOffset : Nat := 0

/-- `NEIGH_COUNT_OFFSET`. -/
def neighCountOffset : Nat := 1

/-- `NEIGH_DATA_OFFSET`. -/
def neighDataOffset : Nat := 5

/-- The members `ip`, `mac` and `geoHash`, with the alignment of words that is natural to
    them. -/
def neighborMembers : List Member := [⟨4, 4⟩, ⟨6, 1⟩, ⟨8, 8⟩]

/-- `neighbor_table` of `rcv.c`: `isvalid` is the last member. -/
def Rcv.neighborTable : List Member := neighborMembers ++ [⟨4, 4⟩]

/-- `neighbor_table` of `neighbors.h`, which has `direction` in front of `isvalid`. -/
def Kernel.neighborTable : List Member := neighborMembers ++ [⟨4, 4⟩, ⟨4, 4⟩]

/-- The place of member `i` of the entry `neigh_data + k`. -/
def memberAt (layout : List Member) (k i : Nat) : Nat :=
  neighDataOffset + k * Member.sizeof layout + (Member.offsets layout).getD i 0

/-- The part of an entry that both programs know, and `struct neighbor`, the beacon. -/
structure SharedNeighbor where
  ip : UInt32
  mac : Mac48Address
  geoHash : UInt64
  deriving DecidableEq, Repr

/-- What a program with this layout sees in the entry `neigh_data + k`. -/
def readEntry (e : Kernel.Endian) (layout : List Member) (mem : Memory) (k : Nat) :
    Except Fault SharedNeighbor := do
  let ip ← load e.u32 mem (memberAt layout k 0)
  let mac ← load (u8Codec.array 6) mem (memberAt layout k 1)
  let geoHash ← load e.u64 mem (memberAt layout k 2)
  return ⟨ip, mac, geoHash⟩

/-! ## The writer -/

namespace Rcv

/-- The loop of `add_neighbor` over the `n` entries from `k` on: the index of the first one
    with this address, or the one behind the last. -/
def findEntry (e : Kernel.Endian) (mem : Memory) (ip : UInt32) : Nat → Nat → Except Fault Nat
  | 0, k => .ok k
  | n + 1, k => do
    let entryIp ← load e.u32 mem (memberAt Rcv.neighborTable k 0)
    if ip = entryIp then return k else findEntry e mem ip n (k + 1)

/-- The assignments to `entry->mac` and `entry->geoHash`. -/
def assignEntry (e : Kernel.Endian) (mem : Memory) (k : Nat) (temp : SharedNeighbor) :
    Except Fault Memory := do
  let mem ← store (u8Codec.array 6) mem (memberAt Rcv.neighborTable k 1) temp.mac
  store e.u64 mem (memberAt Rcv.neighborTable k 2) temp.geoHash

/-- The entry behind the last one. Nothing says that there is room for it. -/
def appendEntry (e : Kernel.Endian) (mem : Memory) (k : Nat) (count : UInt32)
    (temp : SharedNeighbor) : Except Fault Memory := do
  let mem ← store e.u32 mem (memberAt Rcv.neighborTable k 0) temp.ip
  let mem ← assignEntry e mem k temp
  store e.u32 mem neighCountOffset (count + 1)

/-- `add_neighbor`. -/
def addNeighbor (e : Kernel.Endian) (mem : Memory) (temp : SharedNeighbor) :
    Except Fault Memory := do
  let mem ← store u8Codec mem neighStatusOffset 1
  let count ← load e.u32 mem neighCountOffset
  let k ← findEntry e mem temp.ip count.toNat 0
  let mem ←
    if k < count.toNat then assignEntry e mem k temp else appendEntry e mem k count temp
  store u8Codec mem neighStatusOffset 0

/-- `main`: the table is emptied, and each beacon that is received goes into it. -/
def receive (e : Kernel.Endian) (mem : Memory) (beacons : List SharedNeighbor) :
    Except Fault Memory := do
  let mem ← store e.u32 mem neighCountOffset 0
  beacons.foldlM (addNeighbor e) mem

end Rcv

end MapRelay
