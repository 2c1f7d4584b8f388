import MapRelay.ForStd.Memory
import MapRelay.Native.Netlink

/-!
# Sending the road map to the kernel (`netlink_user.c`)

The tool fills a `deliver` with a command, copies it behind a netlink header and sends the buffer.
The buffer is made for a payload of 60 bytes, while a `deliver` has 64: the copy writes four bytes
behind the buffer, and these are not sent. What the tool does with the socket and prints is left
out.
-/

namespace MapRelay.Kernel

open ForStd

/-- `MAX_PLOAD`. -/
def maxPload : Nat := 60

/-- `NLMSG_SPACE`. -/
def nlmsgSpace (len : Nat) : Nat := (len + nlmsgHdrlen + 3) / 4 * 4

/-- The bytes of a variable of `n` bytes. -/
def Endian.encode (e : Endian) (n x : Nat) : List UInt8 :=
  match e with
  | .little => (networkBytes n x).reverse
  | .big => networkBytes n x

/-- A C string for one of the arrays of 25 characters. -/
structure IdStr where
  chars : List UInt8
  fits : chars.length < idLength
  no_end : 0 ∉ chars
  deriving DecidableEq

/-- The bytes of a `deliver`, which has the layout of a `graph_deliver`. -/
abbrev Deliver := Memory

/-- `strcpy` to a member. -/
def Deliver.strcpy (d : Deliver) (offset : Nat) (s : IdStr) : Deliver :=
  Memory.poke d offset (s.chars ++ [0])

/-- An assignment to a member of `n` bytes. -/
def Deliver.assign (d : Deliver) (e : Endian) (offset n x : Nat) : Deliver :=
  Memory.poke d offset (e.encode n x)

/-- What is assigned to `d` before it is sent. -/
inductive UserCommand where
  | delNode (vertex : IdStr)
  | newNode (vertex : IdStr) (geohash : UInt64)
  | newEdge (source target : IdStr) (roadId : Int32)

/-- The assignments. The rest of `d` is as it was for the message before. -/
def UserCommand.fill (e : Endian) (d : Deliver) : UserCommand → Deliver
  | .delNode vertex => (Deliver.assign d e 0 2 1).strcpy 8 vertex
  | .newNode vertex geohash =>
    ((Deliver.assign d e 0 2 2).strcpy 8 vertex).assign e 40 8 geohash.toNat
  | .newEdge source target roadId =>
    (((Deliver.assign d e 0 2 3).strcpy 8 source).strcpy 33 target).assign e 60 4
      roadId.toUInt32.toNat

/-- The netlink header of `message_send`: the length, and the port 50. -/
def messageHeader (e : Endian) : List UInt8 :=
  e.encode 4 (nlmsgSpace maxPload) ++ e.encode 2 0 ++ e.encode 2 0 ++ e.encode 4 0 ++ e.encode 4 50

/-- `message_send`: the bytes that it sends. -/
def messageSend (e : Endian) (d : Deliver) : List UInt8 :=
  (messageHeader e ++ d).take (nlmsgSpace maxPload)

/-- The `deliver` of the tool, and the graph of the kernel. -/
structure UserState where
  d : Deliver
  graph : RoadGraph

/-- What the kernel finds in memory that does not belong to it: the bytes behind the message, and
    the `next` of the list node that a deletion has freed. -/
structure Found where
  behind : List UInt8
  next : FreedNext

/-- One command, filled in and sent, is received, and what the kernel sends back is what the
    tool has sent. -/
def UserStep (e : Endian) (s : UserState) (x : UserCommand × Found) (s' : UserState) : Prop :=
  s'.d = x.1.fill e s.d ∧
    netlinkRecvCbSkb e x.2.next s.graph ⟨messageSend e s'.d, x.2.behind⟩ =
      .ok (s'.graph, some (s'.d.take maxPload))

end MapRelay.Kernel
