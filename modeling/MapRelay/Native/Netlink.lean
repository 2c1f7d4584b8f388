import MapRelay.ForStd.Codec
import MapRelay.ForStd.Region
import MapRelay.Native.KernelGraph
import MapRelay.Native.PktOutput

/-!
# Netlink messages (`mbr-mod.c`)

A netlink message is a header of sixteen bytes and a payload. The callback takes the payload
for a `graph_deliver`, carries out the graph command in it, and sends the payload back. Only the
length of the message is looked at before, and the memory behind it is the parameter `behind` of
the region it is read from.
-/

namespace MapRelay.Kernel

open ForStd

/-! ## The layout of a message -/

/-- `NLMSG_HDRLEN`. -/
def nlmsgHdrlen : Nat := 16

/-- `nlmsg_total_size`: header and payload, in whole words. -/
def nlmsgTotalSize (payload : Nat) : Nat := (nlmsgHdrlen + payload + 3) / 4 * 4

/-- The number that the bytes of a variable stand for. -/
def Endian.value (e : Endian) (bytes : List UInt8) : Nat :=
  match e with
  | .little => networkValue 0 bytes.reverse
  | .big => networkValue 0 bytes

/-- `nlmsg_len`, as the `uint16_t` that `netlink_send_msg` takes. The header is in the message. -/
def nlmsgLen (e : Endian) (skb : Region) : UInt16 :=
  (UInt32.ofNat (e.value (skb.read 0 4)) - UInt32.ofNat nlmsgHdrlen).toUInt16

/-- The characters of a C string. -/
def idString (bytes : List UInt8) : String :=
  String.ofList (bytes.map fun b => Char.ofNat b.toNat)

/-! ## `graph_deliver` -/

def modeDelNode : Int16 := 1
def modeNewNode : Int16 := 2
def modeNewEdge : Int16 := 3

/-- `sizeof(graph_deliver)`. The union starts at 8, for its `u64` at 40. -/
def sizeofGraphDeliver : Nat := 64

/-- The length of the arrays `vertex`, `from`, `to` and `idStr`. -/
def idLength : Nat := 25

/-- `d->mode`. -/
def graphDeliverMode (e : Endian) (skb : Region) (d : Nat) : Int16 :=
  (UInt16.ofNat (e.value (skb.read d 2))).toInt16

/-- `strcpy(vertex->idStr, idStr)`: the id that the array holds then. -/
def strcpyIdStr (idStr : List UInt8) : Except Fault String :=
  -- Behind the array are the other fields of the vertex
  if idStr.length < idLength then .ok (idString idStr) else .error .danglingDeref

/-- The command in the `graph_deliver` at `d`, with the fields that the branch for its `mode`
    reads. -/
def graphDeliverAt (e : Endian) (skb : Region) (d : Nat) : Except Fault GraphDeliver :=
  let mode := graphDeliverMode e skb d
  if mode = modeDelNode then
    .ok (.delNode (idString (skb.cString (d + 8))))
  else if mode = modeNewNode then do
    let vertex ← strcpyIdStr (skb.cString (d + 8))
    return .newNode vertex (UInt64.ofNat (e.value (skb.read (d + 40) 8)))
  else if mode = modeNewEdge then
    .ok (.newEdge (idString (skb.cString (d + 8))) (idString (skb.cString (d + 33)))
      (UInt32.ofNat (e.value (skb.read (d + 60) 4))).toInt32)
  else .ok (.other mode)

/-! ## The callback -/

/-- `netlink_send_msg`: the payload it sends, `len` bytes from `pbuf` on. -/
def netlinkSendMsg (skb : Region) (pbuf : Nat) (len : UInt16) : List UInt8 :=
  skb.read pbuf len.toNat

/-- `netlink_recv_cb`: the graph after it, and the reply. `next` is what a deletion finds in the
    list node that it has freed. -/
def netlinkRecvCbSkb (e : Endian) (next : FreedNext) (g : RoadGraph) (skb : Region) :
    Except Fault (RoadGraph × Option (List UInt8)) := do
  if skb.own.length ≥ nlmsgTotalSize 0 then
    let d ← graphDeliverAt e skb nlmsgHdrlen
    let g ← netlinkRecvCb next g d
    return (g, some (netlinkSendMsg skb nlmsgHdrlen (nlmsgLen e skb)))
  else
    return (g, none)

end MapRelay.Kernel
