import MapRelay.ForStd.Announce
import MapRelay.Native.GpsrPacket

/-!
# The hellos of GPSR (`gpsr.cc`)

A node that uses a position table of its own tells the nodes around it where it is, each time
after an interval with a jitter, and enters what it hears into the table. In the MBR mode there
are no hellos. Times are nanoseconds; sockets and interfaces are left out, of which every node
has one.
-/

namespace MapRelay.NS3

/-! ## The timer

It is the same in GPSR and in GeoSVR. -/

/-- What `SetIpv4` schedules `HelloIntervalTimer` for, with `FIRST_JITTER`. -/
def setIpv4 (nbFromMbr : Bool) (now jitter : Int) : Option Int :=
  if nbFromMbr then none else some (now + jitter)

/-- `HelloTimerExpire`: the time for which it schedules the timer again with `JITTER`, if it
    sends a hello. -/
def helloTimerExpire (nbFromMbr : Bool) (helloInterval now jitter : Int) : Option Int :=
  if nbFromMbr then none else some (now + (helloInterval + jitter))

end MapRelay.NS3

namespace MapRelay.NS3.Gpsr

open ForStd Announce
open GeoSvr (RoutingFault removeHeader)

variable {K : Type}

/-! ## Sending and receiving -/

/-- The packet of `SendHello`, at a position. -/
def sendHello (env : PacketEnv K) (position : Vector3D K) : List UInt8 :=
  (TypeHeader.new .hello).serialize env.buffer ++
    HelloHeader.serialize env ⟨position.x, position.y⟩

/-- `RecvGPSR` at time `now`, for a packet from `sender`, with the table that
    `UpdateRouteToNeighbor` leaves. The type of a valid packet is not looked at. -/
def recvGpsr [Zero K] (env : PacketEnv K) (now : Int) (t : NeighborTable K) (sender : UInt32)
    (packet : List UInt8) : Except RoutingFault (NeighborTable K) := do
  let (tHeader, p) ← removeHeader (TypeHeader.deserialize env.buffer (.new .hello)) packet
  if !tHeader.valid then return t
  else do
    let (hdr, _) ← removeHeader (HelloHeader.deserialize env) p
    return t.addEntry now sender ⟨hdr.originPosx, hdr.originPosy, 0⟩

/-! ## Nodes that hear each other -/

/-- The nodes: their addresses and positions, and whom their hellos reach. -/
structure HelloNodes (V K : Type) where
  env : PacketEnv K
  address : V → UInt32
  position : V → Int → Vector3D K
  net : Net V (List UInt8)
  packet_eq : ∀ v t, net.packet v t = sendHello env (position v t)
  address_injective : ∀ v w, address v = address w → v = w
  address_ne_zero : ∀ v, address v ≠ 0

/-- The hellos with their times, and the tables. -/
structure HelloState (V K : Type) where
  net : State V (List UInt8)
  tables : V → NeighborTable K

/-- The empty table is sorted. -/
theorem PositionTable.sorted_nil (K : Type) :
    ([] : List (PositionEntry K)).Pairwise (·.id < ·.id) := .nil

/-- No node has been started. -/
def HelloState.initial (V K : Type) (now : Int) : HelloState V K :=
  ⟨.initial V _ now, fun _ => .own ⟨[], PositionTable.sorted_nil K⟩⟩

/-- What happens: something with the hellos, or the table of a node is purged. -/
inductive HelloEvent (V : Type) where
  | net (event : Event V (List UInt8))
  | purge (v : V)

variable {V : Type} [DecidableEq V] [Zero K]

/-- The events in any order. -/
inductive HelloStep (N : HelloNodes V K) : HelloState V K → HelloEvent V → HelloState V K → Prop
    where
  | tick {s : HelloState V K} {t : Int} {net : State V (List UInt8)}
      (hnet : Step N.net s.net (.tick t) net) : HelloStep N s (.net (.tick t)) { s with net }
  | start {s : HelloState V K} {v : V} {jitter : Int} {net : State V (List UInt8)}
      (hnet : Step N.net s.net (.start v jitter) net)
      (htimer : setIpv4 (s.tables v).nbFromMbr s.net.now jitter = net.timers v) :
      HelloStep N s (.net (.start v jitter)) { s with net }
  | expire {s : HelloState V K} {v : V} {jitter : Int} {net : State V (List UInt8)}
      (hnet : Step N.net s.net (.send v jitter) net)
      (htimer : helloTimerExpire (s.tables v).nbFromMbr N.net.interval s.net.now jitter =
        net.timers v) :
      HelloStep N s (.net (.send v jitter)) { s with net }
  | receive {s : HelloState V K} {b : Announce.Transit V (List UInt8)} {net : State V (List UInt8)}
      {t : NeighborTable K} (hnet : Step N.net s.net (.receive b) net)
      (hrecv : recvGpsr N.env s.net.now (s.tables b.receiver) (N.address b.sender) b.packet =
        .ok t) :
      HelloStep N s (.net (.receive b)) ⟨net, Function.update s.tables b.receiver t⟩
  | purge {s : HelloState V K} {v : V} :
      HelloStep N s (.purge v) { s with
        tables := Function.update s.tables v
          ((s.tables v).purge N.env.toGpsrEnv s.net.now) }

end MapRelay.NS3.Gpsr
