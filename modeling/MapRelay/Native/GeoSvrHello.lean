import MapRelay.Native.GeoSvrQueue
import MapRelay.Native.GpsrHello

/-!
# The hellos of GeoSVR (`geoSVR-packet.cc`, `geoSVR.cc`)

A hello of GeoSVR carries the address of the node besides its position. The receiver looks up the
road of the position on its map, and enters both into its list of neighbours.
-/

namespace MapRelay.NS3.GeoSvr

open ForStd Announce
open MsvrMap (getRoadByPos)

variable {K : Type}

/-! ## The header -/

/-- What a node uses for hellos: the packet buffer, how a `double` is moved to a word and back, and
    `m_map`, with fuel for the searches on it. -/
structure HelloEnv (K : Type) where
  buffer : Buffer
  toBits : K → UInt64
  ofBits : UInt64 → K
  map : MsvrMap K
  fuel : Nat

/-- `class HelloHeader`. -/
structure HelloHeader (K : Type) where
  x : K
  y : K
  s : K
  h : K
  dst : UInt32
  deriving DecidableEq, Repr

namespace HelloHeader

/-- `GetSerializedSize`. -/
def getSerializedSize : Nat := 36

/-- `Serialize`. -/
def serialize (env : HelloEnv K) (hdr : HelloHeader K) : List UInt8 :=
  env.buffer.htonU64.write (env.toBits hdr.x) ++ (env.buffer.htonU64.write (env.toBits hdr.y) ++
    (env.buffer.htonU64.write (env.toBits hdr.s) ++
      (env.buffer.htonU64.write (env.toBits hdr.h) ++ env.buffer.address.write hdr.dst)))

/-- `Deserialize`. -/
def deserialize (env : HelloEnv K) : Reader (HelloHeader K) := do
  let x ← env.buffer.htonU64.read
  let y ← env.buffer.htonU64.read
  let s ← env.buffer.htonU64.read
  let h ← env.buffer.htonU64.read
  let dst ← env.buffer.address.read
  return ⟨env.ofBits x, env.ofBits y, env.ofBits s, env.ofBits h, dst⟩

end HelloHeader

variable [Field K] [LinearOrder K]

/-! ## Sending and receiving -/

/-- The packet of `SendHello`, at a position. Speed and heading are not known. -/
def sendHello (env : HelloEnv K) (position : Point K) (address : UInt32) : List UInt8 :=
  (TypeHeader.new .hello).serialize env.buffer ++
    HelloHeader.serialize env ⟨position.x, position.y, 0, 0, address⟩

/-- `RecvHello` at time `now`, with the neighbours that it leaves. The type of a valid packet is
    not looked at. -/
def recvHello (env : HelloEnv K) (now : Int) (t : Neighbors K) (packet : List UInt8) :
    Except RoutingFault (Neighbors K) := do
  let (tHeader, p) ← removeHeader (TypeHeader.deserialize env.buffer (.new .hello)) packet
  if !tHeader.valid then return t
  else do
    let (hdr, _) ← removeHeader (HelloHeader.deserialize env) p
    let road ← inNeighbors (inMap (getRoadByPos env.fuel env.map hdr.x hdr.y))
    return t.update now ⟨hdr.x, hdr.y, hdr.s, hdr.h, road.id, hdr.dst⟩

/-! ## Nodes that hear each other -/

/-- The nodes: their addresses and positions, and whom their hellos reach. -/
structure HelloNodes (V K : Type) [Field K] where
  env : HelloEnv K
  address : V → UInt32
  position : V → Int → Point K
  net : Net V (List UInt8)
  packet_eq : ∀ v t, net.packet v t = sendHello env (position v t) (address v)
  address_injective : ∀ v w, address v = address w → v = w

/-- The hellos with their times, and the neighbours. -/
structure HelloState (V K : Type) where
  net : State V (List UInt8)
  neighbors : V → Neighbors K

/-- No node has been started. -/
def HelloState.initial (V K : Type) (now : Int) : HelloState V K :=
  ⟨.initial V _ now, fun _ => ⟨[], false, none⟩⟩

/-- What happens: something with the hellos, or the neighbours of a node are purged. -/
inductive HelloEvent (V : Type) where
  | net (event : Event V (List UInt8))
  | purge (v : V)

variable {V : Type} [DecidableEq V]

/-- The events in any order. -/
inductive HelloStep (N : HelloNodes V K) : HelloState V K → HelloEvent V → HelloState V K → Prop
    where
  | tick {s : HelloState V K} {t : Int} {net : State V (List UInt8)}
      (hnet : Step N.net s.net (.tick t) net) : HelloStep N s (.net (.tick t)) { s with net }
  | start {s : HelloState V K} {v : V} {jitter : Int} {net : State V (List UInt8)}
      (hnet : Step N.net s.net (.start v jitter) net)
      (htimer : setIpv4 (s.neighbors v).nbFromMbr s.net.now jitter = net.timers v) :
      HelloStep N s (.net (.start v jitter)) { s with net }
  | expire {s : HelloState V K} {v : V} {jitter : Int} {net : State V (List UInt8)}
      (hnet : Step N.net s.net (.send v jitter) net)
      (htimer : helloTimerExpire (s.neighbors v).nbFromMbr N.net.interval s.net.now jitter =
        net.timers v) :
      HelloStep N s (.net (.send v jitter)) { s with net }
  | receive {s : HelloState V K} {b : Announce.Transit V (List UInt8)} {net : State V (List UInt8)}
      {t : Neighbors K} (hnet : Step N.net s.net (.receive b) net)
      (hrecv : recvHello N.env s.net.now (s.neighbors b.receiver) b.packet = .ok t) :
      HelloStep N s (.net (.receive b)) ⟨net, Function.update s.neighbors b.receiver t⟩
  | purge {s : HelloState V K} {v : V} :
      HelloStep N s (.purge v) { s with
        neighbors := Function.update s.neighbors v ((s.neighbors v).purge s.net.now) }

end MapRelay.NS3.GeoSvr
