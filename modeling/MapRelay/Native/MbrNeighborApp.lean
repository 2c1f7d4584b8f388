import MapRelay.Native.MbrHeader
import MapRelay.Native.Neighbors
import MapRelay.Native.SumoMap

/-!
# Beacons (`mbr-neighbor-app.cc`)

Every vehicle broadcasts where it is, once in an interval and each time after a random delay, and
enters what it hears into its neighbour table. Times are nanoseconds, as in `Neighbors`. Packet
counts and the sockets are left out: the application sends until it is stopped.
-/

namespace MapRelay.NS3

open ForStd

/-! ## The application of a vehicle -/

/-- What `Setup` stores in an `MbrNeighborApp`, with the addresses of the data interface of its
    node. -/
structure MbrNeighborApp where
  ipOrigin : UInt32
  mac : Mac48Address
  waveInterval : Int
  waveExpire : Int
  txMaxDelay : Int
  gpsAccuracyNs : UInt32

/-- `d_ns`, the longest delay that is drawn. -/
def MbrNeighborApp.dNs (app : MbrNeighborApp) : UInt32 := UInt32.ofInt app.txMaxDelay

/-- The members that change: the last delay, the flag of `StopApplication`, and the time for
    which `GenerateWaveTraffic` is scheduled. -/
structure WaveTimer where
  prevTxDelay : Int
  stop : Bool
  event : Option Int
  deriving DecidableEq, Repr

def WaveTimer.new : WaveTimer := ⟨0, false, none⟩

/-- `StartApplication` at time `now`, with the numbers that it draws. -/
def WaveTimer.startApplication (timer : WaveTimer) (now : Int) (tDrift txDelay : UInt32) :
    WaveTimer :=
  let startTime := 1000000000
  { timer with
    prevTxDelay := txDelay.toNat
    event := some (now + (startTime + tDrift.toNat + txDelay.toNat)) }

/-- `StopApplication`. -/
def WaveTimer.stopApplication (timer : WaveTimer) : WaveTimer := { timer with stop := true }

/-- What `GenerateWaveTraffic` does at time `now` after it has sent: it draws the next delay and
    schedules itself, unless it is to stop. -/
def WaveTimer.generateWaveTraffic (app : MbrNeighborApp) (timer : WaveTimer) (now : Int)
    (txDelay : UInt32) : WaveTimer :=
  { timer with
    prevTxDelay := txDelay.toNat
    event :=
      if timer.stop then none
      else some (now + (app.waveInterval - timer.prevTxDelay + txDelay.toNat)) }

/-- What the application uses of its surroundings: the map, once it is loaded, the packet buffer,
    and the conversions of a coordinate to the bits of a `float` and back. -/
structure WaveEnv (K : Type) where
  sumo : SumoEnv K
  buffer : Buffer
  float : K → UInt32
  double : UInt32 → K

section Header

variable {K : Type} [Field K] [LinearOrder K] [FloorRing K]

/-- `helloHeader` of `GenerateWaveTraffic`, at the position `(x, y)`. -/
def helloHeader (env : WaveEnv K) (app : MbrNeighborApp) (x y : K) : MbrHeader :=
  let (longi, lat) := sumoCartesian2GPS env.sumo x y
  { flags := 0
    prefixSize := 0
    hopCount := 0
    dst := app.ipOrigin
    dstSeqNo := 0
    origin := app.ipOrigin
    geohash := sumoCartesian2Geohash env.sumo x y
    mac := app.mac
    direction := 0
    latitude := env.float lat
    longitude := env.float longi
    lifeTime := 0 }

/-- The packet that `GenerateWaveTraffic` sends. -/
def wavePacket (env : WaveEnv K) (app : MbrNeighborApp) (x y : K) : List UInt8 :=
  (helloHeader env app x y).serialize env.buffer

/-- `ReceiveWavePacket` at time `now`. `memory` is what `mbrHeader` holds before its constructor
    runs, and there is no result if the packet is too short for the header. -/
def receiveWavePacket (env : WaveEnv K) (app : MbrNeighborApp) (memory : MbrHeader) (now : Int)
    (nb : List (Neighbor K)) (packet : List UInt8) : Option (List (Neighbor K)) :=
  (((MbrHeader.default memory).deserialize env.buffer).run packet).map fun ((mbrHeader, _), _) =>
    update now
      { addr := mbrHeader.origin
        expire := app.waveExpire
        mac := mbrHeader.mac
        geohash := mbrHeader.geohash
        direction := mbrHeader.direction
        x := env.double mbrHeader.longitude
        y := env.double mbrHeader.latitude } nb

end Header

/-! ## Vehicles that hear each other -/

/-- The vehicles: their applications, where they are, which vehicles a beacon sent at some time
    reaches, and within what time. A vehicle does not hear itself. -/
structure Vehicles (V K : Type) where
  env : WaveEnv K
  app : V → MbrNeighborApp
  position : V → Int → K × K
  reach : V → Int → List V
  latency : Int
  ipOrigin_injective : ∀ v w, (app v).ipOrigin = (app w).ipOrigin → v = w
  not_mem_reach : ∀ v t, v ∉ reach v t

/-- A beacon on its way to one of the vehicles that it reaches. -/
structure WaveTransit (V : Type) where
  sender : V
  receiver : V
  sentAt : Int
  packet : List UInt8

/-- The time, the timers and neighbour tables, and the beacons in the air. When a vehicle was
    started and has sent, and whom it has heard when, is written down. -/
structure WaveState (V K : Type) where
  now : Int
  timers : V → WaveTimer
  tables : V → List (Neighbor K)
  inAir : List (WaveTransit V)
  started : V → Option Int
  sent : V → List Int
  heard : V → List (Int × WaveTransit V)

/-- No application has been started. -/
def WaveState.initial (V K : Type) (now : Int) : WaveState V K :=
  ⟨now, fun _ => .new, fun _ => [], [], fun _ => none, fun _ => [], fun _ => []⟩

/-- What happens. -/
inductive WaveEvent (V : Type) where
  | tick (t : Int)
  | start (v : V) (tDrift txDelay : UInt32)
  | generate (v : V) (txDelay : UInt32)
  | receive (b : WaveTransit V) (memory : MbrHeader)
  | purge (v : V)
  | stop (v : V)

variable {V K : Type} [DecidableEq V] [Field K] [LinearOrder K] [FloorRing K]

/-- The events in any order. The time does not pass what is scheduled, nor a beacon that has to
    have arrived. -/
inductive WaveStep (W : Vehicles V K) : WaveState V K → WaveEvent V → WaveState V K → Prop where
  | tick {s : WaveState V K} {t : Int} (hnow : s.now ≤ t)
      (hevent : ∀ v e, (s.timers v).event = some e → t ≤ e)
      (hair : ∀ b ∈ s.inAir, t ≤ b.sentAt + W.latency) :
      WaveStep W s (.tick t) { s with now := t }
  | start {s : WaveState V K} {v : V} {tDrift txDelay : UInt32} (hnew : s.started v = none)
      (hdrift : tDrift ≤ (W.app v).gpsAccuracyNs) (hdelay : txDelay ≤ (W.app v).dNs) :
      WaveStep W s (.start v tDrift txDelay) { s with
        timers := Function.update s.timers v
          ((s.timers v).startApplication s.now tDrift txDelay)
        started := Function.update s.started v (some s.now) }
  | generate {s : WaveState V K} {v : V} {txDelay : UInt32}
      (hevent : (s.timers v).event = some s.now) (hdelay : txDelay ≤ (W.app v).dNs) :
      WaveStep W s (.generate v txDelay) { s with
        timers := Function.update s.timers v
          ((s.timers v).generateWaveTraffic (W.app v) s.now txDelay)
        inAir := s.inAir ++ (W.reach v s.now).map fun w => ⟨v, w, s.now,
          wavePacket W.env (W.app v) (W.position v s.now).1 (W.position v s.now).2⟩
        sent := Function.update s.sent v (s.sent v ++ [s.now]) }
  | receive {s : WaveState V K} {before after : List (WaveTransit V)} {b : WaveTransit V}
      {memory : MbrHeader} {nb : List (Neighbor K)} (hair : s.inAir = before ++ b :: after)
      (hreceive : receiveWavePacket W.env (W.app b.receiver) memory s.now
        (s.tables b.receiver) b.packet = some nb) :
      WaveStep W s (.receive b memory) { s with
        tables := Function.update s.tables b.receiver nb
        inAir := before ++ after
        heard := Function.update s.heard b.receiver ((s.now, b) :: s.heard b.receiver) }
  | purge {s : WaveState V K} {v : V} :
      WaveStep W s (.purge v) { s with
        tables := Function.update s.tables v (purge s.now (s.tables v)) }
  | stop {s : WaveState V K} {v : V} :
      WaveStep W s (.stop v) { s with
        timers := Function.update s.timers v (s.timers v).stopApplication }

end MapRelay.NS3
