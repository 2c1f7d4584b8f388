import MapRelay.Native.GpsrRecovery

/-!
# The way of a packet through a GPSR network (`gpsr.cc`)

The node that sends a packet finds its first hop with `RouteOutput`, or keeps the packet in its
queue until `SendPacketFromQueue` finds one. Every other node on the way calls `Forwarding`, and
both may go over into `RecoveryMode`.
-/

namespace MapRelay.NS3.Gpsr

variable {K : Type} [Field K] [LinearOrder K]

/-- `RouteOutput` in either mode, with the table that it leaves. The other arguments are those
    of `Gpsr.routeOutput`. -/
def NeighborTable.routeOutput (env : RecoveryEnv K) (now : Int) (t : NeighborTable K)
    (locationService : LocationService K) (pos : Vector3D K) (packet interfaces oifDiffers : Bool)
    (dst : UInt32) : Routed × NeighborTable K :=
  if packet = false then (.loopback, t)
  else if interfaces = false then (.noRoute, t)
  else if isBoardcast dst then (if oifDiffers then .noRoute else .route dst, t)
  else
    let dstPos := locationService.getPosition dst
    if env.calculateDistance dstPos locationService.invalidPosition = 0 ∧
        locationService.isInSearch dst then (.deferred, t)
    else
      let (direct, t) := t.isNeighbour env.toGpsrEnv now dst
      let (nextHop, t) :=
        if direct then (dst, t) else t.bestNeighbor env now dstPos (planar pos)
      (if nextHop ≠ 0 then if oifDiffers then .noRoute else .route nextHop else .deferred, t)

/-- The neighbours in the table have addresses other than zero, and are where it says. -/
def NeighborTable.Accurate (env : RecoveryEnv K) (now : Int) (pos : UInt32 → Vector3D K)
    (t : NeighborTable K) : Prop :=
  ∀ e ∈ t.neighbours env now, e.id ≠ 0 ∧ e.position = planar (pos e.id)

/-- A packet on its way: the node that has it, its header, and the nodes that have handled it in
    greedy mode, the last one first. -/
structure Route (K : Type) where
  node : UInt32
  hdr : PositionHeader K
  greedy : List UInt32

/-- The call at a node that handles a packet: the time, and what the node knows. -/
inductive HopEvent (K : Type) where
  | forwarding (now : Int) (t : NeighborTable K) (locationService : LocationService K)
  | queue (now : Int) (t : NeighborTable K) (locationService : LocationService K)
      (queue : List (QueueEntry K))

/-- The node of the packet handles it in greedy mode, unless it is still in the recovery mode. -/
def Route.handled (env : RecoveryEnv K) (pos : UInt32 → Vector3D K) (r : Route K) : List UInt32 :=
  if r.hdr.stillInRec env.toGpsrEnv (planar (pos r.node)) = 0 then r.node :: r.greedy
  else r.greedy

/-- What each call is given: the node is not the destination, which it knows the position of,
    as well as those of its neighbours. -/
structure Route.Informed (env : RecoveryEnv K) (pos : UInt32 → Vector3D K) (dst : UInt32)
    (r : Route K) (now : Int) (t : NeighborTable K) (locationService : LocationService K) :
    Prop where
  node_ne : r.node ≠ dst
  accurate : t.Accurate env now pos
  position_eq : locationService.getPosition dst = planar (pos dst)

/-- A hop of a packet to `dst`. From the queue a node sends only its own packets, which have not
    been in the recovery mode. -/
inductive HopStep (env : RecoveryEnv K) (pos : UInt32 → Vector3D K) (dst : UInt32) :
    Route K → HopEvent K → Route K → Prop where
  | forward {r : Route K} {now : Int} {t t' : NeighborTable K}
      {locationService : LocationService K} {gateway : UInt32} {hdr : PositionHeader K}
      (hinformed : r.Informed env pos dst now t locationService)
      (h : t.forwarding env now locationService (pos r.node) true (some r.hdr) dst =
        (.forward gateway hdr, t')) :
      HopStep env pos dst r (.forwarding now t locationService)
        ⟨gateway, hdr, r.handled env pos⟩
  | recovery {r : Route K} {now : Int} {t t' : NeighborTable K}
      {locationService : LocationService K} {gateway : UInt32} {hdr hdr' : PositionHeader K}
      (hinformed : r.Informed env pos dst now t locationService)
      (h : t.forwarding env now locationService (pos r.node) true (some r.hdr) dst =
        (.recoveryMode hdr, t'))
      (h' : recoveryMode env now t' (pos r.node) true (some hdr) = .forward gateway hdr') :
      HopStep env pos dst r (.forwarding now t locationService)
        ⟨gateway, hdr', r.handled env pos⟩
  | queueForward {r : Route K} {now : Int} {t : NeighborTable K}
      {locationService : LocationService K} {queue packets : List (QueueEntry K)}
      {gateway : UInt32} (hinformed : r.Informed env pos dst now t locationService)
      (hown : r.hdr.inRec = 0) (hqueue : ⟨true, some r.hdr⟩ ∈ queue)
      (h : sendPacketFromQueue env now t locationService true (pos r.node) queue dst =
        .forward gateway packets) :
      HopStep env pos dst r (.queue now t locationService queue)
        ⟨gateway, r.hdr, r.node :: r.greedy⟩
  | queueRecovery {r : Route K} {now : Int} {t : NeighborTable K}
      {locationService : LocationService K} {queue : List (QueueEntry K)}
      {calls : List (RecoveryCall K)} {call : RecoveryCall K} {gateway : UInt32}
      {hdr : PositionHeader K} (hinformed : r.Informed env pos dst now t locationService)
      (hown : r.hdr.inRec = 0)
      (h : sendPacketFromQueue env now t locationService true (pos r.node) queue dst =
        .recovery calls)
      (hcall : call ∈ calls) (hentry : call.entry = ⟨true, some r.hdr⟩)
      (hforward : call.recovered = .forward gateway hdr) :
      HopStep env pos dst r (.queue now t locationService queue)
        ⟨gateway, hdr, r.node :: r.greedy⟩

/-- A packet that `origin` has just sent to another node, with the header of `AddHeaders`: to the
    next hop of its route, or back to itself to be sent from the queue. -/
inductive Originated (env : RecoveryEnv K) (pos : UInt32 → Vector3D K) (dst origin : UInt32) :
    Route K → Prop where
  | routed {now : Int} {t t' : NeighborTable K} {locationService : LocationService K}
      {interfaces oifDiffers : Bool} {gateway : UInt32}
      (horigin : origin ≠ dst) (hposition : locationService.getPosition dst = planar (pos dst))
      (haccurate : t.Accurate env now pos)
      (h : t.routeOutput env now locationService (pos origin) true interfaces oifDiffers dst =
        (.route gateway, t')) :
      Originated env pos dst origin
        ⟨gateway, addHeaders locationService (pos origin) dst, [origin]⟩
  | deferred {now : Int} {t t' : NeighborTable K} {locationService : LocationService K}
      {interfaces oifDiffers : Bool}
      (horigin : origin ≠ dst) (hposition : locationService.getPosition dst = planar (pos dst))
      (h : t.routeOutput env now locationService (pos origin) true interfaces oifDiffers dst =
        (.deferred, t')) :
      Originated env pos dst origin
        ⟨origin, addHeaders locationService (pos origin) dst, []⟩

end MapRelay.NS3.Gpsr
