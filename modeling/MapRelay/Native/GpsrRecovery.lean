import Mathlib.Algebra.Field.Defs
import MapRelay.Native.Gpsr
import MapRelay.Native.Neighbors

/-!
# The recovery mode of GPSR (`gpsr-ptable.cc`, `gpsr.cc`)

A packet for which no neighbour is nearer to the destination goes around the void: to the
neighbour with the least angle from a reference edge, among those that are left when the
table is made planar. The table is either that of the protocol itself (`m_table`) or that of
the MBR neighbour application of the node.
-/

namespace MapRelay.NS3.Gpsr

variable {K : Type}

/-- What the recovery mode uses beyond `GpsrEnv`: the nodes of `NodeList` with their addresses
    and positions, and the part of `GetAngle` after its divisions, an angle in degrees. -/
structure RecoveryEnv (K : Type) extends GpsrEnv K where
  nodes : List (UInt32 × Vector3D K)
  turn : K × K → K × K → K

/-- `class PositionTable` with its mode. `nb` is the table of the `MbrNeighborApp`, which is used
    in the MBR mode. `m_table` is filled by `AddEntry` only, and not in that mode. -/
structure NeighborTable (K : Type) where
  nbFromMbr : Bool
  table : PositionTable K
  nb : List (Neighbor K)
  mbr_empty : nbFromMbr = true → table.entries = []

/-- `insert` of `std::map`, which keeps an entry that is there already. -/
def PositionTable.insert (table : PositionTable K) (e : PositionEntry K) : PositionTable K :=
  if ∃ i ∈ table.entries, i.id = e.id then table
  else
    { entries := table.entries.filter (·.id < e.id) ++ e :: table.entries.filter (e.id < ·.id)
      sorted := by
        have hlow : ∀ i ∈ table.entries.filter (·.id < e.id), i.id < e.id := fun i hi => by
          simpa using (List.mem_filter.mp hi).2
        have hhigh : ∀ j ∈ table.entries.filter (e.id < ·.id), e.id < j.id := fun j hj => by
          simpa using (List.mem_filter.mp hj).2
        refine List.pairwise_append.mpr ⟨table.sorted.sublist List.filter_sublist,
          List.pairwise_cons.mpr ⟨hhigh, table.sorted.sublist List.filter_sublist⟩, ?_⟩
        intro i hi j hj
        rcases List.mem_cons.mp hj with rfl | hj
        · exact hlow i hi
        · exact UInt32.lt_trans (hlow i hi) (hhigh j hj) }

namespace NeighborTable

/-- The table of a node that uses its own one. -/
def own (table : PositionTable K) : NeighborTable K := ⟨false, table, [], by simp⟩

/-- The table of a node that uses that of the MBR neighbour application. -/
def mbr (nb : List (Neighbor K)) : NeighborTable K := ⟨true, ⟨[], .nil⟩, nb, fun _ => rfl⟩

/-- `AddEntry`. -/
def addEntry (now : Int) (t : NeighborTable K) (id : UInt32) (position : Vector3D K) :
    NeighborTable K :=
  if h : t.nbFromMbr = true then t
  else
    { t with
      table := (t.table.erase id).insert ⟨id, position, now⟩
      mbr_empty := fun hmbr => absurd hmbr h }

/-- `Purge`. -/
def purge (env : GpsrEnv K) (now : Int) (t : NeighborTable K) : NeighborTable K :=
  if h : t.nbFromMbr = true then t
  else { t with table := t.table.purge env now, mbr_empty := fun hmbr => absurd hmbr h }

/-- `isNeighbour`, with the table that it leaves: `IsNeighbor` purges the table of the
    application. -/
def isNeighbour (env : GpsrEnv K) (now : Int) (t : NeighborTable K) (id : UInt32) :
    Bool × NeighborTable K :=
  if t.nbFromMbr then
    let nb := NS3.purge now t.nb
    (nb.any (·.ipAddress == id), { t with nb })
  else (t.table.isNeighbour env id, t)

/-! ## The planar neighbours -/

section Planar

variable [Zero K]

/-- `GetCartesianPosition`: the position of the node with the address. -/
def cartesianPosition (env : RecoveryEnv K) (ip : UInt32) : Vector3D K :=
  match env.nodes.find? (·.1 == ip) with
  | some node => node.2
  | none => ⟨0, 0, 0⟩

/-- The neighbours with their positions, each as `rng_planarize` puts it into its result. -/
def neighbours (env : RecoveryEnv K) (now : Int) (t : NeighborTable K) :
    List (PositionEntry K) :=
  if t.nbFromMbr then t.nb.map fun i => ⟨i.ipAddress, cartesianPosition env i.ipAddress, now⟩
  else t.table.entries.map fun i => { i with updateTime := now }

variable [LinearOrder K]

/-- The test in the inner loop of `rng_planarize`: another neighbour is nearer both to the node
    and to `index` than these are to each other. -/
def Between (env : GpsrEnv K) (myPos : Vector3D K) (index temp : PositionEntry K) : Prop :=
  temp.id ≠ index.id ∧
    env.calculateDistance myPos temp.position < env.calculateDistance myPos index.position ∧
      env.calculateDistance index.position temp.position <
        env.calculateDistance myPos index.position

instance (env : GpsrEnv K) (myPos : Vector3D K) : DecidableRel (Between env myPos) :=
  fun _ _ => inferInstanceAs (Decidable (_ ∧ _ ∧ _))

/-- The loops of `rng_planarize`. `start` has the neighbours that the inner loop goes over. -/
def planarizeFrom (env : GpsrEnv K) (myPos : Vector3D K)
    (start : PositionEntry K → List (PositionEntry K) → List (PositionEntry K)) :
    List (PositionEntry K) → PositionTable K → PositionTable K
  | [], result => result
  | index :: rest, result =>
    if ∃ temp ∈ start index rest, Between env myPos index temp then
      planarizeFrom env myPos start rest result
    else planarizeFrom env myPos start rest (result.insert index)

/-- `rng_planarize` at a node at `pos`. It leaves the table as `purge` does. -/
def rngPlanarize (env : RecoveryEnv K) (now : Int) (pos : Vector3D K) (t : NeighborTable K) :
    PositionTable K :=
  let t := t.purge env.toGpsrEnv now
  planarizeFrom env.toGpsrEnv (planar pos)
    -- The one mode starts at `index + 1`, the other at `index` itself
    (if t.nbFromMbr then fun _ rest => rest else fun index rest => index :: rest)
    (t.neighbours env now) ⟨[], .nil⟩

/-- `BestNeighbor`, with the table that it leaves. -/
def bestNeighbor (env : RecoveryEnv K) (now : Int) (t : NeighborTable K)
    (position nodePos : Vector3D K) : UInt32 × NeighborTable K :=
  if t.nbFromMbr then
    match t.neighbours env now with
    | [] => (0, t)
    | first :: rest =>
      let best := PositionTable.bestFound env.toGpsrEnv position rest
        (first.id, env.calculateDistance first.position position)
      (if env.calculateDistance nodePos position > best.2 then best.1 else 0, t)
  else
    (t.table.bestNeighbor env.toGpsrEnv now position nodePos, t.purge env.toGpsrEnv now)

end Planar

/-! ## The best angle -/

variable [Field K]

/-- `norm` of `std::complex`. -/
def complexNorm (z : K × K) : K := z.1 * z.1 + z.2 * z.2

variable [LinearOrder K]

/-- `GetAngle`. A division by the norm zero gives what is not a number, here `none`. -/
def getAngle (env : RecoveryEnv K) (centrePos refPos node : Vector3D K) : Option K :=
  let ab := (node.x - centrePos.x, node.y - centrePos.y)
  let ac := (refPos.x - centrePos.x, refPos.y - centrePos.y)
  if complexNorm ab = 0 ∨ complexNorm ac = 0 then none
  else
    some (env.turn (ac.1 / complexNorm ac, ac.2 / complexNorm ac)
      (ab.1 / complexNorm ab, ab.2 / complexNorm ab))

/-- The loop of `BestAngle`, with `bestFoundID` and `bestFoundAngle`. No comparison holds of what
    is not a number. -/
def bestAngleFrom (env : RecoveryEnv K) (nodePos previousHop : Vector3D K) :
    List (PositionEntry K) → UInt32 × K → UInt32 × K
  | [], best => best
  | i :: rest, best =>
    match getAngle env nodePos previousHop i.position with
    | none => bestAngleFrom env nodePos previousHop rest best
    | some tmpAngle =>
      if best.2 > tmpAngle ∧ tmpAngle ≠ 0 then
        bestAngleFrom env nodePos previousHop rest (i.id, tmpAngle)
      else bestAngleFrom env nodePos previousHop rest best

/-- `BestAngle` at a node at `pos`. It leaves the table as `purge` does. -/
def bestAngle (env : RecoveryEnv K) (now : Int) (pos : Vector3D K) (t : NeighborTable K)
    (previousHop nodePos : Vector3D K) : UInt32 :=
  if t.nbFromMbr = false ∧ t.table.entries = [] then 0
  else
    let t := t.purge env.toGpsrEnv now
    let planarNeighbors := t.rngPlanarize env now pos
    let best := bestAngleFrom env nodePos previousHop planarNeighbors.entries (0, 360)
    -- Only if the only neighbour is the one who sent the packet
    if best.1 = 0 then (t.table.entries.head?.getD env.endEntry).id else best.1

end NeighborTable

/-! ## Into the recovery mode -/

/-- What `RecoveryMode` does with a packet, and the header that it has then. -/
inductive Recovered (K : Type) where
  | invalid
  | dropPkt (hdr : PositionHeader K)
  | forward (gateway : UInt32) (hdr : PositionHeader K)
  deriving DecidableEq, Repr

/-- A packet of the deferred queue, as `forwarding` gets it. -/
structure QueueEntry (K : Type) where
  typeValid : Bool
  hdr : Option (PositionHeader K)
  deriving DecidableEq, Repr

/-- A call of `RecoveryMode` from the queue: the packet, the header that is put onto it, if it
    has been of the type that has one, and what becomes of it. -/
structure RecoveryCall (K : Type) where
  entry : QueueEntry K
  hdr : Option (PositionHeader K)
  recovered : Recovered K
  deriving DecidableEq, Repr

/-- What `SendPacketFromQueue` does. -/
inductive Sent (K : Type) where
  | inSearch
  | dropPackets
  | recovery (calls : List (RecoveryCall K))
  | forward (gateway : UInt32) (packets : List (QueueEntry K))
  deriving DecidableEq, Repr

/-- The position from which a packet has come, the other end of the reference edge. -/
def PositionHeader.previousHop [Zero K] (hdr : PositionHeader K) : Vector3D K :=
  ⟨hdr.lastPosx, hdr.lastPosy, 0⟩

/-- The position at which the packet has entered the recovery mode. -/
def PositionHeader.recPosition [Zero K] (hdr : PositionHeader K) : Vector3D K :=
  ⟨hdr.recPosx, hdr.recPosy, 0⟩

/-- `AddHeaders` at a node at `pos`: the position header of a new packet. -/
def addHeaders [Zero K] (locationService : LocationService K) (pos : Vector3D K)
    (destination : UInt32) : PositionHeader K :=
  let myPos := planar pos
  let (dstPos, hdrTime) :=
    if isBoardcast destination then (⟨0, 0, 0⟩, 0)
    else (locationService.getPosition destination, locationService.getEntryUpdateTime destination)
  ⟨myPos.x, myPos.y, dstPos.x, dstPos.y, hdrTime, 0, 0, 0, myPos.x, myPos.y⟩

variable [Field K] [LinearOrder K]

/-- `RecoveryMode` at a node at `pos`. It leaves the table as `purge` does. -/
def recoveryMode (env : RecoveryEnv K) (now : Int) (t : NeighborTable K) (pos : Vector3D K)
    (typeValid : Bool) (hdr : Option (PositionHeader K)) : Recovered K :=
  if typeValid = false then .invalid
  else
    let hdr := hdr.getD .default
    let myPos := planar pos
    let posHeader := { hdr with inRec := 1, lastPosx := myPos.x, lastPosy := myPos.y }
    let nextHop := t.bestAngle env now pos hdr.previousHop myPos
    if nextHop = 0 then .dropPkt posHeader else .forward nextHop posHeader

/-- The loop of `SendPacketFromQueue` over the packets of a destination that go into the recovery
    mode. `vars` are the variables outside the loop, which a packet without a position header
    leaves as they are. -/
def recoverQueue (env : RecoveryEnv K) (now : Int) (pos : Vector3D K) :
    NeighborTable K → PositionHeader K → List (QueueEntry K) → List (RecoveryCall K)
  | _, _, [] => []
  | t, vars, p :: rest =>
    -- The function returns at a packet of an unknown type
    if p.typeValid = false then []
    else
      let vars := p.hdr.getD vars
      let myPos := planar pos
      let posHeader := { vars with recPosx := myPos.x, recPosy := myPos.y, inRec := 1 }
      let hdr := p.hdr.map fun _ => posHeader
      ⟨p, hdr, recoveryMode env now t pos true hdr⟩ ::
        recoverQueue env now pos (t.purge env.toGpsrEnv now) vars rest

/-- `SendPacketFromQueue` at a node at `pos`, with the packets of the queue for `dst`.
    `hasPosition` is what the location service says about the destination. -/
def sendPacketFromQueue (env : RecoveryEnv K) (now : Int) (t : NeighborTable K)
    (locationService : LocationService K) (hasPosition : Bool) (pos : Vector3D K)
    (queue : List (QueueEntry K)) (dst : UInt32) : Sent K :=
  if locationService.isInSearch dst then .inSearch
  else if hasPosition = false then .dropPackets
  else
    let myPos := planar pos
    let (direct, t) := t.isNeighbour env.toGpsrEnv now dst
    if direct then .forward dst queue
    else
      let (nextHop, t) := t.bestNeighbor env now (locationService.getPosition dst) myPos
      if nextHop = 0 then .recovery (recoverQueue env now pos t .default queue)
      else .forward nextHop queue

/-- `Forwarding` in either mode, with the table that it leaves. -/
def NeighborTable.forwarding (env : RecoveryEnv K) (now : Int) (t : NeighborTable K)
    (locationService : LocationService K) (pos : Vector3D K) (typeValid : Bool)
    (hdr : Option (PositionHeader K)) (dst : UInt32) : Forwarded K × NeighborTable K :=
  let t := t.purge env.toGpsrEnv now
  if typeValid = false then (.drop, t)
  else
    let hdr := hdr.getD .default
    let myPos := planar pos
    let hdr := { hdr with inRec := hdr.stillInRec env.toGpsrEnv myPos }
    if hdr.inRec ≠ 0 then (.recoveryMode hdr, t)
    else
      let (dstPos, updated) := hdr.destination locationService dst
      let posHeader := ⟨hdr.srcPosx, hdr.srcPosy, dstPos.x, dstPos.y, updated, 0, 0, 0, myPos.x,
        myPos.y⟩
      let (direct, t) := t.isNeighbour env.toGpsrEnv now dst
      if direct then (.forward dst posHeader, t)
      else
        let (nextHop, t) := t.bestNeighbor env now dstPos myPos
        if nextHop ≠ 0 then (.forward nextHop posHeader, t)
        else
          (.recoveryMode { hdr with
            inRec := 1
            recPosx := myPos.x
            recPosy := myPos.y
            lastPosx := dstPos.x
            lastPosy := dstPos.y }, t)

end MapRelay.NS3.Gpsr
