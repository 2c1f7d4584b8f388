import MapRelay.Native.Forward

/-!
# The second writer of the neighbour table (`aodv-neighbor.cc`, `mbr-neighbor-app.cc`)

With `m_nbFromMbr` set, AODV keeps the neighbour table of the `MbrNeighborApp` up to date as
well as its own: a link that AODV has seen becomes an entry in the same table that the
beacons fill. The address comes from the ARP caches, and the position from the simulator.
-/

namespace MapRelay.NS3

variable {K : Type}

/-- The part of `ArpCache::Entry` that `LookupMacAddress` reads. -/
structure ArpEntry where
  macAddress : Mac48Address
  alive : Bool
  permanent : Bool
  expired : Bool

/-- `Lookup` in an `ArpCache`. -/
abbrev ArpCache := UInt32 → Option ArpEntry

/-- `LookupMacAddress`: from the first cache with a usable entry, or a zero address. -/
def lookupMacAddress (arp : List ArpCache) (addr : UInt32) : Mac48Address :=
  match arp.findSome? fun cache =>
      (cache addr).filter fun entry => (entry.alive || entry.permanent) && !entry.expired with
  | some entry => entry.macAddress
  | none => Mac48Address.zero

/-- `aodv::Neighbors::Neighbor`. -/
structure AodvNeighbor where
  neighborAddress : UInt32
  hardwareAddress : Mac48Address
  expireTime : Int
  close : Bool

/-- `Purge` of AODV's own table. Whom it tells of the broken links is left out. -/
def purgeAodv (now : Int) (nb : List AodvNeighbor) : List AodvNeighbor :=
  nb.filter fun i => !(decide (i.expireTime < now) || i.close)

/-- The loop of `Update` over AODV's own table. -/
def refreshAodv (now : Int) (arp : List ArpCache) (addr : UInt32) (expire : Int) :
    List AodvNeighbor → Option (List AodvNeighbor)
  | [] => none
  | i :: rest =>
    if i.neighborAddress = addr then
      some ({ i with
        expireTime := max (expire + now) i.expireTime
        hardwareAddress :=
          if i.hardwareAddress = Mac48Address.zero then lookupMacAddress arp i.neighborAddress
          else i.hardwareAddress } :: rest)
    else (refreshAodv now arp addr expire rest).map (i :: ·)

/-- The rest of `Update`, which is the same with and without `m_nbFromMbr`. -/
def updateAodv (now : Int) (arp : List ArpCache) (addr : UInt32) (expire : Int)
    (nb : List AodvNeighbor) : List AodvNeighbor :=
  match refreshAodv now arp addr expire nb with
  | some nb => nb
  | none => purgeAodv now (nb ++ [⟨addr, lookupMacAddress arp addr, expire + now, false⟩])

/-- A node as `GetPosition` sees it: the address of its first interface, and where it is. -/
structure NodePosition (K : Type) where
  addr : UInt32
  x : K
  y : K

/-- `GetPosition`: the origin, if no node has the address. -/
def getPosition [Zero K] (nodes : List (NodePosition K)) (adr : UInt32) : K × K :=
  match nodes.find? (·.addr == adr) with
  | some node => (node.x, node.y)
  | none => (0, 0)

/-- The two tables of a vehicle in MBR mode. -/
structure VehicleTables (K : Type) where
  aodv : List AodvNeighbor
  mbr : List (Neighbor K)

/-- What `ReceiveWavePacket` reads of a beacon, and where its sender was. The coordinates of
    the header have been rounded to `float`. -/
structure WavePacket (K : Type) where
  origin : UInt32
  mac : Mac48Address
  direction : UInt16
  longitude : K
  latitude : K
  x : K
  y : K

section Writers

variable [Field K] [LinearOrder K] [FloorRing K]

/-- What `ReceiveWavePacket` hands to the table, for a beacon that `GenerateWaveTraffic`
    made. -/
def waveBeacon (env : SumoEnv K) (waveExpire : Int) (packet : WavePacket K) : Beacon K :=
  ⟨packet.origin, waveExpire, packet.mac, sumoCartesian2Geohash env packet.x packet.y,
    packet.direction, packet.longitude, packet.latitude⟩

/-- What AODV's `Update` hands to the table of the `MbrNeighborApp`. -/
def aodvBeacon (env : SumoEnv K) (arp : List ArpCache) (nodes : List (NodePosition K))
    (addr : UInt32) (expire : Int) : Beacon K :=
  let p := getPosition nodes addr
  let (x, y) := sumoCartesian2GPS env p.1 p.2
  ⟨addr, expire, lookupMacAddress arp addr, sumoCartesian2Geohash env p.1 p.2, 0, x, y⟩

/-- `aodv::Neighbors::Update` in MBR mode. -/
def aodvUpdate (env : SumoEnv K) (now : Int) (arp : List ArpCache)
    (nodes : List (NodePosition K)) (addr : UInt32) (expire : Int) (s : VehicleTables K) :
    VehicleTables K where
  mbr := purge now (update now (aodvBeacon env arp nodes addr expire) s.mbr)
  aodv := updateAodv now arp addr expire s.aodv

/-- What happens to the tables: a beacon is received, AODV has seen a link, or entries
    expire. -/
inductive VehicleEvent (K : Type) where
  | receiveWavePacket (packet : WavePacket K)
  | aodvUpdate (arp : List ArpCache) (nodes : List (NodePosition K)) (addr : UInt32)
      (expire : Int)
  | purge

/-- The effect of an event at time `now`. -/
def VehicleEvent.apply (env : SumoEnv K) (waveExpire now : Int) (s : VehicleTables K) :
    VehicleEvent K → VehicleTables K
  | .receiveWavePacket packet =>
    { s with mbr := update now (waveBeacon env waveExpire packet) s.mbr }
  | .aodvUpdate arp nodes addr expire =>
    MapRelay.NS3.aodvUpdate env now arp nodes addr expire s
  | .purge => { s with mbr := MapRelay.NS3.purge now s.mbr }

/-- The tables of a vehicle and the time of the last event. -/
structure VehicleState (K : Type) where
  now : Int
  tables : VehicleTables K

/-- One event. The clock does not go back. -/
def VehicleStep (env : SumoEnv K) (waveExpire : Int) (s : VehicleState K)
    (event : Int × VehicleEvent K) (s' : VehicleState K) : Prop :=
  s.now ≤ event.1 ∧ s' = ⟨event.1, event.2.apply env waveExpire event.1 s.tables⟩

end Writers

end MapRelay.NS3
