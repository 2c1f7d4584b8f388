import MapRelay.Native.CrossVertex
import MapRelay.Native.Mac48Address
import MapRelay.Native.RelayZone

/-!
# Forwarding in the kernel module (`mbr_route.c`)

`mbr_forward` decides over which neighbour a packet is relayed. With `CONFIG_MBR_TABLE` the
relay zones it has computed are kept in `mbrtable`, and a write to the position file in
debugfs goes over the table.
-/

namespace MapRelay.Kernel

open ForStd

/-- `neighbor_table`. -/
structure NeighborTable where
  ip : UInt32
  mac : Mac48Address
  geoHash : UInt64
  direction : Int32
  isvalid : Int32
  deriving DecidableEq, Repr

/-- `relay_table_list`. -/
structure RelayTableEntry where
  geoHashThis : UInt64
  geoHashNexthop : UInt64
  geoHashDst : UInt64
  isvalid : Int32
  deriving DecidableEq, Repr

/-- The globals `global_mbr_status.geohash_this` and `mbrtable`. -/
structure MbrStatus where
  geohashThis : UInt64
  mbrtable : List RelayTableEntry
  deriving DecidableEq, Repr

/-! ## The relay table -/

/-- `bitcmp`, which compares the whole words. -/
def bitcmp (a b : UInt64) : Bool := a == b

/-- `mbrtable_get_nexthop_geohash`: `0` on a miss. -/
def mbrtableGetNexthopGeohash (mbrtable : List RelayTableEntry) (dstGeoHash : UInt64) : UInt64 :=
  match mbrtable.find? fun entry => bitcmp entry.geoHashDst dstGeoHash && entry.isvalid != 0 with
  | some entry => entry.geoHashNexthop
  | none => 0

/-- `update_mbrtable_outrange`. -/
def updateMbrtableOutrange (updatedGeohash : UInt64) (mbrtable : List RelayTableEntry) :
    List RelayTableEntry :=
  mbrtable.map fun entry =>
    if bitcmp entry.geoHashThis updatedGeohash then { entry with isvalid := 0 } else entry

/-- The loop of `update_mbrtable`: refresh the first entry for the destination. The position
    for which the entry was made stays in it. -/
def refreshMbrtable (dstGeohash nexthopGeohash : UInt64) :
    List RelayTableEntry → Option (List RelayTableEntry)
  | [] => none
  | entry :: rest =>
    if bitcmp entry.geoHashDst dstGeohash then
      some ({ entry with geoHashNexthop := nexthopGeohash, isvalid := 1 } :: rest)
    else (refreshMbrtable dstGeohash nexthopGeohash rest).map (entry :: ·)

/-- `update_mbrtable`. -/
def updateMbrtable (thisGeohash dstGeohash nexthopGeohash : UInt64)
    (mbrtable : List RelayTableEntry) : List RelayTableEntry :=
  match refreshMbrtable dstGeohash nexthopGeohash mbrtable with
  | some mbrtable => mbrtable
  | none => ⟨thisGeohash, nexthopGeohash, dstGeohash, 1⟩ :: mbrtable

/-- `status_geohash_write` of the number `val`, or of a text that `kstrtoull_from_user`
    rejects with an error code; `cnt` is the length of the text. -/
def statusGeohashWrite (st : MbrStatus) (val : Except Int UInt64) (cnt : Nat) : MbrStatus × Int :=
  match val with
  | .error ret => (st, ret)
  | .ok val =>
    -- Zero stands for no position
    if val = 0 then (st, 0)
    else (⟨val, updateMbrtableOutrange val st.mbrtable⟩, cnt)

/-! ## `mbr_forward` -/

/-- `geohash_compare`. -/
def geohashCompare (a b : UInt64) : UInt64 := if a > b then a - b else b - a

/-- `find_Vertex_by_VehiclePosition`: the first vertex whose geohash is nearest. -/
def findVertexByVehiclePosition (g : RoadGraph) (geoHash : UInt64) : Except Fault Addr :=
  go g.vertices.nodes 0xffffffffffffffff NULL
where
  go : List Addr → UInt64 → Addr → Except Fault Addr
    | [], _, v => .ok v
    | p :: rest, min, v => do
      let index ← g.heap.deref p
      let temp := geohashCompare index.geoHash geoHash
      if temp < min then go rest temp p else go rest min v

/-- `neighbor_getnode_fromip`; `none` where the code returns `-1`. -/
def neighborGetnodeFromip (neighData : List NeighborTable) (ip : UInt32) : Option NeighborTable :=
  neighData.find? (·.ip == ip)

/-- `neighbor_getnode_fromset_best`. -/
def neighborGetnodeFromsetBest (neighData : List NeighborTable) (set : GeoHashSetCoordinate) :
    Option NeighborTable :=
  getnodeFromsetBest NeighborTable.geoHash (fun i => i.direction.toInt) neighData set

/-- The value of `mbr_forward` and what it writes to `dst_mac` and `relay_mac`. -/
structure Forward where
  ret : Int
  dstMac : Option Mac48Address
  relayMac : Option Mac48Address
  deriving DecidableEq, Repr

/-- The intersection between the vertices nearest to two positions. -/
def findIntersection (g : RoadGraph) (thisGeohash dstGeohash : UInt64) : Except Fault Addr := do
  let thisVertex ← findVertexByVehiclePosition g thisGeohash
  let dstVertex ← findVertexByVehiclePosition g dstGeohash
  crossVertex g thisVertex dstVertex

/-- The end of `mbr_forward`: a relay in the zone around `nexthopGeohash`. -/
def forwardVia (neighData : List NeighborTable) (dstMac : Mac48Address)
    (nexthopGeohash : UInt64) : Forward :=
  match neighborGetnodeFromsetBest neighData (geohashGetNeighborsInSet nexthopGeohash) with
  | none => ⟨-1, some dstMac, none⟩
  | some entry => ⟨0, some dstMac, some entry.mac⟩

/-- `mbr_forward` built with `CONFIG_MBR_TABLE`, to the IP address `nexthop`. -/
def mbrForward (g : RoadGraph) (neighData : List NeighborTable) (nexthop : UInt32)
    (st : MbrStatus) : Except Fault (MbrStatus × Forward) :=
  match neighborGetnodeFromip neighData nexthop with
  | none => .ok (st, ⟨-1, none, none⟩)
  | some entry => do
    let nexthopGeohash := mbrtableGetNexthopGeohash st.mbrtable entry.geoHash
    -- A miss: compute the zone and record it
    if nexthopGeohash = 0 then
      let intersection ← findIntersection g st.geohashThis entry.geoHash
      if intersection = NULL then return (st, ⟨-1, some entry.mac, none⟩)
      else
        let v ← g.heap.deref intersection
        let mbrtable := updateMbrtable st.geohashThis entry.geoHash v.geoHash st.mbrtable
        return ({ st with mbrtable }, forwardVia neighData entry.mac v.geoHash)
    else
      return (st, forwardVia neighData entry.mac nexthopGeohash)

/-- `mbr_forward` built without the table. -/
def mbrForwardDirect (g : RoadGraph) (neighData : List NeighborTable) (nexthop : UInt32)
    (geohashThis : UInt64) : Except Fault Forward :=
  match neighborGetnodeFromip neighData nexthop with
  | none => .ok ⟨-1, none, none⟩
  | some entry => do
    let intersection ← findIntersection g geohashThis entry.geoHash
    if intersection = NULL then return ⟨-1, some entry.mac, none⟩
    else
      let v ← g.heap.deref intersection
      return forwardVia neighData entry.mac v.geoHash

end MapRelay.Kernel
