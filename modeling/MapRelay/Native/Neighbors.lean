import MapRelay.ForStd.Heap
import MapRelay.Native.Mac48Address
import MapRelay.Native.RelayZone

/-!
# The neighbour table of a vehicle (`neighbor.cc`)

Each vehicle keeps an entry for every vehicle whose beacon it has heard, until the entry
expires. Times are nanoseconds since the start of the simulation, as `Time` counts them;
`now` is `Simulator::Now ()`. The coordinates are only stored, so their type is open.
-/

namespace MapRelay.NS3

open ForStd

variable {K : Type}

/-- `struct Neighbor`. -/
structure Neighbor (K : Type) where
  ipAddress : UInt32
  hardwareAddress : Mac48Address
  expireTime : Int
  settingTime : Int
  close : Bool
  geohash : UInt64
  direction : UInt16
  x : K
  y : K

/-- The arguments of `Update`: what `ReceiveWavePacket` takes from a beacon, and the time
    for which it counts. -/
structure Beacon (K : Type) where
  addr : UInt32
  expire : Int
  mac : Mac48Address
  geohash : UInt64
  direction : UInt16
  x : K
  y : K

/-- `Purge`: drop the entries that have expired or are closed. -/
def purge (now : Int) (nb : List (Neighbor K)) : List (Neighbor K) :=
  nb.filter fun i => !(decide (i.expireTime < now) || i.close)

/-- The loop of `Update`: refresh the first entry for the address, if there is one. The
    geohash and the direction of the entry stay as they are. -/
def refresh (now : Int) (b : Beacon K) : List (Neighbor K) → Option (List (Neighbor K))
  | [] => none
  | i :: rest =>
    if i.ipAddress = b.addr then
      some ({ i with
        expireTime := max (b.expire + now) i.expireTime
        settingTime := now
        -- An address that is known already is kept
        hardwareAddress :=
          if i.hardwareAddress = Mac48Address.zero then b.mac else i.hardwareAddress
        x := b.x
        y := b.y } :: rest)
    else (refresh now b rest).map (i :: ·)

/-- The entry that `Update` makes for a new neighbour. -/
def Beacon.neighbor (now : Int) (b : Beacon K) : Neighbor K where
  ipAddress := b.addr
  hardwareAddress := b.mac
  expireTime := b.expire + now
  settingTime := now
  close := false
  geohash := b.geohash
  direction := b.direction
  x := b.x
  y := b.y

/-- `Update`. -/
def update (now : Int) (b : Beacon K) (nb : List (Neighbor K)) : List (Neighbor K) :=
  match refresh now b nb with
  | some nb => nb
  -- Only a new neighbour causes a `Purge`
  | none => purge now (nb ++ [b.neighbor now])

/-- What a query returns, and what it writes through the pointers it was given. -/
structure NbReply (K : Type) where
  geohash : UInt64
  written : Option (Mac48Address × K × K)

/-- `GetGeohashFromIpInNb`. It leaves the table as `purge now` does. -/
def getGeohashFromIpInNb (now : Int) (nb : List (Neighbor K)) (ip : UInt32) :
    Except Fault (NbReply K) :=
  match (purge now nb).find? (·.ipAddress == ip) with
  | some i =>
    if i.geohash = 0 then .error .assertFailed
    else .ok ⟨i.geohash, some (i.hardwareAddress, i.x, i.y)⟩
  | none => .ok ⟨0, none⟩

/-- `GetnbFromsetBest`: the address of the neighbour that stays longest in the zone. -/
def getnbFromsetBest (now : Int) (nb : List (Neighbor K)) (set : GeoHashSetCoordinate) :
    Option Mac48Address :=
  (getnodeFromsetBest Neighbor.geohash (fun i => i.direction.toNat) (purge now nb) set).map
    Neighbor.hardwareAddress

/-- What happens to a neighbour table. -/
inductive NbEvent (K : Type) where
  | update (b : Beacon K)
  | purge
  | clear

/-- The effect of an event at time `now`. -/
def NbEvent.apply (now : Int) (nb : List (Neighbor K)) : NbEvent K → List (Neighbor K)
  | .update b => MapRelay.NS3.update now b nb
  | .purge => MapRelay.NS3.purge now nb
  | .clear => []

/-- A neighbour table and the time of the last event. -/
structure NbState (K : Type) where
  now : Int
  nb : List (Neighbor K)

/-- One event. The clock does not go back. -/
def NbStep (s : NbState K) (event : Int × NbEvent K) (s' : NbState K) : Prop :=
  s.now ≤ event.1 ∧ s' = ⟨event.1, event.2.apply event.1 s.nb⟩

end MapRelay.NS3
