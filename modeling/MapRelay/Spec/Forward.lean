import MapRelay.ForStd.Lookup
import MapRelay.Native.Forward
import MapRelay.Spec.CrossVertex
import MapRelay.Spec.RelayZone

/-!
# What a forwarding decision says

`mbr_forward` relays over the first intersection with a neighbour around it, unless it meets
one with the destination around it before. The relay cannot be the destination: it is in a
zone in which the destination is not.
-/

namespace MapRelay.NS3

open ForStd

variable {K : Type}

/-! ## The queries to the neighbour table -/

/-- With distinct addresses, the entry of a vehicle is the unexpired one with its address. -/
private theorem find?_purge_eq_some {now : Int} {nb : List (Neighbor K)} {ip : UInt32}
    {e : Neighbor K} (hnodup : (nb.map Neighbor.ipAddress).Nodup) :
    (purge now nb).find? (·.ipAddress == ip) = some e ↔
      e ∈ purge now nb ∧ e.ipAddress = ip :=
  find?_key_eq_some (hnodup.sublist (List.filter_sublist.map _))

/-- `GetnbFromsetBest` finds the address of a neighbour in the zone, or there is none. -/
theorem getnbFromsetBest_cases (now : Int) (nb : List (Neighbor K)) (center : UInt64) :
    (getnbFromsetBest now nb (geohashGetNeighborsInSet center) = none ∧
        ∀ e ∈ purge now nb, ¬ InZone e.geohash center) ∨
      ∃ relay ∈ purge now nb, InZone relay.geohash center ∧
        getnbFromsetBest now nb (geohashGetNeighborsInSet center) =
          some relay.hardwareAddress := by
  unfold getnbFromsetBest
  cases hbest : getnodeFromsetBest Neighbor.geohash (fun i => (i.direction.toNat : Int))
      (purge now nb) (geohashGetNeighborsInSet center) with
  | none => exact .inl ⟨rfl, getnodeFromsetBest_eq_none.mp hbest⟩
  | some relay =>
    obtain ⟨hmem, hzone⟩ := mem_of_getnodeFromsetBest hbest
    exact .inr ⟨relay, hmem, hzone, rfl⟩

/-! ## The loop over the intersections -/

variable [Field K] [LinearOrder K]

section Loop

variable (sumomap : MbrSumo K) (now : Int) (nb : List (Neighbor K)) (route : MbrRoute)
  (dstGeohash : UInt64)

/-- The zone around the intersection `p` holds neither the destination nor a neighbour. -/
def ZoneEmpty (p : Addr) : Prop :=
  ∃ v, sumomap.graph.heap.cell p = some v ∧ ¬ InZone dstGeohash v.geoHash ∧
    ∀ e ∈ purge now nb, ¬ InZone e.geohash v.geoHash

/-- The intersection `p` of the list is the first one that is not empty, `relay` is in the
    zone around it, the destination is not, and both vehicles are further away than the
    minimal distance. -/
structure RelaysAt (dst this : K × K) (list : List Addr) (p : Addr) (relay : Neighbor K) :
    Prop where
  before : ∃ l₁ l₂, list = l₁ ++ p :: l₂ ∧ ∀ q ∈ l₁, ZoneEmpty sumomap now nb dstGeohash q
  relay_mem : relay ∈ purge now nb
  zone : ∃ v, sumomap.graph.heap.cell p = some v ∧ InZone relay.geohash v.geoHash ∧
    ¬ InZone dstGeohash v.geoHash ∧
    (route.mind.toNat : K) < sumomap.map.getDistance this.2 this.1 v.attr.y v.attr.x ∧
    (route.mind.toNat : K) < sumomap.map.getDistance dst.2 dst.1 v.attr.y v.attr.x

end Loop

variable {sumomap : MbrSumo K} {memory : Addr} {now : Int} {nb : List (Neighbor K)}
  {route route' : MbrRoute} {dstGeohash : UInt64} {toMac : Mac48Address} {dst this : K × K}
  {thisnode : MbrNode K} {dest : UInt32} {list : List Addr} {out : Forward}

/-- Outside the range both distances are larger than the least one. -/
private theorem lt_of_not_inRange {d1 d2 : K} (h : ¬ inRange route d1 d2 = true) :
    (route.mind.toNat : K) < d1 ∧ (route.mind.toNat : K) < d2 := by
  unfold inRange at h
  by_cases hnear : d1 ≤ (route.mind.toNat : K) ∨ d2 ≤ (route.mind.toNat : K)
  · exact absurd (if_pos hnear) h
  · rw [not_or, not_le, not_le] at hnear
    exact hnear

/-- One turn of the loop of `mbr_forward`, at the intersection `p`. -/
private theorem forwardLoop_cons_cases {p : Addr} {rest : List Addr}
    (hrun : forwardLoop sumomap now nb route dstGeohash toMac dst this (p :: rest) =
      .ok (route', out)) :
    ∃ v, sumomap.graph.heap.cell p = some v ∧
      ((¬ ZoneEmpty sumomap now nb dstGeohash p ∧ route' = route ∧ out = ⟨-1, some toMac, none⟩) ∨
        (ZoneEmpty sumomap now nb dstGeohash p ∧
          forwardLoop sumomap now nb route dstGeohash toMac dst this rest = .ok (route', out)) ∨
        ∃ relay ∈ purge now nb, InZone relay.geohash v.geoHash ∧ ¬ InZone dstGeohash v.geoHash ∧
          ¬ inRange route (sumomap.map.getDistance this.2 this.1 v.attr.y v.attr.x)
            (sumomap.map.getDistance dst.2 dst.1 v.attr.y v.attr.x) = true ∧
          route' = { route with relayedPktNum := route.relayedPktNum + 1 } ∧
          out = ⟨0, some toMac, some relay.hardwareAddress⟩) := by
  obtain ⟨v, hv, hrun⟩ := bind_eq_ok.mp hrun
  have hcell := Heap.deref_eq_ok.mp hv
  refine ⟨v, hcell, ?_⟩
  -- Only the vertex at `p` can show that its zone is empty
  have hempty : ZoneEmpty sumomap now nb dstGeohash p ↔ ¬ InZone dstGeohash v.geoHash ∧
      ∀ e ∈ purge now nb, ¬ InZone e.geohash v.geoHash := by
    constructor
    · intro ⟨v', hcell', hrest⟩
      cases hcell.symm.trans hcell'
      exact hrest
    · exact fun hrest => ⟨v, hcell, hrest⟩
  dsimp only at hrun
  by_cases hdst : InZone dstGeohash v.geoHash
  · rw [if_pos hdst] at hrun
    cases hrun
    exact .inl ⟨fun h => (hempty.mp h).1 hdst, rfl, rfl⟩
  · rw [if_neg hdst] at hrun
    rcases getnbFromsetBest_cases now nb v.geoHash with ⟨hnone, hno⟩ | ⟨relay, hmem, hzone, hbest⟩
    · rw [hnone] at hrun
      exact .inr (.inl ⟨hempty.mpr ⟨hdst, hno⟩, hrun⟩)
    · rw [hbest] at hrun
      dsimp only at hrun
      split at hrun
      · -- The vehicles are near enough to each other
        cases hrun
        exact .inl ⟨fun h => (hempty.mp h).2 relay hmem hzone, rfl, rfl⟩
      · next hrange =>
        split at hrun
        · cases hrun
        · cases hrun
          exact .inr (.inr ⟨relay, hmem, hzone, hdst, hrange, rfl, rfl⟩)

/-- What the loop of `mbr_forward` returns and counts. -/
theorem forwardLoop_cases
    (hrun : forwardLoop sumomap now nb route dstGeohash toMac dst this list = .ok (route', out)) :
    (∃ p relay, RelaysAt sumomap now nb route dstGeohash dst this list p relay ∧
        out = ⟨0, some toMac, some relay.hardwareAddress⟩ ∧
        route' = { route with relayedPktNum := route.relayedPktNum + 1 }) ∨
      (out = ⟨-1, some toMac, none⟩ ∧
        ((route' = { route with noNeighborPktNum := route.noNeighborPktNum + 1 } ∧
            ∀ p ∈ list, ZoneEmpty sumomap now nb dstGeohash p) ∨
          (route' = route ∧ ¬ ∀ p ∈ list, ZoneEmpty sumomap now nb dstGeohash p))) := by
  -- Vertex after vertex of the list
  induction list with
  | nil =>
    cases hrun
    exact .inr ⟨rfl, .inl ⟨rfl, by simp⟩⟩
  | cons p rest ih =>
    obtain ⟨v, hcell, ⟨hfull, rfl, rfl⟩ | ⟨hempty, hrest⟩ |
      ⟨relay, hmem, hzone, hdst, hrange, rfl, rfl⟩⟩ := forwardLoop_cons_cases hrun
    -- The destination is in the zone, or a relay that is within range: nothing is counted
    · exact .inr ⟨rfl, .inr ⟨rfl, fun h => hfull (h p List.mem_cons_self)⟩⟩
    · -- The loop goes on, with an empty zone in front
      rcases ih hrest with ⟨q, relay, hrelay, hout, hcount⟩ | ⟨hout, hcount⟩
      · obtain ⟨l₁, l₂, rfl, hbefore⟩ := hrelay.before
        refine .inl ⟨q, relay, ⟨⟨p :: l₁, l₂, rfl, ?_⟩, hrelay.relay_mem, hrelay.zone⟩, hout,
          hcount⟩
        exact List.forall_mem_cons.mpr ⟨hempty, hbefore⟩
      · refine .inr ⟨hout, ?_⟩
        simpa only [List.forall_mem_cons, hempty, true_and] using hcount
    -- The relay is found at the first vertex
    · have hfar := lt_of_not_inRange hrange
      exact .inl ⟨p, relay, ⟨⟨[], rest, rfl, by simp⟩, hmem, v, hcell, hzone, hdst, hfar⟩, rfl, rfl⟩

/-! ## The decision -/

variable [FloorRing K]

/-- `mbr_forward` gets as far as its list of intersections: the node has a table, in which
    the destination has the entry `dst`. -/
structure Decides (sumomap : MbrSumo K) (memory : Addr) (now : Int) (thisnode : MbrNode K)
    (dest : UInt32) (nb : List (Neighbor K)) (dst : Neighbor K) (list : List Addr) : Prop where
  initialized : sumomap.initialized = true
  table : thisnode.nb = some nb
  dst_mem : dst ∈ purge now nb
  dst_ip : dst.ipAddress = dest
  intersections : intersectionList sumomap memory dst.geohash
    (sumoCartesian2Geohash sumomap.sumo thisnode.x thisnode.y) (dst.x, dst.y)
    (sumoCartesian2GPS sumomap.sumo thisnode.x thisnode.y) = .ok list

/-- There are intersections on the way, and neither the destination nor a neighbour is near
    any of them. -/
def NobodyNear (sumomap : MbrSumo K) (memory : Addr) (now : Int) (thisnode : MbrNode K)
    (dest : UInt32) : Prop :=
  ∃ nb dst list, Decides sumomap memory now thisnode dest nb dst list ∧ list ≠ [] ∧
    ∀ p ∈ list, ZoneEmpty sumomap now nb dst.geohash p

/-- `mbr_forward` fails before it has a list, or decides on one. -/
theorem mbrForward_cases
    (hnodup : ∀ nb, thisnode.nb = some nb → (nb.map Neighbor.ipAddress).Nodup)
    (hrun : mbrForward sumomap memory now thisnode route dest = .ok (route', out)) :
    (out.ret = -1 ∧ route' = route ∧
        ∀ nb dst list, ¬ Decides sumomap memory now thisnode dest nb dst list) ∨
      ∃ nb dst list, Decides sumomap memory now thisnode dest nb dst list ∧
        (∀ nb' dst' list', Decides sumomap memory now thisnode dest nb' dst' list' →
          nb' = nb ∧ dst' = dst ∧ list' = list) ∧
        ((list = [] ∧ out.ret = -1 ∧ route' = route) ∨
          (list ≠ [] ∧ forwardLoop sumomap now nb route dst.geohash dst.hardwareAddress
            (dst.x, dst.y) (sumoCartesian2GPS sumomap.sumo thisnode.x thisnode.y) list =
              .ok (route', out))) := by
  unfold mbrForward at hrun
  split at hrun
  · next hinit =>
    cases hrun
    refine .inl ⟨rfl, rfl, fun nb dst list h => ?_⟩
    rw [h.initialized] at hinit
    cases hinit
  · next hinit =>
    -- Without a node or a table nothing is decided
    cases htable : thisnode.nb with
    | none =>
      rw [htable] at hrun
      cases hrun
      refine .inl ⟨rfl, rfl, fun nb dst list h => ?_⟩
      cases htable.symm.trans h.table
    | some nb =>
      rw [htable] at hrun
      dsimp only [getGeohashFromIpInNb] at hrun
      -- The query finds the destination or not
      cases hfind : (purge now nb).find? (·.ipAddress == dest) with
      | none =>
        rw [hfind] at hrun
        cases hrun
        refine .inl ⟨rfl, rfl, fun nb' dst list h => ?_⟩
        cases htable.symm.trans h.table
        exact find?_key_eq_none.mp hfind dst h.dst_mem h.dst_ip
      | some dst =>
        rw [hfind] at hrun
        dsimp only at hrun
        by_cases hgeo : dst.geohash = 0
        · -- The assertion fails
          rw [if_pos hgeo] at hrun
          cases hrun
        rw [if_neg hgeo] at hrun
        change (intersectionList _ _ _ _ _ _ >>= _) = _ at hrun
        obtain ⟨list, hlist, hrun⟩ := bind_eq_ok.mp hrun
        obtain ⟨hmem, hip⟩ := (find?_purge_eq_some (hnodup nb htable)).mp hfind
        have hdecides : Decides sumomap memory now thisnode dest nb dst list :=
          ⟨by simpa using hinit, htable, hmem, hip, hlist⟩
        refine .inr ⟨nb, dst, list, hdecides, fun nb' dst' list' h => ?_, ?_⟩
        · -- The entry of the destination is the only one with its address
          cases htable.symm.trans h.table
          have hfind' := (find?_purge_eq_some (hnodup nb htable)).mpr ⟨h.dst_mem, h.dst_ip⟩
          cases hfind.symm.trans hfind'
          cases hlist.symm.trans h.intersections
          exact ⟨rfl, rfl, rfl⟩
        -- The search has found no crossing, or the loop decides
        · split at hrun
          · next hempty =>
            cases hrun
            exact .inl ⟨hempty, rfl, rfl⟩
          · next hempty => exact .inr ⟨hempty, hrun⟩

/-- A packet is relayed over the first intersection around which there is anybody, by a
    neighbour other than the destination, and counted as relayed. Any other packet leaves
    that count alone, and is counted as one without neighbours exactly if there are
    intersections and nobody near them. -/
theorem mbrForward_decision
    (hnodup : ∀ nb, thisnode.nb = some nb → (nb.map Neighbor.ipAddress).Nodup)
    (hrun : mbrForward sumomap memory now thisnode route dest = .ok (route', out)) :
    (out.ret = 0 ∧ route' = { route with relayedPktNum := route.relayedPktNum + 1 } ∧
      ∃ nb dst list p relay, Decides sumomap memory now thisnode dest nb dst list ∧
        RelaysAt sumomap now nb route dst.geohash (dst.x, dst.y)
          (sumoCartesian2GPS sumomap.sumo thisnode.x thisnode.y) list p relay ∧
        relay ≠ dst ∧ relay.ipAddress ≠ dest ∧
        out.toMac = some dst.hardwareAddress ∧ out.relayMac = some relay.hardwareAddress) ∨
    (out.ret = -1 ∧
      ((route' = { route with noNeighborPktNum := route.noNeighborPktNum + 1 } ∧
          NobodyNear sumomap memory now thisnode dest) ∨
        (route' = route ∧ ¬ NobodyNear sumomap memory now thisnode dest))) := by
  rcases mbrForward_cases hnodup hrun with ⟨hret, hcount, hno⟩ |
    ⟨nb, dst, list, hdecides, hunique, ⟨rfl, hret, hcount⟩ | ⟨hne, hloop⟩⟩
  · exact .inr ⟨hret, .inr ⟨hcount, fun ⟨nb, dst, list, h, _⟩ => hno nb dst list h⟩⟩
  · refine .inr ⟨hret, .inr ⟨hcount, fun ⟨nb', dst', list', h, hne, _⟩ => hne ?_⟩⟩
    exact (hunique nb' dst' list' h).2.2
  -- The loop has found a relay, or it has come to the end
  · rcases forwardLoop_cases hloop with ⟨p, relay, hrelay, rfl, hcount⟩ | ⟨rfl, hcount⟩
    · -- The relay is in a zone in which the destination is not
      obtain ⟨v, -, hin, hout, -⟩ := hrelay.zone
      have hdiff : relay ≠ dst := by
        rintro rfl
        exact hout hin
      refine .inl ⟨rfl, hcount, nb, dst, list, p, relay, hdecides, hrelay, hdiff, ?_, rfl, rfl⟩
      intro hip
      have hrelayed := (find?_purge_eq_some (hnodup nb hdecides.table)).mpr ⟨hrelay.relay_mem, hip⟩
      have hdst := (find?_purge_eq_some (hnodup nb hdecides.table)).mpr
        ⟨hdecides.dst_mem, hdecides.dst_ip⟩
      cases hrelayed.symm.trans hdst
      exact hdiff rfl
    · have hnear : NobodyNear sumomap memory now thisnode dest ↔
          ∀ p ∈ list, ZoneEmpty sumomap now nb dst.geohash p := by
        constructor
        · rintro ⟨nb', dst', list', h, -, hall⟩
          obtain ⟨rfl, rfl, rfl⟩ := hunique nb' dst' list' h
          exact hall
        · exact fun hall => ⟨nb, dst, list, hdecides, hne, hall⟩
      rw [hnear]
      exact .inr ⟨rfl, hcount⟩

/-- A block of houses in a plane with its own coordinates. -/
def blockMap : MbrSumo ℚ :=
  ⟨true, block 1 2 1 2, gridEnv, ⟨fun _ => 0, fun u v => (u / radToDeg, v / radToDeg), 0, 0⟩⟩

/-- A vehicle at the corner opposite to the origin. -/
def oppositeNeighbor : Neighbor ℚ :=
  ⟨1, .ofBytes 2 0 0 0 0 1, 100, 0, false, 1000, 0, 60, 60⟩

/-- A vehicle at a corner on the way. -/
def cornerNeighbor : Neighbor ℚ := ⟨2, .ofBytes 2 0 0 0 0 2, 100, 0, false, 3, 0, 0, 60⟩

/-- The decision around the block. -/
theorem mbrForward_decision_block :
    mbrForward blockMap NULL 10 ⟨0, 0, some [oppositeNeighbor, cornerNeighbor]⟩ .initial 1 =
        .ok (⟨1, 0, 7, 32⟩,
          ⟨0, some oppositeNeighbor.hardwareAddress, some cornerNeighbor.hardwareAddress⟩) ∧
      ∃ nb dst list p relay,
        Decides blockMap NULL 10 ⟨0, 0, some [oppositeNeighbor, cornerNeighbor]⟩ 1 nb dst list ∧
        RelaysAt blockMap 10 nb .initial dst.geohash (dst.x, dst.y)
          (sumoCartesian2GPS blockMap.sumo 0 0) list p relay ∧ relay.ipAddress ≠ 1 := by
  have hrun : mbrForward blockMap NULL 10 ⟨0, 0, some [oppositeNeighbor, cornerNeighbor]⟩
      .initial 1 = .ok (⟨1, 0, 7, 32⟩,
        ⟨0, some oppositeNeighbor.hardwareAddress, some cornerNeighbor.hardwareAddress⟩) := by
    decide +kernel
  have hnodup : ∀ nb, some [oppositeNeighbor, cornerNeighbor] = some nb →
      (nb.map Neighbor.ipAddress).Nodup := by
    intro nb hnb
    cases hnb
    decide
  refine ⟨hrun, ?_⟩
  rcases mbrForward_decision hnodup hrun with
    ⟨-, -, nb, dst, list, p, relay, hdecides, hrelay, -, hip, -⟩ | ⟨hret, -⟩
  · exact ⟨nb, dst, list, p, relay, hdecides, hrelay, hip⟩
  · cases hret

end MapRelay.NS3
