import MapRelay.ForStd.Lookup
import MapRelay.Spec.MbrTable
import MapRelay.Spec.RelayZone

/-!
# Whom the kernel module takes as a relay

`mbr_forward` takes the neighbour that stays longest in the zone around an intersection. The
NS-3 copy first tests whether the destination is in that zone itself. The kernel copy does
not, so that the next hop becomes its own relay whenever it is the one that stays longest.
-/

namespace MapRelay.Kernel

open ForStd

/-- The centre of the zone in which `mbr_forward` looks for a relay: from the table, or
    computed afresh after a miss. -/
def relayCenter (g : RoadGraph) (st : MbrStatus) (dstGeohash : UInt64) :
    Except Fault (Option UInt64) :=
  if mbrtableGetNexthopGeohash st.mbrtable dstGeohash = 0 then
    relayZone g st.geohashThis dstGeohash
  else .ok (some (mbrtableGetNexthopGeohash st.mbrtable dstGeohash))

/-- The two entries that `neighbor_entry` points to in `mbr_forward`, one after the other. -/
structure ForwardEntries where
  dst : Option NeighborTable
  relay : Option NeighborTable
  deriving DecidableEq, Repr

/-- What `mbr_forward` returns and writes for the entries. -/
def ForwardEntries.forward (e : ForwardEntries) : Forward :=
  ⟨if e.relay.isSome then 0 else -1, e.dst.map NeighborTable.mac, e.relay.map NeighborTable.mac⟩

/-- The entries that `mbr_forward` finds, if `center` gives the centre of the zone. -/
def forwardEntries (center : UInt64 → Except Fault (Option UInt64))
    (neighData : List NeighborTable) (nexthop : UInt32) : Except Fault ForwardEntries :=
  match neighborGetnodeFromip neighData nexthop with
  | none => .ok ⟨none, none⟩
  | some dst => do
    let c ← center dst.geoHash
    return ⟨some dst,
      c.bind fun c => neighborGetnodeFromsetBest neighData (geohashGetNeighborsInSet c)⟩

variable {neighData : List NeighborTable} {nexthop : UInt32}

/-! ## The entries and the code -/

/-- The decision is one by the entries that were found. -/
private theorem forwardVia_eq (neighData : List NeighborTable) (dst : NeighborTable) (c : UInt64) :
    forwardVia neighData dst.mac c = ForwardEntries.forward ⟨some dst,
      neighborGetnodeFromsetBest neighData (geohashGetNeighborsInSet c)⟩ := by
  unfold forwardVia ForwardEntries.forward
  split <;> simp_all

/-- `mbr_forward` without the table computes the zone. -/
theorem mbrForwardDirect_eq (g : RoadGraph) (neighData : List NeighborTable) (nexthop : UInt32)
    (own : UInt64) :
    mbrForwardDirect g neighData nexthop own =
      (forwardEntries (relayZone g own) neighData nexthop).map ForwardEntries.forward := by
  unfold mbrForwardDirect forwardEntries relayZone
  cases neighborGetnodeFromip neighData nexthop with
  | none => rfl
  | some dst =>
    dsimp only
    cases findIntersection g own dst.geoHash with
    | error fault => rfl
    | ok x =>
      dsimp only [bind, Except.bind]
      split
      · rfl
      · cases g.heap.deref x with
        | error fault => rfl
        | ok v => exact congrArg Except.ok (forwardVia_eq neighData dst v.geoHash)

/-- With the table it takes the zone from there, if there is one. -/
theorem mbrForward_eq (g : RoadGraph) (neighData : List NeighborTable) (nexthop : UInt32)
    (st : MbrStatus) :
    (mbrForward g neighData nexthop st).map Prod.snd =
      (forwardEntries (relayCenter g st) neighData nexthop).map ForwardEntries.forward := by
  unfold mbrForward forwardEntries relayCenter
  cases neighborGetnodeFromip neighData nexthop with
  | none => rfl
  | some dst =>
    dsimp only
    by_cases hmiss : mbrtableGetNexthopGeohash st.mbrtable dst.geoHash = 0
    · -- A miss: the recorded zone does not show in the result
      rw [if_pos hmiss, if_pos hmiss, relayZone]
      cases findIntersection g st.geohashThis dst.geoHash with
      | error fault => rfl
      | ok x =>
        dsimp only [bind, Except.bind]
        split
        · rfl
        · cases g.heap.deref x with
          | error fault => rfl
          | ok v => exact congrArg Except.ok (forwardVia_eq neighData dst v.geoHash)
    · rw [if_neg hmiss, if_neg hmiss]
      exact congrArg Except.ok (forwardVia_eq neighData dst _)

/-! ## The next hop as its own relay -/

/-- The next hop is in the zone of its relay, and is the first of the neighbours that stay
    longest there. -/
def StaysLongest (center : UInt64 → Except Fault (Option UInt64))
    (neighData : List NeighborTable) (nexthop : UInt32) : Prop :=
  ∃ dst ∈ neighData, dst.ip = nexthop ∧ ∃ c, center dst.geoHash = .ok (some c) ∧
    InZone dst.geoHash c ∧
    firstBest (dwellingTime NeighborTable.geoHash (fun e => e.direction.toInt) c) neighData =
      some dst

/-- With distinct addresses, an entry is found by its address. -/
private theorem neighborGetnodeFromip_eq_some (hnodup : (neighData.map NeighborTable.ip).Nodup)
    {dst : NeighborTable} :
    neighborGetnodeFromip neighData nexthop = some dst ↔ dst ∈ neighData ∧ dst.ip = nexthop :=
  find?_key_eq_some hnodup

/-- The relay entry is the one of the next hop exactly if the next hop stays longest. -/
private theorem relay_eq_nexthop_iff (center : UInt64 → Except Fault (Option UInt64))
    (hnodup : (neighData.map NeighborTable.ip).Nodup) :
    (∃ e relay, forwardEntries center neighData nexthop = .ok e ∧ e.relay = some relay ∧
        relay.ip = nexthop) ↔ StaysLongest center neighData nexthop := by
  constructor
  · intro ⟨e, relay, he, hrelay, hip⟩
    unfold forwardEntries at he
    cases hdst : neighborGetnodeFromip neighData nexthop with
    | none =>
      rw [hdst] at he
      cases he
      cases hrelay
    | some dst =>
      rw [hdst] at he
      obtain ⟨c, hc, he⟩ := bind_eq_ok.mp he
      cases he
      obtain ⟨c, rfl, hbest⟩ := Option.bind_eq_some_iff.mp hrelay
      obtain ⟨hmem, hzone⟩ := mem_of_getnodeFromsetBest hbest
      -- The relay has the address of the next hop, so that it is the same entry
      have hsame : dst = relay := by
        rw [(neighborGetnodeFromip_eq_some hnodup).mpr ⟨hmem, hip⟩] at hdst
        exact (Option.some.inj hdst).symm
      subst hsame
      have hfirst := hbest
      rw [neighborGetnodeFromsetBest, getnodeFromsetBest_eq, Option.filter_eq_some_iff] at hfirst
      exact ⟨dst, hmem, hip, c, hc, hzone, hfirst.1⟩
  · intro ⟨dst, hmem, hip, c, hc, hzone, hfirst⟩
    have hdst := (neighborGetnodeFromip_eq_some hnodup).mpr ⟨hmem, hip⟩
    have hbest : neighborGetnodeFromsetBest neighData (geohashGetNeighborsInSet c) =
        some dst := by
      rw [neighborGetnodeFromsetBest, getnodeFromsetBest_eq, Option.filter_eq_some_iff]
      exact ⟨hfirst, decide_eq_true ((isSquare_zone c).getDtime_pos.mpr hzone)⟩
    refine ⟨⟨some dst, some dst⟩, dst, ?_, rfl, hip⟩
    rw [forwardEntries, hdst]
    dsimp only
    rw [hc]
    exact congrArg (fun relay => Except.ok (ForwardEntries.mk (some dst) relay)) hbest

/-- Whenever the result `fwd` of `mbr_forward` says that there is a relay, its address is the
    one of an entry other than that of the next hop. -/
def RelayNotNexthop (center : UInt64 → Except Fault (Option UInt64))
    (neighData : List NeighborTable) (nexthop : UInt32) (fwd : Except Fault Forward) : Prop :=
  ∀ out, fwd = .ok out → out.ret = 0 →
    ∃ e relay, forwardEntries center neighData nexthop = .ok e ∧ out = e.forward ∧
      e.relay = some relay ∧ relay.ip ≠ nexthop

/-- The relay is not the next hop exactly if that one does not stay longest. -/
theorem relayNotNexthop_iff (center : UInt64 → Except Fault (Option UInt64))
    (hnodup : (neighData.map NeighborTable.ip).Nodup) :
    RelayNotNexthop center neighData nexthop
        ((forwardEntries center neighData nexthop).map ForwardEntries.forward) ↔
      ¬ StaysLongest center neighData nexthop := by
  rw [← relay_eq_nexthop_iff center hnodup, RelayNotNexthop]
  cases forwardEntries center neighData nexthop with
  | error fault => simp [Except.map]
  | ok e =>
    -- `mbr_forward` returns 0 exactly if there is a relay entry
    cases hrelay : e.relay <;> simp [Except.map, ForwardEntries.forward, hrelay]

/-- Both builds of `mbr_forward` give the packet to a neighbour other than the next hop
    exactly if the next hop is not itself the one that stays longest in the zone. -/
theorem mbrForward_relay_iff (g : RoadGraph) (st : MbrStatus)
    (hnodup : (neighData.map NeighborTable.ip).Nodup) :
    (RelayNotNexthop (relayCenter g st) neighData nexthop
        ((mbrForward g neighData nexthop st).map Prod.snd) ↔
      ¬ StaysLongest (relayCenter g st) neighData nexthop) ∧
    (RelayNotNexthop (relayZone g st.geohashThis) neighData nexthop
        (mbrForwardDirect g neighData nexthop st.geohashThis) ↔
      ¬ StaysLongest (relayZone g st.geohashThis) neighData nexthop) := by
  rw [mbrForward_eq, mbrForwardDirect_eq]
  exact ⟨relayNotNexthop_iff _ hnodup, relayNotNexthop_iff _ hnodup⟩

/-- A road with a bend at the vertex `x`, and a vertex `d` in the next cell behind it. -/
def bend : RoadGraph :=
  let commands : List GraphDeliver :=
    [.newNode "a" 10, .newNode "x" 20, .newNode "d" 22, .newEdge "a" "x" 1, .newEdge "x" "d" 2]
  match commands.foldlM (netlinkRecvCb .same) graphCreate with
  | .ok g => g
  | .error _ => graphCreate

/-- A neighbour at `d` that drives east, out of the zone of `x`. -/
def neighborBehindBend : NeighborTable := ⟨1, .ofBytes 2 0 0 0 0 1, 22, 90, 1⟩

/-- A neighbour at `x` that drives west. -/
def neighborInBend : NeighborTable := ⟨2, .ofBytes 2 0 0 0 0 2, 20, 270, 1⟩

/-- A packet from `a` to the vehicle at `d`, which is the only neighbour, is given to that
    vehicle as a relay. -/
theorem relayed_to_nexthop :
    mbrForwardDirect bend [neighborBehindBend] 1 10 =
        .ok ⟨0, some neighborBehindBend.mac, some neighborBehindBend.mac⟩ ∧
      (mbrForward bend [neighborBehindBend] 1 ⟨10, []⟩).map Prod.snd =
        .ok ⟨0, some neighborBehindBend.mac, some neighborBehindBend.mac⟩ ∧
      ¬ RelayNotNexthop (relayZone bend 10) [neighborBehindBend] 1
        (mbrForwardDirect bend [neighborBehindBend] 1 10) ∧
      ¬ RelayNotNexthop (relayCenter bend ⟨10, []⟩) [neighborBehindBend] 1
        ((mbrForward bend [neighborBehindBend] 1 ⟨10, []⟩).map Prod.snd) := by
  refine ⟨by decide, by decide, ?_, ?_⟩
  · rw [mbrForwardDirect_eq, relayNotNexthop_iff _ (by decide), not_not]
    exact ⟨neighborBehindBend, List.mem_singleton_self _, rfl, 20, by decide, by decide, rfl⟩
  · rw [mbrForward_eq, relayNotNexthop_iff _ (by decide), not_not]
    exact ⟨neighborBehindBend, List.mem_singleton_self _, rfl, 20, by decide, by decide, rfl⟩

/-- With a neighbour in the bend that stays longer, the packet is given to that one. -/
theorem mbrForward_relay_iff_bend :
    mbrForwardDirect bend [neighborBehindBend, neighborInBend] 1 10 =
        .ok ⟨0, some neighborBehindBend.mac, some neighborInBend.mac⟩ ∧
      ¬ StaysLongest (relayZone bend 10) [neighborBehindBend, neighborInBend] 1 := by
  have hrun : mbrForwardDirect bend [neighborBehindBend, neighborInBend] 1 10 =
      .ok ⟨0, some neighborBehindBend.mac, some neighborInBend.mac⟩ := by decide
  refine ⟨hrun, (mbrForward_relay_iff bend ⟨10, []⟩ (by decide)).2.mp fun out hout _ => ?_⟩
  rw [hrun] at hout
  cases hout
  have hentries : forwardEntries (relayZone bend 10) [neighborBehindBend, neighborInBend] 1 =
      .ok ⟨some neighborBehindBend, some neighborInBend⟩ := by decide
  exact ⟨_, neighborInBend, hentries, rfl, rfl, by decide⟩

end MapRelay.Kernel
