import MapRelay.ForStd.Choice
import MapRelay.ForStd.Greedy
import MapRelay.ForStd.Lookup
import MapRelay.ForStd.Run
import MapRelay.Native.Gpsr
import Mathlib.Order.OrderDual
import Mathlib.Algebra.Order.Ring.Int

/-!
# Greedy forwarding has no loops

`BestNeighbor` finds a nearest one among the neighbours whose entries have not expired, and
returns it only if it is nearer to the destination than the node itself. So the distance to
the destination decreases with every hop, until a hop goes to the destination directly.
-/

namespace MapRelay.NS3.Gpsr

open ForStd

variable {K : Type}

namespace PositionTable

variable {env : GpsrEnv K} {now : Int} {table : PositionTable K} {position nodePos : Vector3D K}

/-! ## The entries that have not expired -/

/-- The neighbours that count at time `now`. -/
def unexpired (now : Int) (table : PositionTable K) : List (PositionEntry K) :=
  table.entries.filter fun e => decide (now < entryLifeTime + e.updateTime)

/-- The addresses to be erased are those of the expired entries. -/
theorem mem_toErase {id : UInt32} : id ∈ table.toErase env now ↔
    ∃ e ∈ table.entries, entryLifeTime + table.getEntryUpdateTime env e.id ≤ now ∧ e.id = id := by
  -- The loop adds to what it has collected so far
  have hfold (es : List (PositionEntry K)) (acc : List UInt32) :
      id ∈ es.foldl (fun toErase i =>
        if entryLifeTime + table.getEntryUpdateTime env i.id ≤ now then i.id :: toErase
        else toErase) acc ↔
      id ∈ acc ∨ ∃ e ∈ es, entryLifeTime + table.getEntryUpdateTime env e.id ≤ now ∧ e.id = id := by
    induction es generalizing acc with
    | nil => simp
    | cons e es ih =>
      rw [List.foldl_cons, ih]
      split
      · next hexpired =>
        rw [List.exists_mem_cons_iff, List.mem_cons, and_iff_right hexpired, @eq_comm _ id,
          or_assoc, or_left_comm]
      · next hkept => simp [hkept]
  rw [toErase, hfold]
  simp

/-- Erasing addresses one after the other leaves the others. -/
theorem entries_foldl_erase (ids : List UInt32) (table : PositionTable K) :
    (ids.foldl erase table).entries = table.entries.filter fun e => decide (e.id ∉ ids) := by
  induction ids generalizing table with
  | nil => simp
  | cons id ids ih =>
    rw [List.foldl_cons, ih, erase, List.filter_filter]
    apply List.filter_congr
    intro e _
    by_cases hid : e.id = id <;> simp [hid]

/-- No address has two entries. -/
theorem nodup_ids (table : PositionTable K) : (table.entries.map (·.id)).Nodup :=
  List.pairwise_map.mpr (table.sorted.imp fun hlt => UInt32.ne_of_lt hlt)

/-- The update time of an entry of the table is its own. -/
theorem getEntryUpdateTime_of_mem {e : PositionEntry K} (he : e ∈ table.entries)
    (hid : e.id ≠ 0) : table.getEntryUpdateTime env e.id = e.updateTime := by
  have hfind : table.find e.id = some e :=
    (find?_key_eq_some table.nodup_ids).mpr ⟨he, rfl⟩
  rw [getEntryUpdateTime, if_neg hid, hfind, Option.getD_some]

/-- `Purge` leaves these entries. -/
theorem entries_purge (hid : ∀ e ∈ table.entries, e.id ≠ 0) :
    (table.purge env now).entries = table.unexpired now := by
  rw [purge, entries_foldl_erase, unexpired]
  apply List.filter_congr
  intro e he
  -- An entry that is not the zero address has its own update time
  have htime : table.getEntryUpdateTime env e.id = e.updateTime :=
    getEntryUpdateTime_of_mem he (hid e he)
  rw [decide_eq_decide, mem_toErase]
  constructor
  · intro hkept
    by_contra hexpired
    exact hkept ⟨e, he, by omega, rfl⟩
  · intro hlive ⟨e', he', hexpired, hsame⟩
    rw [hsame, htime] at hexpired
    omega

/-- `Purge` brings no entries. -/
theorem mem_purge {e : PositionEntry K} (he : e ∈ (table.purge env now).entries) :
    e ∈ table.entries := by
  rw [purge, entries_foldl_erase] at he
  exact List.mem_of_mem_filter he

/-- A table that is purged twice at the same time loses nothing more. -/
theorem unexpired_purge (hid : ∀ e ∈ table.entries, e.id ≠ 0) :
    (table.purge env now).unexpired now = table.unexpired now := by
  rw [unexpired, entries_purge hid, unexpired, List.filter_filter]
  simp only [Bool.and_self]

/-! ## The best neighbour -/

variable [LinearOrder K]

/-- The loop goes on to the first nearest entry. -/
theorem bestFound_eq (env : GpsrEnv K) (position : Vector3D K) (es : List (PositionEntry K))
    (e : PositionEntry K) :
    ∃ b, firstBest (fun e => OrderDual.toDual (env.calculateDistance e.position position))
        (e :: es) = some b ∧
      bestFound env position es (e.id, env.calculateDistance e.position position) =
        (b.id, env.calculateDistance b.position position) := by
  -- The loop keeps the first entry of the smallest distance
  induction es generalizing e with
  | nil => exact ⟨e, rfl, rfl⟩
  | cons i es ih =>
    rw [firstBest_cons_cons, bestFound]
    by_cases hlt : env.calculateDistance i.position position <
        env.calculateDistance e.position position
    -- A closer entry takes the place of the one kept
    · rw [if_pos hlt, if_pos (OrderDual.toDual_lt_toDual.mpr hlt)]
      exact ih i
    · rw [if_neg hlt, if_neg (fun h => hlt (OrderDual.toDual_lt_toDual.mp h))]
      exact ih e

/-- `e` is a nearest one of the entries, and nearer than the node. -/
structure BestOf (env : GpsrEnv K) (position nodePos : Vector3D K) (es : List (PositionEntry K))
    (e : PositionEntry K) : Prop where
  mem : e ∈ es
  closer : env.calculateDistance e.position position < env.calculateDistance nodePos position
  closest : ∀ e' ∈ es,
    env.calculateDistance e.position position ≤ env.calculateDistance e'.position position

/-- Either an entry is returned that is nearer than the node, or none is nearer. -/
theorem bestNeighbor_cases (env : GpsrEnv K) (now : Int) (table : PositionTable K)
    (position nodePos : Vector3D K) :
    (table.bestNeighbor env now position nodePos = 0 ∧
        ∀ e ∈ (table.purge env now).entries, ¬ env.calculateDistance e.position position <
          env.calculateDistance nodePos position) ∨
      ∃ e, BestOf env position nodePos (table.purge env now).entries e ∧
        table.bestNeighbor env now position nodePos = e.id := by
  unfold bestNeighbor
  cases hentries : (table.purge env now).entries with
  | nil => exact .inl ⟨rfl, by simp⟩
  | cons first rest =>
    obtain ⟨b, hbest, hfound⟩ := bestFound_eq env position (first :: rest) first
    -- The loop starts at the entry it has taken as the best one already
    have hmem : b ∈ first :: rest := by
      rcases List.mem_cons.mp (mem_of_firstBest hbest) with rfl | hmem
      · exact List.mem_cons_self
      · exact hmem
    have hle : ∀ e ∈ first :: rest, env.calculateDistance b.position position ≤
        env.calculateDistance e.position position := by
      intro e he
      have hscore := le_of_firstBest hbest (List.mem_cons_of_mem first he)
      exact OrderDual.toDual_le_toDual.mp hscore
    dsimp only
    rw [hfound]
    by_cases hcloser : env.calculateDistance b.position position <
        env.calculateDistance nodePos position
    · exact .inr ⟨b, ⟨hmem, hcloser, hle⟩, if_pos hcloser⟩
    · refine .inl ⟨if_neg hcloser, fun e he hlt => hcloser ?_⟩
      exact lt_of_le_of_lt (hle e he) hlt

/-- The zero address says that no neighbour is nearer. -/
private theorem bestNeighbor_eq_zero (hid : ∀ e ∈ table.entries, e.id ≠ 0) :
    table.bestNeighbor env now position nodePos = 0 ↔
      ∀ e ∈ table.unexpired now, ¬ env.calculateDistance e.position position <
        env.calculateDistance nodePos position := by
  rcases bestNeighbor_cases env now table position nodePos with ⟨hzero, hno⟩ | ⟨e, hbest, heq⟩
  · rw [entries_purge hid] at hno
    exact iff_of_true hzero hno
  · rw [entries_purge hid] at hbest
    have hne : e.id ≠ 0 := hid e (List.mem_of_mem_filter hbest.mem)
    exact iff_of_false (heq ▸ hne) fun hno => hno e hbest.mem hbest.closer

/-- What is returned instead is a nearest one of the neighbours. -/
private theorem bestNeighbor_ne_zero (hid : ∀ e ∈ table.entries, e.id ≠ 0)
    (hne : table.bestNeighbor env now position nodePos ≠ 0) :
    ∃ e, BestOf env position nodePos (table.unexpired now) e ∧
      table.bestNeighbor env now position nodePos = e.id := by
  rcases bestNeighbor_cases env now table position nodePos with ⟨hzero, -⟩ | ⟨e, hbest, heq⟩
  · exact absurd hzero hne
  · rw [entries_purge hid] at hbest
    exact ⟨e, hbest, heq⟩

end PositionTable

/-! ## The hops of a packet -/

section Hops

variable [LinearOrder K] [Zero K] {env : GpsrEnv K} {pos : UInt32 → Vector3D K} {dst : UInt32}
  {dstPos : Vector3D K} {event : GpsrEvent K} {nodePos : Vector3D K} {gateway : UInt32}

open PositionTable

/-- `Forwarding` in greedy mode. -/
private theorem forwarding_forward {now : Int} {table : PositionTable K}
    {locationService : LocationService K} {typeValid : Bool} {hdr : Option (PositionHeader K)}
    {hdr' : PositionHeader K}
    (h : forwarding env now table locationService nodePos typeValid hdr dst =
      .forward gateway hdr') :
    ((table.purge env now).isNeighbour env dst = true ∧ gateway = dst) ∨
      ((table.purge env now).isNeighbour env dst = false ∧ gateway ≠ 0 ∧
        gateway = (table.purge env now).bestNeighbor env now
          ((hdr.getD .default).destination locationService dst).1 (planar nodePos)) := by
  unfold forwarding at h
  dsimp only at h
  -- Each guard of the source refuses, in its order
  split at h
  · cases h
  · split at h
    · cases h
    · split at h
      · next hdirect =>
        cases h
        exact .inl ⟨hdirect, rfl⟩
      · next hdirect =>
        split at h
        · next hne =>
          cases h
          exact .inr ⟨by simpa using hdirect, hne, rfl⟩
        · cases h

/-- `RouteOutput` with a route. -/
private theorem routeOutput_route {now : Int} {table : PositionTable K}
    {locationService : LocationService K} {packet interfaces oifDiffers : Bool}
    (h : routeOutput env now table locationService nodePos packet interfaces oifDiffers dst =
      .route gateway) :
    ((isBoardcast dst || table.isNeighbour env dst) = true ∧ gateway = dst) ∨
      ((isBoardcast dst || table.isNeighbour env dst) = false ∧ gateway ≠ 0 ∧
        gateway = table.bestNeighbor env now (locationService.getPosition dst)
          (planar nodePos)) := by
  unfold routeOutput at h
  dsimp only at h
  split at h
  · cases h
  split at h
  · cases h
  split at h
  · next hbroadcast =>
    split at h
    · cases h
    · cases h
      exact .inl ⟨by simp [hbroadcast], rfl⟩
  next hbroadcast =>
  split at h
  · cases h
  -- The next hop is found in the same way as in `Forwarding`
  by_cases hdirect : table.isNeighbour env dst = true
  · rw [if_pos hdirect] at h
    split at h
    · split at h
      · cases h
      · cases h
        exact .inl ⟨by simp [hdirect], rfl⟩
    · cases h
  · rw [if_neg hdirect] at h
    split at h
    · next hne =>
      split at h
      · cases h
      · cases h
        exact .inr ⟨by simp [hbroadcast, hdirect], hne, rfl⟩
    · cases h

/-- A hop goes to the destination directly, or to the best neighbour. -/
private theorem gateway_cases (hid : ∀ e ∈ event.table.entries, e.id ≠ 0)
    (hgateway : event.gateway env nodePos dst = some gateway) :
    (event.direct env dst = true ∧ gateway = dst) ∨
      (event.direct env dst = false ∧ ∃ e, BestOf env (event.destination dst) (planar nodePos)
        (event.table.unexpired event.now) e ∧ gateway = e.id) := by
  -- Either entry point looks at the neighbours first and then for the best one
  cases event with
  | forwarding now table locationService typeValid hdr =>
    simp only [GpsrEvent.gateway] at hgateway
    split at hgateway
    · next hforward =>
      cases hgateway
      rcases forwarding_forward hforward with hdirect | ⟨hdirect, hne, rfl⟩
      · exact .inl hdirect
      · -- `BestNeighbor` looks at the table after `Purge`
        have hid' : ∀ e ∈ (table.purge env now).entries, e.id ≠ 0 := fun e he =>
          hid e (mem_purge he)
        obtain ⟨e, hbest, heq⟩ := bestNeighbor_ne_zero hid' hne
        have hunexpired : (table.purge env now).unexpired now = table.unexpired now :=
          unexpired_purge hid
        rw [hunexpired] at hbest
        exact .inr ⟨hdirect, e, hbest, heq⟩
    · cases hgateway
    · cases hgateway
  | routeOutput now table locationService packet interfaces oifDiffers =>
    simp only [GpsrEvent.gateway] at hgateway
    split at hgateway
    · next hroute =>
      cases hgateway
      rcases routeOutput_route hroute with hdirect | ⟨hdirect, hne, rfl⟩
      · exact .inl hdirect
      · obtain ⟨e, hbest, heq⟩ := bestNeighbor_ne_zero hid hne
        exact .inr ⟨hdirect, e, hbest, heq⟩
    · cases hgateway
    · cases hgateway
    · cases hgateway

/-- A hop that is not direct goes to a neighbour nearest to the destination, which is nearer
    than the node itself. -/
def HopDescends (env : GpsrEnv K) (pos : UInt32 → Vector3D K) (dstPos : Vector3D K)
    (event : GpsrEvent K) (cur gateway : UInt32) : Prop :=
  let distance := fun id => env.calculateDistance (planar (pos id)) dstPos
  (∃ e ∈ event.table.unexpired event.now, e.id = gateway) ∧ distance gateway < distance cur ∧
    ∀ e ∈ event.table.unexpired event.now, distance gateway ≤ distance e.id

/-- A greedy hop goes to the destination or to a neighbour that is nearer to it. -/
private theorem GreedyStep.hop_cases {s s' : List UInt32}
    (h : GreedyStep env pos dst dstPos s event s') :
    ∃ cur past gateway, s = cur :: past ∧ s' = gateway :: cur :: past ∧ cur ≠ dst ∧
      ((event.direct env dst = true ∧ gateway = dst) ∨
        (event.direct env dst = false ∧ HopDescends env pos dstPos event cur gateway)) := by
  obtain ⟨hcur, haccurate, hdestination, hgateway⟩ := h
  refine ⟨_, _, _, rfl, rfl, hcur, ?_⟩
  rcases gateway_cases haccurate.id_ne hgateway with hdirect | ⟨hdirect, e, hbest, rfl⟩
  · exact .inl hdirect
  · -- The positions in the table are those of the nodes
    have hpos : ∀ e' ∈ event.table.unexpired event.now, e'.position = planar (pos e'.id) :=
      fun e' he' => haccurate.position_eq e' (List.mem_of_mem_filter he')
    rw [hdestination] at hbest
    have hcloser := hbest.closer
    rw [hpos e hbest.mem] at hcloser
    refine .inr ⟨hdirect, ⟨e, hbest.mem, rfl⟩, hcloser, fun e' he' => ?_⟩
    have hclosest := hbest.closest e' he'
    rwa [hpos e hbest.mem, hpos e' he'] at hclosest

/-- A run of hops is a walk whose distance to the destination decreases. -/
theorem descends_of_run {origin : UInt32} {events : List (GpsrEvent K)} {s : List UInt32}
    (hrun : Run (GreedyStep env pos dst dstPos) [origin] events s) :
    Descends (fun id => env.calculateDistance (planar (pos id)) dstPos) dst s := by
  refine hrun.invariant trivial fun s event s' hs hstep => ?_
  obtain ⟨cur, past, gateway, rfl, rfl, hcur, ⟨-, hdirect⟩ | ⟨-, -, hcloser, -⟩⟩ := hstep.hop_cases
  · exact hs.cons hcur (.inl hdirect)
  · exact hs.cons hcur (.inr hcloser)

/-- `BestNeighbor` returns the zero address exactly if no neighbour is nearer to the
    destination; every hop that it chooses goes to a nearest neighbour, which is nearer than
    the node; and no node is visited twice. -/
theorem greedy_loop_free (env : GpsrEnv K) (pos : UInt32 → Vector3D K) (dst : UInt32)
    (dstPos : Vector3D K) :
    (∀ (now : Int) (table : PositionTable K) (nodePos : Vector3D K), table.Accurate pos →
      (table.bestNeighbor env now dstPos nodePos = 0 ↔
        ∀ e ∈ table.unexpired now, ¬ env.calculateDistance (planar (pos e.id)) dstPos <
          env.calculateDistance nodePos dstPos)) ∧
    (∀ (event : GpsrEvent K) cur past s', GreedyStep env pos dst dstPos (cur :: past) event s' →
      ∃ gateway, s' = gateway :: cur :: past ∧
        ((event.direct env dst = true ∧ gateway = dst) ∨
          (event.direct env dst = false ∧ HopDescends env pos dstPos event cur gateway))) ∧
    ∀ (origin : UInt32) (events : List (GpsrEvent K)) (s : List UInt32),
      Run (GreedyStep env pos dst dstPos) [origin] events s → s.Nodup := by
  refine ⟨fun now table nodePos h => ?_, fun event cur past s' hstep => ?_,
    fun origin events s hrun => (descends_of_run hrun).nodup⟩
  · rw [bestNeighbor_eq_zero h.id_ne]
    constructor
    -- Each distance is that of the true position
    · intro hno e he
      rw [← h.position_eq e (List.mem_of_mem_filter he)]
      exact hno e he
    · intro hno e he
      rw [h.position_eq e (List.mem_of_mem_filter he)]
      exact hno e he
  · obtain ⟨_, _, gateway, heq, rfl, -, hhop⟩ := hstep.hop_cases
    cases heq
    exact ⟨gateway, rfl, hhop⟩

end Hops

/-! ### Three nodes in a line -/

/-- The distance along the line. -/
def lineEnv : GpsrEnv Int := ⟨fun a b => (a.x - b.x).natAbs, ⟨0, ⟨0, 0, 0⟩, 0⟩⟩

def linePos (id : UInt32) : Vector3D Int := ⟨10 * id.toNat, 0, 0⟩

/-- A node that has heard from one other node. -/
def lineTable (id : UInt32) : PositionTable Int :=
  ⟨[⟨id, linePos id, 5⟩], List.pairwise_singleton ..⟩

def lineService : LocationService Int := ⟨linePos, fun _ => 0, ⟨-1, -1, 0⟩, fun _ => false⟩

/-- The packet leaves the first node, and is forwarded by the second one. -/
def lineEvents : List (GpsrEvent Int) :=
  [.routeOutput 6 (lineTable 2) lineService true true false,
    .forwarding 7 (lineTable 3) lineService true (some ⟨10, 0, 30, 0, 0, 0, 0, 0, 10, 0⟩)]

/-- The tables of the example are accurate. -/
private theorem lineTable_accurate (id : UInt32) (hid : id ≠ 0) :
    (lineTable id).Accurate linePos where
  id_ne := by simpa [lineTable] using hid
  position_eq := by simp [lineTable, planar, linePos]

/-- A run along a line. -/
theorem greedy_loop_free_line :
    (∃ s, Run (GreedyStep lineEnv linePos 3 ⟨30, 0, 0⟩) [1] lineEvents s ∧ s = [3, 2, 1] ∧
      s.Nodup) ∧
    ((lineTable 2).bestNeighbor lineEnv 6 ⟨30, 0, 0⟩ (linePos 1) = 0 ↔
      ∀ e ∈ (lineTable 2).unexpired 6, ¬ lineEnv.calculateDistance (planar (linePos e.id))
        ⟨30, 0, 0⟩ < lineEnv.calculateDistance (linePos 1) ⟨30, 0, 0⟩) := by
  obtain ⟨hzero, -, hnodup⟩ := greedy_loop_free lineEnv linePos 3 ⟨30, 0, 0⟩
  -- Two hops along the line: out of the node 1, then forwarded by the node 2
  have hfirst : GreedyStep lineEnv linePos 3 ⟨30, 0, 0⟩ [1]
      (.routeOutput 6 (lineTable 2) lineService true true false) [2, 1] :=
    .hop (by decide) (lineTable_accurate 2 (by decide)) rfl (by decide)
  have hsecond : GreedyStep lineEnv linePos 3 ⟨30, 0, 0⟩ [2, 1]
      (.forwarding 7 (lineTable 3) lineService true (some ⟨10, 0, 30, 0, 0, 0, 0, 0, 10, 0⟩))
      [3, 2, 1] :=
    .hop (by decide) (lineTable_accurate 3 (by decide)) rfl (by decide)
  have hrun := (Run.nil.snoc hfirst).snoc hsecond
  exact ⟨⟨_, hrun, rfl, hnodup _ _ _ hrun⟩,
    hzero 6 (lineTable 2) (linePos 1) (lineTable_accurate 2 (by decide))⟩

end MapRelay.NS3.Gpsr
