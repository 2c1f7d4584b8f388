import MapRelay.ForStd.Ends
import MapRelay.ForStd.Run
import MapRelay.Native.AodvNeighbors
import MapRelay.Spec.Forward
import MapRelay.Spec.Geohash
import MapRelay.Spec.Neighbors

/-!
# When the assertions about the neighbour table hold

`mbr_forward` asserts that the entry of the destination has a geohash, and that the relay has
an address. Both rest on the table having no entry with a zero in either place. An entry is
made from what the first `Update` for an address says, and neither writer of the table tests
it: a position outside the area has the geohash 0, and a miss in the ARP caches gives the
zero address.
-/

namespace MapRelay.NS3

open ForStd

/-! ## Code that does not assert -/

/-- The assertion is not what makes the step fail. -/
def NoAssert {α : Type} (x : Except Fault α) : Prop := x ≠ .error .assertFailed

section NoAssert

variable {α β : Type}

/-- What returns does not assert. -/
theorem NoAssert.ok (a : α) : NoAssert (.ok a : Except Fault α) := by
  simp [NoAssert]

/-- Steps that do not assert do not assert one after the other. -/
theorem NoAssert.bind {x : Except Fault α} {f : α → Except Fault β} (hx : NoAssert x)
    (hf : ∀ a, NoAssert (f a)) : NoAssert (x >>= f) :=
  bind_ne_error hx fun a _ => hf a

/-- A loop does not assert if its body does not. -/
theorem NoAssert.foldlM {f : β → α → Except Fault β} (hf : ∀ b a, NoAssert (f b a))
    (l : List α) (b : β) : NoAssert (l.foldlM f b) :=
  foldlM_ne_error hf l b

/-- Following a pointer does not assert, although the pointer may be a bad one. -/
private theorem noAssert_deref (h : Heap α) (p : Addr) : NoAssert (h.deref p) := by
  unfold Heap.deref
  split
  · simp [NoAssert]
  · split <;> simp [NoAssert]

end NoAssert

section Search

variable {A : Type} (g : Graph A)

/-- Comparing two ids does not assert. -/
private theorem noAssert_sameId (v w : Addr) : NoAssert (sameId g v w) :=
  .bind (noAssert_deref _ _) fun _ => .bind (noAssert_deref _ _) fun _ => .ok _

/-- Reading an entry of the queue does not assert. -/
private theorem noAssert_entryAt (q : List PathEntry) (i : Nat) : NoAssert (entryAt q i) := by
  unfold entryAt
  split <;> simp [NoAssert]

/-- Reading the road of an entry does not assert. -/
private theorem noAssert_roadId (p : PathEntry) : NoAssert p.roadId := by
  unfold PathEntry.roadId
  split <;> simp [NoAssert]

/-- The walk back through the queue does not assert. -/
private theorem noAssert_crossnodeLoop (q : List PathEntry) (fuel i : Nat) (second : Int32)
    (ver : Addr) (count : Nat) : NoAssert (crossnodeLoop q fuel i second ver count) := by
  induction fuel generalizing i second ver count with
  | zero => simp [crossnodeLoop, NoAssert]
  | succ fuel ih =>
    refine .bind (noAssert_entryAt q i) fun p => ?_
    split
    · exact .ok _
    · refine .bind (noAssert_roadId p) fun roadId => ?_
      split <;> exact ih _ _ _ _

/-- Printing the crossings does not assert. -/
private theorem noAssert_printCrossnode (q : List PathEntry) (i : Nat) :
    NoAssert (printCrossnode q i) := by
  refine .bind (noAssert_entryAt q i) fun p => ?_
  split
  · exact .ok _
  · exact .bind (noAssert_roadId p) fun _ =>
      .bind (noAssert_crossnodeLoop q _ _ _ _ _) fun _ => .ok _

/-- The visit of an edge does not assert. -/
private theorem noAssert_visitEdge (target : Addr) (index : Nat) (s : Search) (e : Edge) :
    NoAssert (visitEdge g target index s e) := by
  refine .bind ?_ fun s => ?_
  -- Reaching a vertex compares ids, which the graph answers without an assertion
  · unfold reachVertex
    split
    · split
      · refine .bind (noAssert_sameId g _ _) fun same => ?_
        split <;> exact .ok _
      · exact .ok _
    · refine .bind (noAssert_sameId g _ _) fun same => ?_
      split <;> exact .ok _
  -- Collecting reads the crossings off the path, which has a lemma of its own
  · unfold collect
    split
    · refine .bind (noAssert_printCrossnode _ _) fun v => ?_
      split <;> exact .ok _
    · exact .ok _
    · exact .ok _

/-- The whole search does not assert. -/
private theorem noAssert_searchQueue (target : Addr) (fuel index : Nat) (s : Search) :
    NoAssert (searchQueue g target fuel index s) := by
  induction fuel generalizing index s with
  | zero => simp [searchQueue, NoAssert]
  | succ fuel ih =>
    unfold searchQueue
    split
    · exact .ok _
    · refine .bind (noAssert_sameId g _ _) fun same => ?_
      split
      · exact .ok _
      · refine .bind (noAssert_deref _ _) fun v => ?_
        exact .bind (.foldlM (noAssert_visitEdge g target index) _ _) fun s => ih _ s

end Search

section Vertex

variable {K : Type}

/-- The search for the three nearest vertices does not assert. -/
private theorem noAssert_threeNearest {A : Type} (g : Graph A) (geoHash : UInt64) (ps : List Addr)
    (s : ThreeNearest) : NoAssert (threeNearest g geoHash ps s) := by
  induction ps generalizing s with
  | nil => exact .ok _
  | cons p rest ih =>
    refine .bind (noAssert_deref _ _) fun index => ?_
    dsimp only
    split_ifs <;> exact ih _

/-- The choice of the nearest vertex does not assert. -/
private theorem noAssert_nearestOf [LinearOrder K] (env : MapEnv K) (g : Graph (Site K)) (x y : K)
    (ps : List Addr) (distmin : K) (vmin : Addr) :
    NoAssert (nearestOf env g x y ps distmin vmin) := by
  induction ps generalizing distmin vmin with
  | nil => exact .ok _
  | cons p rest ih =>
    unfold nearestOf
    split
    · exact .ok _
    · refine .bind (noAssert_deref _ _) fun v => ?_
      split <;> exact ih _ _

variable [Field K] [LinearOrder K] (env : MapEnv K) (g : Graph (Site K))

/-- The search by distance does not assert. -/
private theorem noAssert_findVertexBySquare (x y : K) (ps : List Addr) (distmin : K) (vmin : Addr) :
    NoAssert (findVertexBySquare env g x y ps distmin vmin) := by
  induction ps generalizing distmin vmin with
  | nil => exact .ok _
  | cons p rest ih =>
    refine .bind (noAssert_deref _ _) fun index => ?_
    split <;> exact ih _ _

/-- The search for the vertex of a vehicle does not assert. -/
private theorem noAssert_findVertexByVehiclePosition (memory : Addr) (geoHash : UInt64) (x y : K) :
    NoAssert (findVertexByVehiclePosition env memory g geoHash x y) := by
  refine .bind (noAssert_threeNearest g geoHash _ _) fun s => ?_
  refine .bind (noAssert_nearestOf env g x y _ _ _) fun r => ?_
  dsimp only
  split_ifs
  · exact noAssert_findVertexBySquare env g x y _ _ _
  · exact .ok _

end Vertex

/-! ## The entries of the table -/

section Table

variable {K : Type} {nb : List (Neighbor K)} {now : Int} {b : Beacon K}

/-- No entry of the table has a zero geohash or a zero address. -/
def NoZeros (nb : List (Neighbor K)) : Prop :=
  ∀ e ∈ nb, e.geohash ≠ 0 ∧ e.hardwareAddress ≠ Mac48Address.zero

/-- `Update` may be called with `b`: there is an entry for the address, or the new entry has
    neither a zero geohash nor a zero address, or it is dropped at once. -/
def UpdateAllowed (nb : List (Neighbor K)) (b : Beacon K) : Prop :=
  (∃ e ∈ nb, e.ipAddress = b.addr) ∨ (b.geohash ≠ 0 ∧ b.mac ≠ Mac48Address.zero) ∨ b.expire < 0

/-- A purge brings no zeros. -/
private theorem noZeros_purge (h : NoZeros nb) (now : Int) : NoZeros (purge now nb) :=
  fun e he => h e (List.mem_filter.mp he).1

/-- A refreshed entry keeps its geohash, and its address unless that was zero. -/
private theorem noZeros_refresh {nb' : List (Neighbor K)} (h : NoZeros nb)
    (hrefresh : refresh now b nb = some nb') : NoZeros nb' := by
  induction nb generalizing nb' with
  | nil => cases hrefresh
  | cons i rest ih =>
    obtain ⟨hi, hrest⟩ := List.forall_mem_cons.mp h
    rw [refresh] at hrefresh
    split at hrefresh
    · cases hrefresh
      refine List.forall_mem_cons.mpr ⟨⟨hi.1, ?_⟩, hrest⟩
      rw [if_neg hi.2]
      exact hi.2
    · obtain ⟨rest', hrest', rfl⟩ := Option.map_eq_some_iff.mp hrefresh
      exact List.forall_mem_cons.mpr ⟨hi, ih hrest hrest'⟩

/-- A table without zeros has none after an `Update` exactly if that is allowed. -/
private theorem noZeros_update_iff (h : NoZeros nb) :
    NoZeros (update now b nb) ↔ UpdateAllowed nb b := by
  unfold update
  cases hrefresh : refresh now b nb with
  | some nb' =>
    -- The address has an entry
    rcases refresh_cases now b nb with ⟨hnone, -⟩ | ⟨l₁, e, e', l₂, rfl, -, hip, -⟩
    · cases hrefresh.symm.trans hnone
    · exact iff_of_true (noZeros_refresh h hrefresh) (.inl ⟨e, by simp, hip⟩)
  | none =>
    rcases refresh_cases now b nb with ⟨-, hnew⟩ | ⟨l₁, e, e', l₂, -, hsome, -⟩
    · have hkeep : b.neighbor now ∈ purge now (nb ++ [b.neighbor now]) ↔ ¬ b.expire < 0 := by
        simp [purge, Beacon.neighbor]
      constructor
      · intro hall
        by_cases hexpired : b.expire < 0
        · exact .inr (.inr hexpired)
        · exact .inr (.inl (hall _ (hkeep.mpr hexpired)))
      · intro hallowed e he
        have hmem := (List.mem_filter.mp he).1
        rcases List.mem_append.mp hmem with hmem | hmem
        · exact h e hmem
        · rw [List.mem_singleton.mp hmem] at he ⊢
          rcases hallowed with ⟨d, hd, hip⟩ | hcomplete | hexpired
          · exact absurd hip (hnew d hd)
          · exact hcomplete
          · exact absurd hexpired (hkeep.mp he)
    · cases hrefresh.symm.trans hsome

/-- Purging twice at one time is purging once. -/
theorem purge_purge (now : Int) (nb : List (Neighbor K)) :
    purge now (purge now nb) = purge now nb := by
  simp [purge, List.filter_filter]

/-- AODV purges the table a second time, which drops nothing that `Update` has kept. -/
private theorem noZeros_purge_update_iff (h : NoZeros nb) :
    NoZeros (purge now (update now b nb)) ↔ UpdateAllowed nb b := by
  constructor
  · intro hall
    refine (noZeros_update_iff h).mp (?_ : NoZeros (update now b nb))
    unfold update at hall ⊢
    cases hrefresh : refresh now b nb with
    | some nb' => exact noZeros_refresh h hrefresh
    | none =>
      rw [hrefresh] at hall
      exact purge_purge now _ ▸ hall
  · intro hallowed
    exact noZeros_purge ((noZeros_update_iff h).mpr hallowed) now

end Table

/-! ## The assertions -/

/-- The query for the destination finds an entry of the table. -/
private theorem noAssert_getGeohashFromIpInNb {K : Type} {nb : List (Neighbor K)} (hnb : NoZeros nb)
    (now : Int) (ip : UInt32) : NoAssert (getGeohashFromIpInNb now nb ip) := by
  unfold getGeohashFromIpInNb
  cases hfind : (purge now nb).find? (·.ipAddress == ip) with
  | none => exact .ok _
  | some e =>
    have hgeo := (noZeros_purge hnb now e (List.mem_of_find?_eq_some hfind)).1
    simp only [if_neg hgeo]
    exact .ok _

section Forwarding

variable {K : Type} [Field K] [LinearOrder K] {sumomap : MbrSumo K} {memory : Addr} {now : Int}
  {nb : List (Neighbor K)} {route : MbrRoute}

/-- With a table without zeros the loop of `mbr_forward` does not assert. -/
private theorem noAssert_forwardLoop (h : NoZeros nb) (dstGeohash : UInt64) (toMac : Mac48Address)
    (dst this : K × K) (list : List Addr) :
    NoAssert (forwardLoop sumomap now nb route dstGeohash toMac dst this list) := by
  -- Vertex after vertex of the list until one has a neighbour
  induction list with
  | nil => exact .ok _
  | cons p rest ih =>
    refine .bind (noAssert_deref _ _) fun v => ?_
    dsimp only
    split
    · exact .ok _
    · rcases getnbFromsetBest_cases now nb v.geoHash with ⟨hnone, -⟩ | ⟨relay, hmem, -, hbest⟩
      · rw [hnone]
        exact ih
      · -- The relay is an entry of the table
        have hrelay := (noZeros_purge h now relay hmem).2
        rw [hbest]
        dsimp only
        rw [if_neg hrelay]
        split <;> exact .ok _

variable [FloorRing K]

/-- With a table without zeros no assertion of `mbr_forward` fails. -/
private theorem noAssert_mbrForward {thisnode : MbrNode K}
    (h : ∀ nb, thisnode.nb = some nb → NoZeros nb)
    (dest : UInt32) : NoAssert (mbrForward sumomap memory now thisnode route dest) := by
  unfold mbrForward
  -- Without a node or a table nothing is asked
  split
  · exact .ok _
  · cases htable : thisnode.nb with
    | none => exact .ok _
    | some nb =>
      have hnb := h nb htable
      -- The geohash of the destination, the vertices of both ends, the search, the relay
      refine .bind (noAssert_getGeohashFromIpInNb hnb now dest) fun reply => ?_
      split
      · exact .ok _
      · refine .bind ?_ fun list => ?_
        · refine .bind (noAssert_findVertexByVehiclePosition _ _ _ _ _ _) fun _ => ?_
          refine .bind (noAssert_findVertexByVehiclePosition _ _ _ _ _ _) fun _ => ?_
          exact noAssert_searchQueue _ _ _ _ _
        · split
          · exact .ok _
          · exact noAssert_forwardLoop hnb _ _ _ _ _

end Forwarding

/-! ## Runs -/

variable {K : Type} [Field K] [LinearOrder K] [FloorRing K] {env : SumoEnv K} {waveExpire : Int}
  {s : VehicleState K}

/-- What the event hands to `Update` of the neighbour table. -/
def VehicleEvent.beacon (env : SumoEnv K) (waveExpire : Int) :
    VehicleEvent K → Option (Beacon K)
  | .receiveWavePacket packet => some (waveBeacon env waveExpire packet)
  | .aodvUpdate arp nodes addr expire => some (aodvBeacon env arp nodes addr expire)
  | .purge => none

/-- The `Update` of the event is allowed, if there is one. -/
def EventAllowed (env : SumoEnv K) (waveExpire : Int) (nb : List (Neighbor K))
    (event : VehicleEvent K) : Prop :=
  ∀ b, event.beacon env waveExpire = some b → UpdateAllowed nb b

section Positions

variable [IsStrictOrderedRing K]

/-- The position is in the area, and not in the cell of it that has the geohash 0. -/
def HasCell (env : SumoEnv K) (x y : K) : Prop :=
  InArea latRangeConst lonRangeConst (sumoCartesian2GPS env x y).2
      (sumoCartesian2GPS env x y).1 ∧
    ¬ InFirstCell latRangeConst lonRangeConst (sumoCartesian2GPS env x y).2
      (sumoCartesian2GPS env x y).1

/-- The geohash is not zero exactly for the positions with a cell of their own. -/
private theorem sumoCartesian2Geohash_ne_zero_iff (env : SumoEnv K) (x y : K) :
    sumoCartesian2Geohash env x y ≠ 0 ↔ HasCell env x y := by
  rw [ne_eq, sumoCartesian2Geohash_eq_zero_iff, not_or, not_not, HasCell]

/-- A beacon is allowed if its sender has an entry, or has an address and is in a cell of its
    own. -/
theorem eventAllowed_receive_iff (nb : List (Neighbor K)) (packet : WavePacket K) :
    EventAllowed env waveExpire nb (.receiveWavePacket packet) ↔
      (∃ e ∈ nb, e.ipAddress = packet.origin) ∨
        (HasCell env packet.x packet.y ∧ packet.mac ≠ Mac48Address.zero) ∨ waveExpire < 0 := by
  rw [← sumoCartesian2Geohash_ne_zero_iff]
  simp only [EventAllowed, VehicleEvent.beacon, Option.some.injEq, forall_eq', UpdateAllowed]
  rfl

/-- A link of AODV is allowed if the neighbour has an entry, or is found in an ARP cache and
    is in a cell of its own. -/
theorem eventAllowed_aodv_iff (nb : List (Neighbor K)) (arp : List ArpCache)
    (nodes : List (NodePosition K)) (addr : UInt32) (expire : Int) :
    EventAllowed env waveExpire nb (.aodvUpdate arp nodes addr expire) ↔
      (∃ e ∈ nb, e.ipAddress = addr) ∨
        (HasCell env (getPosition nodes addr).1 (getPosition nodes addr).2 ∧
          lookupMacAddress arp addr ≠ Mac48Address.zero) ∨ expire < 0 := by
  rw [← sumoCartesian2Geohash_ne_zero_iff]
  simp only [EventAllowed, VehicleEvent.beacon, Option.some.injEq, forall_eq', UpdateAllowed]
  rfl

end Positions

/-- An event whose `Update` is allowed. -/
def AllowedStep (env : SumoEnv K) (waveExpire : Int) (s : VehicleState K)
    (event : Int × VehicleEvent K) (s' : VehicleState K) : Prop :=
  EventAllowed env waveExpire s.tables.mbr event.2 ∧ VehicleStep env waveExpire s event s'

/-- A table without zeros has none after an event exactly if the event is allowed. -/
private theorem noZeros_apply_iff (h : NoZeros s.tables.mbr) (now : Int) (event : VehicleEvent K) :
    NoZeros (event.apply env waveExpire now s.tables).mbr ↔
      EventAllowed env waveExpire s.tables.mbr event := by
  cases event with
  | receiveWavePacket packet =>
    simp only [EventAllowed, VehicleEvent.beacon, Option.some.injEq, forall_eq']
    exact noZeros_update_iff h
  | aodvUpdate arp nodes addr expire =>
    simp only [EventAllowed, VehicleEvent.beacon, Option.some.injEq, forall_eq']
    exact noZeros_purge_update_iff h
  | purge =>
    simp only [EventAllowed, VehicleEvent.beacon, reduceCtorEq, false_implies, implies_true,
      iff_true]
    exact noZeros_purge h now

/-- In every run of allowed events the table has no zeros and the assertions of `mbr_forward`
    hold, and a further event puts a zero into the table exactly if it is not allowed. -/
theorem asserts_hold_of_run {t₀ : Int} {events : List (Int × VehicleEvent K)}
    (hrun : Run (AllowedStep env waveExpire) ⟨t₀, [], []⟩ events s) :
    NoZeros s.tables.mbr ∧
      (∀ (sumomap : MbrSumo K) (memory : Addr) (now : Int) (x y : K) (route : MbrRoute)
        (dest : UInt32), mbrForward sumomap memory now ⟨x, y, some s.tables.mbr⟩ route dest ≠
          .error .assertFailed) ∧
      ∀ now event, NoZeros (event.apply env waveExpire now s.tables).mbr ↔
        EventAllowed env waveExpire s.tables.mbr event := by
  -- In the beginning there is no entry
  have hempty : NoZeros (⟨t₀, [], []⟩ : VehicleState K).tables.mbr := fun e he => nomatch he
  -- Each allowed event keeps the zeros out
  have hsound : NoZeros s.tables.mbr := by
    refine hrun.invariant (I := fun s => NoZeros s.tables.mbr) hempty ?_
    rintro s event s' hs ⟨hallowed, -, rfl⟩
    exact (noZeros_apply_iff hs event.1 event.2).mpr hallowed
  refine ⟨hsound, ?_, fun now event => noZeros_apply_iff hsound now event⟩
  intro sumomap memory now x y route dest
  refine noAssert_mbrForward (fun nb hnb => ?_) dest
  cases hnb
  exact hsound

/-- A beacon of a vehicle in the area. -/
def beaconInArea : WavePacket ℚ :=
  ⟨1, .ofBytes 2 0 0 0 0 1, 0, 116.4, 39.9, 116.4, 39.9⟩

/-- A beacon of a vehicle east of the area. -/
def beaconOutside : WavePacket ℚ :=
  ⟨2, .ofBytes 2 0 0 0 0 2, 0, 117, 39.9, 117, 39.9⟩

/-- There is a run in the area with an entry in the table. -/
theorem asserts_hold_of_run_in_area :
    ∃ s, Run (AllowedStep blockMap.sumo 350) ⟨0, [], []⟩
        [(10, .receiveWavePacket beaconInArea), (20, .purge)] s ∧
      s.tables.mbr ≠ [] ∧ NoZeros s.tables.mbr := by
  have hgeo : sumoCartesian2Geohash blockMap.sumo 116.4 39.9 ≠ 0 := by decide +kernel
  have hbeacon : AllowedStep blockMap.sumo 350 ⟨0, [], []⟩ (10, .receiveWavePacket beaconInArea)
      ⟨10, [], [(waveBeacon blockMap.sumo 350 beaconInArea).neighbor 10]⟩ := by
    -- The beacon comes from a place within the area
    refine ⟨fun b hb => ?_, by decide, rfl⟩
    cases hb
    exact .inr (.inl ⟨hgeo, by decide⟩)
  have hpurge : AllowedStep blockMap.sumo 350
      ⟨10, [], [(waveBeacon blockMap.sumo 350 beaconInArea).neighbor 10]⟩ (20, .purge)
      ⟨20, [], [(waveBeacon blockMap.sumo 350 beaconInArea).neighbor 10]⟩ :=
    ⟨fun b hb => (nomatch hb), by decide, rfl⟩
  have hrun := (Run.nil.snoc hbeacon).snoc hpurge
  exact ⟨_, hrun, List.cons_ne_nil _ _, (asserts_hold_of_run hrun).1⟩

/-- A beacon from outside the area makes an entry with the geohash 0, and a packet to its
    sender fails an assertion. A link of AODV to a vehicle that is in no ARP cache makes an
    entry with the zero address. -/
theorem zeros_enter_table :
    (∃ s, Run (VehicleStep blockMap.sumo 350) ⟨0, [], []⟩
        [(10, .receiveWavePacket beaconOutside)] s ∧
      ¬ NoZeros s.tables.mbr ∧
      mbrForward blockMap NULL 20 ⟨0, 0, some s.tables.mbr⟩ .initial 2 =
        .error .assertFailed) ∧
    ∃ s, Run (VehicleStep blockMap.sumo 350) ⟨0, [], []⟩
        [(10, .aodvUpdate [] [⟨3, 116.4, 39.9⟩] 3 1000)] s ∧
      ∃ e ∈ s.tables.mbr, e.hardwareAddress = Mac48Address.zero ∧ e.geohash ≠ 0 := by
  have hout : sumoCartesian2Geohash blockMap.sumo 117 39.9 = 0 := by decide +kernel
  have hin : sumoCartesian2Geohash blockMap.sumo 116.4 39.9 ≠ 0 := by decide +kernel
  -- A beacon from outside the area has the geohash 0, a link without ARP entry the zero address
  constructor
  · refine ⟨_, Run.nil.snoc ⟨by decide, rfl⟩, ?_, by decide +kernel⟩
    intro hall
    exact (hall _ (List.mem_singleton_self _)).1 hout
  · refine ⟨_, Run.nil.snoc ⟨by decide, rfl⟩, _, List.mem_singleton_self _, rfl, ?_⟩
    exact hin

end MapRelay.NS3
