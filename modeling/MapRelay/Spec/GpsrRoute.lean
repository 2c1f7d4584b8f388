import MapRelay.ForStd.Detour
import MapRelay.ForStd.Run
import MapRelay.Native.GpsrRoute
import MapRelay.Spec.Gpsr
import MapRelay.Spec.RecoveryEntry

/-!
# A packet is forwarded greedily by no node twice

In the recovery mode a packet goes where the angles lead it, and it may come by a node again and
again. But it leaves this mode only at a node that is nearer to the destination than the one
where it has entered it, so that over all its way the nodes that handle it in greedy mode come
nearer and nearer to the destination.
-/

namespace MapRelay.NS3.Gpsr

open ForStd
open Relation (ReflTransGen)

variable {K : Type} [Field K] [LinearOrder K]

section Table

variable {env : RecoveryEnv K} {now : Int} {t : NeighborTable K} {e : PositionEntry K}

namespace NeighborTable

omit [LinearOrder K] in
/-- With its own table, the neighbours are the entries. -/
theorem mem_neighbours_own (hown : t.nbFromMbr = false) :
    e ∈ t.neighbours env now ↔ ∃ i ∈ t.table.entries, { i with updateTime := now } = e := by
  simp [neighbours, hown]

omit [LinearOrder K] in
/-- A purge brings no neighbours. -/
private theorem mem_neighbours_purge (he : e ∈ (t.purge env.toGpsrEnv now).neighbours env now) :
    e ∈ t.neighbours env now := by
  cases hmbr : t.nbFromMbr with
  | true =>
    rw [purge, dif_pos hmbr] at he
    exact he
  | false =>
    have hpurge : (t.purge env.toGpsrEnv now).nbFromMbr = false := by simp [purge, hmbr]
    obtain ⟨i, hi, rfl⟩ := (mem_neighbours_own hpurge).mp he
    have hkept : i ∈ (t.table.purge env.toGpsrEnv now).entries := by
      simpa [purge, hmbr] using hi
    exact (mem_neighbours_own hmbr).mpr ⟨i, PositionTable.mem_purge hkept, rfl⟩

omit [LinearOrder K] in
/-- `isNeighbour` brings no neighbours. -/
private theorem mem_neighbours_isNeighbour {id : UInt32}
    (he : e ∈ (t.isNeighbour env.toGpsrEnv now id).2.neighbours env now) :
    e ∈ t.neighbours env now := by
  cases hmbr : t.nbFromMbr with
  | true =>
    simp only [isNeighbour, hmbr, if_true, neighbours, List.mem_map] at he ⊢
    obtain ⟨i, hi, rfl⟩ := he
    exact ⟨i, List.mem_of_mem_filter hi, rfl⟩
  | false =>
    simpa [isNeighbour, hmbr] using he

omit [LinearOrder K] in
/-- An accurate table is accurate after a purge. -/
theorem Accurate.purge {pos : UInt32 → Vector3D K} (h : t.Accurate env now pos) :
    (t.purge env.toGpsrEnv now).Accurate env now pos :=
  fun e he => h e (mem_neighbours_purge he)

omit [LinearOrder K] in
/-- An accurate table is accurate after `isNeighbour`. -/
theorem Accurate.isNeighbour {pos : UInt32 → Vector3D K} (h : t.Accurate env now pos)
    (id : UInt32) : (t.isNeighbour env.toGpsrEnv now id).2.Accurate env now pos :=
  fun e he => h e (mem_neighbours_isNeighbour he)

/-- In either mode the best neighbour is nearer than the node. -/
private theorem exists_of_bestNeighbor {position nodePos : Vector3D K} {hop : UInt32}
    (h : (t.bestNeighbor env now position nodePos).1 = hop) (hne : hop ≠ 0) :
    ∃ e ∈ t.neighbours env now, e.id = hop ∧ env.calculateDistance e.position position <
      env.calculateDistance nodePos position := by
  -- Either the neighbours of the MBR module or the own table
  cases hmbr : t.nbFromMbr with
  | true =>
    simp only [bestNeighbor, hmbr, if_true] at h
    split at h
    · exact absurd h.symm hne
    -- The first neighbour and the better ones the loop finds after it
    · next first rest hentries =>
      obtain ⟨b, hbest, hfound⟩ :=
        PositionTable.bestFound_eq env.toGpsrEnv position rest first
      dsimp only at h
      rw [hfound] at h
      split at h
      · next hcloser => exact ⟨b, hentries ▸ mem_of_firstBest hbest, h, hcloser⟩
      · exact absurd h.symm hne
  -- The own table has the same rule, on the entries that have not expired
  | false =>
    simp only [bestNeighbor, hmbr, Bool.false_eq_true, if_false] at h
    rcases PositionTable.bestNeighbor_cases env.toGpsrEnv now t.table position nodePos with
      ⟨hzero, -⟩ | ⟨i, hbest, heq⟩
    · exact absurd (h.symm.trans hzero) hne
    · refine ⟨{ i with updateTime := now }, ?_, heq.symm.trans h, hbest.closer⟩
      exact (mem_neighbours_own hmbr).mpr ⟨i, PositionTable.mem_purge hbest.mem, rfl⟩

end NeighborTable

end Table

/-! ## What the calls do with a packet -/

section Calls

variable {env : RecoveryEnv K} {now : Int} {t t' : NeighborTable K} {pos : UInt32 → Vector3D K}
  {locationService : LocationService K} {hdr hdr' : PositionHeader K} {node dst : UInt32}

/-- Where the packet is going, by its header. -/
def PositionHeader.dstPosition (hdr : PositionHeader K) : Vector3D K :=
  ⟨hdr.dstPosx, hdr.dstPosy, 0⟩

/-- The distance of a node from the destination. -/
def remaining (env : GpsrEnv K) (pos : UInt32 → Vector3D K) (dst node : UInt32) : K :=
  env.calculateDistance (planar (pos node)) (planar (pos dst))

/-- A packet that is not in recovery does not enter it here. -/
private theorem stillInRec_of_new (h : hdr.inRec = 0) (env : GpsrEnv K) (myPos : Vector3D K) :
    hdr.stillInRec env myPos = 0 := by
  simp [PositionHeader.stillInRec, h]

/-- In the recovery mode a packet stays in it until it is nearer than where it began. -/
private theorem stillInRec_of_recovery (h : hdr.inRec = 1) (env : GpsrEnv K) (myPos : Vector3D K) :
    (env.calculateDistance myPos hdr.dstPosition <
        env.calculateDistance hdr.recPosition hdr.dstPosition ∧
          hdr.stillInRec env myPos = 0) ∨
      (¬ env.calculateDistance myPos hdr.dstPosition <
        env.calculateDistance hdr.recPosition hdr.dstPosition ∧
          hdr.stillInRec env myPos = 1) := by
  by_cases hlt : env.calculateDistance myPos hdr.dstPosition <
      env.calculateDistance hdr.recPosition hdr.dstPosition
  · exact .inl ⟨hlt, if_pos ⟨h, hlt⟩⟩
  · exact .inr ⟨hlt, (if_neg fun h' => hlt h'.2).trans h⟩

omit [LinearOrder K] in
/-- A node that knows where the destination is finds nothing else in its location service. -/
private theorem destination_of_eq (hposition : locationService.getPosition dst = planar (pos dst))
    (hhdr : hdr.dstPosition = planar (pos dst)) :
    (hdr.destination locationService dst).1 = planar (pos dst) := by
  unfold PositionHeader.destination
  split
  · exact hposition
  · exact hhdr

/-- What `Forwarding` does with a packet: a hop in greedy mode, or into the recovery mode, or
    further in it. -/
private theorem forwarding_cases {out : Forwarded K} (haccurate : t.Accurate env now pos)
    (hposition : locationService.getPosition dst = planar (pos dst))
    (hhdr : hdr.dstPosition = planar (pos dst))
    (h : t.forwarding env now locationService (pos node) true (some hdr) dst = (out, t')) :
    (hdr.stillInRec env.toGpsrEnv (planar (pos node)) = 0 ∧
        ((∃ gateway hdr', out = .forward gateway hdr' ∧ hdr'.inRec = 0 ∧
            hdr'.dstPosition = planar (pos dst) ∧ (gateway = dst ∨
              remaining env.toGpsrEnv pos dst gateway < remaining env.toGpsrEnv pos dst node)) ∨
          ∃ hdr', out = .recoveryMode hdr' ∧ hdr'.recPosition = planar (pos node) ∧
            hdr'.dstPosition = planar (pos dst))) ∨
      (hdr.stillInRec env.toGpsrEnv (planar (pos node)) ≠ 0 ∧
        ∃ hdr', out = .recoveryMode hdr' ∧ hdr'.recPosition = hdr.recPosition ∧
          hdr'.dstPosition = planar (pos dst)) := by
  have hdestination := destination_of_eq hposition hhdr
  have hwritten : planar (hdr.destination locationService dst).1 = planar (pos dst) := by
    rw [hdestination, planar_planar]
  have hknown := haccurate.purge.isNeighbour dst
  unfold NeighborTable.forwarding at h
  simp only [Bool.true_eq_false, if_false, Option.getD_some] at h
  split at h
  · next hrecovery =>
    -- `RecoveryMode` gets the header as it is
    cases h
    exact .inr ⟨hrecovery, _, rfl, rfl, hhdr⟩
  next hgreedy =>
  refine .inl ⟨not_not.mp hgreedy, ?_⟩
  split at h
  · -- The destination is a neighbour
    cases h
    exact .inl ⟨dst, _, rfl, rfl, hwritten, .inl rfl⟩
  split at h
  · -- A neighbour is nearer
    next hhop =>
    cases h
    obtain ⟨e, he, hid, hcloser⟩ := NeighborTable.exists_of_bestNeighbor rfl hhop
    rw [(hknown e he).2, hid] at hcloser
    exact .inl ⟨_, _, rfl, rfl, hwritten, .inr (hdestination ▸ hcloser)⟩
  · cases h
    exact .inr ⟨_, rfl, rfl, hhdr⟩

/-- A hop in the recovery mode keeps the position where the packet has entered it. -/
private theorem recoveryMode_forward {gateway : UInt32} {myPos : Vector3D K}
    (h : recoveryMode env now t myPos true (some hdr) = .forward gateway hdr') :
    hdr'.inRec = 1 ∧ hdr'.recPosition = hdr.recPosition ∧ hdr'.dstPosition = hdr.dstPosition := by
  unfold recoveryMode at h
  simp only [Bool.true_eq_false, if_false, Option.getD_some] at h
  split at h
  · cases h
  · cases h
    exact ⟨rfl, rfl, rfl⟩

/-- Each packet that the queue gives to `RecoveryMode` has entered it at this node. -/
private theorem recovered_of_mem_recoverQueue {vars : PositionHeader K}
    {queue : List (QueueEntry K)} {call : RecoveryCall K} {myPos : Vector3D K}
    (hcall : call ∈ recoverQueue env now myPos t vars queue)
    (hentry : call.entry = ⟨true, some hdr⟩) :
    ∃ t', call.recovered = recoveryMode env now t' myPos true (some (hdr.queued myPos)) := by
  -- The loop over the queue, each round with the table as the last one has left it
  induction queue generalizing t vars with
  | nil => simp [recoverQueue] at hcall
  | cons p rest ih =>
    rw [recoverQueue] at hcall
    split at hcall
    · simp at hcall
    -- The call of this packet, or one of a later round
    · rcases List.mem_cons.mp hcall with rfl | hcall
      · have hp : p = ⟨true, some hdr⟩ := hentry
        rw [hp]
        exact ⟨t, rfl⟩
      · exact ih hcall

/-- A hop from the queue goes to the destination or to a node that is nearer. -/
private theorem sendPacketFromQueue_forward {queue packets : List (QueueEntry K)} {gateway : UInt32}
    (haccurate : t.Accurate env now pos)
    (hposition : locationService.getPosition dst = planar (pos dst))
    (h : sendPacketFromQueue env now t locationService true (pos node) queue dst =
      .forward gateway packets) :
    gateway = dst ∨
      remaining env.toGpsrEnv pos dst gateway < remaining env.toGpsrEnv pos dst node := by
  have hknown := haccurate.isNeighbour dst
  unfold sendPacketFromQueue at h
  simp only [Bool.true_eq_false, if_false] at h
  split at h
  -- A neighbour is sent to directly
  · cases h
  split at h
  · cases h
    exact .inl rfl
  -- Otherwise the best neighbour, if there is one closer than this node
  split at h
  · cases h
  · next hhop =>
    cases h
    obtain ⟨e, he, hid, hcloser⟩ := NeighborTable.exists_of_bestNeighbor rfl hhop
    rw [(hknown e he).2, hid] at hcloser
    rw [hposition] at hcloser ⊢
    exact .inr hcloser

/-- The calls of `RecoveryMode` from the queue. -/
private theorem sendPacketFromQueue_recovery {queue : List (QueueEntry K)}
    {calls : List (RecoveryCall K)}
    (h : sendPacketFromQueue env now t locationService true (pos node) queue dst =
      .recovery calls) :
    ∃ t', calls = recoverQueue env now (pos node) t' .default queue := by
  -- Only the branch without a closer neighbour calls the recovery mode
  unfold sendPacketFromQueue at h
  simp only [Bool.true_eq_false, if_false] at h
  split at h
  · cases h
  split at h
  · cases h
  split at h
  · cases h
    exact ⟨_, rfl⟩
  · cases h

/-- The first hop of a route. -/
theorem routeOutput_cases {packet interfaces oifDiffers : Bool} {gateway : UInt32}
    (haccurate : t.Accurate env now pos)
    (hposition : locationService.getPosition dst = planar (pos dst))
    (h : t.routeOutput env now locationService (pos node) packet interfaces oifDiffers dst =
      (.route gateway, t')) :
    gateway = dst ∨ (isBoardcast dst = false ∧
      remaining env.toGpsrEnv pos dst gateway < remaining env.toGpsrEnv pos dst node) := by
  have hknown := haccurate.isNeighbour dst
  -- The tests in the order of the source
  unfold NeighborTable.routeOutput at h
  dsimp only at h
  split at h
  · cases h
  split at h
  · cases h
  -- A broadcast goes to its destination at once
  split at h
  · split at h
    · cases h
    · cases h
      exact .inl rfl
  next hunicast =>
  split at h
  · cases h
  -- So does a packet to a neighbour
  cases hdirect : (t.isNeighbour env.toGpsrEnv now dst).1 with
  | true =>
    simp only [hdirect, if_true] at h
    split at h
    · split at h
      · cases h
      · cases h
        exact .inl rfl
    · cases h
  | false =>
    simp only [hdirect, Bool.false_eq_true, if_false] at h
    split at h
    -- BestNeighbor names a neighbour that is closer, at its true position
    · next hhop =>
      split at h
      · cases h
      · cases h
        obtain ⟨e, he, hid, hcloser⟩ := NeighborTable.exists_of_bestNeighbor rfl hhop
        rw [(hknown e he).2, hid] at hcloser
        rw [hposition] at hcloser ⊢
        exact .inr ⟨by simpa using hunicast, hcloser⟩
    · cases h

/-- Only a packet to a single node waits in the queue. -/
private theorem isBoardcast_of_deferred {packet interfaces oifDiffers : Bool}
    (h : t.routeOutput env now locationService (pos node) packet interfaces oifDiffers dst =
      (.deferred, t')) : isBoardcast dst = false := by
  cases hbroadcast : isBoardcast dst with
  | false => rfl
  | true =>
    unfold NeighborTable.routeOutput at h
    simp only [hbroadcast, if_true] at h
    split at h
    · cases h
    split at h
    · cases h
    split at h <;> cases h

omit [LinearOrder K] in
/-- A new header knows where the destination is. -/
private theorem addHeaders_dstPosition (hunicast : isBoardcast dst = false)
    (hposition : locationService.getPosition dst = planar (pos dst)) :
    (addHeaders locationService (pos node) dst).dstPosition = planar (pos dst) := by
  simp [addHeaders, hunicast, hposition, PositionHeader.dstPosition, planar]

end Calls

/-! ## The walk of a packet -/

section Route

variable {env : RecoveryEnv K} {pos : UInt32 → Vector3D K} {dst : UInt32} {r r' : Route K}
  {w : Walk UInt32}

/-- The packet goes the way of the walk: its detour is the way in the recovery mode, and where
    that began is in the header. -/
structure Follows (pos : UInt32 → Vector3D K) (dst : UInt32) (r : Route K) (w : Walk UInt32) :
    Prop where
  place : w.place = r.node
  free : w.free = r.greedy
  dstPosition : r.node ≠ dst → r.hdr.dstPosition = planar (pos dst)
  mode : r.node ≠ dst → (r.hdr.inRec = 0 ∧ w.detour = none) ∨
    (r.hdr.inRec = 1 ∧ ∃ g, w.detour = some g ∧ r.hdr.recPosition = planar (pos g))

/-- The node handles the packet in greedy mode exactly if the walk is free to descend. -/
theorem Follows.stillInRec (h : Follows pos dst r w) (hnode : r.node ≠ dst) :
    (w.Free (remaining env.toGpsrEnv pos dst) ∧
        r.hdr.stillInRec env.toGpsrEnv (planar (pos r.node)) = 0) ∨
      (∃ g, w.detour = some g ∧ r.hdr.recPosition = planar (pos g) ∧
        r.hdr.stillInRec env.toGpsrEnv (planar (pos r.node)) = 1) := by
  -- A new packet, or one in the recovery mode that has come close enough or not
  rcases h.mode hnode with ⟨hnew, hnone⟩ | ⟨hrecovery, g, hdetour, hposition⟩
  · refine .inl ⟨fun s hs => ?_, stillInRec_of_new hnew _ _⟩
    rw [hnone] at hs
    cases hs
  · rcases stillInRec_of_recovery hrecovery env.toGpsrEnv (planar (pos r.node)) with
      ⟨hlt, hstill⟩ | ⟨-, hstill⟩
    · rw [hposition, h.dstPosition hnode, ← h.place] at hlt
      refine .inl ⟨fun s hs => ?_, hstill⟩
      cases hdetour.symm.trans hs
      exact hlt
    · exact .inr ⟨g, hdetour, hposition, hstill⟩

/-- A new packet goes freely. -/
private theorem Follows.free_of_new (h : Follows pos dst r w) (hnode : r.node ≠ dst)
    (hown : r.hdr.inRec = 0) (env : RecoveryEnv K) :
    w.Free (remaining env.toGpsrEnv pos dst) := by
  rcases h.mode hnode with ⟨-, hnone⟩ | ⟨hone, -⟩
  · intro s hs
    rw [hnone] at hs
    cases hs
  · rw [hown] at hone
    cases hone

omit [LinearOrder K] in
/-- A greedy hop follows the walk. -/
theorem Follows.descend {gateway : UInt32} {hdr : PositionHeader K} (h : Follows pos dst r w)
    (hrec : hdr.inRec = 0) (hdst : hdr.dstPosition = planar (pos dst)) :
    Follows pos dst ⟨gateway, hdr, r.node :: r.greedy⟩ ⟨gateway, none, w.place :: w.free⟩ where
  place := rfl
  free := by rw [h.place, h.free]
  dstPosition _ := hdst
  mode _ := .inl ⟨hrec, rfl⟩

omit [LinearOrder K] in
/-- A packet that enters recovery follows the walk, with the position where it entered. -/
theorem Follows.begin {gateway : UInt32} {hdr : PositionHeader K} (h : Follows pos dst r w)
    (hrec : hdr.inRec = 1) (hposition : hdr.recPosition = planar (pos r.node))
    (hdst : hdr.dstPosition = planar (pos dst)) :
    Follows pos dst ⟨gateway, hdr, r.node :: r.greedy⟩
      ⟨gateway, some w.place, w.place :: w.free⟩ where
  place := rfl
  free := by rw [h.place, h.free]
  dstPosition _ := hdst
  mode _ := .inr ⟨hrec, w.place, rfl, by rw [h.place, hposition]⟩

/-- Each hop is a step of the walk. -/
theorem Follows.step {event : HopEvent K} (h : Follows pos dst r w)
    (hstep : HopStep env pos dst r event r') :
    ∃ w', DetourStep (remaining env.toGpsrEnv pos dst) dst w w' ∧ Follows pos dst r' w' := by
  -- One case for each way a packet gets to the next node
  cases hstep with
  | forward hinformed hforward =>
    have hnode := hinformed.node_ne
    have hhdr := h.dstPosition hnode
    have hplace : w.place ≠ dst := h.place ▸ hnode
    rcases forwarding_cases hinformed.accurate hinformed.position_eq hhdr hforward with
      ⟨hstill, ⟨gateway, hdr, heq, hrec, hdst, hcloser⟩ | ⟨hdr, heq, -⟩⟩ | ⟨-, hdr, heq, -⟩
    · cases heq
      have hfree : w.Free (remaining env.toGpsrEnv pos dst) := by
        -- A packet that is out of the recovery mode has no detour left to make up
        rcases h.stillInRec hnode with ⟨hfree, -⟩ | ⟨g, -, -, hone⟩
        · exact hfree
        · rw [hstill] at hone
          cases hone
      rw [Route.handled, if_pos hstill]
      rw [← h.place] at hcloser
      exact ⟨_, .descend hplace hfree hcloser, h.descend hrec hdst⟩
    · cases heq
    · cases heq
  | recovery hinformed hforward hhop =>
    have hnode := hinformed.node_ne
    have hhdr := h.dstPosition hnode
    have hplace : w.place ≠ dst := h.place ▸ hnode
    obtain ⟨hrec, hkept, hdst⟩ := recoveryMode_forward hhop
    rcases forwarding_cases hinformed.accurate hinformed.position_eq hhdr hforward with
      ⟨hstill, ⟨gateway, hdr, heq, -⟩ | ⟨hdr, heq, hposition, hdst'⟩⟩ | ⟨hstill, hdr, heq,
        hposition, hdst'⟩
    · cases heq
    · -- The packet enters the recovery mode
      cases heq
      rcases h.stillInRec hnode with ⟨hfree, -⟩ | ⟨g, -, -, hone⟩
      · rw [Route.handled, if_pos hstill]
        exact ⟨_, .begin hplace hfree,
          h.begin hrec (hkept.trans hposition) (hdst.trans hdst')⟩
      · rw [hstill] at hone
        cases hone
    · -- The packet goes on in the recovery mode
      cases heq
      rcases h.stillInRec hnode with ⟨-, hzero⟩ | ⟨g, hdetour, hbegan, -⟩
      · exact absurd hzero hstill
      · rw [Route.handled, if_neg hstill]
        refine ⟨_, .stray hplace hdetour, rfl, h.free, fun _ => hdst.trans hdst',
          fun _ => .inr ⟨hrec, g, rfl, ?_⟩⟩
        rw [hkept, hposition, hbegan]
  -- A packet from the queue that a closer neighbour takes
  | queueForward hinformed hown hqueue hforward =>
    have hnode := hinformed.node_ne
    have hplace : w.place ≠ dst := h.place ▸ hnode
    have hcloser := sendPacketFromQueue_forward hinformed.accurate hinformed.position_eq hforward
    rw [← h.place] at hcloser
    have hfree := h.free_of_new hnode hown env
    exact ⟨_, .descend hplace hfree hcloser, h.descend hown (h.dstPosition hnode)⟩
  -- A packet from the queue in the recovery mode
  | queueRecovery hinformed hown hsent hcall hentry hhop =>
    have hnode := hinformed.node_ne
    have hplace : w.place ≠ dst := h.place ▸ hnode
    have hfree := h.free_of_new hnode hown env
    obtain ⟨t', rfl⟩ := sendPacketFromQueue_recovery hsent
    obtain ⟨t', hrecovered⟩ := recovered_of_mem_recoverQueue hcall hentry
    obtain ⟨hrec, hkept, hdst⟩ := recoveryMode_forward (hrecovered.symm.trans hhop)
    exact ⟨_, .begin hplace hfree, h.begin hrec hkept (hdst.trans (h.dstPosition hnode))⟩

/-- A packet that has just been sent is on the first steps of a walk. -/
private theorem Originated.follows {origin : UInt32} (h : Originated env pos dst origin r) :
    ∃ w, ReflTransGen (DetourStep (remaining env.toGpsrEnv pos dst) dst) ⟨origin, none, []⟩ w ∧
      Follows pos dst r w := by
  cases h with
  | @routed now t t' locationService interfaces oifDiffers gateway horigin hposition haccurate h =>
    have hfirst := routeOutput_cases haccurate hposition h
    have hstep : DetourStep (remaining env.toGpsrEnv pos dst) dst ⟨origin, none, []⟩
        ⟨gateway, none, [origin]⟩ :=
      .descend horigin (fun s hs => nomatch hs) (hfirst.imp_right And.right)
    refine ⟨_, .single hstep, rfl, rfl, fun hnode => ?_, fun _ => .inl ⟨rfl, rfl⟩⟩
    exact addHeaders_dstPosition (hfirst.resolve_left hnode).1 hposition
  | deferred horigin hposition h =>
    refine ⟨_, .refl, rfl, rfl, fun _ => ?_, fun _ => .inl ⟨rfl, rfl⟩⟩
    exact addHeaders_dstPosition (isBoardcast_of_deferred h) hposition

/-- On the way of a packet, through greedy and recovery mode and out of the queue, each node that
    handles it in greedy mode is nearer to the destination than all nodes that have done so
    before. So no node does so twice, and the packet enters the recovery mode at most once at
    each node. -/
theorem greedy_descends (env : RecoveryEnv K) (pos : UInt32 → Vector3D K) (dst origin : UInt32)
    (start r : Route K) (events : List (HopEvent K))
    (hstart : Originated env pos dst origin start)
    (hrun : Run (HopStep env pos dst) start events r) :
    r.greedy.Pairwise (fun newer older =>
        remaining env.toGpsrEnv pos dst newer < remaining env.toGpsrEnv pos dst older) ∧
      r.greedy.Nodup ∧
      (r.node ≠ dst → r.hdr.stillInRec env.toGpsrEnv (planar (pos r.node)) = 0 →
        ∀ u ∈ r.greedy,
          remaining env.toGpsrEnv pos dst r.node < remaining env.toGpsrEnv pos dst u) := by
  -- The walk over the distances runs beside the route
  obtain ⟨w, hwalk, hfollows⟩ := hrun.invariant
    (I := fun r => ∃ w, ReflTransGen (DetourStep (remaining env.toGpsrEnv pos dst) dst)
      ⟨origin, none, []⟩ w ∧ Follows pos dst r w) hstart.follows fun r event r' hr hstep => by
    obtain ⟨w, hwalk, hfollows⟩ := hr
    obtain ⟨w', hstep', hfollows'⟩ := hfollows.step hstep
    exact ⟨w', hwalk.tail hstep', hfollows'⟩
  have hdescends := (Walk.Descends.start origin).run hwalk
  rw [← hfollows.free]
  refine ⟨hdescends.pairwise, hdescends.nodup, fun hnode hstill => ?_⟩
  -- Out of the recovery mode the packet is closer than where it entered it
  rcases hfollows.stillInRec hnode with ⟨hfree, -⟩ | ⟨g, -, -, hone⟩
  · rw [← hfollows.place] at hnode ⊢
    exact hdescends.below_of_free hnode hfree
  · rw [hstill] at hone
    cases hone

end Route

/-! ### Around a void -/

def voidEnv : RecoveryEnv ℚ :=
  ⟨⟨NeighborTable.streetDistance, ⟨0, ⟨0, 0, 0⟩, 0⟩⟩, [], fun _ _ => 90⟩

/-- From node 1 only node 2 can be reached, which is farther from node 4. -/
def voidPos (id : UInt32) : Vector3D ℚ :=
  if id = 1 then ⟨0, 0, 0⟩ else if id = 2 then ⟨0, 20, 0⟩
  else if id = 3 then ⟨25, 20, 0⟩ else ⟨30, 0, 0⟩

def voidService : LocationService ℚ := ⟨voidPos, fun _ => 0, ⟨-1, -1, 0⟩, fun _ => false⟩

/-- A node that has heard from one other node. -/
def voidTable (id : UInt32) : NeighborTable ℚ :=
  .own ⟨[⟨id, voidPos id, 5⟩], List.pairwise_singleton ..⟩

/-- The tables of the example are accurate. -/
private theorem voidTable_accurate (id : UInt32) (hid : id ≠ 0) :
    (voidTable id).Accurate voidEnv 6 voidPos := by
  intro e he
  have hentry : e = ⟨id, voidPos id, 6⟩ := List.mem_singleton.mp he
  subst hentry
  refine ⟨hid, ?_⟩
  simp only [voidPos]
  split_ifs <;> rfl

/-- The packet in the recovery mode that it has entered at node 1. -/
def voidRoute (node : UInt32) (lastPosy : ℚ) : Route ℚ :=
  ⟨node, ⟨0, 0, 30, 0, 0, 0, 0, 1, 0, lastPosy⟩, [1]⟩

/-- The packet waits in the queue of node 1, enters the recovery mode there, and leaves it at
    node 3. -/
theorem greedy_descends_void :
    ∃ start r events, Originated voidEnv voidPos 4 1 start ∧
      Run (HopStep voidEnv voidPos 4) start events r ∧ r.node = 4 ∧ r.greedy = [3, 1] ∧
      r.greedy.Nodup := by
  have hroute : (NeighborTable.routeOutput voidEnv 6 (voidTable 2) voidService (voidPos 1) true true
      false 4).1 = .deferred := by decide +kernel
  have hstart : Originated voidEnv voidPos 4 1 ⟨1, addHeaders voidService (voidPos 1) 4, []⟩ :=
    .deferred (by decide) rfl (Prod.ext hroute rfl)
  -- From the queue into the recovery mode
  have hqueue : sendPacketFromQueue voidEnv 6 (voidTable 2) voidService true (voidPos 1)
      [⟨true, some (addHeaders voidService (voidPos 1) 4)⟩] 4 =
        .recovery [⟨⟨true, some (addHeaders voidService (voidPos 1) 4)⟩,
          some (voidRoute 2 0).hdr, .forward 2 (voidRoute 2 0).hdr⟩] := by decide +kernel
  have hfirst : HopStep voidEnv voidPos 4 ⟨1, addHeaders voidService (voidPos 1) 4, []⟩
      (.queue 6 (voidTable 2) voidService [⟨true, some (addHeaders voidService (voidPos 1) 4)⟩])
      (voidRoute 2 0) :=
    .queueRecovery ⟨by decide, voidTable_accurate 2 (by decide), rfl⟩ rfl hqueue
      List.mem_cons_self rfl rfl
  -- Node 2 is farther than node 1, so that the packet stays in the mode
  have hstays : ((voidTable 3).forwarding voidEnv 6 voidService (voidPos 2) true
      (some (voidRoute 2 0).hdr) 4).1 = .recoveryMode (voidRoute 2 0).hdr := by decide +kernel
  have hhop : recoveryMode voidEnv 6 ((voidTable 3).forwarding voidEnv 6 voidService (voidPos 2)
      true (some (voidRoute 2 0).hdr) 4).2 (voidPos 2) true (some (voidRoute 2 0).hdr) =
        .forward 3 (voidRoute 3 20).hdr := by decide +kernel
  have hsecond : HopStep voidEnv voidPos 4 (voidRoute 2 0)
      (.forwarding 6 (voidTable 3) voidService)
      ⟨3, (voidRoute 3 20).hdr, (voidRoute 2 0).handled voidEnv voidPos⟩ :=
    .recovery ⟨by decide, voidTable_accurate 3 (by decide), rfl⟩ (Prod.ext hstays rfl) hhop
  have hlist : (voidRoute 2 0).handled voidEnv voidPos = [1] := by decide +kernel
  rw [hlist] at hsecond
  -- Node 3 is nearer than node 1, and has heard from the destination
  have hdirect : ((voidTable 4).forwarding voidEnv 6 voidService (voidPos 3) true
      (some (voidRoute 3 20).hdr) 4).1 = .forward 4 ⟨0, 0, 30, 0, 0, 0, 0, 0, 25, 20⟩ := by
    decide +kernel
  have hthird : HopStep voidEnv voidPos 4 (voidRoute 3 20)
      (.forwarding 6 (voidTable 4) voidService)
      ⟨4, ⟨0, 0, 30, 0, 0, 0, 0, 0, 25, 20⟩, (voidRoute 3 20).handled voidEnv voidPos⟩ :=
    .forward ⟨by decide, voidTable_accurate 4 (by decide), rfl⟩ (Prod.ext hdirect rfl)
  have hlist' : (voidRoute 3 20).handled voidEnv voidPos = [3, 1] := by decide +kernel
  rw [hlist'] at hthird
  have hrun := ((Run.nil.snoc hfirst).snoc hsecond).snoc hthird
  exact ⟨_, _, _, hstart, hrun, rfl, rfl, (greedy_descends _ _ _ _ _ _ _ hstart hrun).2.1⟩

end MapRelay.NS3.Gpsr
