import MapRelay.Spec.BestAngle

/-!
# The reference edge of a packet that enters the recovery mode

The recovery mode turns from an edge at the node, and a packet that enters it is to turn from
the edge to its destination. `Forwarding` writes that into the header. `SendPacketFromQueue`
keeps the last position of the header, which for a packet of the node itself is its own position:
from there no angle is defined.
-/

namespace MapRelay.NS3.Gpsr

open NeighborTable

variable {K : Type} [Field K]

/-! ## Positions and angles -/

/-- The same planar position is the same in both coordinates. -/
private theorem planar_eq_iff {v w : Vector3D K} : planar v = planar w ↔ v.x = w.x ∧ v.y = w.y := by
  simp [planar]

/-- A planar position is planar. -/
@[simp] theorem planar_planar (v : Vector3D K) : planar (planar v) = planar v := rfl

/-- The previous hop is a planar position. -/
@[simp] theorem planar_previousHop (hdr : PositionHeader K) :
    planar hdr.previousHop = hdr.previousHop := rfl

variable [LinearOrder K]

section Angle

variable [IsStrictOrderedRing K]

/-- The difference is zero exactly between the same planar positions. -/
private theorem complexNorm_sub_eq_zero {v w : Vector3D K} :
    complexNorm (v.x - w.x, v.y - w.y) = 0 ↔ planar v = planar w := by
  rw [complexNorm, mul_self_add_mul_self_eq_zero, planar_eq_iff, sub_eq_zero, sub_eq_zero]

/-- The angle is a number unless one of its sides is a point. -/
private theorem isSome_getAngle {env : RecoveryEnv K} {centrePos refPos node : Vector3D K} :
    (getAngle env centrePos refPos node).isSome ↔
      planar node ≠ planar centrePos ∧ planar refPos ≠ planar centrePos := by
  rw [getAngle]
  simp only [complexNorm_sub_eq_zero]
  split
  case isTrue h => simpa [← not_or] using h
  case isFalse h => simpa [← not_or] using h

end Angle

/-- A packet with the header `hdr` enters the recovery mode as it should at a node at `pos`: from
    the edge to its destination and at the position of the node, and unless it is at its
    destination no angle is taken from a point. -/
structure EntersRight (env : RecoveryEnv K) (now : Int) (pos : Vector3D K) (t : NeighborTable K)
    (dstPos : Vector3D K) (hdr : PositionHeader K) : Prop where
  last : hdr.previousHop = planar dstPos
  recovery : hdr.recPosition = planar pos
  reference : planar dstPos ≠ planar pos → hdr.previousHop ≠ planar pos
  angles : planar dstPos ≠ planar pos → ∀ e ∈ (t.rngPlanarize env now pos).entries,
    (getAngle env (planar pos) hdr.previousHop e.position).isSome

/-- No planar neighbour is where the node is, unless that is the destination. -/
def Apart (env : RecoveryEnv K) (now : Int) (pos : Vector3D K) (t : NeighborTable K)
    (dstPos : Vector3D K) : Prop :=
  planar dstPos = planar pos ∨
    ∀ e ∈ (t.rngPlanarize env now pos).entries, planar e.position ≠ planar pos

variable {env : RecoveryEnv K} {now : Int} {pos dstPos : Vector3D K} {t : NeighborTable K}

/-- With the right edge all depends on where the planar neighbours are. -/
theorem entersRight_iff [IsStrictOrderedRing K] {hdr : PositionHeader K}
    (hrec : hdr.recPosition = planar pos) :
    EntersRight env now pos t dstPos hdr ↔
      hdr.previousHop = planar dstPos ∧ Apart env now pos t dstPos := by
  constructor
  · intro h
    refine ⟨h.last, or_iff_not_imp_left.mpr fun haway e he => ?_⟩
    exact (isSome_getAngle.mp (h.angles haway e he)).1
  · rintro ⟨hlast, hapart⟩
    refine ⟨hlast, hrec, fun haway => hlast ▸ haway, fun haway e he => ?_⟩
    refine isSome_getAngle.mpr ⟨hapart.resolve_left haway e he, ?_⟩
    rw [planar_previousHop, hlast]
    exact haway

/-! ## The two entries -/

/-- The header with which a packet of the queue enters the recovery mode. -/
def PositionHeader.queued (hdr : PositionHeader K) (pos : Vector3D K) : PositionHeader K :=
  { hdr with recPosx := (planar pos).x, recPosy := (planar pos).y, inRec := 1 }

/-- Each packet up to the first one of an unknown type is given to `RecoveryMode`, with the last
    position that its own header has. -/
private theorem forall_recoverQueue {P : PositionHeader K → Option (PositionHeader K) → Prop}
    {vars : PositionHeader K} {queue : List (QueueEntry K)} :
    (∀ call ∈ recoverQueue env now pos t vars queue, ∀ hdr, call.entry.hdr = some hdr →
        P hdr call.hdr) ↔
      ∀ p ∈ queue.takeWhile (·.typeValid), ∀ hdr, p.hdr = some hdr →
        P hdr (some (hdr.queued pos)) := by
  induction queue generalizing t vars with
  | nil => simp [recoverQueue]
  | cons p rest ih =>
    rw [recoverQueue]
    cases hvalid : p.typeValid with
    | false => simp [hvalid]
    | true =>
      rw [List.takeWhile_cons_of_pos hvalid, if_neg (by simp), List.forall_mem_cons,
        List.forall_mem_cons, ih]
      refine and_congr_left fun _ => forall_congr' fun hdr => ?_
      refine imp_congr_right fun hhdr => ?_
      have hp : p.hdr = some hdr := hhdr
      simp only [hp, Option.getD_some, Option.map_some]
      exact Iff.rfl

/-- A packet that `Forwarding` puts into the recovery mode. -/
private theorem forwarding_recoveryMode {locationService : LocationService K} {dst : UInt32}
    {hdr hdr' : PositionHeader K} {t' : NeighborTable K}
    (hnew : hdr.stillInRec env.toGpsrEnv (planar pos) = 0)
    (h : t.forwarding env now locationService pos true (some hdr) dst = (.recoveryMode hdr', t')) :
    hdr'.previousHop = planar (hdr.destination locationService dst).1 ∧
      hdr'.recPosition = planar pos := by
  unfold NeighborTable.forwarding at h
  simp only [Bool.true_eq_false, if_false, Option.getD_some, hnew, ne_eq, not_true_eq_false] at h
  split at h
  · cases h
  · split at h
    · cases h
    · cases h
      exact ⟨rfl, rfl⟩

omit [Field K] [LinearOrder K] in
/-- `Purge` of the neighbours is that of the own table. -/
private theorem purge_own (env : GpsrEnv K) (now : Int) (table : PositionTable K) :
    (own table).purge env now = own (table.purge env now) := rfl

omit [Field K] [LinearOrder K] in
/-- `isNeighbour` looks into the own table, and purges nothing. -/
private theorem isNeighbour_own (env : GpsrEnv K) (now : Int) (table : PositionTable K)
    (id : UInt32) :
    (own table).isNeighbour env now id = (table.isNeighbour env id, own table) := rfl

/-- `BestNeighbor` purges the own table and looks into it. -/
private theorem bestNeighbor_own (env : RecoveryEnv K) (now : Int) (table : PositionTable K)
    (position nodePos : Vector3D K) :
    (own table).bestNeighbor env now position nodePos =
      (table.bestNeighbor env.toGpsrEnv now position nodePos,
        own (table.purge env.toGpsrEnv now)) := rfl

/-- With the protocol's own table this is `Gpsr.forwarding`. -/
theorem forwarding_own (env : RecoveryEnv K) (now : Int) (table : PositionTable K)
    (locationService : LocationService K) (pos : Vector3D K) (typeValid : Bool)
    (hdr : Option (PositionHeader K)) (dst : UInt32) :
    ((own table).forwarding env now locationService pos typeValid hdr dst).1 =
      Gpsr.forwarding env.toGpsrEnv now table locationService pos typeValid hdr dst := by
  unfold NeighborTable.forwarding Gpsr.forwarding
  simp only [purge_own, isNeighbour_own, bestNeighbor_own]
  -- The same tests in the same order
  by_cases hvalid : typeValid = false
  · rw [if_pos hvalid, if_pos hvalid]
  rw [if_neg hvalid, if_neg hvalid]
  split
  · rfl
  by_cases hdirect : (table.purge env.toGpsrEnv now).isNeighbour env.toGpsrEnv dst = true
  · rw [if_pos hdirect]
    exact congrArg Prod.fst (if_pos hdirect)
  rw [if_neg hdirect]
  refine (congrArg Prod.fst (if_neg hdirect)).trans ?_
  split
  case isTrue hnext => exact congrArg Prod.fst (if_pos hnext)
  case isFalse hnext => exact congrArg Prod.fst (if_neg hnext)

/-- `Forwarding` gives every packet that it puts into the recovery mode the right reference edge.
    `SendPacketFromQueue` does exactly for the packets whose last position is that of the
    destination, which for a new packet means that its source was there. In either case the
    angles are then numbers unless a planar neighbour is at the position of the node. -/
theorem recovery_entries_iff [IsStrictOrderedRing K] (env : RecoveryEnv K) (now : Int)
    (t : NeighborTable K) (locationService : LocationService K) (pos : Vector3D K)
    (dst : UInt32) :
    (∀ hdr hdr' t', hdr.stillInRec env.toGpsrEnv (planar pos) = 0 →
      t.forwarding env now locationService pos true (some hdr) dst = (.recoveryMode hdr', t') →
      hdr'.previousHop = planar (hdr.destination locationService dst).1 ∧
        hdr'.recPosition = planar pos ∧
        (EntersRight env now pos t' (hdr.destination locationService dst).1 hdr' ↔
          Apart env now pos t' (hdr.destination locationService dst).1)) ∧
    ∀ hasPosition queue calls,
      sendPacketFromQueue env now t locationService hasPosition pos queue dst = .recovery calls →
      let t' := (t.isNeighbour env.toGpsrEnv now dst).2.purge env.toGpsrEnv now
      ((∀ call ∈ calls, ∀ hdr, call.entry.hdr = some hdr → ∃ hdr', call.hdr = some hdr' ∧
          EntersRight env now pos t' (hdr.destination locationService dst).1 hdr') ↔
        ∀ p ∈ queue.takeWhile (·.typeValid), ∀ hdr, p.hdr = some hdr →
          hdr.previousHop = planar (hdr.destination locationService dst).1 ∧
            Apart env now pos t' (hdr.destination locationService dst).1) := by
  constructor
  · intro hdr hdr' t' hnew h
    obtain ⟨hlast, hrec⟩ := forwarding_recoveryMode hnew h
    exact ⟨hlast, hrec, (entersRight_iff hrec).trans (and_iff_right hlast)⟩
  · intro hasPosition queue calls h t'
    -- The only branch into the recovery mode is the last but one
    unfold sendPacketFromQueue at h
    split at h
    · cases h
    split at h
    · cases h
    dsimp only at h
    split at h
    · cases h
    split at h
    · cases h
      rw [forall_recoverQueue (P := fun hdr queued => ∃ hdr', queued = some hdr' ∧
        EntersRight env now pos t' (hdr.destination locationService dst).1 hdr')]
      refine forall₂_congr fun p _ => forall₂_congr fun hdr _ => ?_
      have hrec : (hdr.queued pos).recPosition = planar pos := rfl
      simp only [Option.some.injEq, exists_eq_left', entersRight_iff hrec]
      exact Iff.rfl
    · cases h

/-! ### A packet of the node itself -/

/-- Node 3 is the destination, thirty to the east. -/
def eastService : LocationService ℚ :=
  ⟨fun _ => ⟨30, 0, 0⟩, fun _ => 0, ⟨-1, -1, 0⟩, fun _ => false⟩

/-- Node 1 is a neighbour to the west. -/
def westTable : NeighborTable ℚ := .own ⟨[⟨1, ⟨-10, 0, 0⟩, 5⟩], List.pairwise_singleton ..⟩

/-- The node, its neighbour and the destination are at different places. -/
private theorem apart_westTable : Apart garbageEnv 6 ⟨0, 0, 0⟩ westTable ⟨30, 0, 0⟩ := by
  have hentries : (westTable.rngPlanarize garbageEnv 6 ⟨0, 0, 0⟩).entries =
      [⟨1, ⟨-10, 0, 0⟩, 6⟩] := rfl
  refine .inr fun e he => ?_
  rw [hentries] at he
  rw [List.mem_singleton.mp he, ne_eq, planar_eq_iff]
  norm_num

/-- No neighbour is nearer than the node itself. -/
private theorem sendPacketFromQueue_westTable (hdr : PositionHeader ℚ) :
    ∃ t', sendPacketFromQueue garbageEnv 6 westTable eastService true ⟨0, 0, 0⟩
        [⟨true, some hdr⟩] 3 =
      .recovery (recoverQueue garbageEnv 6 ⟨0, 0, 0⟩ t' .default [⟨true, some hdr⟩]) := by
  have hdirect : (westTable.isNeighbour garbageEnv.toGpsrEnv 6 3).1 = false := rfl
  have hbest : ((westTable.isNeighbour garbageEnv.toGpsrEnv 6 3).2.bestNeighbor garbageEnv 6
      (eastService.getPosition 3) (planar ⟨0, 0, 0⟩)).1 = 0 := by decide +kernel
  rw [sendPacketFromQueue, if_neg (by decide), if_neg (by decide)]
  dsimp only
  rw [hdirect, if_neg (by decide), if_pos hbest]
  exact ⟨_, rfl⟩

/-- A queued packet whose last position is that of its destination. -/
theorem recovery_entries_iff_east :
    let hdr : PositionHeader ℚ := ⟨0, 0, 30, 0, 0, 0, 0, 0, 30, 0⟩
    ∃ calls, sendPacketFromQueue garbageEnv 6 westTable eastService true ⟨0, 0, 0⟩
        [⟨true, some hdr⟩] 3 = .recovery calls ∧
      ∀ call ∈ calls, ∀ hdr, call.entry.hdr = some hdr → ∃ hdr', call.hdr = some hdr' ∧
        EntersRight garbageEnv 6 ⟨0, 0, 0⟩ westTable
          (hdr.destination eastService 3).1 hdr' := by
  obtain ⟨t', hsent⟩ := sendPacketFromQueue_westTable ⟨0, 0, 30, 0, 0, 0, 0, 0, 30, 0⟩
  refine ⟨_, hsent, ?_⟩
  refine ((recovery_entries_iff garbageEnv 6 westTable eastService ⟨0, 0, 0⟩ 3).2 true
    [⟨true, some ⟨0, 0, 30, 0, 0, 0, 0, 0, 30, 0⟩⟩] _ hsent).mpr ?_
  intro p hp hdr hhdr
  cases List.mem_singleton.mp hp
  cases hhdr
  exact ⟨rfl, apart_westTable⟩

/-- The packet that the node at the origin sends turns from the origin, where no angle is
    defined; `Forwarding` would let it turn from its destination. -/
theorem queued_packet_no_angle :
    let hdr := addHeaders eastService ⟨0, 0, 0⟩ 3
    ∃ calls, sendPacketFromQueue garbageEnv 6 westTable eastService true ⟨0, 0, 0⟩
        [⟨true, some hdr⟩] 3 = .recovery calls ∧
      ¬ (∀ call ∈ calls, ∀ hdr, call.entry.hdr = some hdr → ∃ hdr', call.hdr = some hdr' ∧
        EntersRight garbageEnv 6 ⟨0, 0, 0⟩ westTable
          (hdr.destination eastService 3).1 hdr') ∧
      getAngle garbageEnv ⟨0, 0, 0⟩ hdr.previousHop ⟨-10, 0, 0⟩ = none := by
  obtain ⟨t', hsent⟩ :=
    sendPacketFromQueue_westTable (addHeaders eastService ⟨0, 0, 0⟩ 3)
  refine ⟨_, hsent, fun h => ?_, ?_⟩
  · obtain ⟨hdr', hhdr', hright⟩ := h _ List.mem_cons_self _ rfl
    cases hhdr'
    have hlast := congrArg Vector3D.x hright.last
    have heq : (0 : ℚ) = 30 := hlast
    norm_num at heq
  · rw [← Option.not_isSome_iff_eq_none, isSome_getAngle]
    exact fun h => h.2 rfl

end MapRelay.NS3.Gpsr
