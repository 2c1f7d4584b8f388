import Mathlib.Data.List.Nodup
import MapRelay.ForStd.Run
import MapRelay.Native.MbrRoute

/-!
# When the relay table agrees with the road graph

`mbr_forward` should take the same relay zone from its table as it would compute. An entry
remembers the position it was made at, and a write of a new position invalidates the
entries that were made there, of all entries, and leaves those alone that were made
elsewhere. The table stays coherent therefore exactly as long as the moves of the vehicle
do not change the relay zones of the entries that they leave alone.
-/

namespace MapRelay.Kernel

open ForStd

/-- The relay zone that `mbr_forward` computes afresh, `none` without an intersection. -/
def relayZone (g : RoadGraph) (thisGeohash dstGeohash : UInt64) : Except Fault (Option UInt64) := do
  let intersection ← findIntersection g thisGeohash dstGeohash
  if intersection = NULL then return none
  else
    let v ← g.heap.deref intersection
    return some v.geoHash

/-- A zone that is taken from the table is the one that would be computed. -/
def Coherent (g : RoadGraph) (st : MbrStatus) : Prop :=
  ∀ d, mbrtableGetNexthopGeohash st.mbrtable d ≠ 0 →
    relayZone g st.geohashThis d = .ok (some (mbrtableGetNexthopGeohash st.mbrtable d))

/-- The entry answers lookups: it is valid, and its zone is not taken for a miss. -/
def RelayTableEntry.Usable (entry : RelayTableEntry) : Prop :=
  entry.isvalid ≠ 0 ∧ entry.geoHashNexthop ≠ 0

/-- The move to `val` does not change the zones of the usable entries that it leaves valid. -/
def KeepsZones (g : RoadGraph) (st : MbrStatus) (val : UInt64) : Prop :=
  ∀ entry ∈ st.mbrtable, entry.Usable → entry.geoHashThis ≠ val →
    relayZone g val entry.geoHashDst = relayZone g st.geohashThis entry.geoHashDst

/-- The invariant of the table: one entry for each destination, with its zone. -/
structure TableOk (g : RoadGraph) (st : MbrStatus) : Prop where
  nodup : (st.mbrtable.map RelayTableEntry.geoHashDst).Nodup
  zone : ∀ entry ∈ st.mbrtable, entry.Usable →
    relayZone g st.geohashThis entry.geoHashDst = .ok (some entry.geoHashNexthop)

variable {g : RoadGraph} {st : MbrStatus} {mbrtable : List RelayTableEntry}

/-! ## Lookups -/

/-- A hit is the zone of a usable entry for the destination. -/
private theorem usable_of_hit {d : UInt64} (hhit : mbrtableGetNexthopGeohash mbrtable d ≠ 0) :
    ∃ entry ∈ mbrtable, entry.geoHashDst = d ∧ entry.Usable ∧
      entry.geoHashNexthop = mbrtableGetNexthopGeohash mbrtable d := by
  unfold mbrtableGetNexthopGeohash at hhit ⊢
  split at hhit
  · rename_i entry hfind
    have hmem := List.mem_of_find?_eq_some hfind
    have hmatch := List.find?_some hfind
    simp only [bitcmp, Bool.and_eq_true, beq_iff_eq, bne_iff_ne, ne_eq] at hmatch
    exact ⟨entry, hmem, hmatch.1, ⟨hmatch.2, hhit⟩, rfl⟩
  · exact absurd rfl hhit

/-- With one entry for each destination, a usable entry is hit. -/
private theorem hit_of_usable (hnodup : (mbrtable.map RelayTableEntry.geoHashDst).Nodup)
    {entry : RelayTableEntry} (hmem : entry ∈ mbrtable) (huse : entry.Usable) :
    mbrtableGetNexthopGeohash mbrtable entry.geoHashDst = entry.geoHashNexthop := by
  -- The lookup stops at this entry at the latest, and no other one has its destination
  have hmatch : (bitcmp entry.geoHashDst entry.geoHashDst && entry.isvalid != 0) = true := by
    simp [bitcmp, huse.1]
  unfold mbrtableGetNexthopGeohash
  split
  · rename_i other hfind
    have hother := List.find?_some hfind
    simp only [bitcmp, Bool.and_eq_true, beq_iff_eq] at hother
    rw [List.inj_on_of_nodup_map hnodup (List.mem_of_find?_eq_some hfind) hmem hother.1]
  · rename_i hfind
    exact absurd hmatch (List.find?_eq_none.mp hfind entry hmem)

/-- What the invariant says about the cached zones. -/
private theorem TableOk.coherent (h : TableOk g st) : Coherent g st := by
  intro d hhit
  obtain ⟨entry, hmem, rfl, huse, hzone⟩ := usable_of_hit hhit
  rw [← hzone]
  exact h.zone entry hmem huse

/-! ## Position writes -/

/-- Marking entries keeps their destinations. -/
private theorem map_dst_outrange (val : UInt64) (mbrtable : List RelayTableEntry) :
    (updateMbrtableOutrange val mbrtable).map RelayTableEntry.geoHashDst =
      mbrtable.map RelayTableEntry.geoHashDst := by
  rw [updateMbrtableOutrange, List.map_map]
  apply List.map_congr_left
  intro entry _
  simp only [Function.comp_apply]
  split <;> rfl

/-- The usable entries after a write are those that were made at another position. -/
private theorem usable_outrange_iff {val : UInt64} {entry : RelayTableEntry} :
    (entry ∈ updateMbrtableOutrange val mbrtable ∧ entry.Usable) ↔
      entry ∈ mbrtable ∧ entry.Usable ∧ entry.geoHashThis ≠ val := by
  simp only [updateMbrtableOutrange, List.mem_map, bitcmp, beq_iff_eq]
  constructor
  · intro ⟨⟨old, hmem, hold⟩, huse⟩
    split at hold
    · -- An entry that was made at `val` has been invalidated
      subst hold
      exact absurd rfl huse.1
    · rename_i hthis
      subst hold
      exact ⟨hmem, huse, hthis⟩
  -- An entry made elsewhere stays as it was
  · intro ⟨hmem, huse, hthis⟩
    exact ⟨⟨entry, hmem, if_neg hthis⟩, huse⟩

/-- The state after a position write of `val`. -/
def moveTo (st : MbrStatus) (val : UInt64) : MbrStatus :=
  ⟨val, updateMbrtableOutrange val st.mbrtable⟩

/-- A write keeps the invariant if it keeps the zones. -/
private theorem TableOk.moveTo (h : TableOk g st) {val : UInt64} (hkeep : KeepsZones g st val) :
    TableOk g (moveTo st val) where
  nodup := by
    show ((updateMbrtableOutrange val st.mbrtable).map RelayTableEntry.geoHashDst).Nodup
    rw [map_dst_outrange]
    exact h.nodup
  zone entry hmem huse := by
    obtain ⟨hmem, huse, hthis⟩ := usable_outrange_iff.mp ⟨hmem, huse⟩
    show relayZone g val entry.geoHashDst = _
    rw [hkeep entry hmem huse hthis]
    exact h.zone entry hmem huse

/-- A write leaves the table coherent exactly if it keeps the zones. -/
private theorem TableOk.coherent_moveTo_iff (h : TableOk g st) (val : UInt64) :
    Coherent g (Kernel.moveTo st val) ↔ KeepsZones g st val := by
  constructor
  · intro hcoherent entry hmem huse hthis
    -- The entry is still hit after the write, and what it says was right before it
    obtain ⟨hmem', huse'⟩ := usable_outrange_iff.mpr ⟨hmem, huse, hthis⟩
    have hnodup : ((updateMbrtableOutrange val st.mbrtable).map
        RelayTableEntry.geoHashDst).Nodup := by
      rw [map_dst_outrange]
      exact h.nodup
    have hhit := hit_of_usable hnodup hmem' huse'
    have hfresh := hcoherent entry.geoHashDst (by
      show mbrtableGetNexthopGeohash (updateMbrtableOutrange val st.mbrtable) _ ≠ 0
      rw [hhit]
      exact huse.2)
    rw [h.zone entry hmem huse, ← hhit]
    exact hfresh
  · intro hkeep
    exact (h.moveTo hkeep).coherent

/-! ## Forwarding -/

/-- The loop of `update_mbrtable` finds the entry for the destination, or there is none. -/
private theorem refreshMbrtable_cases (d z : UInt64) (mbrtable : List RelayTableEntry) :
    (refreshMbrtable d z mbrtable = none ∧ ∀ entry ∈ mbrtable, entry.geoHashDst ≠ d) ∨
      ∃ l₁ entry l₂, mbrtable = l₁ ++ entry :: l₂ ∧ entry.geoHashDst = d ∧
        refreshMbrtable d z mbrtable =
          some (l₁ ++ { entry with geoHashNexthop := z, isvalid := 1 } :: l₂) := by
  -- The loop stops at the first entry for the destination
  induction mbrtable with
  | nil => exact .inl ⟨rfl, by simp⟩
  | cons entry rest ih =>
    by_cases hd : entry.geoHashDst = d
    · exact .inr ⟨[], entry, rest, rfl, hd, by simp [refreshMbrtable, bitcmp, hd]⟩
    -- Behind an entry for another destination
    · rcases ih with ⟨hnone, hall⟩ | ⟨l₁, old, l₂, rfl, hold, hsome⟩
      · refine .inl ⟨by simp [refreshMbrtable, bitcmp, hd, hnone], ?_⟩
        intro other hmem
        rcases List.mem_cons.mp hmem with rfl | hmem
        · exact hd
        · exact hall other hmem
      · refine .inr ⟨entry :: l₁, old, l₂, rfl, hold, ?_⟩
        simp [refreshMbrtable, bitcmp, hd, hsome]

/-- Recording the zone for a destination keeps the invariant. -/
theorem TableOk.record (h : TableOk g st) {d z : UInt64}
    (hz : relayZone g st.geohashThis d = .ok (some z)) :
    TableOk g { st with mbrtable := updateMbrtable st.geohashThis d z st.mbrtable } := by
  obtain ⟨this, mbrtable⟩ := st
  unfold updateMbrtable
  rcases refreshMbrtable_cases d z mbrtable with ⟨hnone, hnew⟩ | ⟨l₁, entry, l₂, rfl, hd, hsome⟩
  · -- A new entry at the head
    rw [hnone]
    refine ⟨?_, ?_⟩
    · show (d :: mbrtable.map RelayTableEntry.geoHashDst).Nodup
      refine List.nodup_cons.mpr ⟨?_, h.nodup⟩
      intro hmem
      obtain ⟨entry, hmem, hd⟩ := List.mem_map.mp hmem
      exact hnew entry hmem hd
    · intro entry hmem huse
      rcases List.mem_cons.mp hmem with rfl | hmem
      · exact hz
      · exact h.zone entry hmem huse
  · -- The entry for the destination gets the zone, whatever it said before
    rw [hsome]
    refine ⟨?_, ?_⟩
    · have hnodup := h.nodup
      simp only [List.map_append, List.map_cons] at hnodup ⊢
      exact hnodup
    · intro other hmem huse
      rcases List.mem_append.mp hmem with hmem | hmem
      · exact h.zone other (List.mem_append_left _ hmem) huse
      · rcases List.mem_cons.mp hmem with rfl | hmem
        · exact hd ▸ hz
        · exact h.zone other (List.mem_append_right _ (List.mem_cons_of_mem _ hmem)) huse

/-- `mbr_forward` leaves the state alone, or records a zone it has computed. -/
private theorem mbrForward_state {neighData : List NeighborTable} {nexthop : UInt32}
    {st' : MbrStatus} {out : Forward} (hrun : mbrForward g neighData nexthop st = .ok (st', out)) :
    st' = st ∨ ∃ d z, relayZone g st.geohashThis d = .ok (some z) ∧
      st' = { st with mbrtable := updateMbrtable st.geohashThis d z st.mbrtable } := by
  unfold mbrForward at hrun
  -- No neighbour of that address: nothing is written
  split at hrun
  · cases hrun
    exact .inl rfl
  · rename_i entry hentry
    dsimp only at hrun
    split at hrun
    · -- A miss
      obtain ⟨x, hx, hrun⟩ := bind_eq_ok.mp hrun
      split at hrun
      · cases hrun
        exact .inl rfl
      · rename_i hne
        obtain ⟨v, hv, hrun⟩ := bind_eq_ok.mp hrun
        cases hrun
        refine .inr ⟨entry.geoHash, v.geoHash, ?_, rfl⟩
        simp only [relayZone, hx, hv, bind, Except.bind, if_neg hne]
        rfl
    -- A hit leaves the table alone
    · cases hrun
      exact .inl rfl

/-- In a coherent state the table does not show: `mbr_forward` does what it does without. -/
theorem Coherent.forward_eq_direct (h : Coherent g st) (neighData : List NeighborTable)
    (nexthop : UInt32) :
    (mbrForward g neighData nexthop st).map Prod.snd =
      mbrForwardDirect g neighData nexthop st.geohashThis := by
  unfold mbrForward mbrForwardDirect
  split
  · rfl
  · rename_i entry hentry
    dsimp only
    by_cases hmiss : mbrtableGetNexthopGeohash st.mbrtable entry.geoHash = 0
    · -- A miss computes what the direct version computes
      rw [if_pos hmiss]
      cases findIntersection g st.geohashThis entry.geoHash with
      | error fault => rfl
      | ok x =>
        dsimp only [bind, Except.bind]
        split
        · rfl
        · cases g.heap.deref x <;> rfl
    · -- A hit is what the direct version computes, since the table is coherent
      have hzone := h entry.geoHash hmiss
      rw [if_neg hmiss]
      obtain ⟨x, hx, hzone⟩ := bind_eq_ok.mp hzone
      simp only [hx, bind, Except.bind]
      split at hzone
      · cases hzone
      · rename_i hne
        obtain ⟨v, hv, hzone⟩ := bind_eq_ok.mp hzone
        simp only [hne, hv, if_false]
        rw [← Option.some.inj (Except.ok.inj hzone)]
        rfl

/-! ## Runs -/

/-- What happens to the state of the kernel module: a write to the position file, or a
    packet for `nexthop`, with the neighbours there are at that moment. -/
inductive MbrEvent where
  | geohashWrite (val : Except Int UInt64) (cnt : Nat)
  | forward (neighData : List NeighborTable) (nexthop : UInt32)

/-- One event. -/
def MbrStep (g : RoadGraph) (st : MbrStatus) (event : MbrEvent) (st' : MbrStatus) : Prop :=
  match event with
  | .geohashWrite val cnt => st' = (statusGeohashWrite st val cnt).1
  | .forward neighData nexthop => ∃ out, mbrForward g neighData nexthop st = .ok (st', out)

/-- One event, which keeps the zones if it is a move. -/
def KeepingStep (g : RoadGraph) (st : MbrStatus) (event : MbrEvent) (st' : MbrStatus) : Prop :=
  (∀ val cnt, event = .geohashWrite (.ok val) cnt → val ≠ 0 → KeepsZones g st val) ∧
    MbrStep g st event st'

/-- Writing the status moves the node. -/
private theorem statusGeohashWrite_ok {val : UInt64} (hval : val ≠ 0) (cnt : Nat) :
    (statusGeohashWrite st (.ok val) cnt).1 = moveTo st val := by
  simp [statusGeohashWrite, hval, moveTo]

/-- The invariant is kept by every event that keeps the zones. -/
theorem TableOk.step (h : TableOk g st) {event : MbrEvent} {st' : MbrStatus}
    (hstep : KeepingStep g st event st') : TableOk g st' := by
  obtain ⟨hkeep, hstep⟩ := hstep
  cases event with
  | geohashWrite val cnt =>
    cases hstep
    cases val with
    | error ret => exact h
    | ok val =>
      by_cases hval : val = 0
      · subst hval
        exact h
      · rw [statusGeohashWrite_ok hval]
        exact h.moveTo (hkeep val cnt rfl hval)
  | forward neighData nexthop =>
    obtain ⟨out, hrun⟩ := hstep
    rcases mbrForward_state hrun with rfl | ⟨d, z, hz, rfl⟩
    · exact h
    · exact h.record hz

/-- In every run whose moves keep the zones of the entries they leave valid, the table is
    coherent, and it stays coherent over a further move exactly if that one does so too. -/
theorem coherent_of_run (g : RoadGraph) (own : UInt64) {events : List MbrEvent} {st : MbrStatus}
    (hrun : Run (KeepingStep g) ⟨own, []⟩ events st) :
    Coherent g st ∧ ∀ val cnt, val ≠ 0 →
      (Coherent g (statusGeohashWrite st (.ok val) cnt).1 ↔ KeepsZones g st val) := by
  have hempty : TableOk g ⟨own, []⟩ := ⟨List.nodup_nil, fun entry hmem => nomatch hmem⟩
  have hok : TableOk g st := hrun.invariant hempty fun _ _ _ h hstep => h.step hstep
  refine ⟨hok.coherent, fun val cnt hval => ?_⟩
  rw [statusGeohashWrite_ok hval]
  exact hok.coherent_moveTo_iff val

/-- Two routes to the vertex `d`, from `a` over the intersection `x` and from `b` over `y`. -/
def twoRoutes : RoadGraph :=
  let commands : List GraphDeliver :=
    [.newNode "a" 10, .newNode "x" 20, .newNode "d" 30, .newNode "y" 40, .newNode "b" 50,
      .newEdge "a" "x" 1, .newEdge "x" "d" 2, .newEdge "b" "y" 3, .newEdge "y" "d" 4]
  match commands.foldlM (netlinkRecvCb .same) graphCreate with
  | .ok g => g
  | .error _ => graphCreate

/-- The only neighbour, at `d`. -/
def neighborAtD : NeighborTable := ⟨1, Mac48Address.zero, 30, 0, 1⟩

/-- A packet from `a` to `d` puts the zone of `x` into the table. -/
private theorem forward_from_a :
    mbrForward twoRoutes [neighborAtD] 1 ⟨10, []⟩ =
      .ok (⟨10, [⟨10, 20, 30, 1⟩]⟩, ⟨-1, some Mac48Address.zero, none⟩) := by
  decide

/-- As long as the vehicle stays at `a`, the table is right. -/
theorem coherent_at_a :
    ∃ st, Run (KeepingStep twoRoutes) ⟨0, []⟩
        [.geohashWrite (.ok 10) 3, .forward [neighborAtD] 1] st ∧ Coherent twoRoutes st := by
  have hwrite : KeepingStep twoRoutes ⟨0, []⟩ (.geohashWrite (.ok 10) 3) ⟨10, []⟩ := by
    refine ⟨fun val cnt _ _ entry hmem => ?_, rfl⟩
    exact nomatch hmem
  have hforward : KeepingStep twoRoutes ⟨10, []⟩ (.forward [neighborAtD] 1)
      ⟨10, [⟨10, 20, 30, 1⟩]⟩ := by
    refine ⟨fun val cnt hevent => (nomatch hevent), ?_⟩
    exact ⟨_, forward_from_a⟩
  have hrun := (Run.nil.snoc hwrite).snoc hforward
  exact ⟨_, hrun, (coherent_of_run twoRoutes 0 hrun).1⟩

/-- When it then appears at `b`, packets to `d` are still sent by way of `x`. -/
theorem incoherent_at_b :
    ∃ st, Run (MbrStep twoRoutes) ⟨0, []⟩
        [.geohashWrite (.ok 10) 3, .forward [neighborAtD] 1, .geohashWrite (.ok 50) 3] st ∧
      ¬ Coherent twoRoutes st := by
  have hforward : MbrStep twoRoutes ⟨10, []⟩ (.forward [neighborAtD] 1)
      ⟨10, [⟨10, 20, 30, 1⟩]⟩ := ⟨_, forward_from_a⟩
  refine ⟨⟨50, [⟨10, 20, 30, 1⟩]⟩, ((Run.nil.snoc rfl).snoc hforward).snoc rfl, ?_⟩
  intro hcoherent
  have hstale : relayZone twoRoutes 50 30 = .ok (some 20) := hcoherent 30 (by decide)
  have hfresh : relayZone twoRoutes 50 30 = .ok (some 40) := by decide
  exact absurd (hstale.symm.trans hfresh) (by decide)

end MapRelay.Kernel
