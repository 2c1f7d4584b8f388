import MapRelay.ForStd.Choice
import MapRelay.Spec.RngPlanarize
import Mathlib.Data.Rat.Floor

/-!
# When the recovery mode finds a live neighbour

`BestAngle` takes the planar neighbour with the least angle, and without one whatever stands at
the beginning of `m_table`. That is an entry only if `m_table` is not empty: it has been tested
before it was purged, and in the MBR mode it is empty always.
-/

namespace MapRelay.NS3.Gpsr

open ForStd

variable {K : Type}

namespace PositionTable

/-- `Purge` keeps the entry. The update time of the zero address is zero. -/
def Fresh (now : Int) (e : PositionEntry K) : Prop :=
  now < entryLifeTime + if e.id = 0 then 0 else e.updateTime

instance (now : Int) (e : PositionEntry K) : Decidable (Fresh now e) :=
  inferInstanceAs (Decidable (_ < _))

variable {env : GpsrEnv K} {now : Int} {table : PositionTable K}

/-- `Purge` leaves the fresh entries, in their order. -/
private theorem entries_purge_eq_filter :
    (table.purge env now).entries = table.entries.filter fun e => decide (Fresh now e) := by
  rw [purge, entries_foldl_erase]
  refine List.filter_congr fun e he => ?_
  -- The zero address stands for no entry, its update time is 0
  have htime : table.getEntryUpdateTime env e.id = if e.id = 0 then 0 else e.updateTime := by
    by_cases hid : e.id = 0
    · rw [getEntryUpdateTime, if_pos hid, if_pos hid]
    · rw [getEntryUpdateTime_of_mem he hid, if_neg hid]
  rw [decide_eq_decide, mem_toErase, Fresh, ← htime]
  constructor
  -- Kept, so not expired by the time under its id
  · intro hkept
    by_contra hexpired
    exact hkept ⟨e, he, by omega, rfl⟩
  -- The entries of one id have one update time
  · rintro hfresh ⟨e', he', hexpired, hid⟩
    rw [hid] at hexpired
    omega

/-- An entry survives `Purge` exactly if it is fresh. -/
private theorem mem_purge_iff {e : PositionEntry K} :
    e ∈ (table.purge env now).entries ↔ e ∈ table.entries ∧ Fresh now e := by
  rw [entries_purge_eq_filter, List.mem_filter, decide_eq_true_eq]

/-- Tables with the same entries are the same. -/
private theorem ext_entries {table' : PositionTable K} (h : table.entries = table'.entries) :
    table = table' := by
  cases table
  cases table'
  cases h
  rfl

/-- What is behind the end of the table does not decide what is purged. -/
private theorem purge_garbage (env env' : GpsrEnv K) : table.purge env now = table.purge env' now :=
  ext_entries (entries_purge_eq_filter.trans entries_purge_eq_filter.symm)

/-- Purging twice at one time is purging once. -/
theorem purge_purge : (table.purge env now).purge env now = table.purge env now := by
  apply ext_entries
  rw [entries_purge_eq_filter, entries_purge_eq_filter, List.filter_filter]
  simp only [Bool.and_self]

end PositionTable

namespace NeighborTable

/-- The address is that of a neighbour that has not expired, in the table in use. -/
def LiveNeighbour (now : Int) (t : NeighborTable K) (id : UInt32) : Prop :=
  if t.nbFromMbr then ∃ i ∈ NS3.purge now t.nb, i.ipAddress = id
  else ∃ e ∈ t.table.entries, e.id = id ∧ PositionTable.Fresh now e

/-- A next hop as it should be: the address of a live neighbour, and the zero address only if
    there is none. -/
def LiveHop (now : Int) (t : NeighborTable K) (hop : UInt32) : Prop :=
  (hop = 0 ∨ LiveNeighbour now t hop) ∧ (hop = 0 → ∀ id, ¬ LiveNeighbour now t id)

variable [Field K] [LinearOrder K] {env : RecoveryEnv K} {now : Int} {t : NeighborTable K}
  {pos previousHop nodePos : Vector3D K}

/-- The entries with the angles that count: numbers other than zero. -/
def angles (env : RecoveryEnv K) (nodePos previousHop : Vector3D K)
    (es : List (PositionEntry K)) : List (PositionEntry K × K) :=
  es.filterMap fun i =>
    ((getAngle env nodePos previousHop i.position).filter (· ≠ 0)).map fun a => (i, a)

/-- The less the angle, the better. -/
def leastAngle (i : PositionEntry K × K) : OrderDual K := OrderDual.toDual i.2

/-- The angle of the neighbour counts: it is a number other than zero. -/
def HasAngle (env : RecoveryEnv K) (nodePos previousHop : Vector3D K) (i : PositionEntry K)
    (a : K) : Prop := getAngle env nodePos previousHop i.position = some a ∧ a ≠ 0

/-- `e` is the first planar neighbour with the least angle that counts, and that is below 360
    degrees. -/
def Chosen (env : RecoveryEnv K) (now : Int) (pos : Vector3D K) (t : NeighborTable K)
    (previousHop nodePos : Vector3D K) (e : PositionEntry K) : Prop :=
  ∃ before after a, (t.rngPlanarize env now pos).entries = before ++ e :: after ∧
    HasAngle env nodePos previousHop e a ∧ a < 360 ∧
    (∀ i ∈ before, ∀ b, HasAngle env nodePos previousHop i b → a < b) ∧
    ∀ i ∈ after, ∀ b, HasAngle env nodePos previousHop i b → a ≤ b

/-- The entry and the angle of the list that are of `i`. -/
private theorem angle_eq_some {i e : PositionEntry K} {a : K} :
    ((getAngle env nodePos previousHop i.position).filter (· ≠ 0)).map (fun a => (i, a)) =
        some (e, a) ↔ i = e ∧ HasAngle env nodePos previousHop i a := by
  simp only [HasAngle, Option.map_eq_some_iff, Option.filter_eq_some_iff, decide_eq_true_eq,
    Prod.mk.injEq]
  constructor
  · rintro ⟨b, hb, rfl, rfl⟩
    exact ⟨rfl, hb⟩
  · rintro ⟨rfl, ha⟩
    exact ⟨a, ha, rfl, rfl⟩

/-- The list has the entries with an angle that counts, and that angle. -/
private theorem mem_angles {es : List (PositionEntry K)} {i : PositionEntry K × K} :
    i ∈ angles env nodePos previousHop es ↔
      i.1 ∈ es ∧ HasAngle env nodePos previousHop i.1 i.2 := by
  rw [angles, List.mem_filterMap]
  constructor
  · rintro ⟨e, he, hangle⟩
    obtain ⟨rfl, ha⟩ := angle_eq_some.mp hangle
    exact ⟨he, ha⟩
  · rintro ⟨he, ha⟩
    exact ⟨i.1, he, angle_eq_some.mpr ⟨rfl, ha⟩⟩

/-- An entry with an angle that counts is put in front. -/
private theorem angles_cons_of_hasAngle {e : PositionEntry K} {a : K} (es : List (PositionEntry K))
    (h : HasAngle env nodePos previousHop e a) :
    angles env nodePos previousHop (e :: es) = (e, a) :: angles env nodePos previousHop es := by
  simp [angles, h.1, h.2]

/-- The list goes through the entries one after the other. -/
private theorem angles_append (es es' : List (PositionEntry K)) :
    angles env nodePos previousHop (es ++ es') =
      angles env nodePos previousHop es ++ angles env nodePos previousHop es' :=
  List.filterMap_append

/-- It is the first best of the neighbours with their angles. -/
private theorem chosen_iff {e : PositionEntry K} :
    Chosen env now pos t previousHop nodePos e ↔ ∃ a, firstBest leastAngle
        (angles env nodePos previousHop (t.rngPlanarize env now pos).entries) = some (e, a) ∧
      a < 360 := by
  -- The angles of the planar neighbours, in the order of the table
  unfold Chosen
  generalize (t.rngPlanarize env now pos).entries = es
  constructor
  · rintro ⟨before, after, a, rfl, ha, hlt, hbefore, hafter⟩
    refine ⟨a, ?_, hlt⟩
    -- The neighbours before, the chosen one, and those after
    have hangles : angles env nodePos previousHop (before ++ e :: after) =
        angles env nodePos previousHop before ++
          (e, a) :: angles env nodePos previousHop after := by
      rw [angles_append, angles_cons_of_hasAngle after ha]
    rw [hangles]
    apply firstBest_append
    · intro i hi
      obtain ⟨hmem, hangle⟩ := mem_angles.mp hi
      exact OrderDual.toDual_lt_toDual.mpr (hbefore i.1 hmem i.2 hangle)
    · intro i hi
      obtain ⟨hmem, hangle⟩ := mem_angles.mp hi
      exact OrderDual.toDual_le_toDual.mpr (hafter i.1 hmem i.2 hangle)
  -- Conversely the first best angle tells where the list is cut
  · rintro ⟨a, hfirst, hlt⟩
    obtain ⟨before', after', heq, hbefore, hafter⟩ := append_of_firstBest hfirst
    obtain ⟨before, rest, rfl, rfl, hrest⟩ := List.filterMap_eq_append_iff.mp heq
    -- Neighbours whose angle is not asked for come before the chosen one
    obtain ⟨skipped, i, after, rfl, hskipped, hi, rfl⟩ := List.filterMap_eq_cons_iff.mp hrest
    obtain ⟨rfl, ha⟩ := angle_eq_some.mp hi
    refine ⟨before ++ skipped, after, a, by simp, ha, hlt, fun j hj b hb => ?_, fun j hj b hb => ?_⟩
    · have hpair := angle_eq_some.mpr ⟨rfl, hb⟩
      rcases List.mem_append.mp hj with hj | hj
      · exact OrderDual.toDual_lt_toDual.mp (hbefore (j, b) (mem_angles.mpr ⟨hj, hb⟩))
      · -- The angles of these do not count
        rw [hskipped j hj] at hpair
        cases hpair
    · exact OrderDual.toDual_le_toDual.mp (hafter (j, b) (mem_angles.mpr ⟨hj, hb⟩))

/-- The loop ends with the best of the start and of the angles that count. -/
private theorem bestAngleFrom_eq (env : RecoveryEnv K) (nodePos previousHop : Vector3D K)
    (es : List (PositionEntry K)) (e : PositionEntry K) (a : K) :
    bestAngleFrom env nodePos previousHop es (e.id, a) =
      let best := bestFrom leastAngle (OrderDual.toDual a) (e, a)
        (angles env nodePos previousHop es)
      (best.2.1.id, best.2.2) := by
  induction es generalizing e a with
  | nil => rfl
  | cons i es ih =>
    rw [bestAngleFrom]
    cases hangle : getAngle env nodePos previousHop i.position with
    | none =>
      -- No comparison with what is not a number holds
      have hskip :
          angles env nodePos previousHop (i :: es) = angles env nodePos previousHop es := by
        simp [angles, hangle]
      rw [hskip]
      exact ih e a
    | some b =>
      dsimp only
      by_cases hb : b = 0
      · -- An angle of zero does not count
        have hskip : angles env nodePos previousHop (i :: es) =
            angles env nodePos previousHop es := by
          simp [angles, hangle, hb]
        rw [if_neg fun h => h.2 hb, hskip]
        exact ih e a
      · have htake : angles env nodePos previousHop (i :: es) =
            (i, b) :: angles env nodePos previousHop es :=
          angles_cons_of_hasAngle es ⟨hangle, hb⟩
        rw [htake]
        by_cases hlt : b < a
        · have hdual : OrderDual.toDual a < leastAngle (i, b) := OrderDual.toDual_lt_toDual.mpr hlt
          rw [if_pos ⟨hlt, hb⟩, bestFrom_cons_of_lt hdual]
          exact ih i b
        · have hdual : leastAngle (i, b) ≤ OrderDual.toDual a :=
            OrderDual.toDual_le_toDual.mpr (not_lt.mp hlt)
          rw [if_neg fun h => hlt h.1, bestFrom_cons_of_le hdual]
          exact ih e a

/-- The loop of `BestAngle` ends with the address of the chosen neighbour, or with the zero
    address if there is none. -/
private theorem bestAngleFrom_cases (env : RecoveryEnv K) (now : Int) (pos : Vector3D K)
    (t : NeighborTable K) (previousHop nodePos : Vector3D K) :
    let best := bestAngleFrom env nodePos previousHop (t.rngPlanarize env now pos).entries (0, 360)
    (∃ e, Chosen env now pos t previousHop nodePos e ∧ best.1 = e.id) ∨
      ((∀ e, ¬ Chosen env now pos t previousHop nodePos e) ∧ best.1 = 0) := by
  intro best
  have hbest := bestAngleFrom_eq env nodePos previousHop (t.rngPlanarize env now pos).entries
    ⟨0, pos, 0⟩ 360
  cases hfirst : firstBest leastAngle
      (angles env nodePos previousHop (t.rngPlanarize env now pos).entries) with
  | none =>
    -- No angle counts
    rw [bestFrom, hfirst] at hbest
    refine .inr ⟨?_, congrArg Prod.fst hbest⟩
    intro e he
    obtain ⟨a, ha, -⟩ := chosen_iff.mp he
    rw [hfirst] at ha
    cases ha
  | some p =>
    rw [bestFrom, hfirst] at hbest
    by_cases hlt : p.2 < 360
    · refine .inl ⟨p.1, chosen_iff.mpr ⟨p.2, hfirst, hlt⟩, ?_⟩
      have hdual : OrderDual.toDual (360 : K) < leastAngle p :=
        OrderDual.toDual_lt_toDual.mpr hlt
      simp only [if_pos hdual] at hbest
      exact congrArg Prod.fst hbest
    · -- The best angle is not below the 360 that the loop starts with
      refine .inr ⟨?_, ?_⟩
      · intro e he
        obtain ⟨a, ha, hlt'⟩ := chosen_iff.mp he
        rw [hfirst] at ha
        cases ha
        exact hlt hlt'
      · have hdual : ¬ OrderDual.toDual (360 : K) < leastAngle p :=
          fun h => hlt (OrderDual.toDual_lt_toDual.mp h)
        simp only [if_neg hdual] at hbest
        exact congrArg Prod.fst hbest

/-! ## The chosen neighbour -/

/-- At most one neighbour is chosen. -/
theorem Chosen.unique {e e' : PositionEntry K} (h : Chosen env now pos t previousHop nodePos e)
    (h' : Chosen env now pos t previousHop nodePos e') : e = e' := by
  obtain ⟨a, ha, -⟩ := chosen_iff.mp h
  obtain ⟨a', ha', -⟩ := chosen_iff.mp h'
  rw [ha] at ha'
  cases ha'
  rfl

/-- The chosen neighbour is a planar one. -/
theorem Chosen.mem {e : PositionEntry K} (h : Chosen env now pos t previousHop nodePos e) :
    e ∈ (t.rngPlanarize env now pos).entries := by
  obtain ⟨before, after, a, heq, -⟩ := h
  rw [heq]
  exact List.mem_append_right before List.mem_cons_self

omit [Field K] [LinearOrder K] in
/-- With its own table, the live neighbours are those that `Purge` leaves. -/
private theorem liveNeighbour_own_iff (hown : t.nbFromMbr = false) {id : UInt32} :
    LiveNeighbour now t id ↔
      ∃ e ∈ (t.table.purge env.toGpsrEnv now).entries, e.id = id := by
  simp only [LiveNeighbour, hown, Bool.false_eq_true, if_false, PositionTable.mem_purge_iff]
  constructor
  · rintro ⟨e, he, hid, hfresh⟩
    exact ⟨e, ⟨he, hfresh⟩, hid⟩
  · rintro ⟨e, ⟨he, hfresh⟩, hid⟩
    exact ⟨e, he, hid, hfresh⟩

/-- In the mode with its own table every planar neighbour is live, because the table is purged. -/
theorem Chosen.live (hown : t.nbFromMbr = false) {e : PositionEntry K}
    (h : Chosen env now pos t previousHop nodePos e) : LiveNeighbour now t e.id := by
  have hmem := (survivors_sublist _).mem (mem_rngPlanarize.mp h.mem)
  simp only [neighbours, purge, hown, Bool.false_eq_true, dite_false, if_false] at hmem
  obtain ⟨i, hi, rfl⟩ := List.mem_map.mp hmem
  exact (liveNeighbour_own_iff hown).mpr ⟨i, hi, rfl⟩

/-- Without an entry the zero address is returned. -/
private theorem bestAngle_empty (hown : t.nbFromMbr = false) (hempty : t.table.entries = []) :
    t.bestAngle env now pos previousHop nodePos = 0 :=
  if_pos ⟨hown, hempty⟩

/-- Past the first test the chosen neighbour is returned, or what `m_table` begins with. -/
private theorem bestAngle_cases (env : RecoveryEnv K) (pos previousHop nodePos : Vector3D K)
    (h : ¬ (t.nbFromMbr = false ∧ t.table.entries = [])) :
    (∃ e, Chosen env now pos t previousHop nodePos e ∧ e.id ≠ 0 ∧
        t.bestAngle env now pos previousHop nodePos = e.id) ∨
      ((∀ e, Chosen env now pos t previousHop nodePos e → e.id = 0) ∧
        t.bestAngle env now pos previousHop nodePos =
          ((t.purge env.toGpsrEnv now).table.entries.head?.getD env.endEntry).id) := by
  -- A second purge at the same time removes nothing
  have hplanar : (t.purge env.toGpsrEnv now).rngPlanarize env now pos =
      t.rngPlanarize env now pos := by
    unfold rngPlanarize
    have htwice : (t.purge env.toGpsrEnv now).purge env.toGpsrEnv now =
        t.purge env.toGpsrEnv now := by
      unfold purge
      by_cases hm : t.nbFromMbr = true
      · simp [hm]
      · simp [hm, PositionTable.purge_purge]
    rw [htwice]
  unfold bestAngle
  rw [if_neg h]
  dsimp only
  rw [hplanar]
  -- Either the loop has chosen a neighbour, or the start value is left
  rcases bestAngleFrom_cases env now pos t previousHop nodePos with ⟨e, he, hid⟩ | ⟨hno, hid⟩
  · rw [hid]
    -- The zero address in the table looks like no neighbour at all
    by_cases hzero : e.id = 0
    · refine .inr ⟨fun e' he' => ?_, if_pos hzero⟩
      rw [he'.unique he, hzero]
    · exact .inl ⟨e, he, hzero, if_neg hzero⟩
  · rw [hid]
    exact .inr ⟨fun e he => absurd he (hno e), if_pos rfl⟩

/-! ## What is behind the end of the table -/

omit [Field K] in
/-- Planarization depends on the distances only. -/
private theorem planarizeFrom_congr {env env' : GpsrEnv K} {myPos : Vector3D K}
    (h : env.calculateDistance = env'.calculateDistance)
    (start : PositionEntry K → List (PositionEntry K) → List (PositionEntry K))
    (l : List (PositionEntry K)) (result : PositionTable K) :
    planarizeFrom env myPos start l result = planarizeFrom env' myPos start l result := by
  induction l generalizing result with
  | nil => rfl
  | cons index rest ih =>
    have hiff : (∃ temp ∈ start index rest, Between env myPos index temp) ↔
        ∃ temp ∈ start index rest, Between env' myPos index temp := by
      simp only [Between, h]
    rw [planarizeFrom, planarizeFrom]
    by_cases hbetween : ∃ temp ∈ start index rest, Between env myPos index temp
    · rw [if_pos hbetween, if_pos (hiff.mp hbetween), ih]
    · rw [if_neg hbetween, if_neg fun h' => hbetween (hiff.mpr h'), ih]

omit [Field K] [LinearOrder K] in
/-- What lies behind the end of the table has no say in the purge. -/
private theorem purge_garbage (env env' : GpsrEnv K) : t.purge env now = t.purge env' now := by
  unfold purge
  split
  · rfl
  · simp only [PositionTable.purge_garbage env env']

/-- Nor has it in what is chosen. -/
private theorem chosen_garbage (env : RecoveryEnv K) (garbage : PositionEntry K)
    {e : PositionEntry K} :
    Chosen { env with endEntry := garbage } now pos t previousHop nodePos e ↔
      Chosen env now pos t previousHop nodePos e := by
  have hplanar : t.rngPlanarize { env with endEntry := garbage } now pos =
      t.rngPlanarize env now pos := by
    unfold rngPlanarize
    rw [purge_garbage _ env.toGpsrEnv]
    dsimp only
    apply planarizeFrom_congr
    rfl
  unfold Chosen
  rw [hplanar]
  exact Iff.rfl

omit [Field K] [LinearOrder K] in
/-- The least address of a table is that at its beginning. -/
private theorem head_id_eq_zero_iff {table : PositionTable K} {first : PositionEntry K}
    (h : table.entries.head? = some first) :
    first.id = 0 ↔ ∃ e ∈ table.entries, e.id = 0 := by
  obtain ⟨rest, hrest⟩ := List.head?_eq_some_iff.mp h
  rw [hrest]
  constructor
  · exact fun hid => ⟨first, List.mem_cons_self, hid⟩
  · rintro ⟨e, he, hid⟩
    rcases List.mem_cons.mp he with rfl | he
    · exact hid
    · -- Nothing is less than the zero address
      have hlt := (List.pairwise_cons.mp (hrest ▸ table.sorted)).1 e he
      rw [hid] at hlt
      exact absurd hlt (UInt32.not_lt_zero)

/-- When `BestAngle` finds what it should. With its own table: the table was empty before it was
    purged, or some entry has not expired, and if one of these has the zero address, a neighbour
    is chosen that has not. In the MBR mode: a neighbour is chosen that has not expired. -/
def HopFound (env : RecoveryEnv K) (now : Int) (pos : Vector3D K) (t : NeighborTable K)
    (previousHop nodePos : Vector3D K) : Prop :=
  if t.nbFromMbr then
    ∃ e, Chosen env now pos t previousHop nodePos e ∧ e.id ≠ 0 ∧ LiveNeighbour now t e.id
  else
    t.table.entries = [] ∨ (∃ id, LiveNeighbour now t id) ∧
      (¬ LiveNeighbour now t 0 ∨ ∃ e, Chosen env now pos t previousHop nodePos e ∧ e.id ≠ 0)

omit [LinearOrder K] in
/-- Garbage with the address 0 and garbage with the address 1 cannot both be right. -/
private theorem not_liveHop_garbage (now : Int) (t : NeighborTable K)
    (h : ∀ garbage : PositionEntry K, LiveHop now t garbage.id) : False :=
  (h ⟨1, ⟨0, 0, 0⟩, 0⟩).1.elim (by simp) ((h ⟨0, ⟨0, 0, 0⟩, 0⟩).2 rfl 1)

/-- The MBR mode: `m_table` is empty, so that what is not a chosen neighbour is garbage. -/
private theorem bestAngle_live_mbr_iff (hmbr : t.nbFromMbr = true) (env : RecoveryEnv K)
    (pos previousHop nodePos : Vector3D K) :
    (∀ garbage, LiveHop now t
        (t.bestAngle { env with endEntry := garbage } now pos previousHop nodePos)) ↔
      ∃ e, Chosen env now pos t previousHop nodePos e ∧ e.id ≠ 0 ∧ LiveNeighbour now t e.id := by
  have htest : ¬ (t.nbFromMbr = false ∧ t.table.entries = []) := by simp [hmbr]
  -- With the MBR neighbours the table is empty, and begin() is end()
  have hempty (env : GpsrEnv K) : (t.purge env now).table.entries = [] := by
    -- Such a neighbour is returned whatever the garbage is
    rw [purge, dif_pos hmbr, t.mbr_empty hmbr]
  constructor
  · intro h
    by_contra hno
    -- Without such a neighbour the result depends on the garbage
    refine not_liveHop_garbage now t fun garbage => ?_
    rcases bestAngle_cases _ pos previousHop nodePos htest with ⟨e, he, hid, heq⟩ | ⟨-, heq⟩
    · -- A chosen neighbour would be a live one
      have hlive := heq ▸ h garbage
      exact absurd ⟨e, (chosen_garbage env garbage).mp he, hid, hlive.1.resolve_left hid⟩ hno
    · have hlive := heq ▸ h garbage
      rwa [hempty] at hlive
  · rintro ⟨e, he, hid, hlive⟩ garbage
    rcases bestAngle_cases _ pos previousHop nodePos htest with ⟨e', he', -, heq⟩ | ⟨hzero, -⟩
    · rw [heq, ((chosen_garbage env garbage).mp he').unique he]
      exact ⟨.inr hlive, fun h => absurd h hid⟩
    · exact absurd (hzero e ((chosen_garbage env garbage).mpr he)) hid

section Own

variable (hown : t.nbFromMbr = false) (hempty : t.table.entries ≠ [])
include hown hempty

omit [Field K] [LinearOrder K] hempty in
/-- Purging the neighbours purges the own table. -/
private theorem table_purge_own (env : GpsrEnv K) :
    (t.purge env now).table = t.table.purge env now := by
  rw [purge, dif_neg (by simp [hown])]

/-- All entries of the own table have expired: the garbage is returned. -/
private theorem not_bestAngle_live_of_expired (env : RecoveryEnv K)
    (pos previousHop nodePos : Vector3D K)
    (hhead : (t.table.purge env.toGpsrEnv now).entries.head? = none) :
    (∀ id, ¬ LiveNeighbour now t id) ∧
      ¬ ∀ garbage, LiveHop now t
        (t.bestAngle { env with endEntry := garbage } now pos previousHop nodePos) := by
  have hdead : ∀ id, ¬ LiveNeighbour now t id := by
    intro id hlive
    obtain ⟨e, he, -⟩ := (liveNeighbour_own_iff hown).mp hlive
    rw [List.head?_eq_none_iff.mp hhead] at he
    cases he
  refine ⟨hdead, fun h => not_liveHop_garbage now t fun garbage => ?_⟩
  rcases bestAngle_cases _ pos previousHop nodePos fun h => hempty h.2
    with ⟨e, he, -, -⟩ | ⟨-, heq⟩
  · exact absurd (((chosen_garbage env garbage).mp he).live hown) (hdead e.id)
  · have hlive := heq ▸ h garbage
    rwa [purge_garbage _ env.toGpsrEnv, table_purge_own hown, hhead] at hlive

/-- Some entry of the own table has not expired: it is returned if no neighbour is chosen. -/
private theorem bestAngle_live_own_iff (env : RecoveryEnv K) (pos previousHop nodePos : Vector3D K)
    {first : PositionEntry K}
    (hhead : (t.table.purge env.toGpsrEnv now).entries.head? = some first) :
    LiveNeighbour now t first.id ∧
      ((∀ garbage, LiveHop now t
        (t.bestAngle { env with endEntry := garbage } now pos previousHop nodePos)) ↔
          ¬ LiveNeighbour now t 0 ∨
            ∃ e, Chosen env now pos t previousHop nodePos e ∧ e.id ≠ 0) := by
  have htest : ¬ (t.nbFromMbr = false ∧ t.table.entries = []) := fun h => hempty h.2
  have hfirst : LiveNeighbour now t first.id :=
    (liveNeighbour_own_iff hown).mpr ⟨first, List.mem_of_mem_head? hhead, rfl⟩
  have hzero : first.id = 0 ↔ LiveNeighbour now t 0 := by
    rw [head_id_eq_zero_iff hhead, liveNeighbour_own_iff hown]
  refine ⟨hfirst, fun h => ?_, fun h garbage => ?_⟩
  · by_contra hno
    obtain ⟨hlive₀, hchosen⟩ := not_or.mp hno
    -- The first entry has the zero address, and it is returned
    rcases bestAngle_cases _ pos previousHop nodePos htest with ⟨e, he, hid, -⟩ | ⟨-, heq⟩
    · exact hchosen ⟨e, (chosen_garbage env first).mp he, hid⟩
    · have hlive := heq ▸ h first
      rw [purge_garbage _ env.toGpsrEnv, table_purge_own hown, hhead] at hlive
      exact hlive.2 (hzero.mpr (not_not.mp hlive₀)) first.id hfirst
  · rcases bestAngle_cases _ pos previousHop nodePos htest with ⟨e, he, hid, heq⟩ | ⟨hno, heq⟩
    · rw [heq]
      exact ⟨.inr (((chosen_garbage env garbage).mp he).live hown), fun h => absurd h hid⟩
    · rw [heq, purge_garbage _ env.toGpsrEnv, table_purge_own hown, hhead]
      rcases h with hlive₀ | ⟨e, he, hid⟩
      · exact ⟨.inr hfirst, fun h => absurd (hzero.mp h) hlive₀⟩
      · exact absurd (hno e ((chosen_garbage env garbage).mpr he)) hid

end Own

/-- Whatever stands behind the end of `m_table`, `BestAngle` returns a live neighbour, and the
    zero address only if there is none, exactly in these states. -/
theorem bestAngle_live_iff (env : RecoveryEnv K) (now : Int) (pos : Vector3D K)
    (t : NeighborTable K) (previousHop nodePos : Vector3D K) :
    (∀ garbage, LiveHop now t
        (t.bestAngle { env with endEntry := garbage } now pos previousHop nodePos)) ↔
      HopFound env now pos t previousHop nodePos := by
  unfold HopFound
  by_cases hmbr : t.nbFromMbr = true
  · rw [if_pos hmbr]
    exact bestAngle_live_mbr_iff hmbr env pos previousHop nodePos
  · rw [if_neg hmbr]
    have hown : t.nbFromMbr = false := Bool.eq_false_iff.mpr hmbr
    by_cases hempty : t.table.entries = []
    · -- Nobody is there, and the first test says so
      refine iff_of_true (fun garbage => ?_) (.inl hempty)
      rw [bestAngle_empty hown hempty]
      exact ⟨.inl rfl, fun _ id => by simp [LiveNeighbour, hown, hempty]⟩
    · rw [or_iff_right hempty]
      cases hhead : (t.table.purge env.toGpsrEnv now).entries.head? with
      | none =>
        obtain ⟨hdead, hnot⟩ :=
          not_bestAngle_live_of_expired hown hempty env pos previousHop nodePos hhead
        exact iff_of_false hnot fun h => h.1.elim hdead
      | some first =>
        obtain ⟨hfirst, hiff⟩ :=
          bestAngle_live_own_iff hown hempty env pos previousHop nodePos hhead
        rw [and_iff_right ⟨_, hfirst⟩]
        exact hiff

/-! ### Nobody is left -/

/-- The distance along the streets: between two points of one street it is that of the straight
    line. -/
def streetDistance (a b : Vector3D ℚ) : ℚ := |a.x - b.x| + |a.y - b.y|

/-- All nodes are on the street through the origin, so that an angle is 0 or 180 degrees. Node 9
    stands behind the end of `m_table`. -/
def garbageEnv : RecoveryEnv ℚ :=
  ⟨⟨streetDistance, ⟨9, ⟨0, 0, 0⟩, 0⟩⟩, [], fun refPos node => if refPos = node then 0 else 180⟩

/-- The address behind the end of the table is returned when its only entry has expired, and in
    the MBR mode when there is no neighbour. -/
theorem bestAngle_not_live :
    ¬ LiveHop 2000000000 (.own ⟨[⟨1, ⟨10, 0, 0⟩, 5⟩], List.pairwise_singleton ..⟩)
      (bestAngle garbageEnv 2000000000 ⟨0, 0, 0⟩
        (.own ⟨[⟨1, ⟨10, 0, 0⟩, 5⟩], List.pairwise_singleton ..⟩) ⟨20, 0, 0⟩ ⟨0, 0, 0⟩) ∧
    ¬ LiveHop 0 (.mbr ([] : List (Neighbor ℚ)))
      (bestAngle garbageEnv 0 ⟨0, 0, 0⟩ (.mbr []) ⟨20, 0, 0⟩ ⟨0, 0, 0⟩) := by
  constructor
  · have hop : bestAngle garbageEnv 2000000000 ⟨0, 0, 0⟩
        (.own ⟨[⟨1, ⟨10, 0, 0⟩, 5⟩], List.pairwise_singleton ..⟩) ⟨20, 0, 0⟩ ⟨0, 0, 0⟩ = 9 := rfl
    rw [hop]
    rintro ⟨hzero | ⟨e, he, hid, -⟩, -⟩
    · cases hzero
    · rw [List.mem_singleton.mp he] at hid
      cases hid
  · have hop : bestAngle garbageEnv 0 ⟨0, 0, 0⟩ (.mbr []) ⟨20, 0, 0⟩ ⟨0, 0, 0⟩ = 9 := rfl
    rw [hop]
    rintro ⟨hzero | ⟨i, hi, -⟩, -⟩
    · cases hzero
    · cases hi

end NeighborTable

end MapRelay.NS3.Gpsr
