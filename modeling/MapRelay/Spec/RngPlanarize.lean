import MapRelay.ForStd.Survivors
import MapRelay.Native.GpsrRecovery
import MapRelay.Spec.Gpsr

/-!
# What `rng_planarize` keeps

The inner loop looks for a neighbour in between only from the outer position on, so that the
planar neighbours are the `survivors` of the table. They are the right ones exactly if every
neighbour that has another one in between has one behind it in the table.
-/

namespace MapRelay.NS3.Gpsr

open ForStd

variable {K : Type}

namespace PositionTable

/-- An entry is inserted if its address is new. -/
theorem mem_insert {table : PositionTable K} {e i : PositionEntry K} :
    i ∈ (table.insert e).entries ↔
      i ∈ table.entries ∨ (i = e ∧ ∀ j ∈ table.entries, j.id ≠ e.id) := by
  unfold insert
  split
  case isTrue h =>
    obtain ⟨j, hj, hid⟩ := h
    exact ⟨.inl, fun hi => hi.elim id fun hnew => absurd hid (hnew.2 j hj)⟩
  case isFalse h =>
    have hnew : ∀ j ∈ table.entries, j.id ≠ e.id := fun j hj hid => h ⟨j, hj, hid⟩
    simp only [List.mem_append, List.mem_filter, List.mem_cons, decide_eq_true_eq]
    constructor
    · rintro (⟨hi, -⟩ | rfl | ⟨hi, -⟩)
      · exact .inl hi
      · exact .inr ⟨rfl, hnew⟩
      · exact .inl hi
    · rintro (hi | ⟨rfl, -⟩)
      · -- In front of the new entry or behind it
        rcases UInt32.lt_or_lt_of_ne (hnew i hi) with hlt | hlt
        · exact .inl ⟨hi, hlt⟩
        · exact .inr (.inr ⟨hi, hlt⟩)
      · exact .inr (.inl rfl)

end PositionTable

namespace NeighborTable

/-- The addresses of the list determine its entries. -/
def ByAddress (l : List (PositionEntry K)) : Prop := ∀ v ∈ l, ∀ w ∈ l, v.id = w.id → v = w

/-- Some of the entries have different addresses, too. -/
theorem ByAddress.subset {l l' : List (PositionEntry K)} (h : ByAddress l) (hsub : l' ⊆ l) :
    ByAddress l' := fun v hv w hw => h v (hsub hv) w (hsub hw)

section Planar

variable [Zero K]

/-- The neighbours have different addresses. -/
private theorem byAddress_neighbours (env : RecoveryEnv K) (now : Int) (t : NeighborTable K) :
    ByAddress (t.neighbours env now) := by
  unfold neighbours
  split
  · -- A position is that of the node with the address
    intro v hv w hw hid
    obtain ⟨i, -, rfl⟩ := List.mem_map.mp hv
    obtain ⟨j, -, rfl⟩ := List.mem_map.mp hw
    have hip : i.ipAddress = j.ipAddress := hid
    rw [hip]
  · -- The keys of a map are distinct
    intro v hv w hw hid
    obtain ⟨i, hi, rfl⟩ := List.mem_map.mp hv
    obtain ⟨j, hj, rfl⟩ := List.mem_map.mp hw
    rw [List.inj_on_of_nodup_map t.table.nodup_ids hi hj hid]

variable [LinearOrder K]

omit [Zero K] in
/-- The loops put the survivors into the result. -/
private theorem mem_planarizeFrom {env : GpsrEnv K} {myPos : Vector3D K}
    {start : PositionEntry K → List (PositionEntry K) → List (PositionEntry K)}
    (hstart : ∀ index rest, (∃ temp ∈ start index rest, Between env myPos index temp) ↔
      ∃ temp ∈ rest, Between env myPos index temp)
    {l : List (PositionEntry K)} {result : PositionTable K}
    (h : ByAddress (result.entries ++ l)) {e : PositionEntry K} :
    e ∈ (planarizeFrom env myPos start l result).entries ↔
      e ∈ result.entries ∨ e ∈ survivors (Between env myPos) l := by
  induction l generalizing result with
  | nil => simp [planarizeFrom, survivors]
  | cons index rest ih =>
    have hrest : ByAddress (result.entries ++ rest) :=
      h.subset (((List.sublist_cons_self index rest).append_left result.entries).subset)
    rw [planarizeFrom, survivors]
    by_cases hagainst : ∃ temp ∈ rest, Between env myPos index temp
    · rw [if_pos ((hstart index rest).mpr hagainst), if_pos hagainst, ih hrest]
    · rw [if_neg fun hex => hagainst ((hstart index rest).mp hex), if_neg hagainst]
      have hindex : index ∈ result.entries ++ index :: rest := by simp
      -- An entry for its address would be this one
      have hmem {i : PositionEntry K} : i ∈ (result.insert index).entries ↔
          i ∈ result.entries ∨ i = index := by
        rw [PositionTable.mem_insert]
        constructor
        · exact fun hi => hi.imp_right And.left
        · rintro (hi | rfl)
          · exact .inl hi
          · by_cases hold : ∃ j ∈ result.entries, j.id = i.id
            · obtain ⟨j, hj, hid⟩ := hold
              rw [← h j (List.mem_append_left _ hj) i hindex hid]
              exact .inl hj
            · exact .inr ⟨rfl, fun j hj hid => hold ⟨j, hj, hid⟩⟩
      have hinsert : ByAddress ((result.insert index).entries ++ rest) := by
        refine h.subset fun x hx => ?_
        rcases List.mem_append.mp hx with hx | hx
        · rcases hmem.mp hx with hx | rfl
          · exact List.mem_append_left _ hx
          · exact hindex
        · exact List.mem_append_right _ (List.mem_cons_of_mem _ hx)
      rw [ih hinsert, hmem, List.mem_cons, or_assoc]

/-- The planar neighbours are the survivors of the table. -/
theorem mem_rngPlanarize {env : RecoveryEnv K} {now : Int} {pos : Vector3D K}
    {t : NeighborTable K} {e : PositionEntry K} :
    e ∈ (t.rngPlanarize env now pos).entries ↔
      e ∈ survivors (Between env.toGpsrEnv (planar pos))
        ((t.purge env.toGpsrEnv now).neighbours env now) := by
  unfold rngPlanarize
  dsimp only
  rw [mem_planarizeFrom]
  · simp
  · intro index rest
    split
    · exact Iff.rfl
    · -- A neighbour is not between the node and itself
      rw [List.exists_mem_cons_iff, or_iff_right]
      exact fun hself => hself.1 rfl
  · exact byAddress_neighbours env now _

/-- The result has exactly the neighbours that no other neighbour is in between. -/
def PlanarExactly (env : RecoveryEnv K) (now : Int) (pos : Vector3D K) (t : NeighborTable K) :
    Prop :=
  let ns := (t.purge env.toGpsrEnv now).neighbours env now
  ∀ v, v ∈ (t.rngPlanarize env now pos).entries ↔
    v ∈ ns ∧ ∀ w ∈ ns, ¬ Between env.toGpsrEnv (planar pos) v w

/-- In either mode `rng_planarize` is right iff each neighbour with another one in between has
    one behind it in the table. -/
theorem rngPlanarize_exactly_iff (env : RecoveryEnv K) (now : Int) (pos : Vector3D K)
    (t : NeighborTable K) : PlanarExactly env now pos t ↔
      Backed (Between env.toGpsrEnv (planar pos))
        ((t.purge env.toGpsrEnv now).neighbours env now) := by
  rw [← survivors_iff_backed]
  exact forall_congr' fun v => by rw [mem_rngPlanarize]

end Planar

/-! ### Two neighbours in a line -/

/-- Nodes 1 and 2 on a line. -/
def lineRecoveryEnv : RecoveryEnv Int :=
  ⟨lineEnv, [(1, ⟨10, 0, 0⟩), (2, ⟨20, 0, 0⟩)], fun _ _ => 0⟩

/-- The beacon of a node on the line. -/
def lineNeighbor (ip : UInt32) : Neighbor Int :=
  ⟨ip, Mac48Address.zero, 1000, 0, false, 1, 0, 10 * ip.toNat, 0⟩

/-- The second neighbour has the first one in between, and is kept nevertheless, in both modes. -/
theorem rngPlanarize_not_exactly :
    ¬ PlanarExactly lineRecoveryEnv 6 ⟨0, 0, 0⟩
      (.own ⟨[⟨1, ⟨10, 0, 0⟩, 5⟩, ⟨2, ⟨20, 0, 0⟩, 5⟩], by decide⟩) ∧
    ¬ PlanarExactly lineRecoveryEnv 6 ⟨0, 0, 0⟩ (.mbr [lineNeighbor 1, lineNeighbor 2]) := by
  constructor
  · intro h
    exact ((h ⟨2, ⟨20, 0, 0⟩, 6⟩).mp (by decide)).2 ⟨1, ⟨10, 0, 0⟩, 6⟩ (by decide) (by decide)
  · intro h
    exact ((h ⟨2, ⟨20, 0, 0⟩, 6⟩).mp (by decide)).2 ⟨1, ⟨10, 0, 0⟩, 6⟩ (by decide) (by decide)

end NeighborTable

end MapRelay.NS3.Gpsr
