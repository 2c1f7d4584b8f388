import Mathlib.Data.Rat.Floor
import Mathlib.Data.Nat.Sqrt
import MapRelay.Spec.PathSearch

/-!
# The types of the roads after `getPaths`

The search closes the roads of its paths, and afterwards the recorded types are written back, path
by path in the order in which they were found. The last path that uses a road decides on its
type: a road on two paths was closed already when the second of them was recorded.
-/

namespace MapRelay.NS3.GeoSvr.MsvrMap

open ForStd

variable {K : Type}

/-! ## Writing types -/

/-- Writes to the roads of steps, from the front. -/
def applyWrites (m : MsvrMap K) (writes : List ((Nat × Nat) × Int32)) : MsvrMap K :=
  writes.foldl (fun m w => m.setType w.1.1 w.1.2 w.2) m

/-- The type of a road after the writes, if it was `type` before. -/
def writtenType (r : Road) (type : Int32) (writes : List ((Nat × Nat) × Int32)) : Int32 :=
  lastWrite (fun w => r.Joins w.1.1 w.1.2) Prod.snd type writes

/-- Two lists of writes are carried out one after the other. -/
private theorem applyWrites_append (m : MsvrMap K) (writes writes' : List ((Nat × Nat) × Int32)) :
    m.applyWrites (writes ++ writes') = (m.applyWrites writes).applyWrites writes' :=
  List.foldl_append

/-- Each road has the type of the last write to it. -/
theorem applyWrites_eq (m : MsvrMap K) (writes : List ((Nat × Nat) × Int32)) :
    m.applyWrites writes = m.mapType fun r => writtenType r r.type writes := by
  induction writes generalizing m with
  | nil => exact ext rfl (by simp [applyWrites, writtenType])
  | cons w writes ih =>
    rw [applyWrites, List.foldl_cons]
    exact (ih _).trans (mapType_mapType m _ _)

/-- The roads of all the paths are used up. -/
theorem close_foldl (m : MsvrMap K) (paths : List (List Nat)) :
    paths.foldl close m =
      m.mapType fun r => if ∃ path ∈ paths, r.On path then intMax else r.type := by
  induction paths generalizing m with
  | nil => exact ext rfl (by simp)
  | cons path paths ih =>
    rw [List.foldl_cons, ih, close, mapType_mapType]
    refine mapType_congr _ fun r _ => ?_
    by_cases hon : r.On path <;> simp [hon]

/-- All that is written back for the paths. -/
def restoreWrites : MsvrMap K → List (List Nat) → List ((Nat × Nat) × Int32)
  | _, [] => []
  | m, path :: paths => (steps path).zip (m.record path) ++ restoreWrites (m.close path) paths

/-- What is written back for more paths, after those before are used up. -/
private theorem restoreWrites_append (m : MsvrMap K) (before paths : List (List Nat)) :
    restoreWrites m (before ++ paths) =
      restoreWrites m before ++ restoreWrites (before.foldl close m) paths := by
  induction before generalizing m with
  | nil => rfl
  | cons path before ih => simp [restoreWrites, ih]

/-- The writes go to the roads of the paths. -/
private theorem not_joins_of_mem_restoreWrites {m : MsvrMap K} {paths : List (List Nat)} {r : Road}
    (h : ∀ path ∈ paths, ¬ r.On path) :
    ∀ w ∈ restoreWrites m paths, ¬ r.Joins w.1.1 w.1.2 := by
  induction paths generalizing m with
  | nil => simp [restoreWrites]
  | cons path paths ih =>
    intro w hw hjoins
    rcases List.mem_append.mp hw with hw | hw
    · exact h path List.mem_cons_self ⟨w.1, (List.of_mem_zip hw).1, hjoins⟩
    · exact ih (fun path' hpath' => h path' (List.mem_cons_of_mem path hpath')) w hw hjoins

/-! ## The loop that writes the types back -/

variable {pred : Nat → Nat} {src dst v limit fuel : Nat}

/-- The loop over a path writes its types back, and needs one for each step. -/
private theorem restorePath_eq_ok {path : List Nat} {types : List Int32} {m m' : MsvrMap K}
    (hwalk : Walk pred src v path) (h : restorePath pred src fuel v types m = .ok m') :
    path.length ≤ types.length ∧ m' = m.applyWrites ((steps (v :: path)).zip types) := by
  -- The walk back to the source, one road and one recorded type for each step
  induction hwalk generalizing fuel types m with
  | here =>
    cases fuel with
    | zero => simp [restorePath] at h
    | succ fuel =>
      unfold restorePath at h
      rw [if_pos rfl] at h
      exact ⟨Nat.zero_le _, (Except.ok.inj h).symm⟩
  | @step v path hv _ ih =>
    cases fuel with
    | zero => simp [restorePath] at h
    | succ fuel =>
      unfold restorePath at h
      rw [if_neg hv] at h
      cases types with
      | nil => cases h
      | cons type types =>
        obtain ⟨hlen, rfl⟩ := ih h
        exact ⟨Nat.succ_le_succ hlen, rfl⟩

section Restore

variable {env : MapEnv K} {m m₀ m' : MsvrMap K} {paths : List (List Nat)} {rounds : List (Round K)}

/-- Types were recorded for every step of the paths. -/
def AllRecorded : MsvrMap K → List (List Nat) → Prop
  | _, [] => True
  | m, path :: paths =>
    (steps path).length ≤ (m.record path).length ∧ AllRecorded (m.close path) paths

/-- The types of a path in the middle are recorded, too. -/
private theorem AllRecorded.of_append {before : List (List Nat)} {path : List Nat}
    {after : List (List Nat)} (h : AllRecorded m (before ++ path :: after)) :
    (steps path).length ≤ ((before.foldl close m).record path).length := by
  induction before generalizing m with
  | nil => exact h.1
  | cons path' before ih => exact ih h.2

/-- The loop over the paths writes everything back, and needs a type for each step. -/
theorem restore_eq_ok [Field K] (hkept : Kept env src dst m paths rounds)
    (h : restore src dst limit rounds m₀ = .ok m') :
    AllRecorded m paths ∧ m' = m₀.applyWrites (restoreWrites m paths) := by
  induction hkept generalizing m₀ with
  | nil => exact ⟨trivial, (Except.ok.inj h).symm⟩
  | cons hwalk _ ih =>
    rw [restore, List.foldlM_cons] at h
    obtain ⟨m₁, hpath, h⟩ := bind_eq_ok.mp h
    obtain ⟨hlen, rfl⟩ := restorePath_eq_ok hwalk hpath
    obtain ⟨hall, rfl⟩ := ih h
    refine ⟨⟨by simpa [steps] using hlen, hall⟩, ?_⟩
    rw [restoreWrites, applyWrites_append]

end Restore

/-! ## What the last path writes -/

section Restored

variable {m : MsvrMap K} {paths before after : List (List Nat)} {path : List Nat} {r : Road}

/-- In the last of the paths that uses the road, the type that is recorded at the place of the road
    is that of the road. -/
def Restored (m : MsvrMap K) (paths : List (List Nat)) (r : Road) : Prop :=
  ∀ before path after, paths = before ++ path :: after → (∀ later ∈ after, ¬ r.On later) →
    ∀ (i : Nat) (s : Nat × Nat), (steps path)[i]? = some s → r.Joins s.1 s.2 →
      ((before.foldl close m).record path)[i]? = some r.type

/-- What is written back for the last path that uses the road decides. -/
private theorem writtenType_restoreWrites (hnodup : path.Nodup)
    (hlen : (steps path).length ≤ ((before.foldl close m).record path).length)
    (hafter : ∀ later ∈ after, ¬ r.On later) {i : Nat} {s : Nat × Nat}
    (hs : (steps path)[i]? = some s) (hjoins : r.Joins s.1 s.2) (type : Int32) :
    some (writtenType r type (restoreWrites m (before ++ path :: after))) =
      ((before.foldl close m).record path)[i]? := by
  -- The step has a recorded type, as every road of the path was recorded
  have hi : i < (steps path).length := (List.getElem?_eq_some_iff.mp hs).1
  obtain ⟨t, ht⟩ : ∃ t, ((before.foldl close m).record path)[i]? = some t :=
    ⟨_, List.getElem?_eq_getElem (hi.trans_le hlen)⟩
  rw [restoreWrites_append, restoreWrites, ht]
  unfold writtenType
  -- Later paths do not write to the road
  rw [lastWrite_append, lastWrite_append,
    lastWrite_of_forall_not (not_joins_of_mem_restoreWrites hafter)]
  refine congrArg some (lastWrite_of_getElem? (w := (s, t)) (i := i) ?_ hjoins ?_ _)
  · rw [List.getElem?_zip_eq_some]
    exact ⟨hs, ht⟩
  -- Nor does a later step of the same path, as its points are distinct
  · intro j w' hj hw' hjoins'
    obtain ⟨hs', -⟩ := List.getElem?_zip_eq_some.mp hw'
    obtain ⟨hi, rfl⟩ := List.getElem?_eq_some_iff.mp hs
    obtain ⟨hj', heq⟩ := List.getElem?_eq_some_iff.mp hs'
    exact List.pairwise_iff_getElem.mp (pairwise_steps hnodup) i j hi hj' hj r hjoins
      (heq ▸ hjoins')

/-- The road has its type again exactly if it is `Restored`. -/
private theorem writtenType_eq_iff (hnodup : ∀ path ∈ paths, path.Nodup)
    (hall : AllRecorded m paths) :
    writtenType r (if ∃ path ∈ paths, r.On path then intMax else r.type) (restoreWrites m paths) =
      r.type ↔ Restored m paths r := by
  constructor
  -- The last path with the road on it writes the type that it found
  · intro htype before path after hpaths hafter i s hs hjoins
    subst hpaths
    rw [← writtenType_restoreWrites (hnodup path (by simp)) hall.of_append hafter hs hjoins, htype]
  -- Conversely the last write decides
  · intro hrestored
    rcases exists_last r.On paths with hnone | ⟨before, path, after, rfl, hon, hafter⟩
    · -- The road is on no path, so that nobody touched it
      have hnot : ¬ ∃ path ∈ paths, r.On path := fun ⟨path, hpath, hon⟩ => hnone path hpath hon
      rw [if_neg hnot]
      exact lastWrite_of_forall_not (not_joins_of_mem_restoreWrites hnone) _
    · obtain ⟨s, hs, hjoins⟩ := hon
      obtain ⟨i, hi⟩ := List.mem_iff_getElem?.mp hs
      have hlast := fun type =>
        writtenType_restoreWrites (hnodup path (by simp)) hall.of_append hafter hi hjoins type
      simp only [hrestored before path after rfl hafter i s hi hjoins, Option.some.injEq] at hlast
      exact hlast _

/-! ## Maps without parallel roads -/

/-- No two roads join the same points. -/
def NoParallel (m : MsvrMap K) : Prop :=
  m.roads.Pairwise fun r r' => ¬ r.Joins r'.source r'.target

/-- Without parallel roads, at most one joins two points. -/
private theorem length_roadsJoining_le (h : m.NoParallel) (f : Road → Int32) (u v : Nat) :
    ((m.mapType f).roadsJoining u v).length ≤ 1 := by
  rw [roadsJoining_mapType, List.length_map]
  have hpair : (m.roadsJoining u v).Pairwise fun r r' => ¬ r.Joins r'.source r'.target :=
    h.sublist List.filter_sublist
  have hmem : ∀ r ∈ m.roadsJoining u v, r.Joins u v := fun r hr => (mem_roadsJoining.mp hr).2
  generalize m.roadsJoining u v = l at hpair hmem ⊢
  rcases l with - | ⟨r, - | ⟨r', l⟩⟩
  · exact Nat.zero_le 1
  · exact le_refl 1
  · exact absurd ((hmem r (by simp)).trans (hmem r' (by simp)))
      ((List.pairwise_cons.mp hpair).1 r' (by simp))

/-- A list that gets at most one element for each of another is not longer. -/
private theorem length_flatMap_le {α β : Type} {f : α → List β} {l : List α}
    (hle : ∀ a ∈ l, (f a).length ≤ 1) : (l.flatMap f).length ≤ l.length := by
  induction l with
  | nil => simp
  | cons x l ih =>
    have hx := hle x List.mem_cons_self
    have hrest := ih fun y hy => hle y (List.mem_cons_of_mem x hy)
    simp only [List.flatMap_cons, List.length_append, List.length_cons]
    omega

/-- If every step adds at most one type, and there are as many types as steps, then the types are
    in the places of their steps. -/
private theorem getElem?_flatMap_of_length {α β : Type} {f : α → List β} {l : List α} {i : Nat}
    {a : α} {b : β} (hle : ∀ a ∈ l, (f a).length ≤ 1) (hlen : l.length ≤ (l.flatMap f).length)
    (ha : l[i]? = some a) (hb : b ∈ f a) : (l.flatMap f)[i]? = some b := by
  induction l generalizing i with
  | nil => simp at ha
  | cons x l ih =>
    have hx := hle x List.mem_cons_self
    have hrest : ∀ y ∈ l, (f y).length ≤ 1 := fun y hy => hle y (List.mem_cons_of_mem x hy)
    have hsum := length_flatMap_le hrest
    simp only [List.flatMap_cons, List.length_append, List.length_cons] at hlen ⊢
    -- Each element gives exactly one, since together they are enough
    obtain ⟨c, hc⟩ : ∃ c, f x = [c] := List.length_eq_one_iff.mp (by omega)
    rw [hc, List.singleton_append]
    cases i with
    | zero =>
      obtain rfl : x = a := by simpa using ha
      obtain rfl : b = c := by simpa [hc] using hb
      rfl
    | succ i => exact ih hrest (by omega) (by simpa using ha)

/-- The type that is recorded for a road of a map without parallel roads. -/
private theorem record_getElem? (h : m.NoParallel) (hr : r ∈ m.roads)
    (hlen : (steps path).length ≤ ((before.foldl close m).record path).length) {i : Nat}
    {s : Nat × Nat} (hs : (steps path)[i]? = some s) (hjoins : r.Joins s.1 s.2) :
    ((before.foldl close m).record path)[i]? =
      some (if ∃ path ∈ before, r.On path then intMax else r.type) := by
  rw [close_foldl] at hlen ⊢
  refine getElem?_flatMap_of_length (fun s' _ => ?_) hlen hs ?_
  · rw [List.length_map]
    exact length_roadsJoining_le h _ _ _
  · rw [roadsJoining_mapType, List.map_map]
    exact List.mem_map_of_mem (mem_roadsJoining.mpr ⟨hr, hjoins⟩)

/-- Without parallel roads, a road is restored exactly if it is not on two of the paths. -/
private theorem restored_iff_of_noParallel (h : m.NoParallel) (hall : AllRecorded m paths)
    (hr : r ∈ m.roads) (htype : r.type ≠ intMax) :
    Restored m paths r ↔ paths.countP (fun path => r.On path) ≤ 1 := by
  constructor
  · intro hrestored
    rcases exists_last r.On paths with hnone | ⟨before, path, after, rfl, hon, hafter⟩
    · have hzero : paths.countP (fun path => r.On path) = 0 :=
        List.countP_eq_zero.mpr fun path hpath => by simpa using hnone path hpath
      omega
    · obtain ⟨s, hs, hjoins⟩ := hon
      obtain ⟨i, hi⟩ := List.mem_iff_getElem?.mp hs
      have hlast := hrestored before path after rfl hafter i s hi hjoins
      rw [record_getElem? h hr hall.of_append hi hjoins] at hlast
      -- The road was not closed when it was recorded
      have hbefore : ∀ path ∈ before, ¬ r.On path := by
        intro path' hpath' hon'
        rw [if_pos ⟨path', hpath', hon'⟩] at hlast
        exact htype (Option.some.inj hlast).symm
      have hzero : before.countP (fun path => r.On path) = 0 :=
        List.countP_eq_zero.mpr fun path hpath => by simpa using hbefore path hpath
      have hzero' : after.countP (fun path => r.On path) = 0 :=
        List.countP_eq_zero.mpr fun path hpath => by simpa using hafter path hpath
      rw [List.countP_append, List.countP_cons, hzero, hzero']
      split <;> omega
  · intro hcount before path after hpaths hafter i s hi hjoins
    subst hpaths
    have hon : r.On path := ⟨s, List.mem_of_getElem? hi, hjoins⟩
    have hbefore : ¬ ∃ path ∈ before, r.On path := by
      rintro ⟨path', hpath', hon'⟩
      have hpos : 0 < before.countP (fun path => r.On path) :=
        List.countP_pos_iff.mpr ⟨path', hpath', by simpa using hon'⟩
      rw [List.countP_append, List.countP_cons, if_pos (by simpa using hon)] at hcount
      omega
    rw [record_getElem? h hr hall.of_append hi hjoins, if_neg hbefore]

end Restored

/-! ## The types after `getPaths` -/

/-- A list is unchanged exactly if its elements are. -/
theorem map_eq_self_iff {α : Type} {f : α → α} {l : List α} :
    l.map f = l ↔ ∀ a ∈ l, f a = a := by
  simpa using List.map_inj_left (f := f) (g := id) (l := l)

/-- `getPaths` leaves the types as they were exactly if every road is restored from the last path
    that uses it; without parallel roads, exactly if no road is on two of the paths. -/
theorem getPaths_restores_iff [Field K] [LinearOrder K] {env : MapEnv K} {m m' : MsvrMap K}
    {x1 y1 x2 y2 : K} {res : List Nat} (h : getPaths env fuel m x1 y1 x2 y2 = .ok (res, m')) :
    ∃ first second paths, getSrcAndDst env fuel m x1 y1 x2 y2 = .ok (first, second) ∧
      Found env first second m paths ∧
      (m'.roads = m.roads ↔ ∀ r ∈ m.roads, Restored m paths r) ∧
      (m.NoParallel → (∀ r ∈ m.roads, r.type ≠ intMax) →
        (m'.roads = m.roads ↔ ∀ r ∈ m.roads, paths.countP (fun path => r.On path) ≤ 1)) := by
  obtain ⟨first, second, paths, rounds, path, _, _, _, _, _, hends, hfound, hkept, -, hrestore,
    -⟩ := getPaths_eq_ok h
  -- The writes of both halves of the search are done on the same roads
  obtain ⟨hall, rfl⟩ := restore_eq_ok hkept hrestore
  have hiff : (applyWrites (paths.foldl close m) (restoreWrites m paths)).roads = m.roads ↔
      ∀ r ∈ m.roads, Restored m paths r := by
    rw [applyWrites_eq, close_foldl, mapType_mapType, roads_mapType]
    refine map_eq_self_iff.trans (forall₂_congr fun r hr => ?_)
    rw [← writtenType_eq_iff hfound.nodup hall]
    constructor
    · exact fun heq => congrArg Road.type heq
    · exact fun htype => congrArg (fun type => { r with type }) htype
  refine ⟨first, second, paths, hends, hfound, hiff, fun hsimple htypes => hiff.trans ?_⟩
  exact forall₂_congr fun r hr => restored_iff_of_noParallel hsimple hall hr (htypes r hr)

/-- A computation of which a part is known has returned. -/
theorem exists_of_toOption {ε α β : Type} {x : Except ε α} {f : α → β} {b : β}
    (h : x.toOption.map f = some b) : ∃ a, x = .ok a ∧ f a = b := by
  cases x with
  | error e => cases h
  | ok a => exact ⟨a, rfl, Option.some.inj h⟩

/-- The way from the point 0 to the point 2 leads over the point 1, from there straight on or by
    the point 3. -/
def detourMap : MsvrMap ℚ where
  points := [⟨0, 0⟩, ⟨100, 0⟩, ⟨200, 0⟩, ⟨120, 50⟩, ⟨-100, 0⟩, ⟨300, 0⟩]
  roads := [⟨0, 1, 0, 20⟩, ⟨1, 2, 1, 20⟩, ⟨1, 3, 2, 20⟩, ⟨3, 2, 3, 20⟩, ⟨4, 0, 4, 20⟩,
    ⟨2, 5, 5, 20⟩]
  ends_lt := by decide
  id_ne := by decide

/-- The square root of the square of a whole number. -/
def wholeSqrt (q : ℚ) : ℚ := (Nat.sqrt q.num.toNat : ℚ)

/-- The shortest paths from the point 0 of the `detourMap`: straight on until that way is used. -/
def detourEnv : MapEnv ℚ where
  sqrt := wholeSqrt
  dijkstra m _ :=
    if m.record [2, 1] = [intMax] then some fun v => [0, 0, 3, 1, 0, 2].getD v v
    else some fun v => [0, 0, 1, 1, 0, 2].getD v v

/-- The map with a detour is connected. -/
theorem connected_detourMap : detourMap.Connected := connected_of_earlier (by decide)

/-- On the map with a detour, the type of a road is lost. -/
private theorem getPaths_detourMap :
    ∃ res m', getPaths detourEnv 10 detourMap (-50) 0 250 0 = .ok (res, m') ∧
      m'.roads.map (·.type) = [intMax, 20, 20, 20, 20, 20] := by
  obtain ⟨⟨res, m'⟩, hrun, htypes⟩ := exists_of_toOption
    (show (getPaths detourEnv 10 detourMap (-50) 0 250 0).toOption.map
      (fun r => r.2.roads.map (·.type)) = some [intMax, 20, 20, 20, 20, 20] by decide +kernel)
  exact ⟨res, m', hrun, htypes⟩

/-- The condition for the types to be restored, on the map with a detour. -/
theorem getPaths_restores_iff_detourMap :
    ∃ res m' first second paths,
      getPaths detourEnv 10 detourMap (-50) 0 250 0 = .ok (res, m') ∧
      Found detourEnv first second detourMap paths ∧
      (m'.roads = detourMap.roads ↔ ∀ r ∈ detourMap.roads, Restored detourMap paths r) := by
  obtain ⟨res, m', hrun, -⟩ := getPaths_detourMap
  obtain ⟨first, second, paths, -, hfound, hiff, -⟩ := getPaths_restores_iff hrun
  exact ⟨res, m', first, second, paths, hrun, hfound, hiff⟩

/-- Both paths use the road from 0 to 1, which stays used up. -/
theorem detourMap_not_restored :
    detourMap.Connected ∧ (∀ r ∈ detourMap.roads, 0 ≤ r.type ∧ r.type < intMax) ∧
      ∃ res m', getPaths detourEnv 10 detourMap (-50) 0 250 0 = .ok (res, m') ∧
        m'.roads.map (·.type) = [intMax, 20, 20, 20, 20, 20] ∧ m'.roads ≠ detourMap.roads := by
  refine ⟨connected_detourMap, by decide, ?_⟩
  obtain ⟨res, m', hrun, htypes⟩ := getPaths_detourMap
  refine ⟨res, m', hrun, htypes, fun hsame => ?_⟩
  rw [hsame] at htypes
  exact absurd htypes (by decide)

end MapRelay.NS3.GeoSvr.MsvrMap
