import Mathlib.Data.List.Chain
import MapRelay.Spec.PathChoice
import MapRelay.Spec.PathRounds
import MapRelay.Spec.RoadSearch

/-!
# Whether the way of `getPaths` can be driven

The paths of the search lead along roads. The way is right if there is no need for a search only
for ends that a road joins, and if the last loop, which looks for the road of the destination
once more, finds the other end of that road.
-/

namespace MapRelay.NS3.GeoSvr.MsvrMap

open ForStd

variable {K : Type}

/-- No road is a loop. -/
def NoSelfLoop (m : MsvrMap K) : Prop := ∀ r ∈ m.roads, r.source ≠ r.target

/-- `getRoadByNode` finds a road exactly if there is one. -/
private theorem getRoadByNode_ne {m : MsvrMap K} {u v : Nat} :
    m.getRoadByNode u v ≠ -1 ↔ m.HasRoad u v := by
  unfold getRoadByNode
  cases h : m.roads.find? fun r => r.Joins u v with
  | none =>
    have hnone : ¬ m.HasRoad u v := by
      rintro ⟨r, hr, hjoins⟩
      exact List.find?_eq_none.mp h r hr (by simpa using hjoins)
    simp [hnone]
  | some r =>
    have hmem := List.mem_of_find?_eq_some h
    have hjoins : r.Joins u v := by simpa using List.find?_some h
    exact ⟨fun _ => ⟨r, hmem, hjoins⟩, fun _ => m.id_ne r hmem⟩

/-- Without loops, the two ends of a road are different. -/
theorem HasRoad.ne {m : MsvrMap K} (hloop : m.NoSelfLoop) {u v : Nat} (h : m.HasRoad u v) :
    u ≠ v := by
  obtain ⟨r, hr, ⟨rfl, rfl⟩ | ⟨rfl, rfl⟩⟩ := h
  · exact hloop r hr
  · exact (hloop r hr).symm

section Position

variable [Field K] [LinearOrder K] {m : MsvrMap K} {x y : K}

/-- The road of a position: the one with the id that `getRoadByPos` finds. -/
def PosRoad (m : MsvrMap K) (x y : K) (r : Road) : Prop :=
  ∃ S, Finds (m.roadInBox x y) 15 S ∧ m.roadById S.id = some r

/-- The two points that the last loop of `getPaths` finds. -/
def PosPair (m : MsvrMap K) (x y : K) (pair : Nat × Nat) : Prop := Finds (m.pairInBox x y) 15 pair

/-- A position has one road at most. -/
theorem PosRoad.unique {r r' : Road} (h : PosRoad m x y r) (h' : PosRoad m x y r') : r = r' := by
  obtain ⟨S, hS, hr⟩ := h
  obtain ⟨S', hS', hr'⟩ := h'
  obtain rfl := hS.unique hS'
  exact Option.some.inj (hr.symm.trans hr')

/-- The road of a position is a road of the map. -/
theorem PosRoad.mem {r : Road} (h : PosRoad m x y r) : r ∈ m.roads := by
  obtain ⟨S, -, hr⟩ := h
  exact List.mem_of_find?_eq_some hr

/-- The two points that the last loop finds are joined by a road. -/
theorem PosPair.hasRoad {dst1 dst2 : Nat} (h : PosPair m x y (dst1, dst2)) :
    m.HasRoad dst1 dst2 :=
  Finds.of_look (P := fun pair : Nat × Nat => m.HasRoad pair.1 pair.2)
    (fun _ _ hlook => hasRoad_of_pairInBox hlook) h

/-- The last loop does not look at the types. -/
private theorem pairInBox_mapType (m : MsvrMap K) (f : Road → Int32) (x y : K) :
    (m.mapType f).pairInBox x y = m.pairInBox x y := by
  have hadj : ∀ v, (m.mapType f).adjacentVertices v = m.adjacentVertices v := fun v => by
    simp [adjacentVertices, List.flatMap_map]
  funext pad
  unfold pairInBox
  simp only [hadj]
  rfl

/-- A map with a road has a road for every position. -/
private theorem exists_posRoad [IsStrictOrderedRing K] [Archimedean K] (h : m.roads ≠ [])
    (x y : K) :
    (∃ r, PosRoad m x y r) ∧ ∃ pair, PosPair m x y pair := by
  obtain ⟨r, hr⟩ := List.exists_mem_of_ne_nil _ h
  obtain ⟨n, hn⟩ := exists_inBox m x y r.source r.target
  obtain ⟨S, hS⟩ := exists_finds (roadInBox_isSome hr hn)
  obtain ⟨pair, hpair⟩ := exists_finds (pairInBox_isSome hr hn)
  obtain ⟨d, -, hd⟩ := exists_roadById (hS.of_look fun _ _ => mem_of_roadInBox)
  exact ⟨⟨d, S, hS, hd⟩, pair, hpair⟩

end Position

/-! ## Ways that can be driven -/

section Drivable

variable [Field K] [LinearOrder K] {m : MsvrMap K} {x1 y1 x2 y2 : K}

/-- The way has two points or more, roads join those that follow one another, it starts at an end
    of the road of the first position and ends with the two ends of that of the second. -/
structure Drivable (m : MsvrMap K) (x1 y1 x2 y2 : K) (res : List Nat) : Prop where
  two : 2 ≤ res.length
  joined : res.IsChain fun u v => m.getRoadByNode u v ≠ -1
  start : ∃ s u, PosRoad m x1 y1 s ∧ res.head? = some u ∧ s.IsEnd u
  finish : ∃ d front u v, PosRoad m x2 y2 d ∧ res = front ++ [u, v] ∧ d.Joins u v

/-- The one of the two points that the last loop adds. -/
def otherPoint (second dst1 dst2 : Nat) : Nat := if second = dst1 then dst2 else dst1

/-- The point that is added is not the one that is there. -/
private theorem ne_otherPoint {second dst1 dst2 : Nat} (h : dst1 ≠ dst2) :
    second ≠ otherPoint second dst1 dst2 := by
  unfold otherPoint
  split <;> omega

/-- A list of points with the right first one and the last ones `u` and `v`. -/
theorem drivable_iff {s d : Road} {first u v : Nat} {front res : List Nat}
    (hs : PosRoad m x1 y1 s) (hd : PosRoad m x2 y2 d) (hfirst : s.IsEnd first)
    (hhead : res.head? = some first) (hres : res = front ++ [u, v]) :
    Drivable m x1 y1 x2 y2 res ↔ res.IsChain m.HasRoad ∧ d.Joins u v := by
  have hchain : (res.IsChain fun u v => m.getRoadByNode u v ≠ -1) ↔ res.IsChain m.HasRoad := by
    simp only [getRoadByNode_ne]
  constructor
  -- The road of the position is the only one, and so are the last two points
  · rintro ⟨-, hjoined, -, d', front', u', v', hd', hres', hend⟩
    obtain rfl := hd.unique hd'
    obtain ⟨-, hlast⟩ := List.append_inj' (hres.symm.trans hres') rfl
    cases hlast
    exact ⟨hchain.mp hjoined, hend⟩
  · rintro ⟨hjoined, hend⟩
    exact ⟨by simp [hres], hchain.mpr hjoined, ⟨s, first, hs, hhead, hfirst⟩,
      d, front, u, v, hd, hres, hend⟩

/-- What the last lines of `getPaths` make of a path to `second`. -/
private theorem drivable_last_iff {s d : Road} {first u second dst1 dst2 : Nat}
    {front path : List Nat}
    (hs : PosRoad m x1 y1 s) (hd : PosRoad m x2 y2 d) (hfirst : s.IsEnd first)
    (hsecond : d.IsEnd second) (hhead : path.head? = some first)
    (hpath : path = front ++ [u, second]) (hne : dst1 ≠ dst2) :
    Drivable m x1 y1 x2 y2
        (if (second = dst1 ∧ u = dst2) ∨ (second = dst2 ∧ u = dst1) then path
          else path ++ [if second = dst1 then dst2 else dst1]) ↔
      path.IsChain m.HasRoad ∧ d.IsEnd (otherPoint second dst1 dst2) := by
  have hother := Road.joins_iff hsecond (ne_otherPoint hne)
  by_cases hsame : (second = dst1 ∧ u = dst2) ∨ (second = dst2 ∧ u = dst1)
  · -- The path ends with the other point and `second`
    have hu : u = otherPoint second dst1 dst2 := by
      unfold otherPoint
      split <;> omega
    rw [if_pos hsame, drivable_iff hs hd hfirst hhead hpath, ← hother, ← hu]
    exact and_congr_right fun _ => ⟨.symm, .symm⟩
  -- The other point is put behind `second`
  · have hres : path ++ [if second = dst1 then dst2 else dst1] =
        (front ++ [u]) ++ [second, otherPoint second dst1 dst2] := by simp [hpath, otherPoint]
    have hhead' : (path ++ [if second = dst1 then dst2 else dst1]).head? = some first := by
      rw [List.head?_append, hhead]
      rfl
    have hlast : path.getLast? = some second := by simp [hpath]
    have hjoin : d.Joins second (otherPoint second dst1 dst2) →
        m.HasRoad second (otherPoint second dst1 dst2) := fun h => ⟨d, hd.mem, h⟩
    rw [if_neg hsame, drivable_iff hs hd hfirst hhead' hres, ← hother, List.isChain_append]
    simp only [hlast, Option.mem_def, Option.some.injEq, forall_eq', List.isChain_singleton,
      List.head?_cons, true_and]
    exact ⟨fun h => ⟨h.1.1, h.2⟩, fun h => ⟨⟨h.1, hjoin h.2⟩, h.2⟩⟩

end Drivable

/-! ## Runs of `getPaths` -/

section Runs

variable [Field K] [LinearOrder K] {env : MapEnv K} {m m' : MsvrMap K} {x1 y1 x2 y2 : K}
  {fuel first second : Nat} {paths : List (List Nat)} {rounds : List (Round K)} {path : List Nat}

/-- The path of a run before its last loop: the two ends without a search, else one of the paths
    that were found. -/
def PathOf (first second : Nat) (paths : List (List Nat)) (path : List Nat) : Prop :=
  (paths = [] ∧ path = [first, second]) ∨ path.reverse ∈ paths

omit [LinearOrder K] in
/-- The rounds keep the paths that were found, from the source on. -/
private theorem Kept.map_path (h : Kept env first second m paths rounds) :
    rounds.map (·.path) = paths.map List.reverse := by
  induction h with
  | nil => rfl
  | cons _ _ ih => simp only [List.map_cons, ih]

omit [LinearOrder K] in
/-- The path of a round is one of those that were found. -/
private theorem Kept.mem_paths (h : Kept env first second m paths rounds) {round : Round K}
    (hround : round ∈ rounds) : round.path.reverse ∈ paths := by
  have hmem : round.path ∈ rounds.map (·.path) := List.mem_map_of_mem hround
  rw [h.map_path] at hmem
  obtain ⟨path, hpath, heq⟩ := List.mem_map.mp hmem
  rwa [← heq, List.reverse_reverse]

/-- The path that is chosen is one of those that were found, or the two ends. -/
private theorem pathOf_chosenPath (hkept : Kept env first second m paths rounds)
    (hne : first ≠ second)
    (h : chosenPath first second rounds = .ok path) : PathOf first second paths path := by
  unfold chosenPath at h
  dsimp only at h
  -- No round has found a path
  split at h
  case isTrue hnil =>
    subst hnil
    cases hkept
    rw [if_pos hne.symm] at h
    exact .inl ⟨rfl, (Except.ok.inj h).symm⟩
  case isFalse =>
    split at h
    -- The path of a round is one of those that were found
    next round hget =>
      obtain rfl := Except.ok.inj h
      exact .inr (hkept.mem_paths (List.mem_of_getElem? hget))
    next => cases h

omit [Field K] in
/-- One of the rounds is chosen. -/
private theorem exists_chosenPath (first second : Nat) (rounds : List (Round K)) :
    ∃ path, chosenPath first second rounds = .ok path := by
  unfold chosenPath
  dsimp only
  split
  case isTrue => exact ⟨_, rfl⟩
  case isFalse hne =>
    have hlt : findMeanMin (rounds.map (·.types)) (rounds.map (·.mean)) <
        (rounds.map (·.types)).length := findMeanMin_lt (by simpa using hne) (by simp)
    rw [List.length_map] at hlt
    rw [List.getElem?_eq_getElem hlt]
    exact ⟨_, rfl⟩

/-- Either way the path leads from `first` to `second`. -/
theorem PathOf.shape (hfound : Found env first second m paths) (hne : first ≠ second)
    (h : PathOf first second paths path) :
    path.head? = some first ∧ ∃ front u, path = front ++ [u, second] := by
  rcases h with ⟨-, rfl⟩ | hmem
  · exact ⟨rfl, [], first, rfl⟩
  · obtain ⟨hhead, hlast⟩ := hfound.ends _ hmem
    rw [List.getLast?_reverse] at hlast
    refine ⟨hlast, ?_⟩
    rw [List.head?_reverse] at hhead
    obtain ⟨init, rfl⟩ := List.getLast?_eq_some_iff.mp hhead
    rcases List.eq_nil_or_concat init with rfl | ⟨front, u, rfl⟩
    · exact absurd (Option.some.inj hlast).symm hne
    · exact ⟨front, u, by simp⟩

/-- The choice of the ends looks at the roads that the ids lead to. -/
private theorem chooseEnds_roadById {S D s d : Road} (hs : m.roadById S.id = some s)
    (hd : m.roadById D.id = some d) :
    chooseEnds env m x1 y1 x2 y2 S D = chooseEnds env m x1 y1 x2 y2 s d := by
  unfold chooseEnds
  rw [id_of_roadById hs, id_of_roadById hd]

/-- The ends of a run belong to the roads of the two positions. -/
theorem PosRoad.ends (hloop : m.NoSelfLoop) {s d : Road} (hs : PosRoad m x1 y1 s)
    (hd : PosRoad m x2 y2 d) (hends : chooseEnds env m x1 y1 x2 y2 s d = (first, second)) :
    s.IsEnd first ∧ d.IsEnd second ∧ first ≠ second := by
  have ⟨S, _, hS⟩ := hs
  have ⟨D, _, hD⟩ := hd
  have hspec := chooseEnds_spec env x1 y1 x2 y2 hS hD (hloop s hs.mem) (hloop d hd.mem)
  rwa [chooseEnds_roadById hS hD, hends] at hspec

/-- What `getPaths` returns is a way that can be driven exactly if its path leads along roads and
    the last loop finds the other end of the road of the destination. -/
private theorem drivable_getPaths_iff (hloop : m.NoSelfLoop) {res : List Nat}
    (h : getPaths env fuel m x1 y1 x2 y2 = .ok (res, m')) :
    ∃ s d first second paths path dst1 dst2, PosRoad m x1 y1 s ∧ PosRoad m x2 y2 d ∧
      chooseEnds env m x1 y1 x2 y2 s d = (first, second) ∧ PosPair m x2 y2 (dst1, dst2) ∧
      Found env first second m paths ∧ PathOf first second paths path ∧
      (Drivable m x1 y1 x2 y2 res ↔
        path.IsChain m.HasRoad ∧ d.IsEnd (otherPoint second dst1 dst2)) := by
  obtain ⟨first, second, paths, rounds, path, point1, point2, rest, dst1, dst2, hends, hfound,
    hkept, hchosen, hrestore, hreverse, hpair, rfl⟩ := getPaths_eq_ok h
  obtain ⟨S, hS, hends⟩ := bind_eq_ok.mp hends
  obtain ⟨D, hD, hends⟩ := bind_eq_ok.mp hends
  obtain ⟨s, -, hs⟩ := exists_roadById ((finds_of_padLoop hS).of_look fun _ _ => mem_of_roadInBox)
  obtain ⟨d, -, hd⟩ := exists_roadById ((finds_of_padLoop hD).of_look fun _ _ => mem_of_roadInBox)
  have hs' : PosRoad m x1 y1 s := ⟨S, finds_of_padLoop hS, hs⟩
  have hd' : PosRoad m x2 y2 d := ⟨D, finds_of_padLoop hD, hd⟩
  have hends' : chooseEnds env m x1 y1 x2 y2 s d = (first, second) :=
    (chooseEnds_roadById hs hd).symm.trans (Except.ok.inj hends)
  obtain ⟨hfirst, hsecond, hne⟩ := hs'.ends hloop hd' hends'
  -- The pair is looked for on the map after the search, which has the same points and roads
  obtain ⟨-, rfl⟩ := restore_eq_ok hkept hrestore
  rw [applyWrites_eq, pairInBox_mapType, close_foldl, pairInBox_mapType] at hpair
  have hpair' : PosPair m x2 y2 (dst1, dst2) := finds_of_padLoop hpair
  have hpath := pathOf_chosenPath hkept hne hchosen
  obtain ⟨hhead, front, u, rfl⟩ := hpath.shape hfound hne
  obtain ⟨rfl, rfl⟩ : second = point1 ∧ u = point2 := by
    have hsame : second :: u :: front.reverse = point1 :: point2 :: rest := by simpa using hreverse
    cases hsame
    exact ⟨rfl, rfl⟩
  exact ⟨s, d, first, second, paths, _, dst1, dst2, hs', hd', hends', hpair', hfound, hpath,
    drivable_last_iff hs' hd' hfirst hsecond hhead rfl (hpair'.hasRoad.ne hloop)⟩

/-- The last two points of a path that ends with them. -/
private theorem lastTwo_eq {front : List Nat} {u v : Nat} :
    lastTwo (front ++ [u, v]) = .ok (v, u) := by
  simp [lastTwo]

/-- With all that it looks for, and with enough fuel, `getPaths` returns. -/
private theorem exists_getPaths (hloop : m.NoSelfLoop) {s d : Road} {pair : Nat × Nat}
    (hs : PosRoad m x1 y1 s) (hd : PosRoad m x2 y2 d)
    (hends : chooseEnds env m x1 y1 x2 y2 s d = (first, second)) (hpair : PosPair m x2 y2 pair)
    (hfound : Found env first second m paths) (hchain : ∀ path ∈ paths, path.IsChain m.HasRoad) :
    ∃ fuel r, getPaths env fuel m x1 y1 x2 y2 = .ok r := by
  obtain ⟨-, -, hne⟩ := hs.ends hloop hd hends
  obtain ⟨S, hS, hs⟩ := hs
  obtain ⟨D, hD, hd⟩ := hd
  -- Fuel for the three loops over the boxes, for the rounds and for their paths
  obtain ⟨enough₁, hS⟩ := hS.padLoop
  obtain ⟨enough₂, hD⟩ := hD.padLoop
  obtain ⟨enough₃, hpair⟩ := Finds.padLoop hpair
  obtain ⟨fuel, hfuel⟩ : ∃ fuel, enough₁ + enough₂ + enough₃ + paths.length + paths.flatten.length
      < fuel := ⟨_, Nat.lt_succ_self _⟩
  have hlimit : ∀ path ∈ paths, path.length ≤ fuel := fun path hpath => by
    have hle := (List.sublist_flatten_of_mem hpath).length_le
    omega
  obtain ⟨rounds, hrounds⟩ := hfound.search hne.symm hchain hlimit (by omega : paths.length < fuel)
  obtain ⟨paths', hfound', hkept, -⟩ := found_of_search hrounds
  obtain rfl := hfound.unique hfound'
  obtain ⟨path, hchosen⟩ := exists_chosenPath first second rounds
  obtain ⟨-, front, u, rfl⟩ := (pathOf_chosenPath hkept hne hchosen).shape hfound hne
  obtain ⟨m', hrestore⟩ :=
    restore_of_kept hkept (allRecorded_of_chain hchain) hlimit (paths.foldl close m)
  have hpair' : padLoop (m'.pairInBox x2 y2) fuel 15 = .ok pair := by
    obtain ⟨-, rfl⟩ := restore_eq_ok hkept hrestore
    rw [applyWrites_eq, pairInBox_mapType, close_foldl, pairInBox_mapType]
    exact hpair fuel (by omega)
  have hends' : getSrcAndDst env fuel m x1 y1 x2 y2 = .ok (first, second) := by
    refine bind_eq_ok.mpr ⟨S, hS fuel (by omega), bind_eq_ok.mpr ⟨D, hD fuel (by omega), ?_⟩⟩
    exact congrArg Except.ok ((chooseEnds_roadById hs hd).trans hends)
  refine ⟨fuel, (if (second = pair.1 ∧ u = pair.2) ∨ (second = pair.2 ∧ u = pair.1) then
    front ++ [u, second]
    else front ++ [u, second] ++ [if second = pair.1 then pair.2 else pair.1], m'), ?_⟩
  refine bind_eq_ok.mpr ⟨_, hends', bind_eq_ok.mpr ⟨_, hrounds, bind_eq_ok.mpr ⟨_, hchosen, ?_⟩⟩⟩
  refine bind_eq_ok.mpr ⟨m', hrestore, bind_eq_ok.mpr ⟨_, lastTwo_eq, ?_⟩⟩
  refine bind_eq_ok.mpr ⟨pair, hpair', ?_⟩
  dsimp only
  split
  · rfl
  · rfl

end Runs

/-! ## When the way can be driven -/

section Route

variable [Field K] [LinearOrder K]

/-- What is needed of the ends of the way, of the road of the destination and of the pair of points
    that the last loop finds: the search comes to an end, without a search the ends are next to
    each other, and the last point is an end of the road of the destination. -/
structure WayFits (env : MapEnv K) (m : MsvrMap K) (first second : Nat) (d : Road)
    (dst1 dst2 : Nat) : Prop where
  searched : HasNextPath env m first second →
    (∀ r ∈ m.roads, 0 ≤ r.type) ∧ NeverStuck env first second m
  unsearched : ¬ HasNextPath env m first second → m.HasRoad first second
  last : d.IsEnd (otherPoint second dst1 dst2)

/-- The map has a road, and the way between the two positions fits. -/
structure RouteFits (env : MapEnv K) (m : MsvrMap K) (x1 y1 x2 y2 : K) : Prop where
  road : m.roads ≠ []
  way : ∀ s d first second dst1 dst2, PosRoad m x1 y1 s → PosRoad m x2 y2 d →
    chooseEnds env m x1 y1 x2 y2 s d = (first, second) → PosPair m x2 y2 (dst1, dst2) →
    WayFits env m first second d dst1 dst2

variable {env : MapEnv K} {m : MsvrMap K} {first second : Nat} {paths : List (List Nat)}
  (hdij : DijkstraSpec env m) (hconn : m.Connected) (hfirst : first < m.points.length)
include hdij hconn hfirst

/-- A search that has come to an end met no negative type. -/
private theorem Found.nonneg (h : Found env first second m paths)
    (hnext : HasNextPath env m first second) :
    ∀ r ∈ m.roads, 0 ≤ r.type := by
  intro r hr
  by_contra hneg
  have hnone := hdij.throws m first (.refl m) hfirst
    ⟨r, hr, hconn first hfirst r.source (m.ends_lt r hr).1, Int32.not_le.mp hneg⟩
  cases h with
  | done hnext' => exact hnext' hnext
  | round _ hpred _ _ => simp [hnone] at hpred

/-- The search of a way that fits finds paths, and these lead along roads. -/
theorem WayFits.exists_found {d : Road} {dst1 dst2 : Nat} (hsecond : second < m.points.length)
    (h : WayFits env m first second d dst1 dst2) :
    ∃ paths, Found env first second m paths ∧ (∀ path ∈ paths, path.IsChain m.HasRoad) ∧
      ∀ path, PathOf first second paths path → path.IsChain m.HasRoad := by
  -- With a way to `second` the search finds it, without one there is nothing to find
  by_cases hnext : HasNextPath env m first second
  · obtain ⟨hnonneg, hstuck⟩ := h.searched hnext
    obtain ⟨paths, hfound⟩ :=
      MsvrMap.exists_found hdij hconn hfirst hsecond (.refl m) hnonneg hstuck
    have hchain := hfound.chain hdij hconn hfirst hsecond (.refl m) hnonneg
    refine ⟨paths, hfound, hchain, ?_⟩
    rintro path (⟨rfl, -⟩ | hmem)
    · cases hfound with
      | done hnext' => exact absurd hnext hnext'
    · exact (List.isChain_reverse.mp (hchain _ hmem)).imp fun _ _ hroad => symm hroad
  · refine ⟨[], .done hnext, by simp, ?_⟩
    rintro path (⟨-, rfl⟩ | hmem)
    · simpa using h.unsearched hnext
    · cases hmem

end Route

/-- `getPaths` returns, and what it returns is always a way that can be driven, exactly if the
    map has a road and the way fits. -/
theorem getPaths_drivable_iff [Field K] [LinearOrder K] [IsStrictOrderedRing K] [Archimedean K]
    (env : MapEnv K) (m : MsvrMap K) (hdij : DijkstraSpec env m) (hconn : m.Connected)
    (hloop : m.NoSelfLoop) (x1 y1 x2 y2 : K) :
    ((∃ fuel r, getPaths env fuel m x1 y1 x2 y2 = .ok r) ∧
        ∀ fuel r, getPaths env fuel m x1 y1 x2 y2 = .ok r → Drivable m x1 y1 x2 y2 r.1) ↔
      RouteFits env m x1 y1 x2 y2 := by
  constructor
  · rintro ⟨⟨fuel, r, hrun⟩, hdrivable⟩
    obtain ⟨s, d, first, second, paths, path, dst1, dst2, hs, hd, hends, hpair, hfound, hpath,
      hiff⟩ := drivable_getPaths_iff hloop hrun
    obtain ⟨hchain, hlast⟩ := hiff.mp (hdrivable fuel r hrun)
    refine ⟨List.ne_nil_of_mem hs.mem, ?_⟩
    intro s' d' first' second' dst1' dst2' hs' hd' hends' hpair'
    -- The condition speaks of what the run has found
    obtain rfl := hs.unique hs'
    obtain rfl := hd.unique hd'
    obtain ⟨rfl, rfl⟩ := Prod.mk.inj (hends.symm.trans hends')
    obtain ⟨rfl, rfl⟩ := Prod.mk.inj (Finds.unique hpair hpair')
    refine ⟨fun hnext => ⟨?_, hfound.neverStuck⟩, fun hnext => ?_, hlast⟩
    · exact hfound.nonneg hdij hconn ((hs.ends hloop hd hends).1.lt hs.mem) hnext
    · cases hfound with
      | round hnext' => exact absurd hnext' hnext
      | done =>
        rcases hpath with ⟨-, rfl⟩ | hmem
        · exact (List.isChain_cons_cons.mp hchain).1
        · cases hmem
  · intro hfits
    obtain ⟨⟨s, hs⟩, -⟩ := exists_posRoad hfits.road x1 y1
    obtain ⟨⟨d, hd⟩, ⟨dst1, dst2⟩, hpair⟩ := exists_posRoad hfits.road x2 y2
    obtain ⟨first, second, hends⟩ :
        ∃ first second, chooseEnds env m x1 y1 x2 y2 s d = (first, second) := ⟨_, _, rfl⟩
    obtain ⟨hfirst, hsecond, -⟩ := hs.ends hloop hd hends
    have hway := hfits.way s d first second dst1 dst2 hs hd hends hpair
    obtain ⟨paths, hfound, hchains, hchain⟩ :=
      hway.exists_found hdij hconn (hfirst.lt hs.mem) (hsecond.lt hd.mem)
    refine ⟨exists_getPaths hloop hs hd hends hpair hfound hchains, fun fuel r hrun => ?_⟩
    obtain ⟨s', d', first', second', paths', path, dst1', dst2', hs', hd', hends', hpair', hfound',
      hpath, hiff⟩ := drivable_getPaths_iff hloop hrun
    obtain rfl := hs.unique hs'
    obtain rfl := hd.unique hd'
    obtain ⟨rfl, rfl⟩ := Prod.mk.inj (hends.symm.trans hends')
    obtain ⟨rfl, rfl⟩ := Prod.mk.inj (Finds.unique hpair hpair')
    obtain rfl := hfound.unique hfound'
    exact hiff.mpr ⟨hchain path hpath, hway.last⟩

/-! ## Points in a row -/

/-- Every point has a road to the next one. -/
def InRow (m : MsvrMap K) : Prop := ∀ v, v + 1 < m.points.length → m.HasRoad v (v + 1)

/-- The point before `v` on the way from `src` along a row. -/
def rowPred (src v : Nat) : Nat := if v < src then v + 1 else if src < v then v - 1 else v

/-- In a row without other roads the shortest paths lead from point to point. -/
def rowEnv : MapEnv ℚ where
  sqrt := wholeSqrt
  dijkstra m src := if ∀ r ∈ m.roads, 0 ≤ r.type then some (rowPred src) else none

/-- Before the source, the predecessor is the next point of the row. -/
private theorem rowPred_of_lt {src v : Nat} (h : v < src) : rowPred src v = v + 1 := if_pos h

/-- Behind the source, the predecessor is the point before. -/
private theorem rowPred_succ {src v : Nat} (h : src ≤ v) : rowPred src (v + 1) = v := by
  rw [rowPred, if_neg (by omega), if_pos (by omega), Nat.add_sub_cancel]

/-- A row of points is connected. -/
private theorem InRow.connected {m : MsvrMap K} (h : m.InRow) : m.Connected := by
  refine connected_of_earlier fun v hv hzero => ?_
  obtain ⟨u, rfl⟩ := Nat.exists_eq_succ_of_ne_zero hzero
  exact ⟨u, Nat.lt_succ_self u, symm (h u hv)⟩

/-- The predecessors lead back from the points in front of the source and from those behind it. -/
private theorem InRow.exists_walk {m : MsvrMap K} (h : m.InRow) {src v : Nat}
    (hsrc : src < m.points.length) (hv : v < m.points.length) :
    ∃ path, Walk (rowPred src) src v path ∧ (v :: path).IsChain m.HasRoad := by
  -- Towards the source, to the one side of it or to the other
  rcases Nat.le_total v src with hle | hle
  · induction hle using Nat.decreasingInduction with
    | self => exact ⟨[], .here, .singleton src⟩
    | of_succ v hlt ih =>
      obtain ⟨path, hwalk, hchain⟩ := ih (by omega)
      exact ⟨(v + 1) :: path, hwalk.step_to (by omega) (rowPred_of_lt hlt),
        List.isChain_cons_cons.mpr ⟨h v (by omega), hchain⟩⟩
  · induction v, hle using Nat.le_induction with
    | base => exact ⟨[], .here, .singleton src⟩
    | succ v hle ih =>
      obtain ⟨path, hwalk, hchain⟩ := ih (by omega)
      exact ⟨v :: path, hwalk.step_to (by omega) (rowPred_succ hle),
        List.isChain_cons_cons.mpr ⟨symm (h v (by omega)), hchain⟩⟩

/-- In a row of points, the predecessors along the row are what a search finds. -/
private theorem InRow.dijkstraSpec {m : MsvrMap ℚ} (h : m.InRow) : DijkstraSpec rowEnv m where
  finds := by
    intro m₁ src _ hsrc hnonneg
    refine ⟨_, if_pos hnonneg, fun v hreach => h.exists_walk hsrc ?_⟩
    rcases hreach.cases_tail with rfl | ⟨u, -, r, hr, ⟨-, rfl⟩ | ⟨rfl, -⟩⟩
    · exact hsrc
    · exact (m.ends_lt r hr).2
    · exact (m.ends_lt r hr).1
  throws := by
    rintro m₁ src - - ⟨r, hr, -, hneg⟩
    exact if_neg fun hall => Int32.not_le.mpr hneg (hall r hr)

/-- A straight street of four roads. -/
def straightMap : MsvrMap ℚ where
  points := [⟨0, 0⟩, ⟨100, 0⟩, ⟨200, 0⟩, ⟨300, 0⟩, ⟨400, 0⟩]
  roads := [⟨0, 1, 0, 20⟩, ⟨1, 2, 1, 20⟩, ⟨2, 3, 2, 20⟩, ⟨3, 4, 3, 20⟩]
  ends_lt := by decide
  id_ne := by decide

/-- The points of the straight map are in a row. -/
private theorem inRow_straightMap : straightMap.InRow := by
  have hroads : ∀ v < 4, straightMap.HasRoad v (v + 1) := by decide
  exact fun v hv => hroads v (Nat.lt_of_succ_lt_succ hv)

/-- From the first road to the last one: the search finds the way between the points 1 and 3. -/
theorem getPaths_drivable_iff_straight :
    (∃ m', getPaths rowEnv 10 straightMap 10 0 390 0 = .ok ([1, 2, 3, 4], m')) ∧
    (((∃ fuel r, getPaths rowEnv fuel straightMap 10 0 390 0 = .ok r) ∧
        ∀ fuel r, getPaths rowEnv fuel straightMap 10 0 390 0 = .ok r →
          Drivable straightMap 10 0 390 0 r.1) ↔
      RouteFits rowEnv straightMap 10 0 390 0) := by
  refine ⟨?_, getPaths_drivable_iff rowEnv straightMap inRow_straightMap.dijkstraSpec
    inRow_straightMap.connected (by unfold NoSelfLoop; decide) 10 0 390 0⟩
  obtain ⟨⟨res, m'⟩, hrun, hres⟩ := exists_of_toOption
    (show (getPaths rowEnv 10 straightMap 10 0 390 0).toOption.map Prod.fst = some [1, 2, 3, 4] by
      decide +kernel)
  exact ⟨m', hrun.trans (by rw [show res = [1, 2, 3, 4] from hres])⟩

/-- A street in the shape of a hook, at whose tip the destination is: from the point 5 next to it,
    the only road leads to the point 4, which is farther from the point 1. -/
def hookMap : MsvrMap ℚ where
  points := [⟨-100, 0⟩, ⟨0, 0⟩, ⟨0, 300⟩, ⟨300, 300⟩, ⟨300, 0⟩, ⟨200, 0⟩]
  roads := [⟨0, 1, 0, 20⟩, ⟨1, 2, 1, 20⟩, ⟨2, 3, 2, 20⟩, ⟨3, 4, 3, 20⟩, ⟨4, 5, 4, 20⟩]
  ends_lt := by decide
  id_ne := by decide

/-- So are those of the map with the hook. -/
private theorem inRow_hookMap : hookMap.InRow := by
  have hroads : ∀ v < 5, hookMap.HasRoad v (v + 1) := by decide
  exact fun v hv => hroads v (Nat.lt_of_succ_lt_succ hv)

/-- Without a search, the way goes from the point 1 to the point 5, which no road joins. -/
theorem hookMap_not_drivable :
    DijkstraSpec rowEnv hookMap ∧ hookMap.Connected ∧ hookMap.NoSelfLoop ∧
      ∃ m', getPaths rowEnv 10 hookMap (-50) 0 250 0 = .ok ([1, 5, 4], m') ∧
        hookMap.getRoadByNode 1 5 = -1 ∧ ¬ Drivable hookMap (-50) 0 250 0 [1, 5, 4] := by
  refine ⟨inRow_hookMap.dijkstraSpec, inRow_hookMap.connected, by unfold NoSelfLoop; decide, ?_⟩
  obtain ⟨⟨res, m'⟩, hrun, hres⟩ := exists_of_toOption
    (show (getPaths rowEnv 10 hookMap (-50) 0 250 0).toOption.map Prod.fst = some [1, 5, 4] by
      decide +kernel)
  obtain rfl : res = [1, 5, 4] := hres
  have hnone : hookMap.getRoadByNode 1 5 = -1 := by decide
  refine ⟨m', hrun, hnone, fun hdrivable => ?_⟩
  exact (List.isChain_cons_cons.mp hdrivable.joined).1 hnone

end MapRelay.NS3.GeoSvr.MsvrMap
