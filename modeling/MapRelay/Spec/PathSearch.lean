import Mathlib.Logic.Relation
import MapRelay.ForStd.LastWrite
import MapRelay.Native.MsvrMap

/-!
# The paths that the search of `getPaths` finds

A path is the list of its vertices, from `dst` back to `src`. A round closes the roads of its path
and records the types that they had; `Found` says which paths the rounds find one after the other.
As no vertex comes twice on the way back along the predecessors, neither does a road.
-/

namespace MapRelay.NS3.GeoSvr

open ForStd

variable {K : Type}

/-- The steps of a path from vertex to vertex. -/
def steps (path : List Nat) : List (Nat × Nat) := path.zip path.tail

/-- The empty path has no steps. -/
@[simp] theorem steps_nil : steps [] = [] := rfl

/-- A path of one vertex has no steps. -/
@[simp] theorem steps_singleton (v : Nat) : steps [v] = [] := rfl

/-- The first step of a path leads to its second vertex. -/
@[simp] theorem steps_cons_cons (v a : Nat) (path : List Nat) :
    steps (v :: a :: path) = (v, a) :: steps (a :: path) := rfl

/-- Both ends of a step are on the path. -/
private theorem mem_of_mem_steps {path : List Nat} {s : Nat × Nat} (hs : s ∈ steps path) :
    s.1 ∈ path ∧ s.2 ∈ path := by
  obtain ⟨h₁, h₂⟩ := List.of_mem_zip (a := s.1) (b := s.2) hs
  exact ⟨h₁, List.mem_of_mem_tail h₂⟩

namespace Road

/-- The road joins two vertices that follow one another on the path. -/
def On (r : Road) (path : List Nat) : Prop := ∃ s ∈ steps path, r.Joins s.1 s.2

instance (r : Road) (path : List Nat) : Decidable (r.On path) :=
  inferInstanceAs (Decidable (∃ s ∈ steps path, _))

/-- A road is on a path if it joins the first two vertices or is on the rest. -/
@[simp] theorem on_cons_cons {r : Road} {v a : Nat} {path : List Nat} :
    r.On (v :: a :: path) ↔ r.Joins v a ∨ r.On (a :: path) := by
  simp [On]

/-- No road is on a path of one vertex. -/
@[simp] theorem not_on_singleton (r : Road) (v : Nat) : ¬ r.On [v] := by
  simp [On]

/-- The type of a road has no say in what it joins. -/
@[simp] theorem joins_retype {r : Road} {type : Int32} {u v : Nat} :
    Joins { r with type } u v ↔ r.Joins u v := .rfl

/-- The type of a road has no say in which paths it is on. -/
@[simp] theorem on_retype {r : Road} {type : Int32} {path : List Nat} :
    On { r with type } path ↔ r.On path := .rfl

/-- A road joins its ends in both orders. -/
theorem Joins.symm {r : Road} {u v : Nat} (h : r.Joins u v) : r.Joins v u := Or.symm h

/-- Two roads that join the same vertices are parallel. -/
theorem Joins.trans {r r' : Road} {u v : Nat} (h : r.Joins u v) (h' : r'.Joins u v) :
    r.Joins r'.source r'.target := by
  rcases h' with ⟨rfl, rfl⟩ | ⟨rfl, rfl⟩
  · exact h
  · exact h.symm

/-- A road of a step has both of its ends on the path. -/
theorem Joins.mem {r : Road} {path : List Nat} {s : Nat × Nat} (hs : s ∈ steps path)
    (h : r.Joins s.1 s.2) : r.source ∈ path ∧ r.target ∈ path := by
  obtain ⟨h₁, h₂⟩ := mem_of_mem_steps hs
  rcases h with ⟨hs, ht⟩ | ⟨hs, ht⟩
  · exact ⟨hs ▸ h₁, ht ▸ h₂⟩
  · exact ⟨hs ▸ h₂, ht ▸ h₁⟩

/-- The first step of a path that visits no vertex twice shares its roads with no later step. -/
private theorem Joins.not_on {r : Road} {v a : Nat} {path : List Nat} (hv : v ∉ a :: path)
    (h : r.Joins v a) : ¬ r.On (a :: path) := by
  rintro ⟨s, hs, hr⟩
  obtain ⟨hsource, htarget⟩ := hr.mem hs
  rcases h with ⟨h, -⟩ | ⟨-, h⟩
  · exact hv (h ▸ hsource)
  · exact hv (h ▸ htarget)

end Road

/-- No road is on two steps of a path that visits no vertex twice. -/
theorem pairwise_steps {path : List Nat} (h : path.Nodup) :
    (steps path).Pairwise fun s s' => ∀ r : Road, r.Joins s.1 s.2 → ¬ r.Joins s'.1 s'.2 := by
  induction path with
  | nil => simp
  | cons v path ih =>
    cases path with
    | nil => simp
    | cons a path =>
      obtain ⟨hv, hpath⟩ := List.nodup_cons.mp h
      refine List.pairwise_cons.mpr ⟨fun s hs r hr hjoins => ?_, ih hpath⟩
      exact hr.not_on hv ⟨s, hs, hjoins⟩

namespace MsvrMap

/-- Maps with the same points and the same roads are the same. -/
@[ext] theorem ext {m m' : MsvrMap K} (hpoints : m.points = m'.points)
    (hroads : m.roads = m'.roads) : m = m' := by
  cases m
  cases m'
  cases hpoints
  cases hroads
  rfl

/-- The roads that join two vertices are roads of the map. -/
@[simp] theorem mem_roadsJoining {m : MsvrMap K} {u v : Nat} {r : Road} :
    r ∈ m.roadsJoining u v ↔ r ∈ m.roads ∧ r.Joins u v := by
  simp [roadsJoining]

section MapType

variable (m : MsvrMap K) (f g : Road → Int32)

/-- Other types of the roads leave the points as they are. -/
@[simp] theorem points_mapType : (m.mapType f).points = m.points := rfl

/-- They leave the roads as they are but for the types. -/
@[simp] theorem roads_mapType :
    (m.mapType f).roads = m.roads.map fun r => { r with type := f r } := rfl

/-- Types that are set twice are set once. -/
theorem mapType_mapType :
    (m.mapType f).mapType g = m.mapType fun r => g { r with type := f r } :=
  ext rfl (by simp [Function.comp_def])

/-- Only the types of the roads of the map matter. -/
theorem mapType_congr {f g : Road → Int32} (h : ∀ r ∈ m.roads, f r = g r) :
    m.mapType f = m.mapType g :=
  ext rfl (List.map_congr_left fun r hr => by rw [h r hr])

/-- The roads between two vertices have the new types. -/
theorem roadsJoining_mapType (u v : Nat) :
    (m.mapType f).roadsJoining u v = (m.roadsJoining u v).map fun r => { r with type := f r } := by
  simp [roadsJoining, List.filter_map, Function.comp_def]

end MapType

/-- Some road joins the two vertices. -/
def HasRoad (m : MsvrMap K) (u v : Nat) : Prop := ∃ r ∈ m.roads, r.Joins u v

instance (m : MsvrMap K) (u v : Nat) : Decidable (m.HasRoad u v) :=
  inferInstanceAs (Decidable (∃ r ∈ m.roads, _))

instance (m : MsvrMap K) : Std.Symm m.HasRoad where
  symm := by
    rintro u v ⟨r, hr, hjoins⟩
    exact ⟨r, hr, hjoins.symm⟩

/-- Between any two points there is a way along the roads. -/
def Connected (m : MsvrMap K) : Prop :=
  ∀ u < m.points.length, ∀ v < m.points.length, Relation.ReflTransGen m.HasRoad u v

/-- A map in which every point but the first has a road to an earlier one is connected. -/
theorem connected_of_earlier {m : MsvrMap K}
    (h : ∀ v < m.points.length, v ≠ 0 → ∃ u < v, m.HasRoad v u) : m.Connected := by
  have hroot : ∀ v < m.points.length, Relation.ReflTransGen m.HasRoad v 0 := by
    intro v
    induction v using Nat.strong_induction_on with
    | _ v ih =>
      intro hv
      by_cases hzero : v = 0
      · rw [hzero]
      · obtain ⟨u, hlt, hroad⟩ := h v hv hzero
        exact .head hroad (ih u hlt (hlt.trans hv))
  intro u hu v hv
  exact (hroot u hu).trans (symm (hroot v hv))

/-- The map with the roads of the path used up. -/
def close (m : MsvrMap K) (path : List Nat) : MsvrMap K :=
  m.mapType fun r => if r.On path then intMax else r.type

/-- The types of the roads of the path, step by step. -/
def record (m : MsvrMap K) (path : List Nat) : List Int32 :=
  (steps path).flatMap fun s => (m.roadsJoining s.1 s.2).map (·.type)

/-- There is nothing to record on a path of one vertex. -/
@[simp] theorem record_singleton (m : MsvrMap K) (v : Nat) : m.record [v] = [] := rfl

/-- The record of a path begins with its first step. -/
@[simp] theorem record_cons_cons (m : MsvrMap K) (v a : Nat) (path : List Nat) :
    m.record (v :: a :: path) = (m.roadsJoining v a).map (·.type) ++ m.record (a :: path) := by
  simp [record]

/-- A path of one vertex uses no road up. -/
@[simp] theorem close_singleton (m : MsvrMap K) (v : Nat) : m.close [v] = m :=
  ext rfl (by simp [close])

/-- A path uses up the roads of its first step and of the rest. -/
private theorem close_cons_cons (m : MsvrMap K) (v a : Nat) (path : List Nat) :
    m.close (v :: a :: path) = (m.setType v a intMax).close (a :: path) := by
  rw [close, close, setType, mapType_mapType]
  refine mapType_congr _ fun r _ => ?_
  by_cases hstep : r.Joins v a <;> simp [hstep]

/-- What is recorded of the rest of a path does not depend on its first step. -/
private theorem record_setType (m : MsvrMap K) {v a : Nat} {path : List Nat} (hv : v ∉ a :: path)
    (type : Int32) : (m.setType v a type).record (a :: path) = m.record (a :: path) := by
  refine List.flatMap_congr fun s hs => ?_
  rw [setType, roadsJoining_mapType, List.map_map]
  refine List.map_congr_left fun r hr => ?_
  have hjoins : r.Joins s.1 s.2 := (mem_roadsJoining.mp hr).2
  have hstep : ¬ r.Joins v a := fun h => h.not_on hv ⟨s, hs, hjoins⟩
  simp [hstep]

end MsvrMap

/-! ## The way back along the predecessors -/

/-- The predecessors lead from `v` over the vertices of `path` to `src`. -/
inductive Walk (pred : Nat → Nat) (src : Nat) : Nat → List Nat → Prop where
  | here : Walk pred src src []
  | step {v : Nat} {path : List Nat} (hv : v ≠ src) (rest : Walk pred src (pred v) path) :
      Walk pred src v (pred v :: path)

namespace Walk

variable {pred : Nat → Nat} {src v : Nat} {path path' : List Nat}

/-- A walk begins one vertex earlier where the predecessor is known. -/
theorem step_to {u : Nat} (h : Walk pred src u path) (hv : v ≠ src) (hpred : pred v = u) :
    Walk pred src v (u :: path) := by
  subst hpred
  exact .step hv h

/-- The predecessors leave no choice. -/
theorem unique (h : Walk pred src v path) (h' : Walk pred src v path') : path = path' := by
  induction h generalizing path' with
  | here =>
    cases h' with
    | here => rfl
    | step hv _ => exact absurd rfl hv
  | step hv _ ih =>
    cases h' with
    | here => exact absurd rfl hv
    | step _ rest' => rw [ih rest']

/-- From every vertex on the way there is a shorter way. -/
private theorem from_mem (h : Walk pred src v path) {w : Nat} (hw : w ∈ path) :
    ∃ path', Walk pred src w path' ∧ path'.length < path.length := by
  induction h with
  | here => simp at hw
  | step hv rest ih =>
    rcases List.mem_cons.mp hw with rfl | hw
    · exact ⟨_, rest, by simp⟩
    · obtain ⟨path', hwalk, hlt⟩ := ih hw
      exact ⟨path', hwalk, by simp only [List.length_cons]; omega⟩

/-- The walk ends at the source. -/
theorem getLast? (h : Walk pred src v path) : (v :: path).getLast? = some src := by
  induction h with
  | here => rfl
  | step _ _ ih => rwa [List.getLast?_cons_cons]

/-- A walk visits no vertex twice. -/
theorem nodup (h : Walk pred src v path) : (v :: path).Nodup := by
  induction h with
  | here => simp
  | @step v path hv rest ih =>
    refine List.nodup_cons.mpr ⟨fun hmem => ?_, ih⟩
    -- A second visit would have the same way before it
    obtain ⟨path', hwalk, hlt⟩ := (Walk.step hv rest).from_mem hmem
    rw [hwalk.unique (.step hv rest)] at hlt
    exact absurd hlt (lt_irrefl _)

end Walk

namespace MsvrMap

variable {pred : Nat → Nat} {src v fuel : Nat}

/-- A round on its way back records the types of its path and closes the path. -/
theorem tracePath_of_walk {path : List Nat} (h : Walk pred src v path) (hfuel : path.length < fuel)
    (m : MsvrMap K) :
    tracePath pred src fuel v m = .ok (path, m.record (v :: path), m.close (v :: path)) := by
  induction h generalizing fuel m with
  | here =>
    obtain ⟨fuel, rfl⟩ := Nat.exists_eq_succ_of_ne_zero (Nat.ne_of_gt hfuel)
    simp [tracePath]
  | @step v path hv rest ih =>
    obtain ⟨fuel, rfl⟩ := Nat.exists_eq_succ_of_ne_zero (Nat.ne_of_gt (Nat.zero_lt_of_lt hfuel))
    have hnew : v ∉ pred v :: path := (List.nodup_cons.mp (Walk.step hv rest).nodup).1
    rw [tracePath, if_neg hv, ih (by simpa using hfuel), record_setType m hnew, record_cons_cons,
      close_cons_cons]
    rfl

/-- A round comes back only along a finite way. -/
private theorem walk_of_tracePath {m : MsvrMap K} {r : List Nat × List Int32 × MsvrMap K}
    (h : tracePath pred src fuel v m = .ok r) :
    ∃ path, Walk pred src v path ∧ path.length < fuel := by
  induction fuel generalizing v m r with
  | zero => simp [tracePath] at h
  | succ fuel ih =>
    rw [tracePath] at h
    split at h
    case isTrue hv => exact ⟨[], hv ▸ .here, by simp⟩
    case isFalse hv =>
      obtain ⟨rest, hrest, -⟩ := bind_eq_ok.mp h
      obtain ⟨path, hwalk, hlt⟩ := ih hrest
      exact ⟨pred v :: path, .step hv hwalk, by simpa using hlt⟩

/-! ## The rounds -/

/-- `meanSquare` divides by the number of the types, so there is one if it returns. -/
private theorem meanSquare_eq_ok [Field K] {env : MapEnv K} {types : List Int32} {mean : K}
    (h : meanSquare env types = .ok mean) : types ≠ [] ∧ mean = deviation env types := by
  rw [meanSquare] at h
  split at h
  case isTrue => cases h
  case isFalse hne => exact ⟨hne, (Except.ok.inj h).symm⟩

section Search

variable [Field K] [LinearOrder K] {env : MapEnv K} {src dst : Nat}

/-- The paths that the rounds of the search find, one after the other. -/
inductive Found (env : MapEnv K) (src dst : Nat) : MsvrMap K → List (List Nat) → Prop where
  | done {m : MsvrMap K} (h : ¬ HasNextPath env m src dst) : Found env src dst m []
  | round {m : MsvrMap K} {pred : Nat → Nat} {path : List Nat} {paths : List (List Nat)}
      (h : HasNextPath env m src dst) (hpred : env.dijkstra m src = some pred)
      (hwalk : Walk pred src dst path) (rest : Found env src dst (m.close (dst :: path)) paths) :
      Found env src dst m ((dst :: path) :: paths)

/-- What the rounds of the search keep of their paths. -/
inductive Kept (env : MapEnv K) (src dst : Nat) :
    MsvrMap K → List (List Nat) → List (Round K) → Prop where
  | nil {m : MsvrMap K} : Kept env src dst m [] []
  | cons {m : MsvrMap K} {pred : Nat → Nat} {path : List Nat} {paths : List (List Nat)}
      {rounds : List (Round K)} (hwalk : Walk pred src dst path)
      (rest : Kept env src dst (m.close (dst :: path)) paths rounds) :
      Kept env src dst m ((dst :: path) :: paths)
        (⟨pred, m.record (dst :: path), (dst :: path).reverse,
          deviation env (m.record (dst :: path))⟩ :: rounds)

/-- Paths are found one way only. -/
theorem Found.unique {m : MsvrMap K} {paths paths' : List (List Nat)}
    (h : Found env src dst m paths) (h' : Found env src dst m paths') : paths = paths' := by
  induction h generalizing paths' with
  | done hnext =>
    cases h' with
    | done => rfl
    | round hnext' => exact absurd hnext' hnext
  | round hnext hpred hwalk _ ih =>
    cases h' with
    | done hnext' => exact absurd hnext hnext'
    | round _ hpred' hwalk' rest' =>
      obtain rfl := Option.some.inj (hpred.symm.trans hpred')
      obtain rfl := hwalk.unique hwalk'
      rw [ih rest']

/-- A search that ends has found its paths, and has closed them all. -/
theorem found_of_search {limit fuel : Nat} {m m' : MsvrMap K} {rounds : List (Round K)}
    (h : search env src dst limit fuel m = .ok (rounds, m')) :
    ∃ paths, Found env src dst m paths ∧ Kept env src dst m paths rounds ∧
      m' = paths.foldl close m := by
  induction fuel generalizing m m' rounds with
  | zero => simp [search] at h
  | succ fuel ih =>
    rw [search] at h
    split at h
    case isFalse hnext =>
      obtain ⟨rfl, rfl⟩ := Prod.mk.inj (Except.ok.inj h)
      exact ⟨[], .done hnext, .nil, rfl⟩
    case isTrue hnext =>
      split at h
      · cases h
      · next pred hpred =>
        obtain ⟨traced, htrace, h⟩ := bind_eq_ok.mp h
        obtain ⟨mean, hmean, h⟩ := bind_eq_ok.mp h
        obtain ⟨⟨rounds', m''⟩, hrest, h⟩ := bind_eq_ok.mp h
        -- The round has gone back along its path
        obtain ⟨path, hwalk, hlt⟩ := walk_of_tracePath htrace
        obtain rfl := Except.ok.inj (htrace.symm.trans (tracePath_of_walk hwalk hlt m))
        obtain ⟨-, rfl⟩ := meanSquare_eq_ok hmean
        obtain ⟨paths, hfound, hkept, rfl⟩ := ih hrest
        obtain ⟨rfl, rfl⟩ := Prod.mk.inj (Except.ok.inj h)
        exact ⟨(dst :: path) :: paths, .round hnext hpred hwalk hfound, .cons hwalk hkept, rfl⟩

/-- A path leads from `dst` to `src`. -/
theorem Found.ends {m : MsvrMap K} {paths : List (List Nat)} (h : Found env src dst m paths) :
    ∀ path ∈ paths, path.head? = some dst ∧ path.getLast? = some src := by
  induction h with
  | done => simp
  | round _ _ hwalk _ ih => exact List.forall_mem_cons.mpr ⟨⟨rfl, hwalk.getLast?⟩, ih⟩

/-- No path that is found visits a vertex twice. -/
theorem Found.nodup {m : MsvrMap K} {paths : List (List Nat)} (h : Found env src dst m paths) :
    ∀ path ∈ paths, path.Nodup := by
  induction h with
  | done => simp
  | round _ _ hwalk _ ih => exact List.forall_mem_cons.mpr ⟨hwalk.nodup, ih⟩

/-- The last two vertices, read from the end. -/
private theorem lastTwo_eq_ok {path : List Nat} {point1 point2 : Nat}
    (h : lastTwo path = .ok (point1, point2)) :
    ∃ rest, path.reverse = point1 :: point2 :: rest := by
  unfold lastTwo at h
  split at h
  next a b rest heq =>
    cases h
    exact ⟨rest, heq⟩
  next => cases h

/-- What `getPaths` has done when it returns. -/
theorem getPaths_eq_ok {fuel : Nat} {m m' : MsvrMap K} {x1 y1 x2 y2 : K} {res : List Nat}
    (h : getPaths env fuel m x1 y1 x2 y2 = .ok (res, m')) :
    ∃ first second paths rounds path point1 point2 rest dst1 dst2,
      getSrcAndDst env fuel m x1 y1 x2 y2 = .ok (first, second) ∧
      Found env first second m paths ∧ Kept env first second m paths rounds ∧
      chosenPath first second rounds = .ok path ∧
      restore first second fuel rounds (paths.foldl close m) = .ok m' ∧
      path.reverse = point1 :: point2 :: rest ∧
      padLoop (m'.pairInBox x2 y2) fuel 15 = .ok (dst1, dst2) ∧
      res = if (point1 = dst1 ∧ point2 = dst2) ∨ (point1 = dst2 ∧ point2 = dst1) then path
        else path ++ [if point1 = dst1 then dst2 else dst1] := by
  obtain ⟨⟨first, second⟩, hends, h⟩ := bind_eq_ok.mp h
  obtain ⟨⟨rounds, m₁⟩, hsearch, h⟩ := bind_eq_ok.mp h
  obtain ⟨paths, hfound, hkept, rfl⟩ := found_of_search hsearch
  obtain ⟨path, hpath, h⟩ := bind_eq_ok.mp h
  obtain ⟨m₂, hrestore, h⟩ := bind_eq_ok.mp h
  obtain ⟨⟨point1, point2⟩, hpoints, h⟩ := bind_eq_ok.mp h
  obtain ⟨⟨dst1, dst2⟩, hpair, h⟩ := bind_eq_ok.mp h
  obtain ⟨rest, hrest⟩ := lastTwo_eq_ok hpoints
  dsimp only at h
  split at h
  case isTrue hsame =>
    cases h
    exact ⟨first, second, paths, rounds, _, point1, point2, rest, dst1, dst2, hends, hfound, hkept,
      hpath, hrestore, hrest, hpair, (if_pos hsame).symm⟩
  case isFalse hother =>
    cases h
    exact ⟨first, second, paths, rounds, _, point1, point2, rest, dst1, dst2, hends, hfound, hkept,
      hpath, hrestore, hrest, hpair, (if_neg hother).symm⟩

end Search

end MsvrMap

end MapRelay.NS3.GeoSvr
