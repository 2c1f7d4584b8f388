import MapRelay.Spec.PathRestore

/-!
# When the search of `getPaths` comes to an end

A round that uses up another road brings the end nearer. A round whose path consists of roads that
are used up leaves the map as it was, and the next round finds the same path again, for ever.
-/

namespace MapRelay.NS3.GeoSvr.MsvrMap

open ForStd

variable {K : Type}

/-! ## Maps that differ in the types -/

/-- The map `m₁` is `m` with other types. -/
def Retyped (m m₁ : MsvrMap K) : Prop := ∃ f, m₁ = m.mapType f

section Retyped

variable {m m₁ : MsvrMap K}

/-- A map is one with its own types. -/
theorem Retyped.refl (m : MsvrMap K) : Retyped m m := ⟨Road.type, ext rfl (by simp)⟩

/-- Using up a path changes types only. -/
theorem Retyped.close (h : Retyped m m₁) (path : List Nat) : Retyped m (m₁.close path) := by
  obtain ⟨f, rfl⟩ := h
  exact ⟨_, mapType_mapType m f _⟩

/-- The types have no say in where roads are. -/
@[simp] theorem hasRoad_mapType {f : Road → Int32} {u v : Nat} :
    (m.mapType f).HasRoad u v ↔ m.HasRoad u v := by
  simp [HasRoad]

/-- With other types, the same points are joined. -/
theorem Retyped.hasRoad (h : Retyped m m₁) : m₁.HasRoad = m.HasRoad := by
  obtain ⟨f, rfl⟩ := h
  exact funext₂ fun u v => propext hasRoad_mapType

/-- A path along roads has as many recorded types as steps, or more. -/
private theorem length_steps_le_record {path : List Nat} (h : path.IsChain m.HasRoad) :
    (steps path).length ≤ (m.record path).length := by
  induction path with
  | nil => exact Nat.zero_le _
  | cons v path ih =>
    cases path with
    | nil => exact Nat.zero_le _
    | cons a path =>
      obtain ⟨⟨r, hr, hjoins⟩, hrest⟩ := List.isChain_cons_cons.mp h
      have hpos : 0 < (m.roadsJoining v a).length :=
        List.length_pos_of_mem (mem_roadsJoining.mpr ⟨hr, hjoins⟩)
      have hle := ih hrest
      simp only [steps_cons_cons, record_cons_cons, List.length_cons, List.length_append,
        List.length_map]
      omega

/-- If roads join the points of the paths, a type is recorded for each step. -/
theorem allRecorded_of_chain {paths : List (List Nat)}
    (h : ∀ path ∈ paths, path.IsChain m.HasRoad) : AllRecorded m paths := by
  induction paths generalizing m with
  | nil => trivial
  | cons path paths ih =>
    refine ⟨length_steps_le_record (h path List.mem_cons_self), ih fun path' hpath' => ?_⟩
    rw [((Retyped.refl m).close path).hasRoad]
    exact h path' (List.mem_cons_of_mem path hpath')

end Retyped

/-! ## The number of roads that are left -/

/-- How many roads are not used up. -/
def openRoads (m : MsvrMap K) : Nat := m.roads.countP fun r => r.type ≠ intMax

/-- An element that only the weaker condition lets through makes its count larger. -/
private theorem countP_lt_countP {α : Type} {p q : α → Bool} {l : List α} (hle : ∀ a ∈ l, p a → q a)
    {a : α} (ha : a ∈ l) (hq : q a) (hp : ¬ p a) : l.countP p < l.countP q := by
  induction l with
  | nil => cases ha
  | cons b l ih =>
    have hrest : ∀ a ∈ l, p a → q a := fun a ha => hle a (List.mem_cons_of_mem b ha)
    rcases List.mem_cons.mp ha with rfl | ha
    · have hmono := List.countP_mono_left hrest
      rw [List.countP_cons_of_neg hp, List.countP_cons_of_pos hq]
      omega
    · have hlt := ih hrest ha
      rw [List.countP_cons, List.countP_cons]
      have hb := hle b List.mem_cons_self
      by_cases hpb : p b
      · rw [if_pos hpb, if_pos (hb hpb)]
        omega
      · rw [if_neg hpb]
        omega

/-- The path uses up a road. -/
private theorem openRoads_close_lt {m : MsvrMap K} {path : List Nat} {r : Road} (hr : r ∈ m.roads)
    (hon : r.On path) (hopen : r.type ≠ intMax) : (m.close path).openRoads < m.openRoads := by
  unfold openRoads close
  rw [roads_mapType, List.countP_map]
  refine countP_lt_countP (fun r' _ h => ?_) hr (by simpa using hopen) (by simp [hon])
  by_cases hon' : r'.On path
  · simp [hon'] at h
  · simpa [hon'] using h

/-- A path whose roads are used up changes nothing. -/
private theorem close_eq_self {m : MsvrMap K} {path : List Nat}
    (h : ∀ r ∈ m.roads, r.On path → r.type = intMax) : m.close path = m := by
  refine ext rfl (map_eq_self_iff.mpr fun r hr => ?_)
  dsimp only
  by_cases hon : r.On path
  · rw [if_pos hon, ← h r hr hon]
  · rw [if_neg hon]

/-! ## The rounds of the search -/

section Rounds

variable [Field K] [LinearOrder K] {env : MapEnv K} {src dst : Nat} {m m₁ m₂ : MsvrMap K}

/-- The path that the next round of the search finds on the map. -/
def NextPath (env : MapEnv K) (src dst : Nat) (m : MsvrMap K) (path : List Nat) : Prop :=
  HasNextPath env m src dst ∧
    ∃ pred rest, env.dijkstra m src = some pred ∧ Walk pred src dst rest ∧ path = dst :: rest

/-- A round takes the map `m₁` to the map `m₂`. -/
def RoundStep (env : MapEnv K) (src dst : Nat) (m₁ m₂ : MsvrMap K) : Prop :=
  ∃ path, NextPath env src dst m₁ path ∧ m₂ = m₁.close path

/-- No round finds a path of roads that are all used up. -/
def NeverStuck (env : MapEnv K) (src dst : Nat) (m : MsvrMap K) : Prop :=
  ∀ m₁, Relation.ReflTransGen (RoundStep env src dst) m m₁ →
    ∀ path, NextPath env src dst m₁ path → ∃ r ∈ m₁.roads, r.On path ∧ r.type ≠ intMax

/-- The next path is determined. -/
theorem NextPath.unique {path path' : List Nat} (h : NextPath env src dst m path)
    (h' : NextPath env src dst m path') : path = path' := by
  obtain ⟨-, pred, rest, hpred, hwalk, rfl⟩ := h
  obtain ⟨-, pred', rest', hpred', hwalk', rfl⟩ := h'
  obtain rfl := Option.some.inj (hpred.symm.trans hpred')
  rw [hwalk.unique hwalk']

/-- A search that has come to an end was never stuck. -/
theorem Found.neverStuck {paths : List (List Nat)} (h : Found env src dst m paths) :
    NeverStuck env src dst m := by
  induction h with
  | done hnext =>
    rintro m₁ hreach path ⟨hnext', hpath⟩
    rcases hreach.cases_head with rfl | ⟨m₂, ⟨path', hnext'', -⟩, -⟩
    · exact absurd hnext' hnext
    · exact absurd hnext''.1 hnext
  | @round m pred rest paths hnext hpred hwalk hfound ih =>
    have hround : NextPath env src dst m (dst :: rest) := ⟨hnext, pred, rest, hpred, hwalk, rfl⟩
    intro m₁ hreach path hpath
    rcases hreach.cases_head with rfl | ⟨m₂, ⟨path', hnext', rfl⟩, hreach⟩
    · obtain rfl := hround.unique hpath
      by_contra hnone
      -- The same path would be found over and over
      have hsame : m.close (dst :: rest) = m := close_eq_self fun r hr hon => by
        by_contra hopen
        exact hnone ⟨r, hr, hon, hopen⟩
      have hlen := congrArg List.length
        (Found.unique (.round hnext hpred hwalk hfound) (hsame ▸ hfound))
      simp at hlen
    · obtain rfl := hround.unique hnext'
      exact ih m₁ hreach path hpath

/-- What `dijkstra_shortest_paths` is relied on for: with types of which none is negative, the
    predecessors lead back to the source along roads from every point that can be reached; a
    negative type that can be reached is an error. -/
structure DijkstraSpec (env : MapEnv K) (m : MsvrMap K) : Prop where
  finds : ∀ m₁ src, Retyped m m₁ → src < m.points.length → (∀ r ∈ m₁.roads, 0 ≤ r.type) →
    ∃ pred, env.dijkstra m₁ src = some pred ∧ ∀ v, Relation.ReflTransGen m.HasRoad src v →
      ∃ path, Walk pred src v path ∧ (v :: path).IsChain m.HasRoad
  throws : ∀ m₁ src, Retyped m m₁ → src < m.points.length →
    (∃ r ∈ m₁.roads, Relation.ReflTransGen m.HasRoad src r.source ∧ r.type < 0) →
    env.dijkstra m₁ src = none

omit [Field K] [LinearOrder K] in
/-- Using up a path makes no type negative. -/
private theorem nonneg_close (h : ∀ r ∈ m₁.roads, 0 ≤ r.type) (path : List Nat) :
    ∀ r ∈ (m₁.close path).roads, 0 ≤ r.type := by
  intro r' hr'
  obtain ⟨r, hr, rfl⟩ := List.mem_map.mp hr'
  dsimp only
  split
  · decide
  · exact h r hr

variable (hdij : DijkstraSpec env m) (hconn : m.Connected) (hsrc : src < m.points.length)
  (hdst : dst < m.points.length)

include hdij hconn hsrc hdst

/-- The paths that are found lead along roads. -/
theorem Found.chain {paths : List (List Nat)} (h : Found env src dst m₁ paths)
    (hretyped : Retyped m m₁) (hnonneg : ∀ r ∈ m₁.roads, 0 ≤ r.type) :
    ∀ path ∈ paths, path.IsChain m.HasRoad := by
  induction h with
  | done => simp
  | @round m₁ pred rest paths hnext hpred hwalk hfound ih =>
    obtain ⟨pred', hpred', hfinds⟩ := hdij.finds m₁ src hretyped hsrc hnonneg
    obtain rfl := Option.some.inj (hpred.symm.trans hpred')
    obtain ⟨rest', hwalk', hchain⟩ := hfinds dst (hconn src hsrc dst hdst)
    obtain rfl := hwalk.unique hwalk'
    exact List.forall_mem_cons.mpr ⟨hchain, ih (hretyped.close _) (nonneg_close hnonneg _)⟩

/-- A search that is never stuck comes to an end. -/
theorem exists_found (hretyped : Retyped m m₁) (hnonneg : ∀ r ∈ m₁.roads, 0 ≤ r.type)
    (hstuck : NeverStuck env src dst m₁) : ∃ paths, Found env src dst m₁ paths := by
  -- Every round leaves fewer roads
  induction hn : m₁.openRoads using Nat.strong_induction_on generalizing m₁ with
  | _ n ih =>
    subst hn
    by_cases hnext : HasNextPath env m₁ src dst
    · obtain ⟨pred, hpred, hfinds⟩ := hdij.finds m₁ src hretyped hsrc hnonneg
      obtain ⟨rest, hwalk, -⟩ := hfinds dst (hconn src hsrc dst hdst)
      have hround : NextPath env src dst m₁ (dst :: rest) := ⟨hnext, pred, rest, hpred, hwalk, rfl⟩
      obtain ⟨r, hr, hon, hopen⟩ := hstuck m₁ .refl _ hround
      obtain ⟨paths, hfound⟩ := ih _ (openRoads_close_lt hr hon hopen) (hretyped.close _)
        (nonneg_close hnonneg _)
        (fun m₂ hreach => hstuck m₂ (.head ⟨_, hround, rfl⟩ hreach)) rfl
      exact ⟨_, .round hnext hpred hwalk hfound⟩
    · exact ⟨[], .done hnext⟩

end Rounds

/-! ## Enough fuel -/

/-- The loop over a path comes to its end, if there is a type for each step. -/
private theorem restorePath_of_walk {pred : Nat → Nat} {src v fuel : Nat} {path : List Nat}
    {types : List Int32} (h : Walk pred src v path) (hfuel : path.length < fuel)
    (htypes : path.length ≤ types.length) (m : MsvrMap K) :
    ∃ m', restorePath pred src fuel v types m = .ok m' := by
  induction h generalizing fuel types m with
  | here =>
    obtain ⟨fuel, rfl⟩ := Nat.exists_eq_succ_of_ne_zero (Nat.ne_of_gt hfuel)
    refine ⟨m, ?_⟩
    unfold restorePath
    rw [if_pos rfl]
  | @step v path hv rest ih =>
    obtain ⟨fuel, rfl⟩ := Nat.exists_eq_succ_of_ne_zero (Nat.ne_of_gt (Nat.zero_lt_of_lt hfuel))
    cases types with
    | nil => exact absurd htypes (by simp)
    | cons type types =>
      unfold restorePath
      rw [if_neg hv]
      exact ih (Nat.lt_of_succ_lt_succ hfuel) (Nat.le_of_succ_le_succ htypes) _

section Enough

variable [Field K] {env : MapEnv K} {src dst limit : Nat} {m : MsvrMap K} {paths : List (List Nat)}
  {rounds : List (Round K)}

/-- With enough fuel for every path, the types are written back. -/
theorem restore_of_kept (hkept : Kept env src dst m paths rounds) (hall : AllRecorded m paths)
    (hlimit : ∀ path ∈ paths, path.length ≤ limit) (m₀ : MsvrMap K) :
    ∃ m', restore src dst limit rounds m₀ = .ok m' := by
  induction hkept generalizing m₀ with
  | nil => exact ⟨m₀, rfl⟩
  | @cons m pred path paths rounds hwalk _ ih =>
    obtain ⟨hlen, hall⟩ := hall
    obtain ⟨hpath, hrest⟩ := List.forall_mem_cons.mp hlimit
    obtain ⟨m₁, hm₁⟩ := restorePath_of_walk hwalk hpath (by simpa [steps] using hlen) m₀
    obtain ⟨m', hm'⟩ := ih hall hrest m₁
    refine ⟨m', ?_⟩
    rw [restore, List.foldlM_cons]
    exact bind_eq_ok.mpr ⟨m₁, hm₁, hm'⟩

variable [LinearOrder K]

/-- With enough fuel for every path and for their number, the search finds its paths. -/
theorem Found.search {fuel : Nat} (h : Found env src dst m paths) (hne : dst ≠ src)
    (hchain : ∀ path ∈ paths, path.IsChain m.HasRoad)
    (hlimit : ∀ path ∈ paths, path.length ≤ limit) (hfuel : paths.length < fuel) :
    ∃ rounds, MsvrMap.search env src dst limit fuel m = .ok (rounds, paths.foldl close m) := by
  induction h generalizing fuel with
  | done hnext =>
    obtain ⟨fuel, rfl⟩ := Nat.exists_eq_succ_of_ne_zero (Nat.ne_of_gt hfuel)
    exact ⟨[], by rw [MsvrMap.search, if_neg hnext]; rfl⟩
  | @round m pred path paths hnext hpred hwalk _ ih =>
    obtain ⟨fuel, rfl⟩ := Nat.exists_eq_succ_of_ne_zero (Nat.ne_of_gt (Nat.zero_lt_of_lt hfuel))
    obtain ⟨hpath, hpaths⟩ := List.forall_mem_cons.mp hchain
    obtain ⟨hlen, hlens⟩ := List.forall_mem_cons.mp hlimit
    have hsame := ((Retyped.refl m).close (dst :: path)).hasRoad
    obtain ⟨rounds, hrounds⟩ := ih (hsame ▸ hpaths) hlens (by simpa using hfuel)
    -- The path has a step, and with it a type
    have hrecord : m.record (dst :: path) ≠ [] := by
      have hsteps := length_steps_le_record hpath
      cases hwalk with
      | here => exact absurd rfl hne
      | step => exact List.ne_nil_of_length_pos (by simp at hsteps ⊢; omega)
    refine ⟨⟨pred, m.record (dst :: path), (dst :: path).reverse,
      deviation env (m.record (dst :: path))⟩ :: rounds, ?_⟩
    rw [MsvrMap.search, if_pos hnext, hpred]
    refine bind_eq_ok.mpr ⟨_, tracePath_of_walk hwalk hlen m, ?_⟩
    refine bind_eq_ok.mpr ⟨_, if_neg hrecord, ?_⟩
    exact bind_eq_ok.mpr ⟨_, hrounds, rfl⟩

end Enough

end MapRelay.NS3.GeoSvr.MsvrMap
