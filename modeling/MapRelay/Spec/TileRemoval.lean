import MapRelay.Spec.Importer

/-!
# What is left when a tile is removed

`remove_data_from_list` looks at the degrees of the coordinates of the roads that go, and removes
the vertices of those with few edges; the edges go with them. Roads are not what it removes, so
that it depends on the degrees whether an edge of such a road stays, a vertex of another road
goes, or a vertex is to go twice.
-/

namespace MapRelay.MapUtils

open ForStd

variable {st st' : Globals} {xs : List String} {coord : String} {roads : List Feature}
  {dataDel dataHold : List Document}

/-! ## The importer before the removal -/

/-- The importer after the first import and the tiles that are added to it. -/
def build (features : Document) (tiles : List (List Document)) : Except Stop Globals := do
  let st ← main features
  tiles.foldlM (fun st dataAdd => addDataToList dataAdd st) st

/-- The roads that are imported then. -/
def imported (features : Document) (tiles : List (List Document)) : List Feature :=
  features ++ newRoads (features.map Feature.osmId).toFinset tiles.flatten.flatten

/-- The importer has these roads: their links are those of the graph, and their ids the keys of
    `roads_map_`. -/
structure Shows (st : Globals) (roads : List Feature) : Prop where
  tracks : ∃ xs, Tracks st xs
  links : st.map.links =
    ((roads.flatMap fun f => segments f.coordinates : List (Sym2 String)) : Multiset (Sym2 String))
  roadsMap : st.roadsMap = (roads.map Feature.osmId).toFinset

/-- The new roads of two lists of features. -/
private theorem newRoads_append (ids : Finset Int32) (fs fs' : List Feature) :
    newRoads ids (fs ++ fs') =
      newRoads ids fs ++ newRoads (ids ∪ (fs.map Feature.osmId).toFinset) fs' := by
  induction fs generalizing ids with
  | nil => simp [newRoads]
  | cons f fs ih =>
    rw [List.cons_append, newRoads, newRoads, List.map_cons, List.toFinset_cons,
      Finset.union_insert, ← Finset.insert_union]
    split
    · rename_i hold
      rw [ih, Finset.insert_eq_of_mem hold]
    · rw [ih, List.cons_append]

/-- The new roads have all the ids that are new. -/
private theorem ids_newRoads (ids : Finset Int32) (fs : List Feature) :
    ids ∪ ((newRoads ids fs).map Feature.osmId).toFinset =
      ids ∪ (fs.map Feature.osmId).toFinset := by
  induction fs generalizing ids with
  | nil => rfl
  | cons f fs ih =>
    rw [newRoads, List.map_cons, List.toFinset_cons, Finset.union_insert, ← Finset.insert_union]
    split
    · rename_i hold
      rw [ih, Finset.insert_eq_of_mem hold]
    · rw [List.map_cons, List.toFinset_cons, Finset.union_insert, ← Finset.insert_union, ih]

/-- A tile adds its new roads. -/
theorem Shows.addDataToList (h : Shows st roads) {dataAdd : List Document}
    (hok : addDataToList dataAdd st = .ok st') :
    Shows st' (roads ++ newRoads st.roadsMap dataAdd.flatten) := by
  obtain ⟨xs, htracks⟩ := h.tracks
  obtain ⟨htracks', hlinked, hroads⟩ := addFeatures_ok htracks hok
  refine ⟨⟨_, htracks'⟩, ?_, ?_⟩
  · rw [hlinked.links, h.links, List.flatMap_append, ← Multiset.coe_add]
    exact add_comm _ _
  · rw [hroads, List.map_append, List.toFinset_append, ← h.roadsMap, ids_newRoads]

/-- After `build` the state shows the roads that were imported. -/
private theorem build_shows {features : Document} {tiles : List (List Document)}
    (hok : build features tiles = .ok st) : Shows st (imported features tiles) := by
  obtain ⟨st₀, hmain, hrest⟩ := bind_eq_ok.mp hok
  obtain ⟨st₁, hmain₁, haligned, hlinks, hroads⟩ := main_ok features
  cases hmain₁.symm.trans hmain
  have hstart : Shows st₀ features := ⟨⟨_, aligned_iff_tracks.mp haligned⟩, hlinks, hroads⟩
  rw [imported]
  clear hok hmain hmain₁ haligned hlinks hroads
  -- One tile after the other; what is imported so far is generalised
  generalize features = roads at hstart ⊢
  induction tiles generalizing st₀ roads with
  | nil =>
    cases hrest
    simpa [newRoads] using hstart
  | cons dataAdd tiles ih =>
    rw [List.foldlM_cons] at hrest
    obtain ⟨st₂, hadd, hrest⟩ := bind_eq_ok.mp hrest
    have h₂ := ih st₂ hrest _ (hstart.addDataToList hadd)
    rw [hstart.roadsMap] at h₂
    rw [List.flatten_cons, List.flatten_append, newRoads_append, ← List.append_assoc]
    rw [List.map_append, List.toFinset_append, ids_newRoads] at h₂
    exact h₂

/-! ## What a removal should do, and when it does -/

/-- The road is in a tile that goes and in none that stays. -/
def Gone (dataDel dataHold : List Document) (id : Int32) : Prop :=
  id ∈ dataDel.flatten.map Feature.osmId ∧ id ∉ dataHold.flatten.map Feature.osmId

instance (id : Int32) : Decidable (Gone dataDel dataHold id) :=
  inferInstanceAs (Decidable (_ ∧ _))

/-- Of the roads of `st`, those that are gone are gone from `st'`, and the others are there with
    all their vertices and edges. -/
structure Removed (roads : List Feature) (dataDel dataHold : List Document)
    (st st' : Globals) : Prop where
  ids : ∀ id, id ∈ st'.roadsMap ↔ id ∈ st.roadsMap ∧ ¬ Gone dataDel dataHold id
  vertices : ∀ f ∈ roads, f.osmId ∈ st'.roadsMap → ∀ c ∈ f.coordinates,
    c ∈ st.map.labels → c ∈ st'.map.labels
  links : st'.map.links = (((roads.filter (·.osmId ∈ st'.roadsMap)).flatMap fun f =>
    segments f.coordinates : List (Sym2 String)) : Multiset (Sym2 String))

/-- The degree of the vertex of a coordinate; zero if there is none. -/
def degree (st : Globals) (coord : String) : Int := (outDegreeFromId coord st).toOption.getD 0

/-- The coordinates of a road whose vertices are to go: the first one if it has one edge, any
    other, the last one too, if it has at most two. -/
def doomedOf (st : Globals) : List String → List String
  | [] => []
  | coord :: coords =>
    if degree st coord = 1 then coord :: coords.filter (degree st · ≤ 2)
    else coords.filter (degree st · ≤ 2)

/-- The coordinates whose vertices are to go. -/
def doomed (dataDel dataHold : List Document) (st : Globals) : List String :=
  (dataDel.flatten.filter fun f => Gone dataDel dataHold f.osmId).flatMap fun f =>
    doomedOf st f.coordinates

/-- When the degrees fit: the coordinates of the roads that go have edges, no vertex is to go
    twice or lies on a road that stays, and each link of a road that goes has an end that goes. -/
structure Removable (roads : List Feature) (dataDel dataHold : List Document)
    (st : Globals) : Prop where
  visited : ∀ f ∈ dataDel.flatten, Gone dataDel dataHold f.osmId → ∀ c ∈ f.coordinates,
    0 < degree st c
  once : (doomed dataDel dataHold st).Nodup
  kept : ∀ f ∈ roads, ¬ Gone dataDel dataHold f.osmId → ∀ c ∈ f.coordinates,
    c ∉ doomed dataDel dataHold st
  cut : ∀ f ∈ roads, Gone dataDel dataHold f.osmId → ∀ s ∈ segments f.coordinates,
    ∃ c ∈ doomed dataDel dataHold st, c ∈ s

/-! ## Looking at the degrees -/

/-- The degree that is returned is the degree. -/
private theorem degree_of_ok {d : Int} (h : outDegreeFromId coord st = .ok d) :
    degree st coord = d := by
  rw [degree, h]
  rfl

/-- A coordinate with roads has a degree. -/
private theorem outDegreeFromId_of_pos (h : 0 < degree st coord) :
    outDegreeFromId coord st = .ok (degree st coord) := by
  rw [degree] at h ⊢
  cases hd : outDegreeFromId coord st with
  | error e =>
    rw [hd] at h
    exact absurd h (lt_irrefl 0)
  | ok d => rfl

/-- A coordinate with edges has a vertex. -/
private theorem mem_labels_of_degree (h : Tracks st xs) (hpos : 0 < degree st coord) :
    coord ∈ st.map.labels := by
  have hok := outDegreeFromId_of_pos hpos
  rw [outDegreeFromId] at hok
  cases hleft : st.coordinateIdBimap.left coord with
  | none =>
    rw [hleft] at hok
    have := Except.ok.inj hok
    omega
  | some i =>
    rw [hleft] at hok
    obtain ⟨u, hu, -⟩ := bind_eq_ok.mp hok
    exact h.mem_labels hleft hu

/-- What the check of the degree lets through. -/
private theorem checkDegree_eq_ok {atEnd goes : Bool} {d : Int} :
    checkDegree atEnd d = .ok goes ↔
      0 < d ∧ goes = if atEnd then decide (d = 1) else decide (d ≤ 2) := by
  unfold checkDegree
  cases atEnd <;> cases goes <;> grind

/-- One coordinate: it must have edges, and goes if it has few. -/
private theorem checkCoordinates_cons {n i : Nat} {coords removed : List String} :
    checkCoordinates st n i (coord :: coords) = .ok removed ↔
      0 < degree st coord ∧ ∃ rest, checkCoordinates st n (i + 1) coords = .ok rest ∧
        removed = if (if i = 0 ∨ i = n then degree st coord = 1 else degree st coord ≤ 2)
          then coord :: rest else rest := by
  rw [checkCoordinates, bind_eq_ok]
  -- The degree, the comparison for an end or an inner point, and the rest
  constructor
  · intro ⟨d, hd, hok⟩
    obtain ⟨goes, hgoes, hok⟩ := bind_eq_ok.mp hok
    obtain ⟨rest, hrest, hok⟩ := bind_eq_ok.mp hok
    obtain ⟨hpos, rfl⟩ := checkDegree_eq_ok.mp hgoes
    rw [degree_of_ok hd]
    refine ⟨hpos, rest, hrest, (Except.ok.inj hok).symm.trans ?_⟩
    by_cases hend : i = 0 ∨ i = n <;> simp [hend]
  · rintro ⟨hpos, rest, hrest, rfl⟩
    refine ⟨_, outDegreeFromId_of_pos hpos, bind_eq_ok.mpr ⟨_, checkDegree_eq_ok.mpr ⟨hpos, rfl⟩,
      bind_eq_ok.mpr ⟨rest, hrest, ?_⟩⟩⟩
    by_cases hend : i = 0 ∨ i = n <;> simp [hend, pure, Except.pure]

/-- The coordinates behind the first one. -/
private theorem checkCoordinates_succ {n i : Nat} {coords removed : List String} (hi : 0 < i)
    (hn : i + coords.length = n) :
    checkCoordinates st n i coords = .ok removed ↔
      (∀ c ∈ coords, 0 < degree st c) ∧ removed = coords.filter (degree st · ≤ 2) := by
  -- Behind the first coordinate and before the counter reaches `n`
  induction coords generalizing i removed with
  | nil => simp [checkCoordinates, eq_comm]
  | cons coord coords ih =>
    rw [List.length_cons] at hn
    have hinner : ¬ (i = 0 ∨ i = n) := by omega
    simp only [checkCoordinates_cons, if_neg hinner, List.forall_mem_cons, List.filter_cons,
      decide_eq_true_eq]
    constructor
    · rintro ⟨hpos, rest, hrest, rfl⟩
      obtain ⟨hall, rfl⟩ := (ih (by omega) (by omega)).mp hrest
      exact ⟨⟨hpos, hall⟩, rfl⟩
    · rintro ⟨⟨hpos, hall⟩, rfl⟩
      exact ⟨hpos, _, (ih (by omega) (by omega)).mpr ⟨hall, rfl⟩, rfl⟩

/-- All coordinates of a road. -/
private theorem checkCoordinates_iff {coords removed : List String} :
    checkCoordinates st coords.length 0 coords = .ok removed ↔
      (∀ c ∈ coords, 0 < degree st c) ∧ removed = doomedOf st coords := by
  cases coords with
  | nil => simp [checkCoordinates, doomedOf, eq_comm]
  | cons coord coords =>
    -- The last coordinate has the index `n - 1`, so that only the first counts as an end
    have hlen : 0 + 1 + coords.length = (coord :: coords).length := by
      rw [List.length_cons]
      omega
    simp only [checkCoordinates_cons, true_or, if_true, List.forall_mem_cons, doomedOf]
    constructor
    · rintro ⟨hpos, rest, hrest, rfl⟩
      obtain ⟨hall, rfl⟩ := (checkCoordinates_succ (by omega) hlen).mp hrest
      exact ⟨⟨hpos, hall⟩, rfl⟩
    · rintro ⟨⟨hpos, hall⟩, rfl⟩
      exact ⟨hpos, _, (checkCoordinates_succ (by omega) hlen).mpr ⟨hall, rfl⟩, rfl⟩

/-- The degrees do not depend on the set of the roads. -/
@[simp] theorem degree_roadsMap (ids : Finset Int32) :
    degree { st with roadsMap := ids } coord = degree st coord := rfl

/-- Nor do the coordinates that are to be removed. -/
@[simp] theorem doomedOf_roadsMap (ids : Finset Int32) (coords : List String) :
    doomedOf { st with roadsMap := ids } coords = doomedOf st coords := by
  cases coords <;> rfl

/-- The importer once the ids that go have been taken out of `roads_map_`. -/
def eraseRoads (removeRoads : List Int32) (fs : List Feature) (st : Globals) : Globals :=
  { st with
    roadsMap := st.roadsMap.filter fun id =>
      ¬ (id ∈ removeRoads ∧ id ∈ fs.map Feature.osmId) }

/-- A road that is to be removed is erased, and its id. -/
private theorem eraseRoads_cons_of_mem {removeRoads : List Int32} {f : Feature} (fs : List Feature)
    (hf : f.osmId ∈ removeRoads) :
    eraseRoads removeRoads fs { st with roadsMap := st.roadsMap.erase f.osmId } =
      eraseRoads removeRoads (f :: fs) st := by
  rw [eraseRoads, eraseRoads]
  congr 1
  ext id
  simp only [Finset.mem_filter, Finset.mem_erase, List.map_cons, List.mem_cons]
  grind

/-- Any other road is kept. -/
private theorem eraseRoads_cons_of_not_mem {removeRoads : List Int32} {f : Feature}
    (fs : List Feature) (hf : f.osmId ∉ removeRoads) :
    eraseRoads removeRoads (f :: fs) st = eraseRoads removeRoads fs st := by
  rw [eraseRoads, eraseRoads]
  congr 1
  ext id
  simp only [Finset.mem_filter, List.map_cons, List.mem_cons]
  grind

/-- All roads that go: their ids are taken out, and nothing else is changed. -/
private theorem checkFeatures_iff {removeRoads : List Int32} {fs : List Feature}
    {removed : List String} :
    checkFeatures removeRoads fs st = .ok (removed, st') ↔
      (∀ f ∈ fs, f.osmId ∈ removeRoads → ∀ c ∈ f.coordinates, 0 < degree st c) ∧
      removed = ((fs.filter (·.osmId ∈ removeRoads)).flatMap fun f => doomedOf st f.coordinates) ∧
      st' = eraseRoads removeRoads fs st := by
  -- Feature after feature, as the two loops of the source run
  induction fs generalizing st st' removed with
  | nil =>
    constructor
    · intro hok
      cases hok
      simp [eraseRoads]
    · rintro ⟨-, rfl, rfl⟩
      simp [checkFeatures, eraseRoads]
  | cons f fs ih =>
    rw [checkFeatures, List.forall_mem_cons, List.filter_cons]
    split
    · -- A road that goes: its coordinates are examined
      rename_i hgoes
      rw [if_pos (by simpa using hgoes), List.flatMap_cons, bind_eq_ok,
        ← eraseRoads_cons_of_mem fs hgoes]
      constructor
      · intro ⟨first, hfirst, hok⟩
        obtain ⟨⟨rest, st₁⟩, hrest, hok⟩ := bind_eq_ok.mp hok
        cases hok
        obtain ⟨hpos, rfl⟩ := checkCoordinates_iff.mp hfirst
        obtain ⟨hall, rfl, rfl⟩ := ih.mp hrest
        exact ⟨⟨fun _ => hpos, hall⟩, by simp, rfl⟩
      · rintro ⟨⟨hpos, hall⟩, rfl, rfl⟩
        refine ⟨_, checkCoordinates_iff.mpr ⟨hpos hgoes, rfl⟩, bind_eq_ok.mpr
          ⟨_, ih.mpr ⟨hall, rfl, rfl⟩, ?_⟩⟩
        simp [pure, Except.pure]
    · -- A road that stays
      rename_i hstays
      rw [if_neg (by simpa using hstays), ih, eraseRoads_cons_of_not_mem fs hstays]
      simp [hstays]

/-- The ids to be removed are those of the tiles that go and of none that stays. -/
private theorem mem_removeRoadIdSet {id : Int32} :
    id ∈ (dataDel.flatten.map Feature.osmId).filter (· ∉ dataHold.flatten.map Feature.osmId) ↔
      Gone dataDel dataHold id := by
  rw [List.mem_filter, decide_eq_true_eq, Gone]

/-- Up to the removal of the vertices. -/
private theorem removeDataFromList_iff {erased : Int → Int} :
    removeDataFromList erased dataDel dataHold st = .ok st' ↔
      (∀ f ∈ dataDel.flatten, Gone dataDel dataHold f.osmId → ∀ c ∈ f.coordinates,
        0 < degree st c) ∧
      (doomed dataDel dataHold st).foldlM
        (fun st nodeId => removeVertexFromGraph erased nodeId st)
        { st with roadsMap := st.roadsMap.filter fun id => ¬ Gone dataDel dataHold id } =
          .ok st' := by
  -- Only the ids of `dataDel` are collected, which every road that is gone has
  have hids : ∀ id, Gone dataDel dataHold id ∧ id ∈ dataDel.flatten.map Feature.osmId ↔
      Gone dataDel dataHold id := fun id => and_iff_left_of_imp And.left
  rw [removeDataFromList, bind_eq_ok]
  simp only [Prod.exists, checkFeatures_iff, eraseRoads, mem_removeRoadIdSet, hids]
  constructor
  · rintro ⟨removed, st₁, ⟨hall, rfl, rfl⟩, hok⟩
    exact ⟨hall, hok⟩
  · intro ⟨hall, hok⟩
    exact ⟨_, _, ⟨hall, rfl, rfl⟩, hok⟩

/-! ## Removing the vertices -/

/-- A vertex of the graph is removed, and its links with it. -/
private theorem removeVertex_of_mem {erased : Int → Int} (herased : ∀ k, erased k = k)
    (h : Tracks st xs) (hmem : coord ∈ st.map.labels) :
    ∃ st₁, removeVertexFromGraph erased coord st = .ok st₁ ∧ (∃ xs₁, Tracks st₁ xs₁) ∧
      st₁.map.labels = st.map.labels.filter (· ≠ coord) ∧
      st₁.map.links = st.map.links.filter (coord ∉ ·) ∧ st₁.roadsMap = st.roadsMap := by
  -- The labels are distinct, so the number of `coord` is its place among them
  have hnodup : st.map.labels.Nodup := h.numbers.nodup.sublist h.labels.sublist
  have hlt := List.idxOf_lt_length_of_mem hmem
  have hk : xs[st.map.labels.idxOf coord]? = some coord := by
    obtain ⟨rest, hxs⟩ := h.labels
    rw [← hxs, List.getElem?_append_left hlt, List.getElem?_idxOf hmem]
  -- The erased entry still reads as its number
  obtain ⟨st₁, hok, h₁, hlabels, hlinks, hroads⟩ :=
    removeVertexFromGraph_ok h hk hlt (.inl (herased _))
  refine ⟨st₁, hok, ⟨_, h₁⟩, ?_, hlinks, hroads⟩
  rw [hlabels, ← List.erase_eq_eraseIdx_of_idxOf rfl, hnodup.erase_eq_filter]
  exact List.filter_congr fun c _ => by simp [bne, beq_eq_decide]

/-- The vertices of all these coordinates can be removed exactly if they are in the graph, and
    none is to be removed twice. -/
private theorem exists_removeVertices {erased : Int → Int} (herased : ∀ k, erased k = k)
    {coords : List String} (h : Tracks st xs) :
    (∃ st', coords.foldlM (fun st nodeId => removeVertexFromGraph erased nodeId st) st =
        .ok st') ↔ coords.Nodup ∧ ∀ c ∈ coords, c ∈ st.map.labels := by
  -- The list of what is removed, from the front
  induction coords generalizing st xs with
  | nil => simp [pure, Except.pure]
  | cons coord coords ih =>
    rw [List.nodup_cons, List.forall_mem_cons]
    constructor
    -- The first removal finds its vertex, the others run on the smaller graph
    · intro ⟨st', hok⟩
      obtain ⟨st₁, hst₁, hrest⟩ := bind_eq_ok.mp hok
      obtain ⟨k, hk, hvertex⟩ := bind_eq_ok.mp hst₁
      obtain ⟨u, hu, -⟩ := bind_eq_ok.mp hvertex
      -- The number that is found stands for a label of the graph
      have hmem := h.mem_labels (assertSome_eq_ok.mp hk) hu
      obtain ⟨st₂, hst₂, ⟨xs₂, h₂⟩, hlabels, -⟩ := removeVertex_of_mem herased h hmem
      cases hst₂.symm.trans hst₁
      obtain ⟨hnodup, hall⟩ := (ih h₂).mp ⟨st', hrest⟩
      simp only [hlabels, List.mem_filter, decide_eq_true_eq] at hall
      exact ⟨⟨fun hdup => (hall coord hdup).2 rfl, hnodup⟩, hmem, fun c hc => (hall c hc).1⟩
    -- Conversely each coordinate is still a label when its turn comes
    · intro ⟨⟨hnew, hnodup⟩, hmem, hall⟩
      obtain ⟨st₁, hst₁, ⟨xs₁, h₁⟩, hlabels, -⟩ := removeVertex_of_mem herased h hmem
      obtain ⟨st', hst'⟩ := (ih h₁).mpr ⟨hnodup, fun c hc => by
        rw [hlabels, List.mem_filter, decide_eq_true_eq]
        exact ⟨hall c hc, fun heq => hnew (heq ▸ hc)⟩⟩
      exact ⟨st', bind_eq_ok.mpr ⟨st₁, hst₁, hst'⟩⟩

/-- What is left is what has nothing to do with them. -/
private theorem removeVertices_ok {erased : Int → Int} (herased : ∀ k, erased k = k)
    {coords : List String} (h : Tracks st xs)
    (hok : coords.foldlM (fun st nodeId => removeVertexFromGraph erased nodeId st) st =
      .ok st') :
    st'.map.labels = st.map.labels.filter (· ∉ coords) ∧
      st'.map.links = st.map.links.filter (fun s => ∀ c ∈ coords, c ∉ s) ∧
      st'.roadsMap = st.roadsMap := by
  induction coords generalizing st xs with
  | nil =>
    cases hok
    simp
  | cons coord coords ih =>
    -- The first coordinate is a label, since the run has not aborted
    have hmem := ((exists_removeVertices herased h).mp ⟨st', hok⟩).2 coord List.mem_cons_self
    obtain ⟨st₁, hst₁, hrest⟩ := bind_eq_ok.mp hok
    obtain ⟨st₂, hst₂, ⟨xs₂, h₂⟩, hlabels, hlinks, hroads⟩ := removeVertex_of_mem herased h hmem
    cases hst₂.symm.trans hst₁
    obtain ⟨hlabels', hlinks', hroads'⟩ := ih h₂ hrest
    -- The labels, the links and the roads of the rest, taken together with the first
    refine ⟨?_, ?_, hroads'.trans hroads⟩
    · rw [hlabels', hlabels, List.filter_filter]
      exact List.filter_congr fun c _ => by simp [Bool.and_comm]
    · rw [hlinks', hlinks, Multiset.filter_filter]
      exact Multiset.filter_congr fun s _ => by simp [and_comm]

/-! ## The removal -/

/-- The ends of the links of a road are coordinates of it. -/
private theorem mem_of_mem_segments {coords : List String} {s : Sym2 String}
    (hs : s ∈ segments coords) (hc : coord ∈ s) : coord ∈ coords := by
  obtain ⟨⟨a, b⟩, hp, rfl⟩ := List.mem_map.mp hs
  obtain ⟨ha, hb⟩ := List.of_mem_zip hp
  rcases Sym2.mem_iff.mp hc with rfl | rfl
  · exact ha
  · exact List.mem_of_mem_tail hb

/-- The vertices that are to go are in the graph. -/
private theorem mem_labels_of_doomed (h : Tracks st xs)
    (hvisited : ∀ f ∈ dataDel.flatten, Gone dataDel dataHold f.osmId → ∀ c ∈ f.coordinates,
      0 < degree st c) (hc : coord ∈ doomed dataDel dataHold st) : coord ∈ st.map.labels := by
  obtain ⟨f, hf, hcf⟩ := List.mem_flatMap.mp hc
  obtain ⟨hf, hgone⟩ := List.mem_filter.mp hf
  refine mem_labels_of_degree h (hvisited f hf (of_decide_eq_true hgone) coord ?_)
  cases hcoords : f.coordinates with
  | nil =>
    rw [hcoords] at hcf
    exact absurd hcf List.not_mem_nil
  | cons c coords =>
    rw [hcoords, doomedOf] at hcf
    grind

/-- Which roads are left of those of the importer. -/
private theorem Shows.stays_iff (h : Shows st roads)
    (hids : ∀ id, id ∈ st'.roadsMap ↔ id ∈ st.roadsMap ∧ ¬ Gone dataDel dataHold id)
    {f : Feature} (hf : f ∈ roads) :
    f.osmId ∈ st'.roadsMap ↔ ¬ Gone dataDel dataHold f.osmId := by
  rw [hids, h.roadsMap, List.mem_toFinset]
  exact and_iff_right (List.mem_map.mpr ⟨f, hf, rfl⟩)

/-- Where no vertex of a road that stays has gone, the links left are those of the roads that stay
    exactly if each link of the others has lost an end. -/
private theorem links_left_iff (h : Shows st roads) {coords : List String}
    (hids : ∀ id, id ∈ st'.roadsMap ↔ id ∈ st.roadsMap ∧ ¬ Gone dataDel dataHold id)
    (hlinks : st'.map.links = st.map.links.filter fun s => ∀ c ∈ coords, c ∉ s)
    (hkept : ∀ f ∈ roads, ¬ Gone dataDel dataHold f.osmId → ∀ c ∈ f.coordinates, c ∉ coords) :
    st'.map.links = (((roads.filter (·.osmId ∈ st'.roadsMap)).flatMap fun f =>
        segments f.coordinates : List (Sym2 String)) : Multiset (Sym2 String)) ↔
      ∀ f ∈ roads, Gone dataDel dataHold f.osmId → ∀ s ∈ segments f.coordinates,
        ∃ c ∈ coords, c ∈ s := by
  rw [hlinks, h.links, Multiset.filter_coe, filter_groups_eq_iff]
  -- Each road by itself: a road that goes must have lost each of its segments
  · refine forall₂_congr fun f hf => ?_
    rw [decide_eq_true_eq, h.stays_iff hids hf, not_not]
    simp
  -- A road that stays keeps its segments, as no point of it is removed
  · intro f hf hstays s hs
    rw [decide_eq_true_eq] at hstays ⊢
    intro c hc hcs
    exact hkept f hf ((h.stays_iff hids hf).mp hstays) c (mem_of_mem_segments hs hcs) hc

/-- The removal does what it should exactly if the degrees fit. -/
private theorem removed_iff_removable (h : Shows st roads) {erased : Int → Int}
    (herased : ∀ k, erased k = k) :
    (∃ st', removeDataFromList erased dataDel dataHold st = .ok st' ∧
      Removed roads dataDel dataHold st st') ↔ Removable roads dataDel dataHold st := by
  obtain ⟨xs, htracks⟩ := h.tracks
  have htracks₁ : Tracks { st with
      roadsMap := st.roadsMap.filter fun id => ¬ Gone dataDel dataHold id } xs :=
    ⟨htracks.numbers, htracks.count, htracks.labels⟩
  constructor
  · intro ⟨st', hok, hremoved⟩
    obtain ⟨hvisited, hfold⟩ := removeDataFromList_iff.mp hok
    obtain ⟨honce, hmem⟩ := (exists_removeVertices herased htracks₁).mp ⟨st', hfold⟩
    obtain ⟨hlabels, hlinks, -⟩ := removeVertices_ok herased htracks₁ hfold
    -- A coordinate of a road that stays is no more in the graph once it has been removed
    have hkept : ∀ f ∈ roads, ¬ Gone dataDel dataHold f.osmId → ∀ c ∈ f.coordinates,
        c ∉ doomed dataDel dataHold st := by
      intro f hf hstays c hc hdoomed
      have hleft := hremoved.vertices f hf ((h.stays_iff hremoved.ids hf).mpr hstays) c hc
        (hmem c hdoomed)
      rw [hlabels, List.mem_filter, decide_eq_true_eq] at hleft
      exact hleft.2 hdoomed
    exact ⟨hvisited, honce, hkept,
      (links_left_iff h hremoved.ids hlinks hkept).mp hremoved.links⟩
  · intro hrem
    -- Each of the vertices is there to be removed
    have hmem : ∀ c ∈ doomed dataDel dataHold st, c ∈ st.map.labels :=
      fun c hc => mem_labels_of_doomed htracks hrem.visited hc
    obtain ⟨st', hfold⟩ := (exists_removeVertices herased htracks₁).mpr ⟨hrem.once, hmem⟩
    obtain ⟨hlabels, hlinks, hroads⟩ := removeVertices_ok herased htracks₁ hfold
    have hids : ∀ id, id ∈ st'.roadsMap ↔ id ∈ st.roadsMap ∧ ¬ Gone dataDel dataHold id := by
      intro id
      rw [hroads, Finset.mem_filter]
    refine ⟨st', removeDataFromList_iff.mpr ⟨hrem.visited, hfold⟩, hids, ?_,
      (links_left_iff h hids hlinks hrem.kept).mpr hrem.cut⟩
    intro f hf hstays c hc hmem
    rw [hlabels, List.mem_filter, decide_eq_true_eq]
    exact ⟨hmem, hrem.kept f hf ((h.stays_iff hids hf).mp hstays) c hc⟩

/-- On the importer that any document and tiles have built, where an erased element of the bimap
    can still be read, removing tiles while others are held does what it should exactly if the
    degrees fit. -/
theorem removeDataFromList_removed_iff (features : Document) (tiles : List (List Document))
    {st : Globals} (hbuild : build features tiles = .ok st) (dataDel dataHold : List Document)
    {erased : Int → Int} (herased : ∀ k, erased k = k) :
    (∃ st', removeDataFromList erased dataDel dataHold st = .ok st' ∧
        Removed (imported features tiles) dataDel dataHold st st') ↔
      Removable (imported features tiles) dataDel dataHold st :=
  removed_iff_removable (build_shows hbuild) herased

/-- A road to a crossing of two others. -/
def spur : Feature := ⟨1, ["a", "b", "c"]⟩

/-- The road to the crossing is removed, while the two others are held. -/
theorem removeDataFromList_spur :
    ∃ st st', build [spur, ⟨2, ["c", "d"]⟩, ⟨3, ["c", "e"]⟩] [] = .ok st ∧
      removeDataFromList id [[spur]] [[⟨2, ["c", "d"]⟩, ⟨3, ["c", "e"]⟩]] st = .ok st' ∧
      Removed [spur, ⟨2, ["c", "d"]⟩, ⟨3, ["c", "e"]⟩] [[spur]]
        [[⟨2, ["c", "d"]⟩, ⟨3, ["c", "e"]⟩]] st st' := by
  obtain ⟨st, hbuild⟩ : ∃ st, build [spur, ⟨2, ["c", "d"]⟩, ⟨3, ["c", "e"]⟩] [] = .ok st :=
    ⟨_, rfl⟩
  have hrem : Removable [spur, ⟨2, ["c", "d"]⟩, ⟨3, ["c", "e"]⟩] [[spur]]
      [[⟨2, ["c", "d"]⟩, ⟨3, ["c", "e"]⟩]] st := by
    cases hbuild
    constructor <;> decide +kernel
  obtain ⟨st', hok, hremoved⟩ := (removeDataFromList_removed_iff _ [] hbuild [[spur]]
    [[⟨2, ["c", "d"]⟩, ⟨3, ["c", "e"]⟩]] fun _ => rfl).mpr hrem
  exact ⟨st, st', hbuild, hok, hremoved⟩

/-- Two roads in a line: the vertex between them goes with the first one, although the second is
    held. Two roads that end at the same coordinate: its vertex is to go twice. -/
theorem removeDataFromList_line :
    (∃ st st', build [⟨1, ["a", "b"]⟩, ⟨2, ["b", "c"]⟩] [] = .ok st ∧
      removeDataFromList id [[⟨1, ["a", "b"]⟩]] [[⟨2, ["b", "c"]⟩]] st = .ok st' ∧
      2 ∈ st'.roadsMap ∧ st'.map.labels = ["c"] ∧ st'.map.edges = [] ∧
      ¬ Removed [⟨1, ["a", "b"]⟩, ⟨2, ["b", "c"]⟩] [[⟨1, ["a", "b"]⟩]] [[⟨2, ["b", "c"]⟩]]
        st st') ∧
    ∃ st, build [⟨1, ["a", "b"]⟩, ⟨2, ["c", "b"]⟩] [] = .ok st ∧
      removeDataFromList id [[⟨1, ["a", "b"]⟩, ⟨2, ["c", "b"]⟩]] [] st =
        .error .assertFailed := by
  refine ⟨⟨_, _, rfl, rfl, by decide +kernel, rfl, rfl, fun hremoved => ?_⟩, _, rfl, rfl⟩
  have hb := hremoved.vertices ⟨2, ["b", "c"]⟩ (by decide) (by decide +kernel) "b" (by decide)
    (by decide +kernel)
  exact absurd hb (by decide +kernel)

end MapRelay.MapUtils
