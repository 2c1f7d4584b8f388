import MapRelay.ForStd.Heap
import MapRelay.ForStd.Run
import MapRelay.Native.Importer

/-!
# The numbers of the coordinates

The bimap of the importer numbers the coordinates, the counter says how many there are, and the
graph has its vertices in the same order. `Tracks` says so of the bimap, the counter and a list
of coordinates, of which the labels of the graph are the first ones. Adding a tile puts new
coordinates at the end of that list but no vertex into the graph. Removing a vertex takes one out
of both, if the loop that shifts the numbers starts where it should.
-/

namespace MapRelay.MapUtils

open ForStd

variable {st st' : Globals} {xs : List String} {coord : String}

/-! ## Bimap, counter and graph -/

/-- The bimap and the counter number the coordinates `xs`, and the graph has the first of them. -/
structure Tracks (st : Globals) (xs : List String) : Prop where
  numbers : st.coordinateIdBimap.Numbers xs
  count : st.nodeCountBimap = xs.length
  labels : st.map.labels <+: xs

/-- A vertex is found exactly under its number. -/
private theorem vertex_eq_ok {i : Int} {g : Map} {u : Nat} :
    vertex i g = .ok u ↔ ∃ j : Nat, g.vertices[j]? = some u ∧ i = j := by
  rw [vertex]
  constructor
  · intro h
    split at h
    · refine ⟨i.toNat, ?_, by omega⟩
      cases hu : g.vertices[i.toNat]? with
      | none =>
        rw [hu] at h
        cases h
      | some w =>
        rw [hu] at h
        cases h
        rfl
    · cases h
  · rintro ⟨j, hj, rfl⟩
    rw [if_pos (Int.natCast_nonneg j), Int.toNat_natCast, hj]
    rfl

/-- A number below the number of vertices is that of a vertex. -/
private theorem exists_vertex {j : Nat} {g : Map} (hj : j < g.labels.length) :
    ∃ u, vertex j g = .ok u ∧ g.vertices[j]? = some u ∧ u ∈ g.vertices := by
  rw [AdjacencyList.labels, List.length_map] at hj
  exact ⟨_, vertex_eq_ok.mpr ⟨j, List.getElem?_eq_getElem hj, rfl⟩, List.getElem?_eq_getElem hj,
    List.getElem_mem hj⟩

/-- The vertex with the number of a coordinate is the one of the coordinate. -/
private theorem Tracks.prop_eq (h : Tracks st xs) {i : Int} {u : Nat}
    (hi : st.coordinateIdBimap.left coord = some i) (hu : vertex i st.map = .ok u) :
    st.map.prop u = coord := by
  obtain ⟨j, hj, rfl⟩ := h.numbers.left_eq_some.mp hi
  obtain ⟨k, hk, hjk⟩ := vertex_eq_ok.mp hu
  cases Int.ofNat.inj hjk
  have hlabel := AdjacencyList.getElem?_labels hk
  obtain ⟨rest, hxs⟩ := h.labels
  have hlen := (List.getElem?_eq_some_iff.mp hlabel).1
  rw [← hxs, List.getElem?_append_left hlen, hlabel] at hj
  exact Option.some.inj hj

/-- So a coordinate whose number is that of a vertex is in the graph. -/
theorem Tracks.mem_labels (h : Tracks st xs) {i : Int} {u : Nat}
    (hi : st.coordinateIdBimap.left coord = some i) (hu : vertex i st.map = .ok u) :
    coord ∈ st.map.labels := by
  obtain ⟨j, hj, -⟩ := vertex_eq_ok.mp hu
  rw [← h.prop_eq hi hu]
  exact List.mem_of_getElem? (AdjacencyList.getElem?_labels hj)

/-! ## Adding a road -/

/-- The links of a road, from each of its coordinates to the next one. -/
def segments (coords : List String) : List (Sym2 String) :=
  (coords.zip coords.tail).map fun p => s(p.1, p.2)

/-- A coordinate is looked up, or appended with the next number. -/
private theorem pushCoordinate_tracks (h : Tracks st xs) (coord : String) :
    Tracks (pushCoordinate st coord).1 (appendNew xs coord) ∧
      (pushCoordinate st coord).1.coordinateIdBimap.left coord =
        some (pushCoordinate st coord).2 ∧
      (pushCoordinate st coord).1.map = st.map ∧
      (pushCoordinate st coord).1.roadsMap = st.roadsMap := by
  rw [pushCoordinate]
  cases hleft : st.coordinateIdBimap.left coord with
  | some id =>
    -- A coordinate that has a number is one of `xs`, so nothing is appended
    have hmem : coord ∈ xs := by
      by_contra hno
      rw [h.numbers.left_eq_none.mpr hno] at hleft
      cases hleft
    rw [appendNew_of_mem hmem]
    exact ⟨h, hleft, rfl, rfl⟩
  | none =>
    -- Otherwise the counter is the next number, which no coordinate has
    have hno := h.numbers.left_eq_none.mp hleft
    have hnumbers : (st.coordinateIdBimap.insert coord st.nodeCountBimap).Numbers
        (xs ++ [coord]) := by
      rw [h.count]
      exact h.numbers.insert hno
    rw [appendNew, if_neg hno]
    refine ⟨⟨hnumbers, ?_, h.labels.trans (List.prefix_append _ _)⟩, ?_, rfl, rfl⟩
    · simp [h.count]
    · exact hnumbers.left_eq_some.mpr ⟨xs.length, List.getElem?_concat_length, h.count⟩

/-- An edge between the vertices of two coordinates. -/
private theorem addEdge_links (h : Tracks st xs) {coord₁ coord₂ : String} {sid eid : Int}
    (hsid : st.coordinateIdBimap.left coord₁ = some sid)
    (heid : st.coordinateIdBimap.left coord₂ = some eid) {u v : Nat}
    (hu : vertex sid st.map = .ok u) (hv : vertex eid st.map = .ok v) :
    ∃ g, addEdge u v st.map = .ok g ∧ g.labels = st.map.labels ∧
      g.links = s(coord₁, coord₂) ::ₘ st.map.links := by
  obtain ⟨i, hi, -⟩ := vertex_eq_ok.mp hu
  obtain ⟨j, hj, -⟩ := vertex_eq_ok.mp hv
  obtain ⟨g, hg, -, hlabels, hlinks⟩ := AdjacencyList.addEdge_of_mem
    (List.mem_of_getElem? hi) (List.mem_of_getElem? hj)
  rw [h.prop_eq hsid hu, h.prop_eq heid hv] at hlinks
  exact ⟨g, by rw [addEdge, hg, deref], hlabels, hlinks⟩

/-- What a road that is added does to the graph: it gets the links of the road, and no vertex. -/
structure Linked (st st' : Globals) (links : List (Sym2 String)) : Prop where
  labels : st'.map.labels = st.map.labels
  links : st'.map.links = links + st.map.links

/-- Where no road is added there are no new links. -/
theorem Linked.refl (st : Globals) : Linked st st [] := ⟨rfl, (zero_add _).symm⟩

/-- The links of two parts are added up. -/
theorem Linked.trans {st₁ : Globals} {links links' : List (Sym2 String)}
    (h : Linked st st₁ links) (h' : Linked st₁ st' links') : Linked st st' (links ++ links') := by
  refine ⟨h'.labels.trans h.labels, ?_⟩
  rw [h'.links, h.links, ← Multiset.coe_add, ← add_assoc]
  exact congrArg (· + st.map.links) (add_comm _ _)

/-- The loop takes the first two coordinates, links them, and goes on from the second. -/
private theorem addCoordinates_eq (coord₁ coord₂ : String) (rest : List String) :
    addCoordinates (coord₁ :: coord₂ :: rest) st =
      (do
        let u ← vertex (pushCoordinate st coord₁).2
          (pushCoordinate (pushCoordinate st coord₁).1 coord₂).1.map
        let v ← vertex (pushCoordinate (pushCoordinate st coord₁).1 coord₂).2
          (pushCoordinate (pushCoordinate st coord₁).1 coord₂).1.map
        let map ← addEdge u v (pushCoordinate (pushCoordinate st coord₁).1 coord₂).1.map
        addCoordinates (coord₂ :: rest)
          { (pushCoordinate (pushCoordinate st coord₁).1 coord₂).1 with map }) := rfl

/-- Two coordinates one after the other: where both numbers are those of vertices, an edge is put
    between them. -/
private theorem addCoordinates_cons_cons (h : Tracks st xs) (coord₁ coord₂ : String)
    (rest : List String) {u v : Nat} (hu : vertex (pushCoordinate st coord₁).2 st.map = .ok u)
    (hv : vertex (pushCoordinate (pushCoordinate st coord₁).1 coord₂).2 st.map = .ok v) :
    ∃ st₁ : Globals, Tracks st₁ (appendNew (appendNew xs coord₁) coord₂) ∧
      Linked st st₁ [s(coord₁, coord₂)] ∧ st₁.roadsMap = st.roadsMap ∧
      addCoordinates (coord₁ :: coord₂ :: rest) st = addCoordinates (coord₂ :: rest) st₁ := by
  -- Both coordinates are numbered first; the graph is the old one until the edge is added
  obtain ⟨h₁, hsid, hmap₁, hroads₁⟩ := pushCoordinate_tracks h coord₁
  obtain ⟨h₂, heid, hmap₂, hroads₂⟩ := pushCoordinate_tracks h₁ coord₂
  rw [← hmap₁, ← hmap₂] at hu hv
  obtain ⟨g, hg, hlabels, hlinks⟩ :=
    addEdge_links h₂ (h₁.numbers.left_of_prefix h₂.numbers prefix_appendNew hsid) heid hu hv
  rw [hmap₂, hmap₁] at hlabels hlinks
  refine ⟨{ (pushCoordinate (pushCoordinate st coord₁).1 coord₂).1 with map := g },
    ⟨h₂.numbers, h₂.count, ?_⟩, ⟨hlabels, hlinks⟩, hroads₂.trans hroads₁, ?_⟩
  · rw [hlabels, ← hmap₁, ← hmap₂]
    exact h₂.labels
  · rw [addCoordinates_eq, hu, hv]
    -- With both vertices found, the body of the loop is this step and the rest
    simp only [bind, Except.bind, hg]

/-- The loop over the coordinates, if it comes to its end. -/
private theorem addCoordinates_ok {coords : List String} (h : Tracks st xs)
    (hok : addCoordinates coords st = .ok st') :
    Tracks st' (coords.foldl appendNew xs) ∧ Linked st st' (segments coords) ∧
      st'.roadsMap = st.roadsMap := by
  induction coords generalizing st xs with
  | nil =>
    cases hok
    exact ⟨h, .refl _, rfl⟩
  | cons coord₁ coords ih =>
    cases coords with
    | nil =>
      cases hok
      obtain ⟨htracks, -, hmap, hroads⟩ := pushCoordinate_tracks h coord₁
      exact ⟨htracks, ⟨by rw [hmap], by rw [hmap]; exact (zero_add _).symm⟩, hroads⟩
    | cons coord₂ rest =>
      -- Both numbers are those of vertices, or the loop would have stopped
      obtain ⟨u, hu, hrest⟩ := bind_eq_ok.mp ((addCoordinates_eq coord₁ coord₂ rest).symm.trans hok)
      obtain ⟨v, hv, -⟩ := bind_eq_ok.mp hrest
      obtain ⟨h₁, -, hmap₁, -⟩ := pushCoordinate_tracks h coord₁
      obtain ⟨-, -, hmap₂, -⟩ := pushCoordinate_tracks h₁ coord₂
      rw [hmap₂, hmap₁] at hu hv
      obtain ⟨st₁, h₂, hlinked, hroads, heq⟩ := addCoordinates_cons_cons h coord₁ coord₂ rest hu hv
      obtain ⟨h', hlinked', hroads'⟩ := ih h₂ (heq ▸ hok)
      have hlast : coord₂ ∈ appendNew (appendNew xs coord₁) coord₂ := mem_appendNew.mpr (.inr rfl)
      rw [List.foldl_cons, appendNew_of_mem hlast] at h'
      exact ⟨h', hlinked.trans hlinked', hroads'.trans hroads⟩

/-- A coordinate that is there changes nothing. -/
private theorem pushCoordinate_of_mem (h : Tracks st xs) (hmem : coord ∈ xs) :
    (pushCoordinate st coord).1 = st := by
  rw [pushCoordinate]
  cases hleft : st.coordinateIdBimap.left coord with
  | some id => rfl
  | none => exact absurd hmem (h.numbers.left_eq_none.mp hleft)

/-- The number of a coordinate with a vertex is that of the vertex. -/
private theorem vertex_pushCoordinate (h : Tracks st xs) (hmem : coord ∈ st.map.labels) :
    ∃ u, vertex (pushCoordinate st coord).2 st.map = .ok u := by
  have hleft := (pushCoordinate_tracks h coord).2.1
  rw [pushCoordinate_of_mem h (h.labels.subset hmem)] at hleft
  obtain ⟨j, hj⟩ := List.mem_iff_getElem?.mp hmem
  have hlt := (List.getElem?_eq_some_iff.mp hj).1
  obtain ⟨rest, hxs⟩ := h.labels
  have hnumber := h.numbers.left_eq_some.mpr
    ⟨j, by rw [← hxs, List.getElem?_append_left hlt, hj], rfl⟩
  rw [hleft] at hnumber
  obtain ⟨u, hu, -⟩ := exists_vertex hlt
  exact ⟨u, Option.some.inj hnumber ▸ hu⟩

/-- It does, if all coordinates have a vertex. -/
private theorem exists_addCoordinates {coords : List String} (h : Tracks st st.map.labels)
    (hknown : ∀ c ∈ coords, c ∈ st.map.labels) : ∃ st', addCoordinates coords st = .ok st' := by
  induction coords generalizing st with
  | nil => exact ⟨st, rfl⟩
  | cons coord₁ coords ih =>
    cases coords with
    | nil => exact ⟨_, rfl⟩
    | cons coord₂ rest =>
      -- Both coordinates are labels already, so that numbering them changes nothing
      have hmem₁ := hknown coord₁ List.mem_cons_self
      have hmem₂ := hknown coord₂ (List.mem_cons_of_mem _ List.mem_cons_self)
      obtain ⟨u, hu⟩ := vertex_pushCoordinate h hmem₁
      -- and their vertices are there
      obtain ⟨v, hv⟩ : ∃ v, vertex (pushCoordinate (pushCoordinate st coord₁).1 coord₂).2 st.map =
          .ok v := by
        rw [pushCoordinate_of_mem h hmem₁]
        exact vertex_pushCoordinate h hmem₂
      obtain ⟨st₁, h₁, hlinked, -, heq⟩ := addCoordinates_cons_cons h coord₁ coord₂ rest hu hv
      rw [appendNew_of_mem hmem₁, appendNew_of_mem hmem₂, ← hlinked.labels] at h₁
      obtain ⟨st', hst'⟩ := ih h₁ fun c hc =>
        hlinked.labels ▸ hknown c (List.mem_cons_of_mem _ hc)
      exact ⟨st', heq.trans hst'⟩

/-! ## Adding a tile -/

/-- The features that `add_data_to_list` adds: the first ones with an id that is not there. -/
def newRoads (ids : Finset Int32) : List Feature → List Feature
  | [] => []
  | f :: fs => if f.osmId ∈ ids then newRoads ids fs else f :: newRoads (insert f.osmId ids) fs

/-- The loop over the features, if it comes to its end. -/
theorem addFeatures_ok {fs : List Feature} (h : Tracks st xs)
    (hok : fs.foldlM addFeature st = .ok st') :
    Tracks st' (((newRoads st.roadsMap fs).flatMap Feature.coordinates).foldl appendNew xs) ∧
      Linked st st' ((newRoads st.roadsMap fs).flatMap fun f => segments f.coordinates) ∧
      st'.roadsMap = st.roadsMap ∪ (fs.map Feature.osmId).toFinset := by
  induction fs generalizing st xs with
  | nil =>
    cases hok
    exact ⟨h, .refl _, (Finset.union_empty _).symm⟩
  | cons f fs ih =>
    rw [List.foldlM_cons] at hok
    obtain ⟨st₁, hf, hrest⟩ := bind_eq_ok.mp hok
    rw [addFeature] at hf
    split at hf
    · -- The road is there already
      rename_i hold
      cases hf
      obtain ⟨h', hlinked, hroads⟩ := ih h hrest
      rw [newRoads, if_pos hold]
      refine ⟨h', hlinked, hroads.trans ?_⟩
      rw [List.map_cons, List.toFinset_cons, Finset.union_insert,
        Finset.insert_eq_of_mem (Finset.mem_union_left _ hold)]
    · rename_i hnew
      -- A new road: its id is entered, and its coordinates are added
      have hinsert : Tracks { st with roadsMap := insert f.osmId st.roadsMap } xs :=
        ⟨h.numbers, h.count, h.labels⟩
      obtain ⟨h₁, hlinked₁, hroads₁⟩ := addCoordinates_ok hinsert hf
      obtain ⟨h', hlinked', hroads'⟩ := ih h₁ hrest
      rw [hroads₁] at h' hlinked' hroads'
      rw [newRoads, if_neg hnew, List.flatMap_cons, List.flatMap_cons, List.foldl_append]
      have hlinked : Linked st st₁ (segments f.coordinates) := ⟨hlinked₁.labels, hlinked₁.links⟩
      -- The later features are those that are new after this one
      refine ⟨h', hlinked.trans hlinked', hroads'.trans ?_⟩
      rw [List.map_cons, List.toFinset_cons, Finset.union_insert, Finset.insert_union]

/-- It does, if all coordinates of the new roads have a vertex. -/
private theorem exists_addFeatures {fs : List Feature} (h : Tracks st st.map.labels)
    (hknown : ∀ f ∈ newRoads st.roadsMap fs, ∀ c ∈ f.coordinates, c ∈ st.map.labels) :
    ∃ st', fs.foldlM addFeature st = .ok st' := by
  induction fs generalizing st with
  | nil => exact ⟨st, rfl⟩
  | cons f fs ih =>
    rw [List.foldlM_cons, addFeature]
    rw [newRoads] at hknown
    split
    · rename_i hold
      rw [if_pos hold] at hknown
      exact ih h hknown
    · rename_i hnew
      rw [if_neg hnew] at hknown
      -- A new road has known coordinates, so that the loop over them comes to its end
      have hinsert : Tracks { st with roadsMap := insert f.osmId st.roadsMap } st.map.labels :=
        ⟨h.numbers, h.count, h.labels⟩
      have hcoords := hknown f List.mem_cons_self
      obtain ⟨st₁, hst₁⟩ := exists_addCoordinates hinsert hcoords
      obtain ⟨h₁, hlinked, hroads⟩ := addCoordinates_ok hinsert hst₁
      -- The labels are the same afterwards, as nothing was appended
      rw [foldl_appendNew_eq_self.mpr hcoords, ← hlinked.labels] at h₁
      obtain ⟨st', hst'⟩ := ih h₁ fun f' hf' => by
        rw [hroads] at hf'
        rw [hlinked.labels]
        exact hknown f' (List.mem_cons_of_mem _ hf')
      exact ⟨st', bind_eq_ok.mpr ⟨st₁, hst₁, hst'⟩⟩

/-! ## Alignment -/

/-- Bimap, counter and graph agree: the numbers from `0` on that are below the counter are those
    of the coordinates, and of the vertices that were made for them. -/
structure Aligned (st : Globals) : Prop where
  bijection : ∀ coord i,
    st.coordinateIdBimap.left coord = some i ↔ st.coordinateIdBimap.right i = some coord
  onto : ∀ i, (∃ coord, st.coordinateIdBimap.right i = some coord) ↔
    0 ≤ i ∧ i < st.nodeCountBimap
  count : st.nodeCountBimap = st.map.vertices.length
  vertex : ∀ coord i, st.coordinateIdBimap.right i = some coord ↔
    ∃ u, vertex i st.map = .ok u ∧ st.map.prop u = coord

/-- The label of a vertex is its coordinate. -/
private theorem getElem?_labels_eq_some {g : Map} {j : Nat} :
    g.labels[j]? = some coord ↔ ∃ u, g.vertices[j]? = some u ∧ g.prop u = coord := by
  rw [AdjacencyList.labels, List.getElem?_map, Option.map_eq_some_iff]

/-- The number of a vertex is the place of its label. -/
private theorem vertex_label {g : Map} {i : Int} :
    (∃ u, vertex i g = .ok u ∧ g.prop u = coord) ↔
      ∃ j : Nat, g.labels[j]? = some coord ∧ i = j := by
  constructor
  · rintro ⟨u, hu, rfl⟩
    obtain ⟨j, hj, rfl⟩ := vertex_eq_ok.mp hu
    exact ⟨j, AdjacencyList.getElem?_labels hj, rfl⟩
  · rintro ⟨j, hj, rfl⟩
    obtain ⟨u, hu, hprop⟩ := getElem?_labels_eq_some.mp hj
    exact ⟨u, vertex_eq_ok.mpr ⟨j, hu, rfl⟩, hprop⟩

/-- The importer is aligned if the coordinates that are numbered are those of the graph. -/
theorem aligned_iff_tracks : Aligned st ↔ Tracks st st.map.labels := by
  have hlen : st.map.labels.length = st.map.vertices.length := List.length_map _
  -- Both sides number the labels; only the wording of the bijection differs
  constructor
  · intro h
    refine ⟨fun coord i => ?_, h.count.trans (by rw [hlen]), List.prefix_rfl⟩
    rw [← Bimap.right_eq_some, h.vertex, vertex_label]
  · intro h
    refine ⟨fun coord i => ?_, fun i => ?_, h.count.trans (by rw [hlen]), fun coord i => ?_⟩
    · rw [Bimap.left_eq_some, Bimap.right_eq_some]
    · rw [h.count]
      constructor
      · intro ⟨coord, hcoord⟩
        obtain ⟨j, hj, rfl⟩ := h.numbers.right_eq_some.mp hcoord
        have hlt := (List.getElem?_eq_some_iff.mp hj).1
        omega
      · intro ⟨hpos, hlt⟩
        obtain ⟨j, rfl⟩ := Int.eq_ofNat_of_zero_le hpos
        have hj : j < st.map.labels.length := by omega
        exact ⟨_, h.numbers.right_eq_some.mpr ⟨j, List.getElem?_eq_getElem hj, rfl⟩⟩
    · rw [h.numbers.right_eq_some, vertex_label]

/-- A tile keeps the importer aligned exactly if all coordinates of its new roads are numbered. -/
private theorem addDataToList_iff (h : Aligned st) (dataAdd : List Document) :
    (∃ st', addDataToList dataAdd st = .ok st' ∧ Aligned st') ↔
      ∀ f ∈ newRoads st.roadsMap dataAdd.flatten, ∀ c ∈ f.coordinates,
        (st.coordinateIdBimap.left c).isSome := by
  have htracks := aligned_iff_tracks.mp h
  have hisSome : ∀ c, (st.coordinateIdBimap.left c).isSome ↔ c ∈ st.map.labels := by
    intro c
    rw [Option.isSome_iff_ne_none, ne_eq, htracks.numbers.left_eq_none, not_not]
  constructor
  · intro ⟨st', hok, h'⟩ f hf c hc
    obtain ⟨hgrown, hlinked, -⟩ := addFeatures_ok htracks hok
    -- The counter has not gone beyond the vertices, so that nothing was appended
    have hcount := (aligned_iff_tracks.mp h').count
    rw [hgrown.count, hlinked.labels] at hcount
    have hsame := prefix_foldl_appendNew.eq_of_length (Int.ofNat.inj hcount).symm
    rw [hisSome]
    exact foldl_appendNew_eq_self.mp hsame.symm c (List.mem_flatMap.mpr ⟨f, hf, hc⟩)
  · intro hknown
    have hmem : ∀ f ∈ newRoads st.roadsMap dataAdd.flatten, ∀ c ∈ f.coordinates,
        c ∈ st.map.labels := fun f hf c hc => (hisSome c).mp (hknown f hf c hc)
    obtain ⟨st', hst'⟩ := exists_addFeatures htracks hmem
    obtain ⟨hgrown, hlinked, -⟩ := addFeatures_ok htracks hst'
    refine ⟨st', hst', aligned_iff_tracks.mpr ?_⟩
    have hall : ∀ c ∈ (newRoads st.roadsMap dataAdd.flatten).flatMap Feature.coordinates,
        c ∈ st.map.labels := fun c hc => by
      obtain ⟨f, hf, hcf⟩ := List.mem_flatMap.mp hc
      exact hmem f hf c hcf
    rw [foldl_appendNew_eq_self.mpr hall, ← hlinked.labels] at hgrown
    exact hgrown

/-! ## Removing a vertex -/

/-- An assertion lets through what is there. -/
theorem assertSome_eq_ok {α : Type} {x : Option α} {a : α} :
    assertSome x = .ok a ↔ x = some a := by
  cases x <;> simp [assertSome]

/-- The loop that starts behind the gap moves it to the end. -/
private theorem shiftKeys_around {m : Bimap String Int} {gap n : Nat} (h : m.NumbersAround gap xs)
    (hn : gap + n = xs.length) :
    ∃ m', shiftKeys n (gap + 1) m = .ok m' ∧ m'.Numbers xs := by
  induction n generalizing gap m with
  | zero =>
    cases hn
    exact ⟨m, rfl, Bimap.numbersAround_length.mp h⟩
  | succ n ih =>
    -- The position behind the gap holds the coordinate after it, which moves into the gap
    have hfound : m.right (gap + 1) = some xs[gap] :=
      Bimap.right_eq_some.mpr ((h _ _).mpr ⟨gap, List.getElem?_eq_getElem (by omega), by simp⟩)
    obtain ⟨m₁, hm₁, h₁⟩ := h.modifyRight
    -- Behind the gap the same loop runs with one position less
    obtain ⟨m', hm', hnumbers⟩ := ih h₁ (by omega)
    refine ⟨m', ?_, hnumbers⟩
    rw [shiftKeys, hfound, add_sub_cancel_right, hm₁]
    exact_mod_cast hm'

/-- The loop finds all positions that it goes through. -/
private theorem right_of_shiftKeys_ok {m m' : Bimap String Int} {n : Nat} {pos : Int}
    (hok : shiftKeys n pos m = .ok m') {q : Int} (hq : pos ≤ q) (hqn : q < pos + n) :
    ∃ coord, m.right q = some coord := by
  induction n generalizing pos m with
  | zero => omega
  | succ n ih =>
    obtain ⟨coord, hcoord, hrest⟩ := bind_eq_ok.mp hok
    obtain ⟨m₁, hm₁, hrest⟩ := bind_eq_ok.mp hrest
    rw [assertSome_eq_ok] at hcoord hm₁
    rcases eq_or_lt_of_le hq with rfl | hlt
    · exact ⟨coord, hcoord⟩
    · -- The first step does not touch the positions behind it
      obtain ⟨coord', hcoord'⟩ := ih hrest (by omega) (by omega)
      rw [Bimap.right_eq_some, (Bimap.modifyRight_eq_some hm₁).2] at hcoord'
      rcases hcoord' with ⟨heq, -⟩ | ⟨-, hmem⟩
      · omega
      · exact ⟨coord', Bimap.right_eq_some.mpr hmem⟩

/-- The loop that starts behind `start` closes the gap exactly if `start` is the gap, or if there
    is nothing to do and nothing is done. -/
private theorem shiftKeys_iff {m : Bimap String Int} {gap : Nat} (h : m.NumbersAround gap xs)
    (hgap : gap ≤ xs.length) (start : Int) :
    (∃ m', shiftKeys (xs.length + 1 - (start + 1)).toNat (start + 1) m = .ok m' ∧
      m'.Numbers xs) ↔ start = gap ∨ (gap = xs.length ∧ gap ≤ start) := by
  constructor
  · intro ⟨m', hok, hnumbers⟩
    by_contra hno
    rcases lt_trichotomy start gap with hlt | rfl | hgt
    · -- The loop comes to the gap
      obtain ⟨coord, hcoord⟩ := right_of_shiftKeys_ok hok (q := gap) (by omega) (by omega)
      exact h.not_mem_gap (Bimap.right_eq_some.mp hcoord)
    · exact hno (.inl rfl)
    · by_cases hlong : start < xs.length
      · -- The first position is moved to one that is taken
        obtain ⟨n, hn⟩ : ∃ n, ((xs.length : Int) + 1 - (start + 1)).toNat = n + 1 :=
          ⟨xs.length - start.toNat - 1, by omega⟩
        rw [hn] at hok
        obtain ⟨coord, -, hrest⟩ := bind_eq_ok.mp hok
        obtain ⟨m₁, hm₁, -⟩ := bind_eq_ok.mp hrest
        rw [assertSome_eq_ok] at hm₁
        have htaken : (xs[start.toNat - 1], start + 1 - 1) ∈ m :=
          (h _ _).mpr ⟨start.toNat - 1, List.getElem?_eq_getElem (by omega), by
            rw [if_neg (by omega)]
            omega⟩
        have hfree := (Bimap.modifyRight_eq_some hm₁).1 _ htaken
        omega
      · -- Nothing is moved, and the gap is not at the end
        have hsteps : ((xs.length : Int) + 1 - (start + 1)).toNat = 0 := by omega
        rw [hsteps] at hok
        cases hok
        have hlt : gap < xs.length := by omega
        exact h.not_mem_gap ((hnumbers _ _).mpr ⟨gap, List.getElem?_eq_getElem hlt, rfl⟩)
  · rintro (rfl | ⟨rfl, hle⟩)
    · have hsteps : ((xs.length : Int) + 1 - (gap + 1)).toNat = xs.length - gap := by omega
      rw [hsteps]
      exact shiftKeys_around h (by omega)
    · have hsteps : ((xs.length : Int) + 1 - (start + 1)).toNat = 0 := by omega
      rw [hsteps]
      exact ⟨m, rfl, Bimap.numbersAround_length.mp h⟩

/-- Removing the `k`-th coordinate, up to the loop that shifts the numbers. -/
private theorem removeVertexFromGraph_eq (h : Tracks st xs) {k : Nat} (hk : xs[k]? = some coord)
    (hvertex : k < st.map.labels.length) (erased : Int → Int) :
    ∃ g, g.labels = st.map.labels.eraseIdx k ∧ g.links = st.map.links.filter (coord ∉ ·) ∧
      removeVertexFromGraph erased coord st = (do
        let m ← shiftKeys (xs.length - (erased k + 1)).toNat (erased k + 1)
          (st.coordinateIdBimap.eraseLeft coord)
        return { st with coordinateIdBimap := m, nodeCountBimap := xs.length - 1, map := g }) := by
  have hleft := h.numbers.left_eq_some.mpr ⟨k, hk, rfl⟩
  -- The vertex has the number of the coordinate, and `clear_vertex` and `remove_vertex` take it out
  -- with its links
  obtain ⟨u, hu, hget, hmem⟩ := exists_vertex hvertex
  obtain ⟨g, hg, hlabels, hlinks⟩ := AdjacencyList.removeVertex_clearVertex
    (h.numbers.nodup.sublist h.labels.sublist) hget
  rw [h.prop_eq hleft hu] at hlinks
  refine ⟨g, hlabels, hlinks, ?_⟩
  -- The rest is the loop over the keys, from where the erased iterator leads
  rw [removeVertexFromGraph, hleft, h.count]
  simp only [assertSome, hu, hg, deref, bind, Except.bind]

/-- Where the loop has to start: behind the number that is erased, or behind the last one if that
    is erased. -/
def Restarts (erased : Int → Int) (k count : Int) : Prop :=
  erased k = k ∨ (k + 1 = count ∧ k ≤ erased k)

instance (erased : Int → Int) (k count : Int) : Decidable (Restarts erased k count) :=
  inferInstanceAs (Decidable (_ ∨ _))

/-- The keys are numbered without a gap exactly if the loop starts behind it. -/
private theorem shiftKeys_eraseLeft_iff (h : Tracks st xs) {k : Nat} (hk : xs[k]? = some coord)
    (erased : Int → Int) :
    (∃ m, shiftKeys (xs.length - (erased k + 1)).toNat (erased k + 1)
        (st.coordinateIdBimap.eraseLeft coord) = .ok m ∧ m.Numbers (xs.eraseIdx k)) ↔
      Restarts erased k st.nodeCountBimap := by
  have hlt := (List.getElem?_eq_some_iff.mp hk).1
  -- Erasing the coordinate leaves a gap at its number in a bimap of one pair less
  have hlen : xs.length = (xs.eraseIdx k).length + 1 := by
    rw [List.length_eraseIdx_of_lt hlt]
    omega
  have hiff := shiftKeys_iff (h.numbers.eraseLeft hk) (by omega) (erased k)
  rw [h.count, hlen, Restarts]
  push_cast
  rw [hiff]
  omega

/-- A vertex is removed from bimap, counter and graph. -/
theorem removeVertexFromGraph_ok (h : Tracks st xs) {k : Nat} (hk : xs[k]? = some coord)
    (hvertex : k < st.map.labels.length) {erased : Int → Int}
    (herased : Restarts erased k st.nodeCountBimap) :
    ∃ st', removeVertexFromGraph erased coord st = .ok st' ∧ Tracks st' (xs.eraseIdx k) ∧
      st'.map.labels = st.map.labels.eraseIdx k ∧
      st'.map.links = st.map.links.filter (coord ∉ ·) ∧ st'.roadsMap = st.roadsMap := by
  obtain ⟨g, hlabels, hlinks, heq⟩ := removeVertexFromGraph_eq h hk hvertex erased
  obtain ⟨m, hm, hnumbers⟩ := (shiftKeys_eraseLeft_iff h hk erased).mpr herased
  have hlt := (List.getElem?_eq_some_iff.mp hk).1
  refine ⟨_, heq.trans (bind_eq_ok.mpr ⟨m, hm, rfl⟩), ⟨hnumbers, ?_, ?_⟩, hlabels, hlinks, rfl⟩
  -- The counter goes down with the list
  · rw [List.length_eraseIdx_of_lt hlt]
    show (xs.length : Int) - 1 = (xs.length - 1 : Nat)
    omega
  · rw [hlabels]
    exact h.labels.eraseIdx k

/-- A removal keeps the importer aligned exactly if its loop starts where it should. -/
private theorem removeVertexFromGraph_iff (h : Aligned st) {k : Int}
    (hk : st.coordinateIdBimap.left coord = some k) (erased : Int → Int) :
    (∃ st', removeVertexFromGraph erased coord st = .ok st' ∧ Aligned st') ↔
      Restarts erased k st.nodeCountBimap := by
  have htracks := aligned_iff_tracks.mp h
  -- The number is that of the label `j`, so that the vertex is there
  obtain ⟨j, hj, rfl⟩ := htracks.numbers.left_eq_some.mp hk
  have hvertex := (List.getElem?_eq_some_iff.mp hj).1
  constructor
  · intro ⟨st', hok, h'⟩
    -- If the call has ended well, its loop has, and it has closed the gap
    obtain ⟨g, hlabels, -, heq⟩ := removeVertexFromGraph_eq htracks hj hvertex erased
    rw [heq] at hok
    obtain ⟨m, hm, hst'⟩ := bind_eq_ok.mp hok
    cases hst'
    have hnumbers := (aligned_iff_tracks.mp h').numbers
    rw [hlabels] at hnumbers
    exact (shiftKeys_eraseLeft_iff htracks hj erased).mp ⟨m, hm, hnumbers⟩
  · intro herased
    obtain ⟨st', hok, h', hlabels, -⟩ := removeVertexFromGraph_ok htracks hj hvertex herased
    exact ⟨st', hok, aligned_iff_tracks.mpr (hlabels ▸ h')⟩

/-! ## The first import -/

/-- While the features are read: `tmp` and the nodes are the coordinates that are numbered, and
    the edges are the numbers of the pairs `segs`. -/
structure Imports (s : Import) (xs : List String) (segs : List (String × String)) : Prop where
  tmp : s.tmp = xs
  nodes : s.nodes = xs
  numbers : s.coordinateIdBimap.Numbers xs
  count : s.nodeCountBimap = xs.length
  mem : ∀ p ∈ segs, p.1 ∈ xs ∧ p.2 ∈ xs
  edges : s.edges = segs.map fun p => ((xs.idxOf p.1 : Int), (xs.idxOf p.2 : Int))

/-- The number of a coordinate is its first place. -/
private theorem left_of_mem {m : Bimap String Int} (h : m.Numbers xs) (hmem : coord ∈ xs) :
    m.left coord = some (xs.idxOf coord : Int) :=
  h.left_eq_some.mpr ⟨xs.idxOf coord, List.getElem?_idxOf hmem, rfl⟩

/-- A node that is imported appends its coordinate, if it is new. -/
private theorem pushNode_imports {s : Import} {segs : List (String × String)}
    (h : Imports s xs segs)
    (coord : String) : Imports (s.pushNode coord) (appendNew xs coord) segs := by
  rw [Import.pushNode, h.tmp]
  split
  -- An old coordinate is found in the bimap, and nothing is appended
  · rename_i hold
    rw [appendNew_of_mem hold]
    exact h
  · rename_i hnew
    rw [appendNew, if_neg hnew]
    -- The edges so far keep their ends, whose places are in the old part of the list
    refine ⟨rfl, by rw [h.nodes], ?_, ?_, fun p hp => ?_, ?_⟩
    · rw [h.count]
      exact h.numbers.insert hnew
    · simp [h.count]
    · exact ⟨List.mem_append_left _ (h.mem p hp).1, List.mem_append_left _ (h.mem p hp).2⟩
    · refine h.edges.trans (List.map_congr_left fun p hp => ?_)
      rw [List.idxOf_append_of_mem (h.mem p hp).1, List.idxOf_append_of_mem (h.mem p hp).2]

/-- An edge between two nodes. -/
theorem Imports.addEdge {s : Import} {segs : List (String × String)} (h : Imports s xs segs)
    {coord₁ coord₂ : String} (h₁ : coord₁ ∈ xs) (h₂ : coord₂ ∈ xs) :
    Imports { s with edges := s.edges ++ [((xs.idxOf coord₁ : Int), (xs.idxOf coord₂ : Int))] } xs
      (segs ++ [(coord₁, coord₂)]) := by
  refine ⟨h.tmp, h.nodes, h.numbers, h.count, fun p hp => ?_, ?_⟩
  · rcases List.mem_append.mp hp with hp | hp
    · exact h.mem p hp
    · cases List.mem_singleton.mp hp
      exact ⟨h₁, h₂⟩
  · rw [h.edges, List.map_append]
    rfl

/-- The loop over the coordinates of a feature. -/
private theorem importCoordinates_ok (coords : List String) {s : Import}
    {segs : List (String × String)} (h : Imports s xs segs) :
    ∃ s', importCoordinates coords s = .ok s' ∧
      Imports s' (coords.foldl appendNew xs) (segs ++ coords.zip coords.tail) := by
  induction coords generalizing s xs segs with
  | nil => exact ⟨s, rfl, by simpa using h⟩
  | cons coord₁ coords ih =>
    cases coords with
    | nil => exact ⟨_, rfl, by simpa using pushNode_imports h coord₁⟩
    | cons coord₂ rest =>
      -- After two nodes the edge between them is appended, and the loop goes on from the second
      have h₂ := pushNode_imports (pushNode_imports h coord₁) coord₂
      have hmem₁ : coord₁ ∈ appendNew (appendNew xs coord₁) coord₂ :=
        prefix_appendNew.subset (mem_appendNew.mpr (.inr rfl))
      have hmem₂ : coord₂ ∈ appendNew (appendNew xs coord₁) coord₂ := mem_appendNew.mpr (.inr rfl)
      obtain ⟨s', hs', h'⟩ := ih (h₂.addEdge hmem₁ hmem₂)
      rw [List.foldl_cons, appendNew_of_mem hmem₂, List.append_assoc] at h'
      refine ⟨s', ?_, h'⟩
      rw [importCoordinates, left_of_mem h₂.numbers hmem₁, left_of_mem h₂.numbers hmem₂]
      exact hs'

/-- The loop over the features. -/
theorem importFeatures_ok (features : Document) {s : Import}
    {segs : List (String × String)} (h : Imports s xs segs) :
    ∃ s', features.foldlM (fun s f => importCoordinates f.coordinates s) s = .ok s' ∧
      Imports s' ((features.flatMap Feature.coordinates).foldl appendNew xs)
        (segs ++ features.flatMap fun f => f.coordinates.zip f.coordinates.tail) := by
  induction features generalizing s xs segs with
  | nil => exact ⟨s, rfl, by simpa using h⟩
  | cons f fs ih =>
    obtain ⟨s₁, hs₁, h₁⟩ := importCoordinates_ok f.coordinates h
    obtain ⟨s', hs', h'⟩ := ih h₁
    rw [← List.foldl_append, List.append_assoc] at h'
    exact ⟨s', bind_eq_ok.mpr ⟨s₁, hs₁, hs'⟩, h'⟩

/-- A coordinate of the list is found in it. -/
private theorem find?_self (hmem : coord ∈ xs) : xs.find? (· == coord) = some coord := by
  cases hfind : xs.find? (· == coord) with
  | none => simpa using List.find?_eq_none.mp hfind coord hmem
  | some c => rw [show c = coord by simpa using List.find?_some hfind]

/-- The loop over the vertices `vs`, from the position `i` on. -/
private theorem setNodes_ok {s : Import} {segs : List (String × String)} (h : Imports s xs segs)
    {vs : List Nat} (hnodup : vs.Nodup) {i : Nat} (hlen : i + vs.length ≤ xs.length) (g : Map) :
    ∃ g', setNodes s i vs g = .ok g' ∧ g'.vertices = g.vertices ∧ g'.edges = g.edges ∧
      vs.map g'.prop = (xs.drop i).take vs.length ∧ ∀ v, v ∉ vs → g'.prop v = g.prop v := by
  induction vs generalizing i g with
  | nil => exact ⟨g, rfl, rfl, rfl, by simp, fun _ _ => rfl⟩
  | cons v vs ih =>
    rw [List.length_cons] at hlen
    obtain ⟨hv, hnodup⟩ := List.nodup_cons.mp hnodup
    have hi : i < xs.length := by omega
    -- The number of the vertex is that of the coordinate at its place
    have hright : s.coordinateIdBimap.right i = some xs[i] :=
      h.numbers.right_eq_some.mpr ⟨i, List.getElem?_eq_getElem hi, rfl⟩
    have hfind : s.nodes.find? (· == xs[i]) = some xs[i] := by
      rw [h.nodes]
      exact find?_self (List.getElem_mem hi)
    obtain ⟨g', hg', hvertices, hedges, hprops, hrest⟩ :=
      ih hnodup (i := i + 1) (by omega) (g.setProp v xs[i])
    refine ⟨g', ?_, hvertices, hedges, ?_, fun w hw => ?_⟩
    · rw [setNodes, hright]
      simp only [deref, hfind, bind, Except.bind]
      exact_mod_cast hg'
    · -- The later steps leave the label of `v` alone
      have hlabel : g'.prop v = xs[i] := (hrest v hv).trans (if_pos rfl)
      rw [List.map_cons, hlabel, hprops, List.length_cons, List.drop_eq_getElem_cons hi,
        List.take_succ_cons]
    · rw [List.mem_cons, not_or] at hw
      exact (hrest w hw.2).trans (if_neg hw.1)

/-- The graph that is made of the numbers of the pairs. -/
private theorem ofEdges_imports {s : Import} {segs : List (String × String)}
    (h : Imports s xs segs) :
    ∃ g : Map, AdjacencyList.ofEdges s.nodes.length
        (s.edges.map fun e => (e.1.toNat, e.2.toNat)) "" = some g ∧
      g.vertices = List.range xs.length ∧
      g.edges = segs.map fun p => (xs.idxOf p.1, xs.idxOf p.2) := by
  -- The ends of the edges are places in the list of the nodes
  have hedges : (s.edges.map fun e => (e.1.toNat, e.2.toNat)) =
      segs.map fun p => (xs.idxOf p.1, xs.idxOf p.2) := by
    rw [h.edges, List.map_map]
    rfl
  rw [hedges, h.nodes]
  refine ⟨_, dif_pos fun e he => ?_, rfl, rfl⟩
  obtain ⟨p, hp, rfl⟩ := List.mem_map.mp he
  exact ⟨List.idxOf_lt_length_of_mem (h.mem p hp).1, List.idxOf_lt_length_of_mem (h.mem p hp).2⟩

/-- Before the first feature. -/
theorem importStart : Imports ⟨[], [], [], Bimap.empty, 0⟩ [] [] :=
  ⟨rfl, rfl, Bimap.numbers_empty, rfl, by simp, rfl⟩

/-- The pairs of consecutive coordinates of the roads. -/
def pairs (features : Document) : List (String × String) :=
  features.flatMap fun f => f.coordinates.zip f.coordinates.tail

/-- The features that have been read make a graph that has an edge for each of the pairs, in their
    order. -/
theorem main_pairs (features : Document) :
    ∃ st, main features = .ok st ∧ Aligned st ∧
      st.map.edges.map (fun e => (st.map.prop e.1, st.map.prop e.2)) = pairs features ∧
      st.roadsMap = (features.map Feature.osmId).toFinset := by
  obtain ⟨s, hs, h⟩ := importFeatures_ok features importStart
  rw [List.nil_append] at h
  generalize (features.flatMap Feature.coordinates).foldl appendNew [] = xs at h
  obtain ⟨g, hg, hvertices, hedges⟩ := ofEdges_imports h
  obtain ⟨g', hg', hvertices', hedges', hprops, -⟩ :=
    setNodes_ok h g.nodup (i := 0) (by rw [hvertices, List.length_range, zero_add]) g
  -- The labels are the coordinates, the one with the number `j` at the vertex `j`
  have hlabels : g'.labels = xs := by
    rw [AdjacencyList.labels, hvertices', hprops, hvertices, List.length_range, List.drop_zero,
      List.take_length]
  have hprop : ∀ c ∈ xs, g'.prop (xs.idxOf c) = c := by
    intro c hc
    have hget : g'.labels[xs.idxOf c]? = some c := by
      rw [hlabels]
      exact List.getElem?_idxOf hc
    rw [AdjacencyList.labels, hvertices', hvertices, List.getElem?_map,
      List.getElem?_range (List.idxOf_lt_length_of_mem hc)] at hget
    exact Option.some.inj hget
  refine ⟨⟨s.coordinateIdBimap, s.nodeCountBimap, (features.map Feature.osmId).toFinset, g'⟩,
    ?_, aligned_iff_tracks.mpr ?_, ?_, rfl⟩
  · rw [main, hs]
    simp only [bind, Except.bind, hg, deref]
    rw [show setNodes s 0 g.vertices g = .ok g' from hg']
    rfl
  · exact ⟨hlabels ▸ h.numbers, hlabels ▸ h.count, List.prefix_rfl⟩
  · rw [hedges', hedges, List.map_map, pairs]
    refine (List.map_congr_left fun p hp => ?_).trans (List.map_id _)
    rw [Function.comp_apply, hprop _ (h.mem p hp).1, hprop _ (h.mem p hp).2, id]

/-- `main` comes to its end on all documents, and the links are those of the roads. -/
theorem main_ok (features : Document) :
    ∃ st, main features = .ok st ∧ Aligned st ∧
      st.map.links = ((features.flatMap fun f => segments f.coordinates : List (Sym2 String)) :
        Multiset (Sym2 String)) ∧
      st.roadsMap = (features.map Feature.osmId).toFinset := by
  obtain ⟨st, hst, haligned, hpairs, hroads⟩ := main_pairs features
  refine ⟨st, hst, haligned, ?_, hroads⟩
  have hlinks := congrArg (List.map fun p : String × String => s(p.1, p.2)) hpairs
  rw [List.map_map, pairs, List.map_flatMap] at hlinks
  exact congrArg _ hlinks

/-! ## Runs -/

/-- The calls that change the importer. -/
inductive Call where
  | add (dataAdd : List Document)
  | remove (erased : Int → Int) (nodeId : String)

def Call.run (st : Globals) : Call → Except Stop Globals
  | .add dataAdd => addDataToList dataAdd st
  | .remove erased nodeId => removeVertexFromGraph erased nodeId st

/-- The calls that keep the importer aligned: tiles without new coordinates, and removals whose
    loop starts where it should. -/
def Call.Keeps (st : Globals) : Call → Prop
  | .add dataAdd => ∀ f ∈ newRoads st.roadsMap dataAdd.flatten, ∀ c ∈ f.coordinates,
      (st.coordinateIdBimap.left c).isSome
  | .remove erased nodeId => ∀ k, st.coordinateIdBimap.left nodeId = some k →
      Restarts erased k st.nodeCountBimap

/-- A step of a run of such calls. -/
def KeepingStep (st : Globals) (call : Call) (st' : Globals) : Prop :=
  call.Keeps st ∧ call.run st = .ok st'

/-- A removal that does not fail its first assertion has a coordinate with a number. -/
private theorem left_of_removeVertexFromGraph_ok {erased : Int → Int}
    (hok : removeVertexFromGraph erased coord st = .ok st') :
    ∃ k, st.coordinateIdBimap.left coord = some k := by
  obtain ⟨k, hk, -⟩ := bind_eq_ok.mp hok
  exact ⟨k, assertSome_eq_ok.mp hk⟩

/-- A call that keeps to the condition keeps bimap, counter and graph aligned. -/
theorem KeepingStep.aligned (h : Aligned st) {call : Call} (hstep : KeepingStep st call st') :
    Aligned st' := by
  obtain ⟨hkeeps, hok⟩ := hstep
  cases call with
  | add dataAdd =>
    obtain ⟨st₁, hok₁, h₁⟩ := (addDataToList_iff h dataAdd).mpr hkeeps
    cases hok₁.symm.trans hok
    exact h₁
  | remove erased nodeId =>
    obtain ⟨k, hk⟩ := left_of_removeVertexFromGraph_ok hok
    obtain ⟨st₁, hok₁, h₁⟩ := (removeVertexFromGraph_iff h hk erased).mpr (hkeeps k hk)
    cases hok₁.symm.trans hok
    exact h₁

/-- After `main` on any document and any run of calls that keep it so, the importer is aligned. A
    further tile or removal of a known coordinate then comes to its end with the importer aligned
    exactly if it is such a call. -/
theorem aligned_of_run (features : Document) :
    ∃ st₀, main features = .ok st₀ ∧
      ∀ calls st, Run KeepingStep st₀ calls st →
        Aligned st ∧
        (∀ dataAdd, (∃ st', addDataToList dataAdd st = .ok st' ∧ Aligned st') ↔
          (Call.add dataAdd).Keeps st) ∧
        ∀ erased nodeId, (st.coordinateIdBimap.left nodeId).isSome →
          ((∃ st', removeVertexFromGraph erased nodeId st = .ok st' ∧ Aligned st') ↔
            (Call.remove erased nodeId).Keeps st) := by
  obtain ⟨st₀, hmain, h₀, -⟩ := main_ok features
  refine ⟨st₀, hmain, fun calls st hrun => ?_⟩
  -- Alignment holds along the whole run, and what each next call does then is exact
  have h : Aligned st := hrun.invariant h₀ fun _ _ _ hs hstep => hstep.aligned hs
  refine ⟨h, addDataToList_iff h, fun erased nodeId hknown => ?_⟩
  obtain ⟨k, hk⟩ := Option.isSome_iff_exists.mp hknown
  rw [removeVertexFromGraph_iff h hk]
  constructor
  -- The number of the coordinate is unique, so the condition for one is that for all
  · intro herased k' hk'
    cases hk.symm.trans hk'
    exact herased
  · intro hkeeps
    exact hkeeps k hk

/-- Three coordinates, a second road between two of them, and the removal of the third. -/
theorem aligned_of_run_remove :
    ∃ st₀ st, main [⟨1, ["a", "b", "c"]⟩] = .ok st₀ ∧
      Run KeepingStep st₀ [.add [[⟨2, ["a", "c"]⟩]], .remove id "b"] st ∧
      st.map.labels = ["a", "c"] ∧ Aligned st := by
  obtain ⟨st₀, hmain, haligned⟩ := aligned_of_run [⟨1, ["a", "b", "c"]⟩]
  have hrun : ∃ st, Run KeepingStep st₀ [.add [[⟨2, ["a", "c"]⟩]], .remove id "b"] st ∧
      st.map.labels = ["a", "c"] := by
    cases hmain
    refine ⟨_, (Run.nil.snoc ⟨?_, rfl⟩).snoc ⟨fun k _ => .inl rfl, rfl⟩, rfl⟩
    unfold Call.Keeps
    decide +kernel
  obtain ⟨st, hrun, hlabels⟩ := hrun
  exact ⟨st₀, st, hmain, hrun, hlabels, (haligned _ st hrun).1⟩

/-- A coordinate that is not in the graph: a road to it is an edge to no vertex, and alone it gets
    a number without a vertex. -/
theorem add_breaks_alignment :
    (main [⟨1, ["a", "b"]⟩] >>= addDataToList [[⟨2, ["b", "c"]⟩]]) = .error .pastEnd ∧
      ∃ st, (main [⟨1, ["a", "b"]⟩] >>= addDataToList [[⟨2, ["c"]⟩]]) = .ok st ∧
        ¬ Aligned st :=
  ⟨rfl, _, rfl, fun h => absurd h.count (by decide)⟩

end MapRelay.MapUtils
