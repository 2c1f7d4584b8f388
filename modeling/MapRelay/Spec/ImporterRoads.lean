import MapRelay.ForStd.Repeats
import MapRelay.Spec.Importer

/-!
# The roads of the edges

The constructor of the first graph takes the edges and the vector of the roads side by side, but
there is an edge for each pair of consecutive coordinates, and one entry of the vector for each
road. So the `k`-th edge gets the `k`-th road. `RoadsKept` says that this is the road that the edge
comes from; for roads with different numbers it is so only if the roads with edges come first and
have one edge each.
-/

namespace MapRelay.MapUtils

open ForStd

variable {features : Document}

/-! ## The constructor of the graph -/

/-- The edges get the first of the roads, unless there are more edges than roads. -/
private theorem edgeProperties_eq (edges : List (Int × Int)) (roads : List Road) :
    edgeProperties edges roads =
      if edges.length ≤ roads.length then .ok (roads.take edges.length)
      else .error .pastEnd := by
  induction edges generalizing roads with
  | nil => rfl
  | cons e edges ih =>
    cases roads with
    | nil => rfl
    | cons r roads =>
      simp only [edgeProperties, List.head?_cons, deref, List.tail_cons, ih, bind, Except.bind,
        List.length_cons, Nat.add_le_add_iff_right]
      by_cases hle : edges.length ≤ roads.length
      · rw [if_pos hle, if_pos hle]
        rfl
      · rw [if_neg hle, if_neg hle]

/-- The vector `roads_` has an entry for each feature. -/
private theorem importFeature_foldlM (features : Document) (s : Import) (roads : List Road) :
    features.foldlM importFeature (s, roads) = (do
      let s ← features.foldlM (fun s f => importCoordinates f.coordinates s) s
      return (s, roads ++ features.map fun f => ⟨f.osmId, 0⟩)) := by
  induction features generalizing s roads with
  | nil =>
    rw [List.map_nil, List.append_nil]
    rfl
  | cons f fs ih =>
    simp only [List.foldlM_cons, importFeature, bind, Except.bind]
    cases importCoordinates f.coordinates s with
    | error e => rfl
    | ok s₁ =>
      simp only [pure, Except.pure, ih, List.map_cons, List.append_assoc, List.singleton_append]
      rfl

/-- `main`, with the roads: the graph is the same, and the `k`-th edge gets the `k`-th road. -/
private theorem mainRoads_eq (features : Document) :
    ∃ st, main features = .ok st ∧
      st.map.edges.map (fun e => (st.map.prop e.1, st.map.prop e.2)) = pairs features ∧
      mainRoads features =
        if (pairs features).length ≤ features.length then
          .ok (st, (features.take (pairs features).length).map fun f => ⟨f.osmId, 0⟩)
        else .error .pastEnd := by
  obtain ⟨st, hst, -, hpairs, -⟩ := main_pairs features
  refine ⟨st, hst, hpairs, ?_⟩
  -- Both runs import the same and build the same graph
  obtain ⟨s, hs, h⟩ := importFeatures_ok features importStart
  have hlen : s.edges.length = (pairs features).length := by
    rw [h.edges, List.length_map, List.nil_append, pairs]
  rw [main, hs] at hst
  obtain ⟨_, hs', hst⟩ := bind_eq_ok.mp hst
  cases hs'
  obtain ⟨g, hg, hst⟩ := bind_eq_ok.mp hst
  obtain ⟨g', hg', hst⟩ := bind_eq_ok.mp hst
  cases hst
  rw [mainRoads, importFeature_foldlM, hs]
  simp only [bind, Except.bind, pure, Except.pure, List.nil_append, edgeProperties_eq, hlen,
    List.length_map]
  by_cases hle : (pairs features).length ≤ features.length
  · simp only [if_pos hle, hg, hg', List.map_take]
  · simp only [if_neg hle]

/-! ## The roads of the edges -/

/-- The edges of the graph, with the coordinates at their ends and the numbers of their roads. -/
def roadEdges (st : Globals) (properties : List Road) : List ((String × String) × Int32) :=
  (st.map.edges.zip properties).map fun e =>
    ((st.map.prop e.1.1, st.map.prop e.1.2), e.2.id)

/-- The pairs of consecutive coordinates, with the numbers of the roads that they come from. -/
def roadPairs (features : Document) : List ((String × String) × Int32) :=
  features.flatMap fun f => (f.coordinates.zip f.coordinates.tail).map fun p => (p, f.osmId)

/-- The graph has one edge for each pair of consecutive coordinates, with a road, which is the one
    that the pair comes from, and the iterator of the roads stays within them. -/
def RoadsKept (features : Document) : Prop :=
  ∃ st properties, mainRoads features = .ok (st, properties) ∧
    properties.length = st.map.edges.length ∧ roadEdges st properties = roadPairs features

/-- The number of each road as often as the road has edges. -/
def edgeIds (features : Document) : List Int32 :=
  features.flatMap fun f => List.replicate (f.coordinates.length - 1) f.osmId

/-- Each road has its id as often as it has links. -/
private theorem edgeIds_eq_repeats (features : Document) :
    edgeIds features = repeats (features.map fun f => (f.osmId, f.coordinates.length - 1)) := by
  rw [edgeIds, repeats, List.flatMap_map]

/-- The links of the roads are the pairs of the features. -/
private theorem map_fst_roadPairs (features : Document) :
    (roadPairs features).map Prod.fst = pairs features := by
  simp only [roadPairs, pairs, List.map_flatMap, List.map_map, Function.comp_def, List.map_id']

/-- Their ids are those that are counted. -/
private theorem map_snd_roadPairs (features : Document) :
    (roadPairs features).map Prod.snd = edgeIds features := by
  simp only [roadPairs, edgeIds, List.map_flatMap, List.map_map, Function.comp_def,
    List.map_const', List.length_zip, List.length_tail, Nat.sub_le, Nat.min_eq_right]

/-- There are as many pairs as ids. -/
private theorem length_pairs (features : Document) :
    (pairs features).length = (edgeIds features).length := by
  rw [← map_fst_roadPairs, ← map_snd_roadPairs, List.length_map, List.length_map]

/-- A graph whose edges are those of the pairs, as `mainRoads` makes it. -/
private theorem roadEdges_eq {st : Globals}
    (hpairs : st.map.edges.map (fun e => (st.map.prop e.1, st.map.prop e.2)) = pairs features)
    (properties : List Road) :
    roadEdges st properties = (pairs features).zip (properties.map Road.id) := by
  rw [roadEdges, ← hpairs, List.zip_map]
  rfl

/-- The edges keep their roads exactly if the vector of the roads begins with them. -/
private theorem roadsKept_iff_initial :
    RoadsKept features ↔ edgeIds features <+: features.map Feature.osmId := by
  obtain ⟨st, -, hpairs, hmain⟩ := mainRoads_eq features
  have hzip : roadPairs features = (pairs features).zip (edgeIds features) :=
    List.zip_of_prod (map_fst_roadPairs features) (map_snd_roadPairs features)
  have hlen : (pairs features).length = st.map.edges.length := by
    rw [← hpairs, List.length_map]
  have hids : ∀ n, ((features.take n).map fun f => (⟨f.osmId, 0⟩ : Road)).map Road.id =
      (features.map Feature.osmId).take n := by
    intro n
    rw [List.map_map, List.map_take]
    rfl
  rw [RoadsKept, hzip, List.prefix_iff_eq_take, ← length_pairs]
  constructor
  · -- The edges have the first roads, and these are the right ones
    rintro ⟨st', properties, hok, -, hedges⟩
    rw [hmain] at hok
    split at hok
    · next hle =>
      cases hok
      rw [roadEdges_eq hpairs, hids] at hedges
      have hsnd := congrArg (List.map Prod.snd) hedges
      rw [List.map_snd_zip, List.map_snd_zip] at hsnd
      · exact hsnd.symm
      · rw [length_pairs]
      · rw [List.length_take_of_le (by rwa [List.length_map])]
    · cases hok
  · -- There are then enough roads for the iterator
    intro htake
    have hle : (pairs features).length ≤ features.length := by
      rw [length_pairs, htake, List.length_take, List.length_map]
      exact Nat.min_le_right _ _
    rw [if_pos hle] at hmain
    refine ⟨st, _, hmain, ?_, ?_⟩
    · rw [List.length_map, List.length_take_of_le hle, hlen]
    · rw [roadEdges_eq hpairs, hids, ← htake]

/-- A road with `n` coordinates has `n - 1` edges. -/
private theorem roadsKept_iff_of_nodup (hnodup : (features.map Feature.osmId).Nodup) :
    RoadsKept features ↔
      ∃ m, (∀ f ∈ features.take m, f.coordinates.length = 2) ∧
        ∀ f ∈ features.drop m, f.coordinates.length ≤ 1 := by
  have hfst : (features.map fun f => (f.osmId, f.coordinates.length - 1)).map Prod.fst =
      features.map Feature.osmId := by
    rw [List.map_map]
    rfl
  rw [roadsKept_iff_initial, edgeIds_eq_repeats, ← hfst, repeats_prefix_iff (hfst ▸ hnodup)]
  refine exists_congr fun m => ?_
  simp only [← List.map_take, ← List.map_drop, List.forall_mem_map, Nat.sub_eq_zero_iff_le]
  refine and_congr_left' (forall_congr' fun f => imp_congr_right fun _ => ?_)
  omega

/-- The roads are the right ones, for every collection of roads, exactly if the numbers of the
    roads begin with what the edges should get. If the numbers differ, that is when roads with two
    coordinates come first, and the others have one coordinate at most. -/
theorem mainRoads_kept_iff (features : Document) :
    (RoadsKept features ↔
      (features.flatMap fun f => List.replicate (f.coordinates.length - 1) f.osmId) <+:
        features.map Feature.osmId) ∧
    ((features.map Feature.osmId).Nodup →
      (RoadsKept features ↔
        ∃ m, (∀ f ∈ features.take m, f.coordinates.length = 2) ∧
          ∀ f ∈ features.drop m, f.coordinates.length ≤ 1)) :=
  ⟨roadsKept_iff_initial, roadsKept_iff_of_nodup⟩

/-- A road with three coordinates has two edges. Alone, it takes the iterator to the end of the
    roads and past it; before another road, it gives its second edge to that road. -/
theorem mainRoads_not_kept :
    ¬ RoadsKept [⟨7, ["1,1", "1,2", "2,2"]⟩] ∧
    ¬ RoadsKept [⟨7, ["1,1", "1,2", "2,2"]⟩, ⟨8, ["2,2"]⟩] := by
  rw [roadsKept_iff_initial, roadsKept_iff_initial]
  decide

end MapRelay.MapUtils
