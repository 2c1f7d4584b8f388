import MapRelay.Spec.Forward
import MapRelay.Spec.VehicleVertex

/-!
# When a vehicle is matched with a vertex

`find_vertex_by_square` returns a variable that it only sets at a vertex in its square. Where there
is none, `find_Vertex_by_VehiclePosition` returns what the memory held, and `mbr_forward` gives
that to `cross_vertex`, which goes through the pointer at once. So a vehicle is safe exactly where
one of the three vertices with the nearest geohashes is within 100 m of it, or a vertex lies in the
square around it.
-/

namespace MapRelay.NS3

open ForStd MapRelay.Graph

/-! ## The search between two vertices of the graph -/

section Search

variable {A : Type} {g : Graph A} {source target : Addr} {s : Search}

/-- The ids of two vertices can be compared. -/
private theorem sameId_ok (h : g.WF) {v w : Addr} (hv : v ∈ g.vertices.nodes)
    (hw : w ∈ g.vertices.nodes) : ∃ same, sameId g v w = .ok same := by
  obtain ⟨a, -, hderefa⟩ := Heap.deref_of_live ((h.live_iff v).mpr hv)
  obtain ⟨b, -, hderefb⟩ := Heap.deref_of_live ((h.live_iff w).mpr hw)
  exact ⟨a.idStr == b.idStr, by simp only [sameId, hderefa, hderefb, bind, Except.bind]; rfl⟩

/-- The queue is as it should be, whatever the roads on it. Ids may be in use twice. -/
structure SearchSafe (g : Graph A) (source : Addr) (s : Search) : Prop where
  queue : QueueOk False g source s.queue
  atTarget : ∀ i, s.target = some i → i < s.queue.length

/-- Reaching the other end of an edge faults at nothing. -/
theorem SearchSafe.reachVertex (h : SearchSafe g source s) (hwf : g.WF) (hloop : NoLoops g)
    (ht : target ∈ g.vertices.nodes) {index : Nat} {u : Addr} {e : Edge}
    (hindex : (s.queue.map PathEntry.v)[index]? = some u) (he : e ∈ g.edgesOf u) :
    ∃ s', NS3.reachVertex g target index s e = .ok s' ∧ SearchSafe g source s' ∧
      s.queue.map PathEntry.v <+: s'.queue.map PathEntry.v := by
  have hmem : e.vertex ∈ g.vertices.nodes := hwf.closed u e he
  obtain ⟨same, hsame⟩ := sameId_ok hwf hmem ht
  obtain ⟨s', hreach⟩ : ∃ s', NS3.reachVertex g target index s e = .ok s' := reachVertex_ok hsame
  refine ⟨s', hreach, ?_⟩
  obtain ⟨-, ⟨hnew, hqueue, same, -, htarget⟩ | ⟨hfind, htarget⟩⟩ := reachVertex_cases hreach
  · -- A vertex that has not been seen goes to the end of the queue
    have hlength : s'.queue.length = s.queue.length + 1 := by
      rw [hqueue, List.length_append, List.length_singleton]
    refine ⟨⟨hqueue ▸ h.queue.append hindex hmem hnew nofun, fun i hi => ?_⟩, ?_⟩
    · rw [htarget] at hi
      split at hi
      · cases hi
        exact hlength ▸ Nat.lt_succ_self _
      · exact hlength ▸ Nat.lt_succ_of_lt (h.atTarget i hi)
    · rw [hqueue, List.map_append]
      exact List.prefix_append _ _
  · -- Only the parent of an entry may change, so that every vertex keeps its place
    obtain ⟨hok, hfound⟩ := h.queue.findVertex hloop hindex he nofun hfind
    have hmap : s'.queue.map PathEntry.v = s.queue.map PathEntry.v := by
      rw [← map_fst_found, ← map_fst_found, hfound]
    refine ⟨⟨hok, fun i hi => ?_⟩, hmap ▸ List.prefix_refl _⟩
    rw [← List.length_map (f := PathEntry.v), hmap, List.length_map]
    exact h.atTarget i (htarget ▸ hi)

/-- Collecting the turns faults at nothing. -/
theorem SearchSafe.collect (h : SearchSafe g source s) :
    ∃ s', NS3.collect s = .ok s' ∧ SearchSafe g source s' ∧ s'.queue = s.queue := by
  unfold NS3.collect
  split
  · next i _ htarget =>
    have hlt := h.atTarget i htarget
    have hentry : (s.queue.map PathEntry.v)[i]? = some s.queue[i].v := by
      rw [List.getElem?_map, List.getElem?_eq_getElem hlt]
      rfl
    -- The place of the target is in the queue, so the way back ends
    obtain ⟨v, hprint, -⟩ := printCrossnode_ok h.queue hentry
    simp only [hprint, bind, Except.bind]
    split
    · exact ⟨_, rfl, ⟨h.queue, h.atTarget⟩, rfl⟩
    · exact ⟨s, rfl, h, rfl⟩
  · exact ⟨s, rfl, h, rfl⟩
  · exact ⟨s, rfl, h, rfl⟩

/-- The loop over the edges faults at nothing. -/
theorem SearchSafe.visitEdges (hwf : g.WF) (hloop : NoLoops g) (ht : target ∈ g.vertices.nodes)
    {index : Nat} {u : Addr} {es : List Edge} (h : SearchSafe g source s)
    (hindex : (s.queue.map PathEntry.v)[index]? = some u) (hes : ∀ e ∈ es, e ∈ g.edgesOf u) :
    ∃ s', es.foldlM (visitEdge g target index) s = .ok s' ∧ SearchSafe g source s' ∧
      s.queue.map PathEntry.v <+: s'.queue.map PathEntry.v := by
  -- Edge after edge, the queue only grows
  induction es generalizing s with
  | nil => exact ⟨s, rfl, h, List.prefix_refl _⟩
  | cons e es ih =>
    -- The lookup of the edge, then the collecting
    obtain ⟨s₁, hreach, hs₁, hgrow₁⟩ := h.reachVertex hwf hloop ht hindex (hes e List.mem_cons_self)
    obtain ⟨s₂, hcollect, hs₂, hqueue₂⟩ := hs₁.collect
    rw [← hqueue₂] at hgrow₁
    obtain ⟨s', hrest, hs', hgrow⟩ := ih hs₂ (Bfs.getElem?_of_prefix hgrow₁ hindex)
      fun e' he' => hes e' (List.mem_cons_of_mem _ he')
    refine ⟨s', ?_, hs', hgrow₁.trans hgrow⟩
    rw [List.foldlM_cons, visitEdge, hreach]
    simp only [bind, Except.bind, hcollect]
    exact hrest

/-- The whole search faults at nothing, and ends. -/
theorem SearchSafe.searchQueue (hwf : g.WF) (hloop : NoLoops g) (ht : target ∈ g.vertices.nodes)
    (fuel : Nat) {index : Nat} (h : SearchSafe g source s) (hle : index ≤ s.queue.length)
    (hfuel : g.vertices.nodes.length + 2 ≤ fuel + index) :
    ∃ list, NS3.searchQueue g target fuel index s = .ok list := by
  induction fuel generalizing index s with
  | zero =>
    -- The queue has no vertex twice, so that the fuel is more than its length
    have hlen := h.queue.length_le
    omega
  | succ fuel ih =>
    rw [NS3.searchQueue]
    cases hp : s.queue[index]? with
    | none => exact ⟨s.list, rfl⟩
    | some p =>
      have hmem := h.queue.mem p (List.mem_of_getElem? hp)
      obtain ⟨same, hsame⟩ := sameId_ok hwf hmem ht
      dsimp only
      rw [hsame]
      cases same with
      | true => exact ⟨s.list, rfl⟩
      | false =>
        obtain ⟨v, hv, hderef⟩ := Heap.deref_of_live ((hwf.live_iff p.v).mpr hmem)
        have hindex : (s.queue.map PathEntry.v)[index]? = some p.v := by
          rw [List.getElem?_map, hp]
          rfl
        obtain ⟨s', hvisit, hs', hgrow⟩ := h.visitEdges hwf hloop ht hindex fun e he => he
        rw [edgesOf_of_cell hv] at hvisit
        have hlonger := hgrow.length_le
        rw [List.length_map, List.length_map] at hlonger
        have hin : index < s.queue.length := (List.getElem?_eq_some_iff.mp hp).1
        obtain ⟨list, hrest⟩ : ∃ list, NS3.searchQueue g target fuel (index + 1) s' = .ok list :=
          ih hs' (by omega) (by omega)
        refine ⟨list, ?_⟩
        simp only [bind, Except.bind, hderef, hvisit]
        exact hrest

/-- Between vertices of a graph without loops `cross_vertex` returns a list. -/
theorem crossVertex_returns (hwf : g.WF) (hloop : NoLoops g) (hs : source ∈ g.vertices.nodes)
    (ht : target ∈ g.vertices.nodes) : ∃ list, crossVertex g source target = .ok list := by
  have hstart : SearchSafe g source ⟨[.start source], none, false, []⟩ :=
    ⟨.singleton hs, fun i hi => by cases hi⟩
  exact hstart.searchQueue hwf hloop ht _ (Nat.zero_le _) (Nat.le_refl _)

end Search

/-! ## The vertex that is found -/

variable {K : Type} [Field K] [LinearOrder K]

section Match

variable (env : MapEnv K) (g : Graph (Site K)) (geoHash : UInt64) (x y : K)

/-- The search returns `NULL` or a vertex of the graph, and a vertex if one lies strictly inside
    the square. This has to be so whatever the memory held. -/
structure MatchedSoundly : Prop where
  nullOrVertex : ∀ memory, ∃ p, findVertexByVehiclePosition env memory g geoHash x y = .ok p ∧
    (p = NULL ∨ p ∈ g.vertices.nodes)
  square : (∃ q ∈ g.vertices.nodes, inSquare g x y q) → ∀ memory, ∃ p ∈ g.vertices.nodes,
    findVertexByVehiclePosition env memory g geoHash x y = .ok p

/-- One of the three vertices with the nearest geohashes is within 100 m, or a vertex lies strictly
    inside the square and within the cut-off. -/
def Matchable : Prop :=
  (∃ p ∈ nearestThree g geoHash, distanceOf env g x y p ≤ 100) ∨
    ∃ p ∈ g.vertices.nodes, inSquare g x y p ∧ distanceOf env g x y p < 999

end Match

variable [IsStrictOrderedRing K] {env : MapEnv K} {g : Graph (Site K)} {geoHash : UInt64} {x y : K}

/-- Where a vertex can be matched, one is found. -/
theorem Matchable.found (h : g.WF) (hmatch : Matchable env g geoHash x y) (memory : Addr) :
    ∃ p ∈ g.vertices.nodes, findVertexByVehiclePosition env memory g geoHash x y = .ok p := by
  by_cases hnear : ∃ q ∈ nearestThree g geoHash, distanceOf env g x y q ≤ 100
  · obtain ⟨p, hfirst, hfind⟩ := findVertexByVehiclePosition_near h env memory hnear
    exact ⟨p, mem_of_mem_nearestThree hfirst.mem, hfind⟩
  · -- The square decides, and a vertex in it is nearer than the cut-off
    obtain ⟨q, hq, hin, hlt⟩ := hmatch.resolve_left hnear
    obtain ⟨p, hbest, hfirst, -⟩ :=
      bestFrom_nearness (List.mem_filter.mpr ⟨hq, hin⟩) hlt memory
    refine ⟨p, List.mem_of_mem_filter hfirst.mem, ?_⟩
    rw [findVertexByVehiclePosition_far h env memory hnear, hbest]

/-- Where nothing is found, the result is what the memory held. -/
private theorem findVertexByVehiclePosition_garbage (h : g.WF)
    (hmatch : ¬ Matchable env g geoHash x y) (memory : Addr) :
    findVertexByVehiclePosition env memory g geoHash x y = .ok memory := by
  obtain ⟨hfar, hsquare⟩ := not_or.mp hmatch
  -- No vertex in the square is nearer than the cut-off, so that the variable is never set
  rw [findVertexByVehiclePosition_far h env memory hfar, bestFrom_of_far]
  intro p hp hlt
  obtain ⟨hp, hin⟩ := List.mem_filter.mp hp
  exact hsquare ⟨p, hp, hin, hlt⟩

/-- Garbage may be the address of the next vertex, which is none of the graph. -/
theorem matchedSoundly_iff (h : g.WF) :
    MatchedSoundly env g geoHash x y ↔ Matchable env g geoHash x y := by
  constructor
  -- With no vertex close enough the garbage word is returned, here an address of no vertex
  · intro hsound
    by_contra hmatch
    obtain ⟨p, hfind, hp⟩ := hsound.nullOrVertex g.heap.next
    rw [findVertexByVehiclePosition_garbage h hmatch] at hfind
    cases hfind
    rcases hp with hp | hp
    · exact Nat.ne_of_gt g.heap.next_pos hp
    · exact h.next_not_mem hp
  · intro hmatch
    refine ⟨fun memory => ?_, fun _ => hmatch.found h⟩
    obtain ⟨p, hp, hfind⟩ := hmatch.found h memory
    exact ⟨p, hfind, .inr hp⟩

/-! ## The callers -/

/-- Both vehicles are matched soundly, and the callers go through pointers to vertices: the ids can
    be compared with which `cross_vertex` begins, and on a graph without loops the search for the
    intersections returns. -/
structure SafeMatching (sumomap : MbrSumo K) (thisGeohash dstGeohash : UInt64)
    (this dst : K × K) : Prop where
  thisMatched : MatchedSoundly sumomap.map sumomap.graph thisGeohash this.1 this.2
  dstMatched : MatchedSoundly sumomap.map sumomap.graph dstGeohash dst.1 dst.2
  compared : ∀ memory, ∃ v w,
    findVertexByVehiclePosition sumomap.map memory sumomap.graph thisGeohash this.1 this.2 =
      .ok v ∧
    findVertexByVehiclePosition sumomap.map memory sumomap.graph dstGeohash dst.1 dst.2 = .ok w ∧
    ∃ same, sameId sumomap.graph w v = .ok same
  returns : NoLoops sumomap.graph → ∀ memory,
    ∃ list, intersectionList sumomap memory dstGeohash thisGeohash dst this = .ok list

/-- The matching is safe exactly for two vehicles that can be matched. -/
theorem safeMatching_iff {sumomap : MbrSumo K} (h : sumomap.graph.WF)
    (thisGeohash dstGeohash : UInt64) (this dst : K × K) :
    SafeMatching sumomap thisGeohash dstGeohash this dst ↔
      Matchable sumomap.map sumomap.graph thisGeohash this.1 this.2 ∧
        Matchable sumomap.map sumomap.graph dstGeohash dst.1 dst.2 := by
  constructor
  · intro hsafe
    exact ⟨(matchedSoundly_iff h).mp hsafe.thisMatched, (matchedSoundly_iff h).mp hsafe.dstMatched⟩
  · intro ⟨hthis, hdst⟩
    refine ⟨(matchedSoundly_iff h).mpr hthis, (matchedSoundly_iff h).mpr hdst, fun memory => ?_,
      fun hloop memory => ?_⟩
    · obtain ⟨v, hv, hfindv⟩ := hthis.found h memory
      obtain ⟨w, hw, hfindw⟩ := hdst.found h memory
      exact ⟨v, w, hfindv, hfindw, sameId_ok h hw hv⟩
    · obtain ⟨v, hv, hfindv⟩ := hthis.found h memory
      obtain ⟨w, hw, hfindw⟩ := hdst.found h memory
      obtain ⟨list, hlist⟩ := crossVertex_returns h hloop hw hv
      exact ⟨list, bind_eq_ok.mpr ⟨v, hfindv, bind_eq_ok.mpr ⟨w, hfindw, hlist⟩⟩⟩

/-- Two vehicles beside corners of a block. -/
theorem safeMatching_block : SafeMatching blockMap 3 2 (0, 60) (60, 10) := by
  have hthis : distanceOf gridEnv (block 1 2 1 2) 0 60 3 ≤ 100 := by
    show |(60 : ℚ) - 60| + |0 - 0| ≤ 100
    norm_num
  have hdst : distanceOf gridEnv (block 1 2 1 2) 60 10 2 ≤ 100 := by
    show |(10 : ℚ) - 0| + |60 - 60| ≤ 100
    norm_num
  exact (safeMatching_iff (block_wf 1 2 1 2) 3 2 (0, 60) (60, 10)).mpr
    ⟨.inl ⟨3, by decide, hthis⟩, .inl ⟨2, by decide, hdst⟩⟩

/-- For a vehicle far away from the block the garbage is returned, and `cross_vertex` goes through
    it. -/
theorem far_vehicle_garbage :
    findVertexByVehiclePosition gridEnv 7 (block 1 2 1 2) 2 5000 0 = .ok 7 ∧
      intersectionList blockMap NULL 2 3 (5000, 0) (0, 60) = .error .nullDeref ∧
      ¬ MatchedSoundly gridEnv (block 1 2 1 2) 2 5000 0 ∧
      ¬ SafeMatching blockMap 3 2 (0, 60) (5000, 0) := by
  have hfind : findVertexByVehiclePosition gridEnv 7 (block 1 2 1 2) 2 5000 0 = .ok 7 := by
    decide +kernel
  have hnot : ¬ MatchedSoundly gridEnv (block 1 2 1 2) 2 5000 0 := by
    intro hsound
    obtain ⟨p, hp, hvertex⟩ := hsound.nullOrVertex 7
    cases hfind.symm.trans hp
    exact absurd hvertex (by decide)
  exact ⟨hfind, by decide +kernel, hnot, fun hsafe => hnot hsafe.dstMatched⟩

end MapRelay.NS3
