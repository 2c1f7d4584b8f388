import MapRelay.ForStd.Run
import MapRelay.Native.KernelGraph
import MapRelay.Spec.GraphInvariant

/-!
# Which graph commands the kernel module survives

`netlink_recv_cb` hands what `getVertex` returns to the graph operations without looking
at it, and `graph_remove_vertex_undirect` unlinks one edge per vertex. The commands that
are safe are therefore those that name vertices of the graph, and of the deletions those
of a vertex to which no other vertex has parallel edges.
-/

namespace MapRelay.Kernel

open ForStd MapRelay.Graph

variable {g : RoadGraph}

/-! ## Removing a vertex -/

/-- The vertex is taken out of the list of the vertices. -/
@[simp] theorem nodes_unlinkVertex (v : Addr) :
    (unlinkVertex g v).vertices.nodes = g.vertices.nodes.eraseP (· == v) := rfl

/-- The rows are left as they are. -/
@[simp] theorem edgesOf_unlinkVertex (v u : Addr) :
    (unlinkVertex g v).edgesOf u = g.edgesOf u := rfl

/-- The loop over the vertices `ns` unlinks the first edge to `v` of each of them that it comes
    to, and `v` itself. -/
theorem removeEdgesTo_ok {next : FreedNext} (hnext : next ≠ .other) {v : Addr} {ns : List Addr}
    (hv : g.Live v) (hns : ∀ n ∈ ns, g.Live n) (hnodup : ns.Nodup) :
    ∃ g', removeEdgesTo next v ns g = .ok g' ∧ (∀ p, g'.Live p ↔ g.Live p) ∧
      g'.vertices.nodes = (if v ∈ ns then g.vertices.nodes.eraseP (· == v)
        else g.vertices.nodes) ∧
      ∀ u, u ≠ v → g'.edgesOf u =
        if u ∈ FreedNext.reached (fun _ => next) v ns then (g.edgesOf u).eraseP (·.vertex == v)
        else g.edgesOf u := by
  -- The loop over the list of vertices, `v` is met once as the list has no duplicates
  induction ns generalizing g with
  | nil => exact ⟨g, rfl, fun _ => Iff.rfl, rfl, fun _ _ => rfl⟩
  | cons n rest ih =>
    obtain ⟨hn, hnodup⟩ := List.nodup_cons.mp hnodup
    have hrest : ∀ m ∈ rest, g.Live m := fun m hm => hns m (List.mem_cons_of_mem _ hm)
    by_cases hnv : n = v
    · -- The loop comes to `v` itself, takes it off the list, and may end there
      subst hnv
      unfold removeEdgesTo
      rw [if_pos rfl, FreedNext.reached, if_pos rfl]
      cases next with
      -- The word of the freed node still leads on
      | same =>
        obtain ⟨g', hrun, hlive, hnodes, hedges⟩ :=
          ih (g := unlinkVertex g n) hv hrest hnodup
        refine ⟨g', hrun, hlive, ?_, fun u hu => ?_⟩
        · simpa [hn] using hnodes
        · simpa [hu] using hedges u hu
      -- A cleared word ends the loop, the vertices behind `v` keep their edges
      | null =>
        refine ⟨unlinkVertex g n, rfl, fun _ => Iff.rfl, ?_, fun u hu => ?_⟩
        · rw [if_pos List.mem_cons_self, nodes_unlinkVertex]
        · simp [hu]
      | other => exact absurd rfl hnext
    · -- Another vertex loses its first edge to `v`
      obtain ⟨g', hrun, hlive, hnodes, hedges⟩ :=
        ih (g := g.unlinkRoad n v) (live_unlinkRoad.mpr hv)
          (fun m hm => live_unlinkRoad.mpr (hrest m hm)) hnodup
      refine ⟨g', ?_, fun p => (hlive p).trans live_unlinkRoad, ?_, fun u hu => ?_⟩
      · simpa [removeEdgesTo, hnv, bind, Except.bind,
          vertexRemoveEdgeToVertexUndirect_eq (hns n List.mem_cons_self) hv] using hrun
      · simpa [Ne.symm hnv] using hnodes
      · rw [hedges u hu, unlinkRoad, edgesOf_removeEdge, if_neg hu, edgesOf_removeEdge,
          FreedNext.reached_cons_of_ne hnv]
        -- `u` is this vertex, or it is met later
        by_cases hun : u = n
        · subst hun
          have hpast : u ∉ FreedNext.reached (fun _ => next) v rest :=
            fun hu => hn (FreedNext.mem_of_mem_reached hu)
          simp [hpast]
        · simp [hun]

/-- Where the word in the freed node leads nowhere, the loop faults when it has come to `v`. -/
private theorem removeEdgesTo_other {v : Addr} {ns : List Addr} (hv : v ∈ ns) :
    ¬ ∃ g', removeEdgesTo .other v ns g = .ok g' := by
  intro ⟨g', hrun⟩
  induction ns generalizing g with
  | nil => cases hv
  | cons n rest ih =>
    rw [removeEdgesTo] at hrun
    by_cases hnv : n = v
    · rw [if_pos hnv] at hrun
      cases hrun
    · rw [if_neg hnv] at hrun
      obtain ⟨g₁, -, hrun⟩ := bind_eq_ok.mp hrun
      exact ih (List.mem_of_ne_of_mem (Ne.symm hnv) hv) hrun

/-- What `graph_remove_vertex_undirect` does to a vertex of the graph. -/
theorem graphRemoveVertexUndirect_ok {next : FreedNext} (hnext : next ≠ .other) (h : g.WF)
    {v : Addr} (hv : v ∈ g.vertices.nodes) :
    ∃ g', graphRemoveVertexUndirect next g v = .ok g' ∧ (∀ p, g'.Live p ↔ g.Live p ∧ p ≠ v) ∧
      g'.vertices.nodes = g.vertices.nodes.eraseP (· == v) ∧
      ∀ u, u ≠ v → g'.edgesOf u =
        if u ∈ FreedNext.reached (fun _ => next) v g.vertices.nodes then
          (g.edgesOf u).eraseP (·.vertex == v)
        else g.edgesOf u := by
  -- The loop over the list, and then the release of the vertex
  obtain ⟨g₁, hrun, hlive, hnodes, hedges⟩ := removeEdgesTo_ok hnext ((h.live_iff v).mpr hv)
    (fun n hn => (h.live_iff n).mpr hn) h.nodup
  obtain ⟨heap, hfree, hcell⟩ := Heap.free_of_live ((hlive v).mpr ((h.live_iff v).mpr hv))
  refine ⟨{ g₁ with heap }, ?_, fun p => ?_, ?_, fun u hu => ?_⟩
  · simp only [graphRemoveVertexUndirect, hrun, vertexFree, hfree, bind, Except.bind]
    rfl
  · by_cases hp : p = v
    · simp [Graph.Live, Heap.Live, hcell, hp]
    · simpa [Graph.Live, Heap.Live, hcell, hp] using hlive p
  -- The list has lost `v` alone
  · rw [hnodes, if_pos hv]
  -- Releasing `v` changes the edges of no other vertex
  · have hkeep : edgesOf { g₁ with heap } u = g₁.edgesOf u := by
      simp [edgesOf, hcell, hu]
    rw [hkeep, hedges u hu]

/-- Once the first edge to `v` is gone no edge to `v` is left iff there was at most one. -/
private theorem no_edge_left_iff (u v : Addr) :
    (∀ e ∈ (g.edgesOf u).eraseP (·.vertex == v), e.vertex ≠ v) ↔ (g.roads u v).length ≤ 1 := by
  have hleft : (∀ e ∈ (g.edgesOf u).eraseP (·.vertex == v), e.vertex ≠ v) ↔
      ((g.edgesOf u).eraseP (·.vertex == v)).filter (·.vertex == v) = [] := by
    simp [List.filter_eq_nil_iff]
  rw [hleft, filter_eraseP_vertex, if_pos rfl, roads, List.length_map,
    ← List.length_eq_zero_iff, List.length_tail]
  omega

/-- No edge leads to `v` iff there is no road to it. -/
theorem no_edge_iff (u v : Addr) :
    (∀ e ∈ g.edgesOf u, e.vertex ≠ v) ↔ (g.roads u v).length ≤ 0 := by
  rw [Nat.le_zero, List.length_eq_zero_iff, roads, List.map_eq_nil_iff, List.filter_eq_nil_iff]
  simp

/-! ## The commands -/

/-- The vertices that a command names. -/
def GraphDeliver.names : GraphDeliver → List String
  | .delNode vertex => [vertex]
  | .newEdge source target _ => [source, target]
  | _ => []

/-- The command is carried out as it should: no fault, nothing changed on account of an
    unknown vertex, and nothing left that points at a deleted one. -/
def CarriedOut (next : FreedNext) (g : RoadGraph) (m : GraphDeliver) : Prop :=
  ∃ g', netlinkRecvCb next g m = .ok g' ∧
    ((∃ idStr ∈ m.names, ¬ Known g idStr) → g' = g) ∧
    ∀ idStr v, m = .delNode idStr → getVertex g idStr = .ok v →
      ∀ u ∈ g'.vertices.nodes, ∀ e ∈ g'.edgesOf u, e.vertex ≠ v

/-- The vertex can be deleted: the loop gets away from its list node, comes to every other vertex
    that has an edge to it, and none of them has parallel ones. -/
def Deletable (next : FreedNext) (g : RoadGraph) (v : Addr) : Prop :=
  next ≠ .other ∧ ∀ u ∈ g.vertices.nodes, u ≠ v →
    (g.roads u v).length ≤
      if u ∈ FreedNext.reached (fun _ => next) v g.vertices.nodes then 1 else 0

/-- The commands for which that is so: they name vertices of the graph, and a vertex to be
    deleted can be. -/
def Safe (next : FreedNext) (g : RoadGraph) (m : GraphDeliver) : Prop :=
  (∀ idStr ∈ m.names, Known g idStr) ∧
    ∀ idStr v, m = .delNode idStr → getVertex g idStr = .ok v → Deletable next g v

/-- No road is made to a vertex that has not been found. -/
private theorem addEdge_null (g : RoadGraph) {u v : Addr} (h : u = NULL ∨ v = NULL) (r : Int32) :
    ¬ ∃ g', vertexAddEdgeToVertexUndirect g u v r = .ok g' := by
  intro ⟨g', hok⟩
  obtain ⟨g₁, h₁, -⟩ := bind_eq_ok.mp hok
  obtain ⟨hu, hv⟩ := live_of_addEdge_ok h₁
  rcases h with rfl | rfl
  · exact hu.ne_null rfl
  · exact hv.ne_null rfl

/-- Deleting `NULL` faults: at the first vertex of the list, or when it is freed. -/
private theorem removeVertex_null (h : g.WF) (next : FreedNext) :
    ¬ ∃ g', graphRemoveVertexUndirect next g NULL = .ok g' := by
  intro ⟨g', hok⟩
  obtain ⟨g₁, hloop, hfree⟩ := bind_eq_ok.mp hok
  cases hns : g.vertices.nodes with
  | nil =>
    -- The loop does nothing, and then `NULL` is freed
    obtain ⟨heap, hheap, -⟩ := bind_eq_ok.mp hfree
    simp at hheap
  | cons n rest =>
    -- The first vertex is not `NULL`, so that the edge list of `NULL` is walked
    have hn : g.Live n := (h.live_iff n).mpr (hns ▸ List.mem_cons_self)
    rw [hns] at hloop
    unfold removeEdgesTo at hloop
    rw [if_neg hn.ne_null] at hloop
    obtain ⟨g₂, hstep, -⟩ := bind_eq_ok.mp hloop
    exact (g.heap.not_live_null) (live_of_removeEdgeUndirect_ok h hstep).2

/-- After the deletion no vertex has an edge to `v` exactly if `v` was deletable. -/
private theorem no_edge_left_of_removeVertex (h : g.WF) {next : FreedNext} {v : Addr}
    (hv : v ∈ g.vertices.nodes) {g' : RoadGraph}
    (hrun : graphRemoveVertexUndirect next g v = .ok g') :
    (∀ u ∈ g'.vertices.nodes, ∀ e ∈ g'.edgesOf u, e.vertex ≠ v) ↔ Deletable next g v := by
  have hnext : next ≠ .other := by
    rintro rfl
    obtain ⟨g₁, hloop, -⟩ := bind_eq_ok.mp hrun
    exact removeEdgesTo_other hv ⟨g₁, hloop⟩
  obtain ⟨g₁, hok, -, hnodes, hedges⟩ := graphRemoveVertexUndirect_ok hnext h hv
  cases hok.symm.trans hrun
  -- What is left to `v` at another vertex, by whether the loop has come to it
  have hleft : ∀ u, u ≠ v → ((∀ e ∈ g'.edgesOf u, e.vertex ≠ v) ↔ (g.roads u v).length ≤
      if u ∈ FreedNext.reached (fun _ => next) v g.vertices.nodes then 1 else 0) := by
    intro u huv
    rw [hedges u huv]
    split
    · exact no_edge_left_iff u v
    · exact no_edge_iff u v
  have hmem : ∀ u, u ∈ g'.vertices.nodes ↔ u ≠ v ∧ u ∈ g.vertices.nodes := by
    intro u
    rw [hnodes, ← List.erase_eq_eraseP', h.nodup.mem_erase_iff]
  constructor
  · intro hnone
    exact ⟨hnext, fun u hu huv => (hleft u huv).mp (hnone u ((hmem u).mpr ⟨huv, hu⟩))⟩
  · intro ⟨_, hone⟩ u hu
    obtain ⟨huv, hu⟩ := (hmem u).mp hu
    exact (hleft u huv).mpr (hone u hu huv)

/-- A vertex to which no edge is left goes, and the rest of the graph stays well-formed. -/
theorem removeVertex_wf (h : g.WF) {next : FreedNext} {v : Addr} (hv : v ∈ g.vertices.nodes)
    (hdel : Deletable next g v) {g' : RoadGraph}
    (hrun : graphRemoveVertexUndirect next g v = .ok g') : g'.WF := by
  obtain ⟨g₁, hok, hlive, hnodes, hedges⟩ := graphRemoveVertexUndirect_ok hdel.1 h hv
  cases hok.symm.trans hrun
  -- No edge leads to `v` any more, which is what `Deletable` says
  have hnone := (no_edge_left_of_removeVertex h hv hrun).mpr hdel
  have hmem : ∀ p, p ∈ g'.vertices.nodes ↔ p ∈ g.vertices.nodes ∧ p ≠ v := by
    intro p
    rw [hnodes, ← List.erase_eq_eraseP', h.nodup.mem_erase_iff, and_comm]
  refine ⟨?_, fun p => ?_, fun u e he => ?_⟩
  · rw [hnodes]
    exact h.nodup.sublist List.eraseP_sublist
  · rw [hlive, h.live_iff, hmem]
  · by_cases hu : u ∈ g'.vertices.nodes
    · -- The edge was there before and does not lead to `v`
      have huv := ((hmem u).mp hu).2
      have hold : e ∈ g.edgesOf u := by
        have hin := he
        rw [hedges u huv] at hin
        split at hin
        · exact List.mem_of_mem_eraseP hin
        · exact hin
      exact (hmem _).mpr ⟨h.closed u e hold, hnone u hu e he⟩
    -- A vertex that is not in the list has no edges
    · have hdead : ¬ g'.Live u := fun hl => by
        rw [hlive, h.live_iff] at hl
        exact hu ((hmem u).mpr hl)
      rw [edgesOf_of_not_live hdead] at he
      cases he

/-- An edge is added exactly between vertices of the graph. -/
theorem newEdge_ok_iff (h : g.WF) (next : FreedNext) {source target : String} {r : Int32} :
    (∃ g', netlinkRecvCb next g (.newEdge source target r) = .ok g') ↔
      Known g source ∧ Known g target := by
  -- An unknown name gives NULL, and adding the edge dereferences it
  constructor
  · intro ⟨g', hok⟩
    obtain ⟨u, hu, hok⟩ := bind_eq_ok.mp hok
    obtain ⟨v, hv, hok⟩ := bind_eq_ok.mp hok
    by_contra hk
    refine addEdge_null g (u := u) (v := v) ?_ r ⟨g', hok⟩
    rcases not_and_or.mp hk with hk | hk
    · exact .inl (Except.ok.inj (hu.symm.trans (getVertex_of_unknown h hk)))
    · exact .inr (Except.ok.inj (hv.symm.trans (getVertex_of_unknown h hk)))
  -- With both names known both directions are linked
  · intro ⟨hs, ht⟩
    obtain ⟨u, hu, -, hgu⟩ := getVertex_of_known h hs
    obtain ⟨v, hv, -, hgv⟩ := getVertex_of_known h ht
    refine ⟨g.linkRoad u v r, ?_⟩
    simp only [netlinkRecvCb, hgu, hgv, bind, Except.bind]
    exact vertexAddEdgeToVertexUndirect_eq ((h.live_iff u).mpr hu) ((h.live_iff v).mpr hv) r

/-- A vertex is deleted without a fault only if it is known. -/
theorem known_of_delNode_ok (h : g.WF) {next : FreedNext} {idStr : String} {g' : RoadGraph}
    (hok : netlinkRecvCb next g (.delNode idStr) = .ok g') : Known g idStr := by
  obtain ⟨v, hv, hok⟩ := bind_eq_ok.mp hok
  by_contra hk
  cases hv.symm.trans (getVertex_of_unknown h hk)
  exact removeVertex_null h next ⟨g', hok⟩

/-- A deletion is that of the vertex that `getVertex` finds. -/
theorem netlinkRecvCb_delNode (next : FreedNext) {idStr : String} {v : Addr}
    (hv : getVertex g idStr = .ok v) :
    netlinkRecvCb next g (.delNode idStr) = graphRemoveVertexUndirect next g v := by
  simp only [netlinkRecvCb, hv, bind, Except.bind]

/-- In a well-formed graph a command is carried out as it should exactly if it is safe. -/
theorem carriedOut_iff (h : g.WF) (next : FreedNext) (m : GraphDeliver) :
    CarriedOut next g m ↔ Safe next g m := by
  -- One case for each mode of the message
  cases m with
  | newNode idStr geohash =>
    exact ⟨fun _ => ⟨by simp [GraphDeliver.names], by simp⟩,
      fun _ => ⟨_, rfl, by simp [GraphDeliver.names], by simp⟩⟩
  | other mode =>
    exact ⟨fun _ => ⟨by simp [GraphDeliver.names], by simp⟩,
      fun _ => ⟨_, rfl, fun _ => rfl, by simp⟩⟩
  | newEdge source target r =>
    have hnames : (∀ idStr ∈ (GraphDeliver.newEdge source target r).names, Known g idStr) ↔
        Known g source ∧ Known g target := by
      simp [GraphDeliver.names]
    constructor
    · rintro ⟨g', hok, -⟩
      exact ⟨hnames.mpr ((newEdge_ok_iff h next).mp ⟨g', hok⟩), by simp⟩
    · rintro ⟨hknown, -⟩
      obtain ⟨g', hok⟩ := (newEdge_ok_iff h next).mpr (hnames.mp hknown)
      refine ⟨g', hok, ?_, by simp⟩
      intro ⟨idStr, hmem, hno⟩
      exact absurd (hknown idStr hmem) hno
  -- A deletion asks for a known name and for `Deletable`
  | delNode idStr =>
    constructor
    · rintro ⟨g', hok, -, hleft⟩
      refine ⟨by simpa [GraphDeliver.names] using known_of_delNode_ok h hok, ?_⟩
      rintro _ v ⟨⟩ hget
      obtain ⟨w, hw, -, hget'⟩ := getVertex_of_known h (known_of_delNode_ok h hok)
      cases hget.symm.trans hget'
      rw [netlinkRecvCb_delNode next hget] at hok
      exact (no_edge_left_of_removeVertex h hw hok).mp (hleft idStr v rfl hget)
    -- Both together let the deletion run to its end
    · intro ⟨hknown, hdel⟩
      obtain ⟨v, hv, -, hget⟩ := getVertex_of_known h (hknown idStr List.mem_cons_self)
      have hdel := hdel idStr v rfl hget
      obtain ⟨g', hrun, -⟩ := graphRemoveVertexUndirect_ok hdel.1 h hv
      refine ⟨g', (netlinkRecvCb_delNode next hget).trans hrun, ?_, ?_⟩
      · intro ⟨idStr', hmem, hno⟩
        exact absurd (hknown idStr' hmem) hno
      · rintro _ w ⟨⟩ hget'
        cases hget.symm.trans hget'
        exact (no_edge_left_of_removeVertex h hv hrun).mpr hdel

/-! ## Runs -/

/-- A new site keeps the graph well-formed. -/
theorem wf_addVertexHead (h : g.WF) (idStr : String) (geohash : UInt64) :
    (graphAddVertex (g.newVertex (vertexCreate idStr geohash ())).1 g.heap.next).WF := by
  -- The position in the list makes no difference
  have htail := h.addVertex (v := vertexCreate idStr geohash ()) rfl
  have hperm : ∀ p, p ∈ g.heap.next :: g.vertices.nodes ↔ p ∈ g.vertices.nodes ++ [g.heap.next] :=
    fun p => by simp [or_comm]
  refine ⟨?_, fun p => ?_, fun p e he => ?_⟩
  · exact (List.perm_append_singleton _ _).nodup_iff.mp htail.nodup
  · exact (htail.live_iff p).trans (hperm p).symm
  · exact (hperm _).mpr (htail.closed p e he)

/-- A safe command keeps the graph well-formed. -/
theorem Safe.wf (h : g.WF) {next : FreedNext} {m : GraphDeliver} (hm : Safe next g m)
    {g' : RoadGraph} (hok : netlinkRecvCb next g m = .ok g') : g'.WF := by
  -- One case for each mode of the message
  cases m with
  | newNode idStr geohash =>
    cases hok
    exact wf_addVertexHead h idStr geohash
  | other mode =>
    cases hok
    exact h
  | newEdge source target r =>
    obtain ⟨u, hu, -, hgu⟩ := getVertex_of_known h (hm.1 source (by simp [GraphDeliver.names]))
    obtain ⟨v, hv, -, hgv⟩ := getVertex_of_known h (hm.1 target (by simp [GraphDeliver.names]))
    simp only [netlinkRecvCb, hgu, hgv, bind, Except.bind] at hok
    rw [vertexAddEdgeToVertexUndirect_eq ((h.live_iff u).mpr hu) ((h.live_iff v).mpr hv)] at hok
    cases hok
    exact h.linkRoad hu hv r
  | delNode idStr =>
    obtain ⟨v, hv, -, hget⟩ := getVertex_of_known h (hm.1 idStr List.mem_cons_self)
    rw [netlinkRecvCb_delNode next hget] at hok
    exact removeVertex_wf h hv (hm.2 idStr v rfl hget) hok

/-- A step of a run of safe commands. What each deletion finds in its freed list node comes with
    the command. -/
def SafeStep (g : RoadGraph) (x : FreedNext × GraphDeliver) (g' : RoadGraph) : Prop :=
  Safe x.1 g x.2 ∧ netlinkRecvCb x.1 g x.2 = .ok g'

/-- In every safe run the graph is well-formed. -/
theorem wf_of_run {xs : List (FreedNext × GraphDeliver)} {g : RoadGraph}
    (h : Run SafeStep graphCreate xs g) : g.WF :=
  h.invariant Mirrored.empty.degrees.wf fun _ _ _ hg hstep => hstep.1.wf hg hstep.2

/-- After any run of safe commands, all edges lead to vertices of the graph, and a further
    command is carried out as it should exactly if it is safe. -/
theorem safe_run {xs : List (FreedNext × GraphDeliver)} {g : RoadGraph}
    (h : Run SafeStep graphCreate xs g) :
    (∀ u ∈ g.vertices.nodes, ∀ e ∈ g.edgesOf u, e.vertex ∈ g.vertices.nodes) ∧
      ∀ next m, CarriedOut next g m ↔ Safe next g m :=
  ⟨fun u _ => (wf_of_run h).closed u, carriedOut_iff (wf_of_run h)⟩

/-- Two vertices, and `n` roads between them. -/
def twoNodes (n : Nat) : List (FreedNext × GraphDeliver) :=
  [(.same, .newNode "a" 1), (.same, .newNode "b" 2)] ++
    List.replicate n (.same, .newEdge "a" "b" 1)

/-- Two vertices with one road, or with two parallel ones. -/
private theorem twoNodes_run :
    (∃ g, Run SafeStep graphCreate (twoNodes 1) g ∧ getVertex g "a" = .ok 1 ∧
      getVertex g "b" = .ok 2 ∧ g.vertices.nodes = [2, 1] ∧ Known g "a" ∧ Known g "b" ∧
      (g.roads 2 1).length = 1 ∧ (g.roads 1 2).length = 1) ∧
    ∃ g, Run SafeStep graphCreate (twoNodes 2) g ∧ getVertex g "a" = .ok 1 ∧
      g.vertices.nodes = [2, 1] ∧ Known g "a" ∧ (g.roads 2 1).length = 2 := by
  have hsafe : ∀ {g : RoadGraph}, Known g "a" → Known g "b" → Safe .same g (.newEdge "a" "b" 1) :=
    fun ha hb => ⟨by simp [GraphDeliver.names, ha, hb], by simp⟩
  have hnew : ∀ {g : RoadGraph} idStr h, Safe .same g (.newNode idStr h) := fun _ _ =>
    ⟨by simp [GraphDeliver.names], by simp⟩
  have h₂ : Run SafeStep graphCreate _ _ :=
    (Run.nil.snoc (i := (.same, .newNode "a" 1)) ⟨hnew "a" 1, rfl⟩).snoc
      (i := (.same, .newNode "b" 2)) ⟨hnew "b" 2, rfl⟩
  have h₃ := h₂.snoc (i := (.same, .newEdge "a" "b" 1)) ⟨hsafe (by decide) (by decide), rfl⟩
  have h₄ := h₃.snoc (i := (.same, .newEdge "a" "b" 1)) ⟨hsafe (by decide) (by decide), rfl⟩
  exact ⟨⟨_, h₃, rfl, rfl, rfl, by decide, by decide, rfl, rfl⟩,
    ⟨_, h₄, rfl, rfl, by decide, rfl⟩⟩

/-- With one road between them, the vertex in front of the other one in the list can be deleted
    if the freed list node still has its `next`, and the last one also if `NULL` is there. -/
theorem safe_run_delete :
    ∃ g, Run SafeStep graphCreate (twoNodes 1) g ∧ CarriedOut .same g (.delNode "b") ∧
      CarriedOut .null g (.delNode "a") := by
  obtain ⟨⟨g, hrun, hgeta, hgetb, hnodes, hknowna, hknownb, hroads, hroads'⟩, -⟩ := twoNodes_run
  refine ⟨g, hrun, ((safe_run hrun).2 _ _).mpr ⟨by simpa [GraphDeliver.names] using hknownb, ?_⟩,
    ((safe_run hrun).2 _ _).mpr ⟨by simpa [GraphDeliver.names] using hknowna, ?_⟩⟩
  · rintro _ v ⟨⟩ hv
    cases hgetb.symm.trans hv
    refine ⟨by decide, fun u hu huv => ?_⟩
    rw [hnodes] at hu ⊢
    simp only [List.mem_cons, List.not_mem_nil, or_false] at hu
    rcases hu with rfl | rfl
    · exact absurd rfl huv
    · rw [hroads', if_pos (by decide)]
  · rintro _ v ⟨⟩ hv
    cases hgeta.symm.trans hv
    refine ⟨by decide, fun u hu huv => ?_⟩
    rw [hnodes] at hu ⊢
    simp only [List.mem_cons, List.not_mem_nil, or_false] at hu
    rcases hu with rfl | rfl
    · rw [hroads, if_pos (by decide)]
    · exact absurd rfl huv

/-- An edge between two vertices that were never sent, the deletion of a vertex with two parallel
    roads, and with one road, the deletion of the vertex that is in front of the other one, where
    its list node is not what it was any more. -/
theorem unsafe_commands :
    ¬ CarriedOut .same graphCreate (.newEdge "a" "b" 1) ∧
      (∃ g, Run SafeStep graphCreate (twoNodes 2) g ∧ ¬ CarriedOut .same g (.delNode "a")) ∧
      ∃ g, Run SafeStep graphCreate (twoNodes 1) g ∧
        ∀ next, next ≠ .same → ¬ CarriedOut next g (.delNode "b") := by
  obtain ⟨⟨g, hrun, -, hgetb, hnodes, -, -, -, hroads⟩, g₂, hrun₂, hget₂, hnodes₂, -, hroads₂⟩ :=
    twoNodes_run
  refine ⟨?_, ⟨g₂, hrun₂, ?_⟩, ⟨g, hrun, fun next hnext => ?_⟩⟩
  · rw [carriedOut_iff Mirrored.empty.degrees.wf]
    rintro ⟨hknown, -⟩
    exact absurd (hknown "a" List.mem_cons_self) (by decide)
  · rw [carriedOut_iff (wf_of_run hrun₂)]
    rintro ⟨-, hdel⟩
    have htwo := (hdel "a" 1 rfl hget₂).2 2 (by simp [hnodes₂]) (by decide)
    rw [hnodes₂, hroads₂] at htwo
    exact absurd htwo (by decide)
  · rw [carriedOut_iff (wf_of_run hrun)]
    rintro ⟨-, hdel⟩
    obtain ⟨hother, hone⟩ := hdel "b" 2 rfl hgetb
    have hleft := hone 1 (by simp [hnodes]) (by decide)
    rw [hnodes, hroads] at hleft
    cases next with
    | same => exact hnext rfl
    | null => exact absurd hleft (by decide)
    | other => exact hother rfl

end MapRelay.Kernel
