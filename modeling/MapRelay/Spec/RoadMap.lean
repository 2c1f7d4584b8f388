import Mathlib.Data.List.Find
import MapRelay.ForStd.Incidence
import MapRelay.Spec.KernelGraph

/-!
# The road map in the kernel

What user space has in mind is a map: sites with an id and a geohash, and roads between them. A
command adds a site, adds a road between two sites, or takes out a site with its roads. The graph
of the kernel module represents the map after every sequence of commands that makes sense on it,
if no site is taken out to which another one has two roads.
-/

namespace MapRelay

open ForStd MapRelay.Graph

/-! ## Degrees -/

namespace Graph

variable {A : Type} {g : Graph A}

/-- The stored degrees are the lengths of the edge lists. -/
def Balanced (g : Graph A) : Prop :=
  ∀ p, g.Live p → g.outdegreeOf p = (g.edgesOf p).length ∧ g.indegreeOf p = (g.edgesOf p).length

/-- Where there is no road, none is removed. -/
private theorem removeEdge_of_roads_eq_nil {u v : Addr} (h : g.roads u v = []) :
    g.removeEdge u v = g := by
  rw [removeEdge, if_neg fun hany => any_vertex_iff.mp hany h]

/-- Both halves of a new edge count at both ends. -/
theorem Balanced.linkRoad (h : g.Balanced) {u v : Addr} (hu : g.Live u) (hv : g.Live v)
    (r : Int32) : (g.linkRoad u v r).Balanced := by
  intro p hp
  have hp₀ : g.Live p := live_linkRoad.mp hp
  have hp₁ : (g.addEdge u v r).Live p := live_addEdge.mpr hp₀
  obtain ⟨hout, hin⟩ := h p hp₀
  rw [Graph.linkRoad, outdegreeOf_addEdge hp₁, indegreeOf_addEdge hp₁, outdegreeOf_addEdge hp₀,
    indegreeOf_addEdge hp₀, hout, hin, edgesOf_addEdge (live_addEdge.mpr hv), edgesOf_addEdge hu]
  by_cases hpu : p = u <;> by_cases hpv : p = v <;> simp [hpu, hpv] <;> split <;> simp

/-- The two halves of an edge that goes are there together. -/
theorem Balanced.unlinkRoad (h : g.Balanced) (hsymm : g.roads.Symm) {u v : Addr} (huv : u ≠ v) :
    (g.unlinkRoad u v).Balanced := by
  cases hroads : g.roads u v with
  -- Without a road nothing is removed, in neither direction
  | nil =>
    rw [Graph.unlinkRoad, removeEdge_of_roads_eq_nil hroads,
      removeEdge_of_roads_eq_nil ((hsymm v u).trans hroads)]
    exact h
  | cons r rs =>
    have hany : (g.edgesOf u).any (·.vertex == v) := any_vertex_iff.mpr (by simp [hroads])
    have hback : (g.edgesOf v).any (·.vertex == u) :=
      any_vertex_iff.mpr (by simp [hsymm v u, hroads])
    -- Removing the edge of `u` leaves those of `v` alone
    have hsame : (g.removeEdge u v).edgesOf v = g.edgesOf v := by
      rw [edgesOf_removeEdge, if_neg huv.symm]
    have hany' : ((g.removeEdge u v).edgesOf v).any (·.vertex == u) := by rwa [hsame]
    intro p hp
    have hp₀ : g.Live p := live_unlinkRoad.mp hp
    obtain ⟨hout₁, hin₁⟩ := degreesOf_removeEdge hp₀ hany
    obtain ⟨hout₂, hin₂⟩ := degreesOf_removeEdge (live_removeEdge.mpr hp₀) hany'
    obtain ⟨hout, hin⟩ := h p hp₀
    rw [Graph.unlinkRoad, hout₂, hin₂, hout₁, hin₁, hout, hin, edgesOf_removeEdge,
      edgesOf_removeEdge]
    -- `u` loses an edge, `v` loses one, the others none
    by_cases hpu : p = u
    · subst hpu
      simp only [huv, reduceIte, length_eraseP_vertex hany]
      omega
    · by_cases hpv : p = v
      · subst hpv
        simp only [hpu, reduceIte, length_eraseP_vertex hback]
        omega
      · simp only [hpu, hpv, reduceIte]
        omega

/-- A road takes no serial number. -/
@[simp] theorem next_linkRoad (u v : Addr) (r : Int32) :
    (g.linkRoad u v r).heap.next = g.heap.next := rfl

/-- Its removal gives none back. -/
@[simp] theorem next_unlinkRoad (u v : Addr) : (g.unlinkRoad u v).heap.next = g.heap.next := by
  unfold unlinkRoad removeEdge
  split <;> split <;> rfl

end Graph

namespace Kernel

variable {g g' : RoadGraph}

/-! ## What the removal of a vertex leaves as it is -/

/-- What the loop keeps besides the edges. -/
structure Kept (g g' : RoadGraph) : Prop where
  next : g'.heap.next = g.heap.next
  data : ∀ p, g'.dataOf p = g.dataOf p
  symm : g.roads.Symm → g'.roads.Symm
  balanced : g.roads.Symm → g.Balanced → g'.Balanced

/-- What two steps keep is kept by both together. -/
theorem Kept.trans {g₁ g₂ g₃ : RoadGraph} (h : Kept g₁ g₂) (h' : Kept g₂ g₃) : Kept g₁ g₃ where
  next := h'.next.trans h.next
  data p := (h'.data p).trans (h.data p)
  symm hs := h'.symm (h.symm hs)
  balanced hs hb := h'.balanced (h.symm hs) (h.balanced hs hb)

/-- Taking a vertex out of the list keeps all this. -/
private theorem kept_unlinkVertex (g : RoadGraph) (v : Addr) : Kept g (unlinkVertex g v) where
  next := rfl
  data _ := rfl
  symm hs := hs
  balanced _ hb := hb

/-- Unlinking a road keeps all this. -/
private theorem kept_unlinkRoad (g : RoadGraph) {u v : Addr} (huv : u ≠ v) :
    Kept g (g.unlinkRoad u v) where
  next := next_unlinkRoad u v
  data := dataOf_unlinkRoad u v
  symm hs := by
    rw [roads_unlinkRoad]
    exact hs.unlink u v
  balanced hs hb := hb.unlinkRoad hs huv

/-- The loop over the vertices keeps all this, whatever the freed words lead to. -/
private theorem kept_removeEdgesTo {next : FreedNext} {v : Addr} {ns : List Addr} (hv : g.Live v)
    (hns : ∀ n ∈ ns, g.Live n) (hrun : removeEdgesTo next v ns g = .ok g') : Kept g g' := by
  induction ns generalizing g with
  | nil =>
    cases hrun
    exact ⟨rfl, fun _ => rfl, id, fun _ => id⟩
  -- The loop over the list of vertices
  | cons n rest ih =>
    have hrest : ∀ m ∈ rest, g.Live m := fun m hm => hns m (List.mem_cons_of_mem _ hm)
    unfold removeEdgesTo at hrun
    by_cases hnv : n = v
    · rw [if_pos hnv] at hrun
      -- After `v` itself the loop goes on, ends, or has read a word it cannot use
      cases next with
      | same => exact (kept_unlinkVertex g v).trans (ih (g := unlinkVertex g v) hv hrest hrun)
      | null =>
        cases hrun
        exact kept_unlinkVertex g v
      | other => cases hrun
    · rw [if_neg hnv,
        vertexRemoveEdgeToVertexUndirect_eq (hns n List.mem_cons_self) hv] at hrun
      exact (kept_unlinkRoad g hnv).trans (ih (live_unlinkRoad.mpr hv)
        (fun m hm => live_unlinkRoad.mpr (hrest m hm)) hrun)

/-- Where the freed vertex was, nothing is left; everything else stays. -/
private theorem kept_graphRemoveVertexUndirect {next : FreedNext} (hnext : next ≠ .other) (h : g.WF)
    {v : Addr} (hv : v ∈ g.vertices.nodes)
    (hrun : graphRemoveVertexUndirect next g v = .ok g') (hsymm : g.roads.Symm)
    (hb : g.Balanced) :
    g'.heap.next = g.heap.next ∧ (∀ p, p ≠ v → g'.dataOf p = g.dataOf p) ∧
      ∀ p, p ≠ v → g.Live p → g'.outdegreeOf p = (g'.edgesOf p).length ∧
        g'.indegreeOf p = (g'.edgesOf p).length := by
  -- The loop, then the release of the vertex
  obtain ⟨g₁, hloop, hfree⟩ := bind_eq_ok.mp hrun
  obtain ⟨g₂, hloop₂, hlive, -⟩ := removeEdgesTo_ok hnext ((h.live_iff v).mpr hv)
    (fun n hn => (h.live_iff n).mpr hn) h.nodup
  cases hloop.symm.trans hloop₂
  have hkept := kept_removeEdgesTo ((h.live_iff v).mpr hv) (fun n hn => (h.live_iff n).mpr hn) hloop
  obtain ⟨heap, hheap, hpure⟩ := bind_eq_ok.mp hfree
  cases hpure
  obtain ⟨heap', hheap', hcell⟩ :=
    Heap.free_of_live ((hlive v).mpr ((h.live_iff v).mpr hv))
  cases hheap.symm.trans hheap'
  -- Releasing a vertex does not change the next address
  have hnext : heap.next = g₁.heap.next := by
    obtain ⟨w, -, hpure⟩ := bind_eq_ok.mp hheap
    cases hpure
    rfl
  refine ⟨hnext.trans hkept.next, fun p hp => ?_, fun p hp hlive₀ => ?_⟩
  · rw [← hkept.data p]
    simp only [dataOf, hcell, if_neg hp]
  -- The degrees are those the loop has left
  · have hcount := hkept.balanced hsymm hb p ((hlive p).mpr hlive₀)
    simpa only [outdegreeOf, indegreeOf, edgesOf, hcell, if_neg hp] using hcount

/-! ## The map -/

/-- A site of the map. Its number is not given to another one. -/
structure Site where
  serial : Nat
  idStr : String
  geoHash : UInt64
  deriving DecidableEq, Repr

/-- The map, newest sites and roads first. -/
structure RoadMap where
  sites : List Site
  roads : List (Nat × Nat × Int32)
  next : Nat
  deriving Repr

namespace RoadMap

/-- The map before the first command. -/
def empty : RoadMap := ⟨[], [], 1⟩

/-- The newest site with the id. -/
def lookup (m : RoadMap) (idStr : String) : Option Nat :=
  (m.sites.find? (·.idStr == idStr)).map (·.serial)

def addSite (m : RoadMap) (idStr : String) (geoHash : UInt64) : RoadMap :=
  { m with sites := ⟨m.next, idStr, geoHash⟩ :: m.sites, next := m.next + 1 }

def addRoad (m : RoadMap) (u v : Nat) (roadId : Int32) : RoadMap :=
  { m with roads := (u, v, roadId) :: m.roads }

/-- The site goes with its roads. -/
def takeOut (m : RoadMap) (v : Nat) : RoadMap :=
  { m with
    sites := m.sites.filter (·.serial ≠ v)
    roads := Incidence.without m.roads v }

/-- The roads at a site, newest first. -/
def adjacent (m : RoadMap) (p : Nat) : List Edge :=
  (Incidence.incident m.roads p).map fun x => ⟨x.1, x.2⟩

/-- The commands that make sense: they name sites of the map, and a site that is taken out has at
    most one road to each other one. With `next` in the list node that it has freed, the kernel
    comes to all sites that the roads lead to. -/
inductive Step (next : FreedNext) (m : RoadMap) : GraphDeliver → RoadMap → Prop where
  | newNode {vertex : String} {geohash : UInt64} :
      Step next m (.newNode vertex geohash) (m.addSite vertex geohash)
  | newEdge {source target : String} {roadId : Int32} {u v : Nat}
      (hsource : m.lookup source = some u) (htarget : m.lookup target = some v) :
      Step next m (.newEdge source target roadId) (m.addRoad u v roadId)
  | delNode {vertex : String} {v : Nat} (hvertex : m.lookup vertex = some v)
      (hone : ∀ u, u ≠ v → (Incidence.labels m.roads u v).length ≤ 1) (hnext : next ≠ .other)
      (hreached : ∀ u, Incidence.labels m.roads u v ≠ [] →
        u ∈ FreedNext.reached (fun _ => next) v (m.sites.map (·.serial))) :
      Step next m (.delNode vertex) (m.takeOut v)
  | other {mode : Int16} : Step next m (.other mode) m

end RoadMap

/-- The graph of the kernel is the map: the same vertices in the same order with the same data,
    the edge list of each with its roads from the newest on, and the true degrees. -/
structure Represents (g : RoadGraph) (m : RoadMap) : Prop where
  wf : g.WF
  nodes : g.vertices.nodes = m.sites.map (·.serial)
  next : g.heap.next = m.next
  data : ∀ s ∈ m.sites, g.dataOf s.serial = some (s.idStr, s.geoHash, ())
  edges : ∀ p, g.edgesOf p = m.adjacent p
  degrees : g.Balanced

variable {m m' : RoadMap}

/-- The empty graph represents the map before the first command. -/
theorem represents_empty : Represents graphCreate .empty where
  wf := Mirrored.empty.degrees.wf
  nodes := rfl
  next := rfl
  data s hs := by cases hs
  edges _ := rfl
  degrees p hp := by cases hp

/-- `getVertex` finds the newest site with the id. -/
theorem Represents.getVertex_eq (h : Represents g m) (idStr : String) :
    getVertex g idStr = .ok ((m.lookup idStr).getD NULL) := by
  have hfind : (g.vertices.nodes.find? fun p => g.idOf p == some idStr) = m.lookup idStr := by
    rw [h.nodes, List.find?_map, RoadMap.lookup]
    congr 1
    apply List.find?_congr
    intro s hs
    have hid : g.idOf s.serial = some s.idStr := by rw [idOf_eq, h.data s hs, Option.map_some]
    show (g.idOf s.serial == some idStr) = (s.idStr == idStr)
    rw [hid, Option.some_beq_some]
  rw [MapRelay.getVertex_eq fun p => (h.wf.live_iff p).mpr, hfind]

/-- A site that is looked up is a vertex of the graph. -/
private theorem Represents.mem_nodes (h : Represents g m) {idStr : String} {v : Nat}
    (hv : m.lookup idStr = some v) : v ∈ g.vertices.nodes := by
  obtain ⟨s, hs, rfl⟩ := Option.map_eq_some_iff.mp hv
  rw [h.nodes]
  exact List.mem_map_of_mem (List.mem_of_find?_eq_some hs)

/-- `getVertex` finds the newest site with the id. -/
private theorem Represents.getVertex_of_lookup (h : Represents g m) {idStr : String} {v : Nat}
    (hv : m.lookup idStr = some v) : getVertex g idStr = .ok v := by
  rw [h.getVertex_eq, hv, Option.getD_some]

/-- The roads at a site that lead to another one. -/
private theorem filter_adjacent (m : RoadMap) (p v : Nat) :
    (m.adjacent p).filter (·.vertex == v) =
      ((Incidence.incident m.roads p).filter (·.1 = v)).map fun x => ⟨x.1, x.2⟩ := by
  rw [RoadMap.adjacent, List.filter_map]
  rfl

/-- The edges between two sites are the roads of the map between them. -/
private theorem Represents.roads_eq (h : Represents g m) (u v : Addr) :
    g.roads u v = Incidence.labels m.roads u v := by
  rw [roads, h.edges, filter_adjacent, List.map_map]
  rfl

/-- The roads of the map go both ways. -/
theorem Represents.symm (h : Represents g m) : g.roads.Symm := by
  intro u v
  rw [h.roads_eq, h.roads_eq, Incidence.labels_comm]

/-! ## The commands -/

/-- A new road is in front at both its ends. -/
private theorem adjacent_addRoad (m : RoadMap) (u v : Nat) (roadId : Int32) (p : Nat) :
    (m.addRoad u v roadId).adjacent p = (if p = v then [⟨u, roadId⟩] else []) ++
      ((if p = u then [⟨v, roadId⟩] else []) ++ m.adjacent p) := by
  simp only [RoadMap.adjacent, RoadMap.addRoad, Incidence.incident_cons, Incidence.ends,
    List.map_append, List.append_assoc]
  split <;> split <;> rfl

/-- The command for a site adds it to the map. -/
theorem Represents.newNode (h : Represents g m) (idStr : String) (geohash : UInt64) :
    Represents (graphAddVertex (g.newVertex (vertexCreate idStr geohash ())).1 g.heap.next)
      (m.addSite idStr geohash) := by
  -- The next address belongs to no site
  have hne : ∀ s ∈ m.sites, s.serial ≠ g.heap.next := by
    intro s hs heq
    apply h.wf.next_not_mem
    rw [← heq, h.nodes]
    exact List.mem_map_of_mem hs
  -- A new vertex changes the edges of none
  have hedges : ∀ p, (g.addVertex (vertexCreate idStr geohash ())).edgesOf p = g.edgesOf p := by
    intro p
    rw [edgesOf_addVertex]
    split
    case isTrue hp =>
      rw [hp, edgesOf_of_not_live g.heap.not_live_next]
      rfl
    case isFalse => rfl
  constructor
  · exact wf_addVertexHead h.wf idStr geohash
  · exact congrArg₂ _ h.next h.nodes
  · exact congrArg (· + 1) h.next
  · intro s hs
    show (g.addVertex (vertexCreate idStr geohash ())).dataOf s.serial = _
    rw [dataOf_addVertex]
    -- The new site, or one of the old ones
    cases List.mem_cons.mp hs with
    | inl heq =>
      subst heq
      rw [if_pos h.next.symm]
      rfl
    | inr hmem => rw [if_neg (hne s hmem), h.data s hmem]
  · intro p
    exact (hedges p).trans (h.edges p)
  · intro p hp
    show (g.addVertex (vertexCreate idStr geohash ())).outdegreeOf p =
        ((g.addVertex (vertexCreate idStr geohash ())).edgesOf p).length ∧
      (g.addVertex (vertexCreate idStr geohash ())).indegreeOf p =
        ((g.addVertex (vertexCreate idStr geohash ())).edgesOf p).length
    rw [hedges]
    by_cases hnew : p = g.heap.next
    · -- The new vertex has no edges
      rw [hnew, edgesOf_of_not_live g.heap.not_live_next]
      simp [outdegreeOf, indegreeOf, Graph.addVertex, Heap.cell_alloc, vertexCreate]
    · have hlive : g.Live p := (live_addVertex.mp hp).resolve_left hnew
      have hcell : (g.addVertex (vertexCreate idStr geohash ())).heap.cell p = g.heap.cell p := by
        rw [Graph.addVertex, Heap.cell_alloc, if_neg hnew]
      simp only [outdegreeOf, indegreeOf, hcell]
      exact h.degrees p hlive

/-- The command for a road adds it to the map. -/
theorem Represents.newEdge (h : Represents g m) {u v : Addr} (hu : u ∈ g.vertices.nodes)
    (hv : v ∈ g.vertices.nodes) (roadId : Int32) :
    Represents (g.linkRoad u v roadId) (m.addRoad u v roadId) := by
  have hlu := (h.wf.live_iff u).mpr hu
  have hlv := (h.wf.live_iff v).mpr hv
  constructor
  · exact h.wf.linkRoad hu hv roadId
  · exact h.nodes
  · exact h.next
  · intro s hs
    rw [dataOf_linkRoad]
    exact h.data s hs
  -- The edges of both ends get one more
  · intro p
    rw [linkRoad, edgesOf_addEdge (live_addEdge.mpr hlv), edgesOf_addEdge hlu, h.edges,
      adjacent_addRoad]
    split <;> split <;> rfl
  · exact h.degrees.linkRoad hlu hlv roadId

/-- When a site is taken out, its roads go at the other ends. -/
private theorem adjacent_takeOut (m : RoadMap) {p v : Nat} (hp : p ≠ v) :
    (m.takeOut v).adjacent p = (m.adjacent p).filter fun e => !(e.vertex == v) := by
  rw [RoadMap.adjacent, RoadMap.takeOut, Incidence.incident_without hp, RoadMap.adjacent,
    List.filter_map]
  congr 2
  funext x
  exact Bool.eq_iff_iff.mpr (by simp)

/-- The command for a removal takes the site out, if the loop reaches its neighbours and no two
roads lead to one of them. -/
theorem Represents.delNode (h : Represents g m) {next : FreedNext} (hnext : next ≠ .other)
    {v : Addr} (hv : v ∈ g.vertices.nodes)
    (hone : ∀ u, u ≠ v → (Incidence.labels m.roads u v).length ≤ 1)
    (hreached : ∀ u, Incidence.labels m.roads u v ≠ [] →
      u ∈ FreedNext.reached (fun _ => next) v (m.sites.map (·.serial)))
    (hrun : graphRemoveVertexUndirect next g v = .ok g') : Represents g' (m.takeOut v) := by
  rw [← h.nodes] at hreached
  have hdel : Deletable next g v := by
    refine ⟨hnext, fun u _ huv => ?_⟩
    rw [h.roads_eq]
    split
    case isTrue => exact hone u huv
    case isFalse hpast =>
      rw [not_not.mp fun hne => hpast (hreached u hne), List.length_nil]
  obtain ⟨g₁, hok, hlive, hnodes, hedges⟩ := graphRemoveVertexUndirect_ok hnext h.wf hv
  cases hok.symm.trans hrun
  obtain ⟨hgone, hdata, hdegrees⟩ :=
    kept_graphRemoveVertexUndirect hnext h.wf hv hrun h.symm h.degrees
  have hwf := removeVertex_wf h.wf hv hdel hrun
  constructor
  · exact hwf
  · have hfilter : (m.sites.map (·.serial)).filter (· != v) =
        (m.takeOut v).sites.map (·.serial) := by
      rw [RoadMap.takeOut, List.filter_map]
      congr 2
      funext s
      simp [bne, Bool.beq_eq_decide_eq]
    rw [hnodes, ← List.erase_eq_eraseP', h.wf.nodup.erase_eq_filter, h.nodes, hfilter]
  · exact hgone.trans h.next
  · intro s hs
    obtain ⟨hs, hsv⟩ := List.mem_filter.mp hs
    rw [hdata s.serial (by simpa using hsv), h.data s hs]
  · intro p
    by_cases hp : p = v
    · -- The freed vertex has no edges, and the map has no roads at it
      have hdead : ¬g'.Live v := fun hl => ((hlive v).mp hl).2 rfl
      rw [hp, edgesOf_of_not_live hdead, RoadMap.adjacent, RoadMap.takeOut,
        Incidence.incident_without_self]
      rfl
    · have hfew : ((m.adjacent p).filter (·.vertex == v)).length ≤ 1 := by
        have hlabels := hone p hp
        rwa [← h.roads_eq, roads, List.length_map, h.edges] at hlabels
      have herase : g'.edgesOf p = (g.edgesOf p).eraseP (·.vertex == v) := by
        rw [hedges p hp]
        split
        case isTrue => rfl
        case isFalse hpast =>
          -- The loop does not come to `p`, which has no road to `v`
          have hnone : g.roads p v = [] := by
            rw [h.roads_eq]
            exact not_not.mp fun hne => hpast (hreached p hne)
          have hno := (no_edge_iff p v).mpr (by rw [hnone, List.length_nil])
          rw [List.eraseP_of_forall_not fun e he => by simpa using hno e he]
      rw [herase, h.edges, Incidence.eraseP_eq_filter hfew, adjacent_takeOut m hp]
  · intro p hp
    obtain ⟨hp₀, hpv⟩ := (hlive p).mp hp
    exact hdegrees p hpv hp₀

/-- A command that makes sense on the map is carried out, and keeps the graph the map. -/
theorem Represents.step (h : Represents g m) {next : FreedNext} {d : GraphDeliver}
    (hstep : RoadMap.Step next m d m') :
    ∃ g', netlinkRecvCb next g d = .ok g' ∧ Represents g' m' := by
  -- One case for each mode of a message
  cases hstep with
  | newNode => exact ⟨_, rfl, h.newNode _ _⟩
  | newEdge hsource htarget =>
    -- Both ends are vertices of the graph
    have hu := h.mem_nodes hsource
    have hv := h.mem_nodes htarget
    refine ⟨_, ?_, h.newEdge hu hv _⟩
    simp only [netlinkRecvCb, h.getVertex_of_lookup hsource, h.getVertex_of_lookup htarget, bind,
      Except.bind]
    exact vertexAddEdgeToVertexUndirect_eq ((h.wf.live_iff _).mpr hu) ((h.wf.live_iff _).mpr hv) _
  | delNode hvertex hone hnext hreached =>
    -- The model deletes just when the graph can
    have hv := h.mem_nodes hvertex
    obtain ⟨g', hrun, -⟩ := graphRemoveVertexUndirect_ok hnext h.wf hv
    exact ⟨g', (netlinkRecvCb_delNode next (h.getVertex_of_lookup hvertex)).trans hrun,
      h.delNode hnext hv hone hreached hrun⟩
  | other => exact ⟨g, rfl, h⟩

end Kernel

end MapRelay
