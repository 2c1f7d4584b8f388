import Mathlib.Data.Int.ConditionallyCompleteOrder
import Mathlib.Tactic.Linarith
import MapRelay.ForStd.Drift
import MapRelay.ForStd.Run
import MapRelay.Native.GraphLists
import MapRelay.Spec.EdgeDivision

/-!
# The counters of the lists

`list_remove_data` and the removals of a vertex decrement the `count` of the list they shorten,
`vertex_remove_edge_to_vertex` does not. What the counter exceeds the number of nodes by
therefore only ever grows, and it grows with exactly the calls that unlink an edge by hand.
-/

namespace MapRelay

open ForStd

variable {A : Type}

/-! ## A single list -/

/-- By how much `count` exceeds the number of nodes. -/
def NodeList.excess {α : Type} (l : NodeList α) : Int := l.count - l.nodes.length

section NodeList

variable {α : Type} (l : NodeList α)

/-- A fresh list has the counter right. -/
@[simp] theorem excess_listCreate : (listCreate : NodeList α).excess = 0 := rfl

/-- `list_add_data` adds a node and counts it. -/
@[simp] theorem excess_listAddData (data : α) : (listAddData l data).excess = l.excess := by
  simp only [listAddData, NodeList.excess, List.length_cons]
  omega

/-- So does `list_add_data_tail`. -/
@[simp] theorem excess_listAddDataTail (data : α) :
    (listAddDataTail l data).excess = l.excess := by
  simp only [listAddDataTail, NodeList.excess, List.length_append, List.length_singleton]
  omega

/-- So does `list_add_data_sorted`, whatever the order is. -/
@[simp] theorem excess_listAddDataSorted (cmp : α → α → Int) (data : α) :
    (listAddDataSorted cmp l data).excess = l.excess := by
  have hlen := congrArg List.length
    (List.takeWhile_append_dropWhile (p := fun a => decide (cmp a data < 0)) (l := l.nodes))
  simp only [List.length_append] at hlen
  simp only [listAddDataSorted, NodeList.excess, List.length_append, List.length_cons]
  omega

/-- `list_remove_data` counts down with the node it takes out. -/
@[simp] theorem excess_listRemoveData (node : Option Nat) :
    (listRemoveData l node).excess = l.excess := by
  cases node with
  | none => rfl
  | some i =>
    simp only [listRemoveData]
    split
    case isTrue h =>
      simp only [NodeList.excess, List.length_eraseIdx_of_lt h]
      omega
    case isFalse => rfl

/-- Unlinking by hand leaves a counter that is too high. -/
private theorem excess_unlinkFirst {p : α → Bool} (h : l.nodes.any p = true) :
    (l.unlinkFirst p).excess = l.excess + 1 := by
  have hlen : (l.nodes.eraseP p).length = l.nodes.length - 1 := by rw [List.length_eraseP, if_pos h]
  have hpos : 0 < l.nodes.length := by
    obtain ⟨a, ha, -⟩ := List.any_eq_true.mp h
    exact List.length_pos_of_mem ha
  simp only [NodeList.unlinkFirst, NodeList.excess, hlen]
  omega

end NodeList

namespace Graph

/-! ## The lists of a graph -/

/-- Every list of the graph has as many nodes as its counter says: the vertex list and the
    edge list of every vertex that has been created and not been freed. -/
structure Counted (g : Graph A) : Prop where
  vertices : g.vertices.count = g.vertices.nodes.length
  edges : ∀ p v, g.heap.cell p = some v → v.edges.count = v.edges.nodes.length

/-- Some edge leads from `u` to `v`. -/
def HasEdge (g : Graph A) (u v : Addr) : Prop := ∃ e ∈ g.edgesOf u, e.vertex = v

/-- What the counters of the lists exceed the numbers of nodes by, with `none` for the vertex
    list and `some p` for the edge list of the vertex at `p`. -/
def excess (g : Graph A) : Option Addr → Int
  | none => g.vertices.excess
  | some p => match g.heap.cell p with
    | none => 0
    | some v => v.edges.excess

variable {g g' : Graph A} {u v : Addr}

/-- The excess of the row of `u`, read from its vertex. -/
private theorem excess_of_cell {w : Vertex A} (h : g.heap.cell u = some w) :
    g.excess (some u) = w.edges.excess := by
  simp [excess, h]

/-- The counters are right exactly if no list has an excess. -/
private theorem counted_iff : g.Counted ↔ ∀ l, g.excess l = 0 := by
  constructor
  · intro h l
    cases l with
    | none => exact sub_eq_zero.mpr h.vertices
    | some p =>
      cases hp : g.heap.cell p with
      | none => simp [excess, hp]
      | some w =>
        -- A live vertex has its row, and that is counted right
        rw [excess_of_cell hp]
        exact sub_eq_zero.mpr (h.edges p w hp)
  · intro h
    -- Read backwards, each counter is the number of the nodes
    exact ⟨sub_eq_zero.mp (h none), fun p w hp =>
      sub_eq_zero.mp ((excess_of_cell hp).symm.trans (h (some p)))⟩

/-- The counters of the empty graph are right. -/
private theorem counted_graphCreate : (graphCreate : Graph A).Counted :=
  counted_iff.mpr fun l => by cases l <;> rfl

/-- From a counted graph a step leads to a counted one iff it makes no counter exceed. -/
private theorem Counted.iff_of_drift {hand : Prop} (h : g.Counted)
    (hdrift : Drift (fun _ => True) hand g.excess g'.excess) : g'.Counted ↔ ¬ hand := by
  rw [counted_iff, ← hdrift.const_iff fun l _ => counted_iff.mp h l]
  simp

/-! ## Writes and allocations -/

/-- A change of the vertices that keeps the excess of each row keeps that of the graph. -/
private theorem excess_mapVertices {f : Addr → Vertex A → Vertex A}
    (hf : ∀ p v, (f p v).edges.excess = v.edges.excess) :
    (g.mapVertices f).excess = g.excess := by
  funext l
  cases l with
  | none => rfl
  | some p =>
    simp only [excess, cell_mapVertices]
    cases g.heap.cell p with
    | none => rfl
    | some w => exact hf p w

/-- The same of a change of one vertex. -/
private theorem excess_modify {f : Vertex A → Vertex A} (h : g.modify u f = .ok g')
    (hf : ∀ v, (f v).edges.excess = v.edges.excess) : g'.excess = g.excess := by
  have heq := (modify_of_live (live_of_modify h) f).symm.trans h
  cases heq
  refine excess_mapVertices fun p v => ?_
  split
  · exact hf v
  · rfl

/-- A new vertex whose row is counted right brings no excess. -/
private theorem excess_newVertex {w : Vertex A} (hw : w.edges.excess = 0) :
    (g.newVertex w).1.excess = g.excess := by
  funext l
  cases l with
  | none => rfl
  | some p =>
    simp only [excess, newVertex, Heap.cell_alloc]
    by_cases hp : p = g.heap.next
    · -- No vertex was there before
      simp [hp, hw, g.heap.fresh _ le_rfl]
    · simp [hp]

/-- Nor does it when it is put into the list of the vertices. -/
private theorem excess_addVertex {w : Vertex A} (hw : w.edges.excess = 0) :
    (g.addVertex w).excess = g.excess := by
  funext l
  cases l with
  | none => exact excess_listAddDataTail _ _
  | some p => exact congrFun (excess_newVertex (g := g) hw) (some p)

/-- Putting an edge into a row brings no excess if the list operation brings none. -/
private theorem excess_linkEdge {put : NodeList Edge → Edge → NodeList Edge}
    (hput : ∀ l e, (put l e).excess = l.excess) {e : Edge}
    (h : linkEdge put g u e = .ok g') : g'.excess = g.excess := by
  obtain ⟨g₁, h₁, h⟩ := bind_eq_ok.mp h
  obtain ⟨g₂, h₂, h₃⟩ := bind_eq_ok.mp h
  calc g'.excess = g₂.excess := excess_modify h₃ fun _ => rfl
    _ = g₁.excess := excess_modify h₂ fun _ => rfl
    _ = g.excess := excess_modify h₁ fun v => hput v.edges e

/-- `vertex_add_edge_to_vertex` keeps the excess. -/
private theorem excess_addEdgeTo {r : Int32} (h : vertexAddEdgeToVertex g u v r = .ok g') :
    g'.excess = g.excess :=
  excess_linkEdge excess_listAddData (e := ⟨v, r⟩) h

/-- So does `vertex_add_edge_to_vertex_undirect`. -/
private theorem excess_addUndirect {r : Int32}
    (h : vertexAddEdgeToVertexUndirect g u v r = .ok g') :
    g'.excess = g.excess := by
  obtain ⟨g₁, h₁, h₂⟩ := bind_eq_ok.mp h
  rw [excess_addEdgeTo h₂, excess_addEdgeTo h₁]

/-- A road between two live vertices brings no excess. -/
private theorem excess_linkRoad (hu : g.Live u) (hv : g.Live v) (r : Int32) :
    (g.linkRoad u v r).excess = g.excess :=
  excess_addUndirect (vertexAddEdgeToVertexUndirect_eq hu hv r)

/-- `vertex_remove_edge` goes through `list_remove_data` and keeps the excess. -/
private theorem excess_vertexRemoveEdge {freed : Addr → Addr} {edge : EdgePtr}
    (h : vertexRemoveEdge freed g u edge = .ok g') : g'.excess = g.excess := by
  obtain ⟨w, -, h⟩ := bind_eq_ok.mp h
  obtain ⟨e, -, h⟩ := bind_eq_ok.mp h
  obtain ⟨g₁, h₁, h⟩ := bind_eq_ok.mp h
  obtain ⟨g₂, h₂, h₃⟩ := bind_eq_ok.mp h
  calc g'.excess = g₂.excess := excess_modify h₃ fun _ => rfl
    _ = g₁.excess := excess_modify h₂ fun _ => rfl
    _ = g.excess := excess_modify h₁ fun v => excess_listRemoveData v.edges edge.node

/-! ## Unlinking by hand -/

/-- The search of a row for an edge to `v` succeeds exactly if there is one. -/
private theorem any_iff_hasEdge : (g.edgesOf u).any (·.vertex == v) = true ↔ g.HasEdge u v := by
  simp [HasEdge]

instance : Decidable (g.HasEdge u v) := decidable_of_iff _ any_iff_hasEdge

/-- Unlinking by hand leaves the counter one too high if there was an edge to unlink. -/
private theorem excess_removeEdge (l : Option Addr) :
    (g.removeEdge u v).excess l =
      g.excess l + if l = some u ∧ g.HasEdge u v then 1 else 0 := by
  unfold removeEdge
  by_cases hany : (g.edgesOf u).any (·.vertex == v) = true
  -- There is an edge to unlink: the row of `u` gets shorter, and its counter stays
  · rw [if_pos hany]
    have hj : g.HasEdge u v := any_iff_hasEdge.mp hany
    cases l with
    | none => simp [excess]
    | some p =>
      simp only [excess, cell_mapVertices, Option.some.injEq]
      by_cases hp : p = u
      · subst hp
        cases hcell : g.heap.cell p with
        | none => simp [edgesOf, hcell] at hany
        | some w =>
          rw [edgesOf_of_cell hcell] at hany
          simpa [hj] using excess_unlinkFirst w.edges hany
      -- The other rows stay as they are
      · cases g.heap.cell p <;> simp [hp]
  · rw [if_neg hany, if_neg fun h => hany (any_iff_hasEdge.mpr h.2), add_zero]

/-- `vertex_remove_edge_to_vertex` grows the counter of the list it takes an edge from. -/
private theorem drift_removeEdge (S : Option Addr → Prop) :
    Drift S (S (some u) ∧ g.HasEdge u v) g.excess (g.removeEdge u v).excess where
  le l _ := by
    rw [excess_removeEdge]
    split <;> omega
  lt_iff := by
    simp only [excess_removeEdge, lt_add_iff_pos_right]
    constructor
    -- A list grew only if it is the row of `u` and there was an edge
    · rintro ⟨l, hl, hlt⟩
      split at hlt
      case isTrue h => exact ⟨h.1 ▸ hl, h.2⟩
      case isFalse => exact absurd hlt (lt_irrefl 0)
    · intro ⟨hu, hj⟩
      exact ⟨some u, hu, by simp [hj]⟩

/-- Removing an edge brings no new one. -/
private theorem hasEdge_of_removeEdge {a b : Addr} (h : (g.removeEdge a b).HasEdge u v) :
    g.HasEdge u v := by
  obtain ⟨e, he, hev⟩ := h
  rw [edgesOf_removeEdge] at he
  split at he
  · exact ⟨e, List.mem_of_mem_eraseP he, hev⟩
  · exact ⟨e, he, hev⟩

/-- The removal looks at no row but that of its start. -/
private theorem hasEdge_removeEdge_of_ne {a b : Addr} (h : u ≠ a) :
    (g.removeEdge a b).HasEdge u v ↔ g.HasEdge u v := by
  simp only [HasEdge, edgesOf_removeEdge, if_neg h]

/-- Unlinking both directions moves the counters exactly if one of the edges was there. -/
private theorem drift_unlinkRoad (S : Option Addr → Prop) :
    Drift S ((S (some u) ∧ g.HasEdge u v) ∨ (S (some v) ∧ g.HasEdge v u)) g.excess
      (g.unlinkRoad u v).excess := by
  refine ((drift_removeEdge S).trans (drift_removeEdge S)).congr ?_
  by_cases huv : v = u
  · -- A loop: what is left of its list was there before
    subst huv
    constructor
    · rintro (h | ⟨hS, hj⟩)
      · exact .inl h
      · exact .inl ⟨hS, hasEdge_of_removeEdge hj⟩
    · exact fun h => .inl (h.elim id id)
  · rw [hasEdge_removeEdge_of_ne huv]

/-- What `vertex_remove_edge_to_vertex` leaves when it returns. -/
private theorem removeEdge_of_ok (h : vertexRemoveEdgeToVertex g u v = .ok g') :
    g' = g.removeEdge u v := by
  have hu := live_of_removeEdge_ok h
  obtain ⟨w, hw, hderef⟩ := Heap.deref_of_live hu
  by_cases hany : w.edges.nodes.any (·.vertex == v) = true
  · -- The edge is counted down at `v`, so that `v` is a valid pointer
    have hrun := h
    simp only [vertexRemoveEdgeToVertex, hderef, bind, Except.bind, if_pos hany] at hrun
    rw [modify_of_live hu] at hrun
    obtain ⟨g₂, h₂, -⟩ := bind_eq_ok.mp hrun
    have hv : g.Live v := live_mapVertices.mp (live_of_modify h₂)
    exact Except.ok.inj (h.symm.trans (vertexRemoveEdgeToVertex_eq hu hv))
  -- Without an edge nothing is written
  · simp only [vertexRemoveEdgeToVertex, hderef, bind, Except.bind, if_neg hany] at h
    rw [removeEdge, edgesOf_of_cell hw, if_neg hany]
    exact (Except.ok.inj h).symm

/-- What the undirected removal leaves when it returns. -/
private theorem unlinkRoad_of_ok (h : vertexRemoveEdgeToVertexUndirect g u v = .ok g') :
    g' = g.unlinkRoad u v := by
  obtain ⟨g₁, h₁, h₂⟩ := bind_eq_ok.mp h
  rw [removeEdge_of_ok h₂, removeEdge_of_ok h₁, unlinkRoad]

/-! ## Removing a vertex -/

/-- What the loop needs to know of the way it takes the edges to `v` away: only those of the
    vertex at hand go, and only their list may get a counter that is too high, the list of
    `v` left aside. -/
structure TakesAway (removeEdge : Graph A → Addr → Addr → Except Fault (Graph A)) (v : Addr) :
    Prop where
  vertices : ∀ {g n g'}, removeEdge g n v = .ok g' → g'.vertices = g.vertices
  drift : ∀ {g n g'}, n ≠ v → removeEdge g n v = .ok g' →
    Drift (· ≠ some v) (g.HasEdge n v) g.excess g'.excess
  hasEdge : ∀ {g n g' m}, removeEdge g n v = .ok g' → g'.HasEdge m v → g.HasEdge m v
  keeps : ∀ {g n g' m}, m ≠ v → m ≠ n → removeEdge g n v = .ok g' → g.HasEdge m v → g'.HasEdge m v
  live : ∀ {g n g' p}, removeEdge g n v = .ok g' → (g'.Live p ↔ g.Live p)

/-- The removal of one direction fits the loop over the vertices. -/
private theorem takesAway_directed (v : Addr) :
    TakesAway (vertexRemoveEdgeToVertex : Graph A → Addr → Addr → Except Fault (Graph A)) v where
  vertices h := by rw [removeEdge_of_ok h, vertices_removeEdge]
  drift hn h := by
    rw [removeEdge_of_ok h]
    exact (drift_removeEdge _).congr (and_iff_right (by simpa using hn))
  hasEdge h hj := hasEdge_of_removeEdge (removeEdge_of_ok h ▸ hj)
  keeps _ hmn h hj := by
    rw [removeEdge_of_ok h]
    exact (hasEdge_removeEdge_of_ne hmn).mpr hj
  live h := by
    rw [removeEdge_of_ok h]
    exact live_removeEdge

/-- So does the removal of both directions. -/
private theorem takesAway_undirect (v : Addr) :
    TakesAway (vertexRemoveEdgeToVertexUndirect :
      Graph A → Addr → Addr → Except Fault (Graph A)) v where
  vertices h := by rw [unlinkRoad_of_ok h, vertices_unlinkRoad]
  drift hn h := by
    rw [unlinkRoad_of_ok h]
    -- The list of `v` itself is left aside
    exact (drift_unlinkRoad _).congr (by simp [hn])
  hasEdge h hj := hasEdge_of_removeEdge (hasEdge_of_removeEdge (unlinkRoad_of_ok h ▸ hj))
  keeps hmv hmn h hj := by
    rw [unlinkRoad_of_ok h]
    exact (hasEdge_removeEdge_of_ne hmv).mpr ((hasEdge_removeEdge_of_ne hmn).mpr hj)
  live h := by
    rw [unlinkRoad_of_ok h]
    exact live_unlinkRoad

/-- Taking a vertex out of the list of the vertices keeps all rows. -/
@[simp] theorem hasEdge_unlinkNode {m : Addr} :
    (unlinkNode g v).HasEdge m u ↔ g.HasEdge m u := Iff.rfl

/-- The removals of a vertex take its node off the list together with the count of it. -/
private theorem excess_unlinkNode (h : v ∈ g.vertices.nodes) :
    (unlinkNode g v).excess = g.excess := by
  funext l
  cases l with
  | some p => rfl
  | none =>
    have hlen : (g.vertices.nodes.eraseP (· == v)).length = g.vertices.nodes.length - 1 :=
      List.length_eraseP_of_mem h (beq_self_eq_true v)
    have hpos := List.length_pos_of_mem h
    simp only [excess, unlinkNode, NodeList.excess, hlen]
    omega

/-- The loop over the vertices `ns` grows a counter iff one of those that it comes to, other than
    `v`, has an edge to `v`. -/
private theorem drift_removeVertexFrom
    {removeEdge : Graph A → Addr → Addr → Except Fault (Graph A)} (hrem : TakesAway removeEdge v)
    {next : List Addr → FreedNext} {prevFreed : Bool} {ns : List Addr}
    (hns : ns.count v ≤ g.vertices.nodes.count v)
    (h : removeVertexFrom removeEdge next v prevFreed ns g = .ok g') :
    Drift (· ≠ some v) (∃ n ∈ FreedNext.reached next v ns, n ≠ v ∧ g.HasEdge n v) g.excess
      g'.excess := by
  induction ns generalizing g prevFreed with
  | nil =>
    cases h
    exact (Drift.refl _ _).congr (by simp [FreedNext.reached])
  | cons n rest ih =>
    rw [removeVertexFrom] at h
    by_cases hnv : n = v
    · -- `v` goes off the list, its node counted
      subst hnv
      rw [if_pos rfl] at h
      rw [List.count_cons_self] at hns
      have hmem : n ∈ g.vertices.nodes := List.count_pos_iff.mp (by omega)
      have hcount : rest.count n ≤ (unlinkNode g n).vertices.nodes.count n := by
        have herase : (unlinkNode g n).vertices.nodes = g.vertices.nodes.erase n :=
          (List.erase_eq_eraseP' n _).symm
        rw [herase, List.count_erase_self]
        omega
      rw [← excess_unlinkNode hmem, FreedNext.reached, if_pos rfl]
      split at h
      case isTrue => cases h
      case isFalse =>
        cases hnext : next rest with
        | same =>
          rw [hnext] at h
          exact (ih hcount h).congr (by simp)
        | null =>
          -- The loop ends here
          rw [hnext] at h
          cases h
          exact (Drift.refl _ _).congr (by simp)
        | other =>
          rw [hnext] at h
          cases h
    · -- Another vertex loses an edge to `v` if it has one
      rw [if_neg hnv] at h
      obtain ⟨g₁, h₁, h⟩ := bind_eq_ok.mp h
      have hcount : rest.count v ≤ g₁.vertices.nodes.count v := by
        rw [hrem.vertices h₁]
        rwa [List.count_cons_of_ne hnv] at hns
      rw [FreedNext.reached_cons_of_ne hnv]
      refine ((hrem.drift hnv h₁).trans (ih hcount h)).congr ?_
      constructor
      · rintro (hj | ⟨m, hm, hmv, hj⟩)
        · exact ⟨n, List.mem_cons_self, hnv, hj⟩
        · exact ⟨m, List.mem_cons_of_mem _ hm, hmv, hrem.hasEdge h₁ hj⟩
      · rintro ⟨m, hm, hmv, hj⟩
        by_cases hmn : m = n
        · exact .inl (hmn ▸ hj)
        · exact .inr ⟨m, List.mem_of_ne_of_mem hmn hm, hmv, hrem.keeps hmv hmn h₁ hj⟩

/-- The loop frees no vertex. -/
private theorem live_removeVertexFrom
    {removeEdge : Graph A → Addr → Addr → Except Fault (Graph A)} (hrem : TakesAway removeEdge v)
    {next : List Addr → FreedNext} {prevFreed : Bool} {ns : List Addr}
    (h : removeVertexFrom removeEdge next v prevFreed ns g = .ok g') {p : Addr} :
    g'.Live p ↔ g.Live p := by
  -- The loop over the nodes; the freed one is unlinked, and every other one loses its edges to `v`
  induction ns generalizing g prevFreed with
  | nil =>
    cases h
    exact Iff.rfl
  | cons n rest ih =>
    rw [removeVertexFrom] at h
    by_cases hnv : n = v
    · rw [if_pos hnv] at h
      split at h
      case isTrue => cases h
      case isFalse =>
        -- What is read of the freed node decides whether the loop goes on
        split at h
        · exact ih (g := unlinkNode g v) h
        · cases h
          exact Iff.rfl
        · cases h
    · rw [if_neg hnv] at h
      obtain ⟨g₁, h₁, h⟩ := bind_eq_ok.mp h
      exact (ih h).trans (hrem.live h₁)

/-- A loop that gets through has been able to follow the words in the freed nodes. -/
private theorem followed_of_ok
    {removeEdge : Graph A → Addr → Addr → Except Fault (Graph A)} {next : List Addr → FreedNext}
    {prevFreed : Bool} {ns : List Addr}
    (h : removeVertexFrom removeEdge next v prevFreed ns g = .ok g') :
    FreedNext.Followed next v ns := by
  induction ns generalizing g prevFreed with
  | nil => trivial
  | cons n rest ih =>
    rw [removeVertexFrom] at h
    by_cases hnv : n = v
    · subst hnv
      -- At the freed node the loop returned, so that the word read there did not lead elsewhere
      rw [if_pos rfl] at h
      rw [FreedNext.followed_cons_self]
      split at h
      case isTrue => cases h
      case isFalse =>
        cases hnext : next rest with
        | same =>
          rw [hnext] at h
          exact ⟨by simp, fun _ => ih h⟩
        | null => simp
        | other =>
          rw [hnext] at h
          cases h
    -- At any other node nothing freed is read
    · rw [if_neg hnv] at h
      obtain ⟨g₁, -, h⟩ := bind_eq_ok.mp h
      exact (FreedNext.followed_cons_of_ne hnv).mpr (ih h)

/-- A loop that gets through where the freed nodes still have their `next` also does with other
    words in them that it can follow. -/
private theorem removeVertexFrom_of_followed
    {removeEdge : Graph A → Addr → Addr → Except Fault (Graph A)} {next : List Addr → FreedNext}
    {prevFreed : Bool} {ns : List Addr}
    (h : removeVertexFrom removeEdge (fun _ => .same) v prevFreed ns g = .ok g')
    (hnext : FreedNext.Followed next v ns) :
    ∃ g'', removeVertexFrom removeEdge next v prevFreed ns g = .ok g'' := by
  induction ns generalizing g prevFreed with
  | nil => exact ⟨g, rfl⟩
  | cons n rest ih =>
    rw [removeVertexFrom] at h ⊢
    by_cases hnv : n = v
    -- At the freed node: the loop goes on with the same list, or ends early, and in both cases
    -- returns
    · subst hnv
      obtain ⟨hother, hrest⟩ := FreedNext.followed_cons_self.mp hnext
      rw [if_pos rfl] at h ⊢
      split at h
      case isTrue => cases h
      case isFalse hprev =>
        rw [if_neg hprev]
        cases hword : next rest with
        | same => exact ih h (hrest hword)
        | null => exact ⟨_, rfl⟩
        | other => exact absurd hword hother
    -- At any other node both loops do the same
    · rw [if_neg hnv] at h ⊢
      obtain ⟨g₁, h₁, h⟩ := bind_eq_ok.mp h
      rw [h₁]
      exact ih h ((FreedNext.followed_cons_of_ne hnv).mp hnext)

/-- A vertex can be freed exactly if it is there. -/
private theorem vertexFree_ok_iff : (∃ g', vertexFree g v = .ok g') ↔ g.Live v := by
  constructor
  · intro ⟨g', h⟩
    obtain ⟨heap, hfree, -⟩ := bind_eq_ok.mp h
    obtain ⟨w, hw, -⟩ := bind_eq_ok.mp hfree
    exact Heap.live_iff.mpr ⟨w, Heap.deref_eq_ok.mp hw⟩
  · intro hlive
    obtain ⟨heap, hfree, -⟩ := Heap.free_of_live hlive
    exact ⟨{ g with heap }, bind_eq_ok.mpr ⟨heap, hfree, rfl⟩⟩

/-- The same for the removal as a whole. -/
private theorem removeVertex_of_followed
    {removeEdge : Graph A → Addr → Addr → Except Fault (Graph A)} (hrem : TakesAway removeEdge v)
    {next : List Addr → FreedNext}
    (h : (do
      let g ← removeVertexFrom removeEdge (fun _ => .same) v false g.vertices.nodes g
      vertexFree g v) = .ok g')
    (hnext : FreedNext.Followed next v g.vertices.nodes) :
    ∃ g'', (do
      let g ← removeVertexFrom removeEdge next v false g.vertices.nodes g
      vertexFree g v) = .ok g'' := by
  -- Neither loop frees or allocates a vertex, so that `vertex_free` succeeds after both
  obtain ⟨g₁, hloop, hfree⟩ := bind_eq_ok.mp h
  have hlive : g.Live v :=
    (live_removeVertexFrom hrem hloop).mp (vertexFree_ok_iff.mp ⟨g', hfree⟩)
  obtain ⟨g₂, hloop'⟩ := removeVertexFrom_of_followed hloop hnext
  obtain ⟨g'', hfree'⟩ := vertexFree_ok_iff.mpr ((live_removeVertexFrom hrem hloop').mpr hlive)
  exact ⟨g'', bind_eq_ok.mpr ⟨g₂, hloop', hfree'⟩⟩

/-- With the vertex its edge list goes, whatever its counter was. -/
private theorem counted_of_vertexFree (h : vertexFree g v = .ok g') :
    g'.Counted ↔ ∀ l, l ≠ some v → g.excess l = 0 := by
  -- `vertex_free` takes away the row of `v`, and with it what its counter may be off by
  obtain ⟨heap, hfree, hg'⟩ := bind_eq_ok.mp h
  obtain ⟨w, hw, -⟩ := bind_eq_ok.mp hfree
  obtain ⟨heap', hfree', hcell⟩ := Heap.free_of_live (Heap.live_iff.mpr ⟨w, Heap.deref_eq_ok.mp hw⟩)
  cases hfree.symm.trans hfree'
  cases hg'
  have hexcess (l : Option Addr) :
      excess { g with heap } l = if l = some v then 0 else g.excess l := by
    cases l with
    | none => rfl
    | some p =>
      by_cases hp : p = v
      · simp [excess, hcell, hp]
      · simp [excess, hcell, hp]
  rw [counted_iff]
  simp only [hexcess, ite_eq_left_iff]

/-- Removing a vertex leaves a counter that is too high iff another vertex that the loop comes to
    has an edge to it. -/
private theorem Counted.iff_of_removeVertex
    {removeEdge : Graph A → Addr → Addr → Except Fault (Graph A)} (hrem : TakesAway removeEdge v)
    (hg : g.Counted) {next : List Addr → FreedNext}
    (h : (do
      let g ← removeVertexFrom removeEdge next v false g.vertices.nodes g
      vertexFree g v) = .ok g') :
    g'.Counted ↔
      ¬ ∃ n ∈ FreedNext.reached next v g.vertices.nodes, n ≠ v ∧ g.HasEdge n v := by
  obtain ⟨g₁, hloop, hfree⟩ := bind_eq_ok.mp h
  rw [counted_of_vertexFree hfree,
    ← (drift_removeVertexFrom hrem le_rfl hloop).const_iff fun l _ => counted_iff.mp hg l]

end Graph

/-! ## The calls -/

open MapRelay.Graph

variable {g g' : Graph A}

/-- The call unlinks an edge of a list that stays. -/
def GraphCall.UnlinksByHand (g : Graph A) : GraphCall A → Prop
  | .removeVertex next vertex | .removeVertexUndirect next vertex =>
    ∃ n ∈ FreedNext.reached next vertex g.vertices.nodes, n ≠ vertex ∧ g.HasEdge n vertex
  | .removeEdgeTo src dst => g.HasEdge src dst
  | .removeUndirect src dst => g.HasEdge src dst ∨ g.HasEdge dst src
  | _ => False

/-- What the call finds in the memory that it has freed does not lead it astray: the loop of a
    removal gets on or ends, and for the vertex of a freed edge there still is a vertex. -/
def GraphCall.FreedHarmless (g : Graph A) : GraphCall A → Prop
  | .removeVertex next vertex | .removeVertexUndirect next vertex =>
    FreedNext.Followed next vertex g.vertices.nodes
  | .removeEdge freed vertex (.listed i) =>
    ∀ e, (g.edgesOf vertex)[i]? = some e → g.Live (freed e.vertex)
  | _ => True

/-- The call where the freed memory still has in it what was there before. -/
def GraphCall.intact : GraphCall A → GraphCall A
  | .removeVertex _ vertex => .removeVertex (fun _ => .same) vertex
  | .removeVertexUndirect _ vertex => .removeVertexUndirect (fun _ => .same) vertex
  | .removeEdge _ vertex edge => .removeEdge id vertex edge
  | call => call

/-- A call that keeps the excess keeps the counters right. -/
private theorem Graph.Counted.iff_of_excess_eq (hg : g.Counted) (h : g'.excess = g.excess) :
    g'.Counted ↔ ¬ False :=
  hg.iff_of_drift (.of_eq fun l _ => congrFun h l)

/-- A call of `graph.c` that returns keeps the counters right exactly if it unlinks no edge by
hand. -/
theorem GraphCall.counted_iff (hg : g.Counted) {call : GraphCall A} (h : call.apply g = .ok g') :
    g'.Counted ↔ ¬ call.UnlinksByHand g := by
  cases call with
  | vertexCreate idStr geoHash attr =>
    cases h
    exact hg.iff_of_excess_eq (excess_newVertex rfl)
  | addVertexSorted cmp vertex =>
    cases h
    refine hg.iff_of_excess_eq (funext fun l => ?_)
    cases l with
    | none => exact excess_listAddDataSorted g.vertices cmp vertex
    | some p => rfl
  | removeVertex next vertex => exact hg.iff_of_removeVertex (takesAway_directed vertex) h
  | removeVertexUndirect next vertex => exact hg.iff_of_removeVertex (takesAway_undirect vertex) h
  | addEdge vertex edge => exact hg.iff_of_excess_eq (excess_linkEdge excess_listAddData h)
  | addEdgeSorted vertex edge =>
    exact hg.iff_of_excess_eq
      (excess_linkEdge (fun l => excess_listAddDataSorted l compareEdges) h)
  | removeEdge freed vertex edge => exact hg.iff_of_excess_eq (excess_vertexRemoveEdge h)
  | addEdgeTo src dst roadId => exact hg.iff_of_excess_eq (excess_addEdgeTo h)
  | addEdgeToSorted src dst roadId =>
    exact hg.iff_of_excess_eq
      (excess_linkEdge (fun l => excess_listAddDataSorted l compareEdges) h)
  -- The two that unlink by hand let the counters drift
  | removeEdgeTo src dst =>
    rw [removeEdge_of_ok h]
    exact hg.iff_of_drift ((drift_removeEdge _).congr (and_iff_right trivial))
  | addUndirect src dst roadId => exact hg.iff_of_excess_eq (excess_addUndirect h)
  | removeUndirect src dst =>
    rw [unlinkRoad_of_ok h]
    exact hg.iff_of_drift ((drift_unlinkRoad _).congr (by simp [UnlinksByHand]))

/-- The edge that `vertex_remove_edge` frees, with the vertices that are there. -/
private theorem vertexRemoveEdge_eq_ok {freed : Addr → Addr} {u : Addr} {edge : EdgePtr} :
    (∃ g', vertexRemoveEdge freed g u edge = .ok g') ↔
      ∃ v e, g.heap.cell u = some v ∧ edge.deref v.edges = .ok e ∧
        g.Live (edge.vertexAfter freed e) := by
  constructor
  · intro ⟨g', h⟩
    obtain ⟨v, hv, h⟩ := bind_eq_ok.mp h
    obtain ⟨e, he, h⟩ := bind_eq_ok.mp h
    obtain ⟨g₁, h₁, h⟩ := bind_eq_ok.mp h
    obtain ⟨g₂, h₂, -⟩ := bind_eq_ok.mp h
    -- The first write goes to a live vertex, and the second one through the word that is read
    rw [modify_of_live (live_of_modify h₁)] at h₁
    cases h₁
    exact ⟨v, e, Heap.deref_eq_ok.mp hv, he, live_mapVertices.mp (live_of_modify h₂)⟩
  · rintro ⟨v, e, hv, he, hlive⟩
    -- All three writes go to live vertices: to `u`, to where the freed word leads, and to `u` again
    have hu : g.Live u := Heap.live_iff.mpr ⟨v, hv⟩
    simp only [vertexRemoveEdge, Heap.deref_eq_ok.mpr hv, he, bind, Except.bind]
    rw [modify_of_live hu]
    dsimp only
    rw [modify_of_live (live_mapVertices.mpr hlive)]
    dsimp only
    rw [modify_of_live (live_mapVertices.mpr (live_mapVertices.mpr hu))]
    exact ⟨_, rfl⟩

/-- For `vertex_remove_edge` the freed word has to lead to a live vertex. -/
private theorem freedHarmless_removeEdge_iff {freed : Addr → Addr} {u : Addr} {edge : EdgePtr}
    {v : Vertex A} {e : Edge} (hv : g.heap.cell u = some v) (he : edge.deref v.edges = .ok e)
    (hlive : g.Live e.vertex) :
    (GraphCall.removeEdge freed u edge).FreedHarmless g ↔ g.Live (edge.vertexAfter freed e) := by
  cases edge with
  | unlisted edge =>
    -- An edge that is in no list is not freed by `list_remove_data`
    cases he
    exact iff_of_true trivial hlive
  | listed i =>
    -- The edge of the list is the one that the index leads to
    have hget : v.edges.nodes[i]? = some e := by
      rw [EdgePtr.deref] at he
      split at he
      · next heq =>
        cases he
        exact heq
      · cases he
    simp only [GraphCall.FreedHarmless, edgesOf_of_cell hv, hget, Option.some.injEq, forall_eq',
      EdgePtr.vertexAfter]

/-- A call that returns was not led astray. -/
private theorem GraphCall.freedHarmless_of_ok {call : GraphCall A} (h : call.apply g = .ok g') :
    call.FreedHarmless g := by
  cases call with
  -- The two removals of a vertex: the loop returned, so that it was not led astray
  | removeVertex next vertex =>
    obtain ⟨g₁, hloop, -⟩ := bind_eq_ok.mp h
    exact followed_of_ok hloop
  | removeVertexUndirect next vertex =>
    obtain ⟨g₁, hloop, -⟩ := bind_eq_ok.mp h
    exact followed_of_ok hloop
  | removeEdge freed vertex edge =>
    -- The removal of an edge: the word led to a live vertex
    obtain ⟨v, e, hv, he, hlive⟩ := vertexRemoveEdge_eq_ok.mp ⟨g', h⟩
    cases edge with
    | unlisted edge => trivial
    | listed i =>
      intro e' he'
      rw [edgesOf_of_cell hv] at he'
      simp only [EdgePtr.deref, he'] at he
      cases he
      exact hlive
  | _ => trivial

/-- A call that returns with the freed memory intact returns exactly if it is not led astray. -/
private theorem GraphCall.ok_iff {call : GraphCall A} (h : ∃ g', call.intact.apply g = .ok g') :
    (∃ g', call.apply g = .ok g') ↔ call.FreedHarmless g := by
  refine ⟨fun ⟨g', hok⟩ => freedHarmless_of_ok hok, fun hfreed => ?_⟩
  obtain ⟨g', h⟩ := h
  cases call with
  | removeVertex next vertex => exact removeVertex_of_followed (takesAway_directed vertex) h hfreed
  | removeVertexUndirect next vertex =>
    exact removeVertex_of_followed (takesAway_undirect vertex) h hfreed
  -- The removal of an edge returns exactly if the word leads to a live vertex
  | removeEdge freed vertex edge =>
    obtain ⟨v, e, hv, he, hlive⟩ := vertexRemoveEdge_eq_ok.mp ⟨g', h⟩
    have hlive' : g.Live e.vertex := by
      cases edge <;> exact hlive
    exact vertexRemoveEdge_eq_ok.mpr
      ⟨v, e, hv, he, (freedHarmless_removeEdge_iff hv he hlive').mp hfreed⟩
  | _ => exact ⟨g', h⟩

/-- On a list that names no vertex twice the removal is that of `Kernel`. -/
theorem graphRemoveVertexUndirect_eq_kernel {g : Kernel.RoadGraph}
    (h : g.vertices.nodes.Nodup) (next : FreedNext) (v : Addr) :
    graphRemoveVertexUndirect (fun _ => next) g v =
      Kernel.graphRemoveVertexUndirect next g v := by
  suffices hloop : ∀ (ns : List Addr) (g : Kernel.RoadGraph) (prevFreed : Bool),
      ns.Nodup → (prevFreed = true → v ∉ ns) →
      removeVertexFrom vertexRemoveEdgeToVertexUndirect (fun _ => next) v prevFreed ns g =
        Kernel.removeEdgesTo next v ns g by
    simp only [graphRemoveVertexUndirect, Kernel.graphRemoveVertexUndirect,
      hloop g.vertices.nodes g false h (by simp)]
    rfl
  intro ns
  induction ns with
  | nil => exact fun _ _ _ _ => rfl
  | cons n rest ih =>
    -- The induction is over the nodes that are left; the flag says that `v` is not among them
    intro g prevFreed hnodup hfreed
    obtain ⟨hn, hrest⟩ := List.nodup_cons.mp hnodup
    rw [removeVertexFrom]
    unfold Kernel.removeEdgesTo
    by_cases hnv : n = v
    · -- `v` is met for the first time, and it does not come again
      have hprev : ¬ prevFreed = true := fun hp => hfreed hp (hnv ▸ List.mem_cons_self)
      rw [if_pos hnv, if_neg hprev, if_pos hnv]
      cases next with
      | same => exact ih (unlinkNode g v) true hrest fun _ => hnv ▸ hn
      | null => rfl
      | other => rfl
    · rw [if_neg hnv, if_neg hnv]
      congr 1
      funext g₁
      exact ih g₁ false hrest (by simp)

namespace NS3

variable {K : Type}

section Division

variable {g g' : Graph (Site K)} {u v : Addr}

/-- The edges after `addEdge` are those before and the new one. -/
private theorem hasEdge_addEdge {a : Addr} (ha : g.Live a) (b : Addr) (r : Int32) :
    (g.addEdge a b r).HasEdge u v ↔ g.HasEdge u v ∨ (u = a ∧ v = b) := by
  simp only [HasEdge, edgesOf_addEdge ha]
  by_cases hu : u = a
  · simp [hu, or_comm, eq_comm]
  · simp [hu]

/-- The edges after `linkRoad` are those before and the new one in both directions. -/
private theorem hasEdge_linkRoad {a b : Addr} (ha : g.Live a) (hb : g.Live b) (r : Int32) :
    (g.linkRoad a b r).HasEdge u v ↔ g.HasEdge u v ∨ (u = a ∧ v = b) ∨ (u = b ∧ v = a) := by
  rw [linkRoad, hasEdge_addEdge (live_addEdge.mpr hb), hasEdge_addEdge ha, or_assoc]

/-- A vertex without edges brings none. -/
private theorem hasEdge_addVertex {w : Vertex (Site K)} (hw : w.edges.nodes = []) :
    (g.addVertex w).HasEdge u v ↔ g.HasEdge u v := by
  simp only [HasEdge, edgesOf_addVertex, hw]
  by_cases hu : u = g.heap.next
  · simp [hu, edgesOf_of_not_live g.heap.not_live_next]
  · simp [hu]

/-- Dividing a road unlinks it by hand in the lists of both its ends. -/
private theorem drift_divide (hu : g.Live u) (hv : g.Live v) {stop : Vertex (Site K)}
    (hstop : stop.edges = listCreate) :
    Drift (fun _ => True) (g.HasEdge u v ∨ g.HasEdge v u) g.excess (divide g u v stop).excess := by
  have hu₁ : (g.addVertex stop).Live u := live_addVertex.mpr (.inr hu)
  have hv₁ : (g.addVertex stop).Live v := live_addVertex.mpr (.inr hv)
  have hn₁ : (g.addVertex stop).Live g.heap.next := live_addVertex.mpr (.inl rfl)
  have hun : u ≠ g.heap.next := hu.lt_next.ne
  have hvn : v ≠ g.heap.next := hv.lt_next.ne
  set r := dividedRoad g u v
  set g₂ := (g.addVertex stop).linkRoad u g.heap.next r
  set g₃ := g₂.linkRoad g.heap.next v r
  -- Up to the removal nothing is unlinked, and no edge between the two ends has come or gone
  have hn₂ : g₂.Live g.heap.next := live_linkRoad.mpr hn₁
  have hv₂ : g₂.Live v := live_linkRoad.mpr hv₁
  have hexcess : g₃.excess = g.excess := by
    rw [excess_linkRoad hn₂ hv₂, excess_linkRoad hu₁ hn₁,
      excess_addVertex (by rw [hstop, excess_listCreate])]
  have hedge {a b : Addr} (ha : a ≠ g.heap.next) (hb : b ≠ g.heap.next) :
      g₃.HasEdge a b ↔ g.HasEdge a b := by
    rw [hasEdge_linkRoad hn₂ hv₂, hasEdge_linkRoad hu₁ hn₁,
      hasEdge_addVertex (by rw [hstop, nodes_listCreate])]
    simp [ha, hb]
  have hdrift := drift_unlinkRoad (g := g₃) (u := u) (v := v) (fun _ => True)
  rw [hexcess, hedge hun hvn, hedge hvn hun] at hdrift
  exact hdrift.congr (by simp)

variable [Field K] [LinearOrder K] [FloorRing K] {env : MapEnv K}

/-- Some edge of the list `es` of `v` leads too far away. -/
def SomeTooLong (env : MapEnv K) (g : Graph (Site K)) (v : Addr) (es : List Edge) : Prop :=
  ∃ e ∈ es, distance env g v e.vertex > maxDist

/-- `edge_division` leaves the graph alone, or it unlinks the road it has found too long. -/
private theorem drift_edgeDivision (h : edgeDivision env g u v = .ok g') :
    (¬ distance env g u v > maxDist ∧ g' = g) ∨
      (distance env g u v > maxDist ∧
        Drift (fun _ => True) (g.HasEdge u v ∨ g.HasEdge v u) g.excess g'.excess) := by
  obtain ⟨f, t, hf, ht, ⟨hshort, rfl⟩ | ⟨hlong, rfl⟩⟩ := edgeDivision_eq_ok h
  · exact .inl ⟨hshort, rfl⟩
  · have hu : g.Live u := Heap.live_iff.mpr ⟨f, hf⟩
    have hv : g.Live v := Heap.live_iff.mpr ⟨t, ht⟩
    exact .inr ⟨hlong, drift_divide hu hv rfl⟩

/-- The division of the roads of one vertex moves the counters, if at all, upwards. -/
private theorem grows_divideEdges {es : List Edge} (h : divideEdges env g v es = .ok g') :
    ∃ hand, Drift (fun _ => True) hand g.excess g'.excess := by
  induction es generalizing g with
  | nil =>
    cases h
    exact ⟨_, .refl _ _⟩
  | cons e es ih =>
    obtain ⟨g₁, h₁, h⟩ := bind_eq_ok.mp h
    obtain ⟨hand, hrest⟩ := ih h
    rcases drift_edgeDivision h₁ with ⟨-, rfl⟩ | ⟨-, hdrift⟩
    · exact ⟨hand, hrest⟩
    · exact ⟨_, hdrift.trans hrest⟩

/-- Over the edges of a vertex the loop changes nothing, or the first road that is too long is
    unlinked by hand. -/
private theorem drift_divideEdges {es : List Edge} (hes : ∀ e ∈ es, g.HasEdge v e.vertex)
    (h : divideEdges env g v es = .ok g') :
    (¬ SomeTooLong env g v es ∧ g' = g) ∨
      (SomeTooLong env g v es ∧ Drift (fun _ => True) True g.excess g'.excess) := by
  induction es with
  | nil =>
    cases h
    exact .inl ⟨by simp [SomeTooLong], rfl⟩
  | cons e es ih =>
    obtain ⟨g₁, h₁, h₂⟩ := bind_eq_ok.mp h
    rcases drift_edgeDivision h₁ with ⟨hshort, rfl⟩ | ⟨hlong, hdrift⟩
    -- A short edge is left, and the loop goes on
    · have hiff : SomeTooLong env g₁ v (e :: es) ↔ SomeTooLong env g₁ v es := by
        simp [SomeTooLong, not_lt.mp hshort |>.not_gt]
      rw [hiff]
      exact ih (fun e' he' => hes e' (List.mem_cons_of_mem _ he')) h₂
    · -- Whatever the rest of the loop does, this counter stays too high
      obtain ⟨hand, hrest⟩ := grows_divideEdges h₂
      have hfirst := hdrift.congr (iff_true_intro (.inl (hes e List.mem_cons_self)))
      exact .inr ⟨⟨e, List.mem_cons_self, hlong⟩, hfirst.trans_of_grown hrest⟩

/-- So does the loop over the vertices. -/
private theorem grows_divideFrom {fuel i : Nat} (h : divideFrom env fuel i g = .ok g') :
    ∃ hand, Drift (fun _ => True) hand g.excess g'.excess := by
  induction fuel generalizing g i with
  | zero => cases h
  | succ fuel ih =>
    obtain ⟨-, rfl⟩ | ⟨w, g₁, -, h₁, h₂⟩ := divideFrom_succ_eq_ok h
    · exact ⟨_, .refl _ _⟩
    · obtain ⟨hand₁, hdrift₁⟩ := grows_divideEdges h₁
      obtain ⟨hand, hdrift⟩ := ih h₂
      exact ⟨_, hdrift₁.trans hdrift⟩

/-- `graph_division` unlinks an edge by hand iff some vertex from the `i`-th on has one that is
    too long. -/
private theorem drift_divideFrom {fuel i : Nat} (h : divideFrom env fuel i g = .ok g') :
    Drift (fun _ => True)
      (∃ w ∈ g.vertices.nodes.drop i, SomeTooLong env g w (g.edgesOf w)) g.excess g'.excess := by
  induction fuel generalizing i with
  | zero => cases h
  | succ fuel ih =>
    obtain ⟨hi, rfl⟩ | ⟨w, g₁, hi, h₁, h₂⟩ := divideFrom_succ_eq_ok h
    -- The loop is past the last vertex
    · have hdrop : g'.vertices.nodes.drop i = [] :=
        List.drop_eq_nil_of_le (List.getElem?_eq_none_iff.mp hi)
      exact (Drift.refl _ _).congr (by simp [hdrop])
    · obtain ⟨hlt, hget⟩ := List.getElem?_eq_some_iff.mp hi
      have hdrop : g.vertices.nodes.drop i = w :: g.vertices.nodes.drop (i + 1) := by
        rw [← hget, List.getElem_cons_drop]
      rcases drift_divideEdges (fun e he => ⟨e, he, rfl⟩) h₁ with ⟨hshort, rfl⟩ | ⟨hlong, hdrift⟩
      -- No edge of this vertex was cut
      · refine (ih h₂).congr ?_
        rw [hdrop, List.exists_mem_cons_iff]
        exact (or_iff_right hshort).symm
      -- Some edge of this vertex was cut, and whatever comes after it no counter goes down
      · obtain ⟨hand, hrest⟩ := grows_divideFrom h₂
        refine (hdrift.trans_of_grown hrest).congr (iff_of_true trivial ?_)
        exact ⟨w, hdrop ▸ List.mem_cons_self, hlong⟩

/-- The call unlinks an edge of a list that stays. -/
def MapCall.UnlinksByHand (env : MapEnv K) (g : Graph (Site K)) : MapCall K → Prop
  | .common call => call.UnlinksByHand g
  | .addVertex _ => False
  | .addUndirectExclusive src dst _ => g.HasEdge src dst ∨ g.HasEdge dst src
  | .edgeDivision src dst =>
    distance env g src dst > maxDist ∧ (g.HasEdge src dst ∨ g.HasEdge dst src)
  | .graphDivision _ => ∃ v ∈ g.vertices.nodes, SomeTooLong env g v (g.edgesOf v)

/-- What the call finds in freed memory does not lead it astray. -/
def MapCall.FreedHarmless (g : Graph (Site K)) : MapCall K → Prop
  | .common call => call.FreedHarmless g
  | _ => True

/-- The call with the freed memory intact. -/
def MapCall.intact : MapCall K → MapCall K
  | .common call => .common call.intact
  | call => call

/-- A call of the simulation that returns with the freed memory intact returns exactly if it is
not led astray. -/
private theorem MapCall.ok_iff {call : MapCall K} (h : ∃ g', call.intact.apply env g = .ok g') :
    (∃ g', call.apply env g = .ok g') ↔ call.FreedHarmless g := by
  cases call with
  | common call => exact GraphCall.ok_iff h
  | _ => exact iff_of_true h trivial

/-- A call that returns was not led astray. -/
private theorem MapCall.freedHarmless_of_ok {call : MapCall K} (h : call.apply env g = .ok g') :
    call.FreedHarmless g := by
  cases call with
  | common call => exact GraphCall.freedHarmless_of_ok h
  | _ => trivial

/-- What the counters need of a call: it unlinks nothing by hand, and is not led astray. -/
def MapCall.Careful (env : MapEnv K) (g : Graph (Site K)) (call : MapCall K) : Prop :=
  ¬ call.UnlinksByHand env g ∧ call.FreedHarmless g

/-- A call of the simulation that returns keeps the counters right exactly if it unlinks no edge
by hand. -/
theorem MapCall.counted_iff (hg : g.Counted) {call : MapCall K} (h : call.apply env g = .ok g') :
    g'.Counted ↔ ¬ call.UnlinksByHand env g := by
  cases call with
  | common call => exact call.counted_iff hg h
  | addVertex vertex =>
    cases h
    refine hg.iff_of_excess_eq (funext fun l => ?_)
    cases l with
    | none => exact excess_listAddDataTail g.vertices vertex
    | some p => rfl
  | addUndirectExclusive src dst roadId =>
    obtain ⟨g₁, h₁, h₂⟩ := bind_eq_ok.mp h
    refine hg.iff_of_drift ?_
    -- What is added afterwards is counted
    rw [excess_addUndirect h₂, unlinkRoad_of_ok h₁]
    exact (drift_unlinkRoad _).congr (by simp [UnlinksByHand])
  | edgeDivision src dst =>
    refine hg.iff_of_drift ?_
    rcases drift_edgeDivision h with ⟨hshort, rfl⟩ | ⟨hlong, hdrift⟩
    · exact (Drift.refl _ _).congr (iff_of_false not_false fun hu => hshort hu.1)
    · exact hdrift.congr (and_iff_right hlong).symm
  | graphDivision fuel =>
    -- The globals it sets do not enter the distances
    exact hg.iff_of_drift (drift_divideFrom h)

end Division

end NS3

/-- The call unlinks an edge of a list that stays. -/
def Kernel.MapCall.UnlinksByHand (g : Kernel.RoadGraph) : Kernel.MapCall → Prop
  | .common call => call.UnlinksByHand g
  | .addVertex _ => False

/-- The same of a call of the kernel module. -/
theorem Kernel.MapCall.counted_iff {g g' : Kernel.RoadGraph} (hg : g.Counted)
    {call : Kernel.MapCall} (h : call.apply g = .ok g') :
    g'.Counted ↔ ¬ call.UnlinksByHand g := by
  cases call with
  | common call => exact call.counted_iff hg h
  | addVertex vertex =>
    cases h
    refine hg.iff_of_excess_eq (funext fun l => ?_)
    cases l with
    | none => exact excess_listAddData g.vertices vertex
    | some p => rfl

@[inherit_doc NS3.MapCall.FreedHarmless]
def Kernel.MapCall.FreedHarmless (g : Kernel.RoadGraph) : Kernel.MapCall → Prop
  | .common call => call.FreedHarmless g
  | .addVertex _ => True

@[inherit_doc NS3.MapCall.intact]
def Kernel.MapCall.intact : Kernel.MapCall → Kernel.MapCall
  | .common call => .common call.intact
  | .addVertex vertex => .addVertex vertex

/-- A call of the kernel module that returns with the freed memory intact returns exactly if it is
not led astray. -/
private theorem Kernel.MapCall.ok_iff {g : Kernel.RoadGraph} {call : Kernel.MapCall}
    (h : ∃ g', call.intact.apply g = .ok g') :
    (∃ g', call.apply g = .ok g') ↔ call.FreedHarmless g := by
  cases call with
  | common call => exact GraphCall.ok_iff h
  | addVertex vertex => exact iff_of_true h trivial

/-- A call of the kernel module that returns was not led astray. -/
private theorem Kernel.MapCall.freedHarmless_of_ok {g g' : Kernel.RoadGraph} {call : Kernel.MapCall}
    (h : call.apply g = .ok g') : call.FreedHarmless g := by
  cases call with
  | common call => exact GraphCall.freedHarmless_of_ok h
  | addVertex vertex => trivial

@[inherit_doc NS3.MapCall.Careful]
def Kernel.MapCall.Careful (g : Kernel.RoadGraph) (call : Kernel.MapCall) : Prop :=
  ¬ call.UnlinksByHand g ∧ call.FreedHarmless g

/-! ## Runs -/

/-- A call of the NS-3 copy that unlinks nothing by hand and is not led astray. -/
def NS3.CarefulStep {K : Type} [Field K] [LinearOrder K] [FloorRing K] (env : NS3.MapEnv K)
    (g : Graph (NS3.Site K)) (call : NS3.MapCall K) (g' : Graph (NS3.Site K)) : Prop :=
  call.Careful env g ∧ call.apply env g = .ok g'

/-- A call of the kernel copy that unlinks nothing by hand and is not led astray. -/
def Kernel.CarefulStep (g : Kernel.RoadGraph) (call : Kernel.MapCall) (g' : Kernel.RoadGraph) :
    Prop := call.Careful g ∧ call.apply g = .ok g'

/-- In both copies the counters are right after every run of careful calls. A call that returns
    then keeps them right exactly if it is careful, and a call that would return if the freed
    memory were intact returns and keeps them right exactly if it is. -/
theorem counted_run {K : Type} [Field K] [LinearOrder K] [FloorRing K] (env : NS3.MapEnv K) :
    (∀ calls g, Run (NS3.CarefulStep env) graphCreate calls g → g.Counted ∧
      ∀ call : NS3.MapCall K,
        (∀ g', call.apply env g = .ok g' → (g'.Counted ↔ call.Careful env g)) ∧
        ((∃ g', call.intact.apply env g = .ok g') →
          ((∃ g', call.apply env g = .ok g' ∧ g'.Counted) ↔ call.Careful env g))) ∧
    (∀ calls g, Run Kernel.CarefulStep graphCreate calls g → g.Counted ∧
      ∀ call : Kernel.MapCall,
        (∀ g', call.apply g = .ok g' → (g'.Counted ↔ call.Careful g)) ∧
        ((∃ g', call.intact.apply g = .ok g') →
          ((∃ g', call.apply g = .ok g' ∧ g'.Counted) ↔ call.Careful g))) := by
  constructor
  · intro calls g hrun
    -- The counters stay right as long as the calls are careful, and what the next call does is
    -- exact
    have hg : g.Counted := hrun.invariant counted_graphCreate fun g call g' hg hstep =>
      (NS3.MapCall.counted_iff hg hstep.2).mpr hstep.1.1
    refine ⟨hg, fun call => ⟨fun g' h => ?_, fun h => ?_⟩⟩
    · rw [NS3.MapCall.counted_iff hg h, NS3.MapCall.Careful,
        and_iff_left (NS3.MapCall.freedHarmless_of_ok h)]
    · constructor
      · rintro ⟨g', hok, hcounted⟩
        exact ⟨(NS3.MapCall.counted_iff hg hok).mp hcounted, NS3.MapCall.freedHarmless_of_ok hok⟩
      · intro ⟨hhand, hfreed⟩
        obtain ⟨g', hok⟩ := (NS3.MapCall.ok_iff h).mpr hfreed
        exact ⟨g', hok, (NS3.MapCall.counted_iff hg hok).mpr hhand⟩
  -- The same for the kernel module
  · intro calls g hrun
    have hg : g.Counted := hrun.invariant counted_graphCreate fun g call g' hg hstep =>
      (Kernel.MapCall.counted_iff hg hstep.2).mpr hstep.1.1
    refine ⟨hg, fun call => ⟨fun g' h => ?_, fun h => ?_⟩⟩
    · rw [Kernel.MapCall.counted_iff hg h, Kernel.MapCall.Careful,
        and_iff_left (Kernel.MapCall.freedHarmless_of_ok h)]
    · constructor
      · rintro ⟨g', hok, hcounted⟩
        exact ⟨(Kernel.MapCall.counted_iff hg hok).mp hcounted,
          Kernel.MapCall.freedHarmless_of_ok hok⟩
      · intro ⟨hhand, hfreed⟩
        obtain ⟨g', hok⟩ := (Kernel.MapCall.ok_iff h).mpr hfreed
        exact ⟨g', hok, (Kernel.MapCall.counted_iff hg hok).mpr hhand⟩

/-- Two vertices and the road between them. -/
def NS3.roadCalls : List (NS3.MapCall ℚ) :=
  [.common (.vertexCreate "a" 1 ⟨0, 0, true⟩), .addVertex 1,
    .common (.vertexCreate "b" 2 ⟨1, 0, true⟩), .addVertex 2, .common (.addUndirect 1 2 7)]

@[inherit_doc NS3.roadCalls]
def Kernel.roadCalls : List Kernel.MapCall :=
  [.common (.vertexCreate "a" 1 ()), .addVertex 1, .common (.vertexCreate "b" 2 ()), .addVertex 2,
    .common (.addUndirect 1 2 7)]

/-- Both copies have a run of careful calls that builds and takes away roads. -/
theorem counted_run_roadCalls :
    (∃ g, Run (NS3.CarefulStep NS3.gridEnv) graphCreate NS3.roadCalls g ∧ g.Counted) ∧
      ∃ g, Run Kernel.CarefulStep graphCreate Kernel.roadCalls g ∧ g.Counted := by
  have hns : ∃ g, Run (NS3.CarefulStep NS3.gridEnv) graphCreate NS3.roadCalls g :=
    ⟨_, ((((Run.nil.snoc ⟨⟨id, trivial⟩, rfl⟩).snoc ⟨⟨id, trivial⟩, rfl⟩).snoc
      ⟨⟨id, trivial⟩, rfl⟩).snoc ⟨⟨id, trivial⟩, rfl⟩).snoc ⟨⟨id, trivial⟩, rfl⟩⟩
  have hkernel : ∃ g, Run Kernel.CarefulStep graphCreate Kernel.roadCalls g :=
    ⟨_, ((((Run.nil.snoc ⟨⟨id, trivial⟩, rfl⟩).snoc ⟨⟨id, trivial⟩, rfl⟩).snoc
      ⟨⟨id, trivial⟩, rfl⟩).snoc ⟨⟨id, trivial⟩, rfl⟩).snoc ⟨⟨id, trivial⟩, rfl⟩⟩
  obtain ⟨g, hg⟩ := hns
  obtain ⟨g', hg'⟩ := hkernel
  exact ⟨⟨g, hg, ((counted_run NS3.gridEnv).1 _ g hg).1⟩,
    ⟨g', hg', ((counted_run NS3.gridEnv).2 _ g' hg').1⟩⟩

/-- `vertex_remove_edge_to_vertex` on that road leaves vertex 1 a list without nodes whose
    counter is one. -/
theorem not_counted_removeEdgeTo :
    (∃ g : Graph (NS3.Site ℚ),
      Run (fun g call g' => NS3.MapCall.apply NS3.gridEnv g call = .ok g') graphCreate
        (NS3.roadCalls ++ [.common (.removeEdgeTo 1 2)]) g ∧ ¬ g.Counted) ∧
      ∃ g : Kernel.RoadGraph,
        Run (fun g call g' => Kernel.MapCall.apply g call = .ok g') graphCreate
          (Kernel.roadCalls ++ [.common (.removeEdgeTo 1 2)]) g ∧ ¬ g.Counted := by
  constructor
  -- The counter of the row of vertex 1 says one, and the row is empty
  · refine ⟨_, .of_foldlM (f := NS3.MapCall.apply NS3.gridEnv) rfl, fun h => ?_⟩
    have hcount : (1 : Int) = 0 := h.edges 1 _ rfl
    exact absurd hcount (by decide)
  · refine ⟨_, .of_foldlM (f := Kernel.MapCall.apply) rfl, fun h => ?_⟩
    have hcount : (1 : Int) = 0 := h.edges 1 _ rfl
    exact absurd hcount (by decide)

end MapRelay
