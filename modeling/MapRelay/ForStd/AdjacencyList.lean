import Mathlib.Data.List.InsertIdx
import Mathlib.Data.List.Nodup
import Mathlib.Data.Multiset.Filter
import Mathlib.Data.Sym.Sym2

/-!
# Undirected multigraphs with a list of vertices

The vertices of an adjacency list are in an order, and the `i`-th one is found by counting.
Parallel edges and loops are allowed. Where the vertices have different labels, what the graph
says is its list of labels and its multiset of links, the unordered pairs of the labels at both
ends; taking out a vertex takes out its label, and the links that it is in.
-/

namespace ForStd

open scoped List

/-- A graph whose vertices are labelled by `prop`. Edges run between vertices. -/
structure AdjacencyList (P : Type) where
  vertices : List Nat
  edges : List (Nat × Nat)
  prop : Nat → P
  nodup : vertices.Nodup
  closed : ∀ e ∈ edges, e.1 ∈ vertices ∧ e.2 ∈ vertices

namespace AdjacencyList

variable {P : Type}

/-- `n` vertices with the label `p`, and edges between the vertices at these positions. -/
def ofEdges (n : Nat) (es : List (Nat × Nat)) (p : P) : Option (AdjacencyList P) :=
  if h : ∀ e ∈ es, e.1 < n ∧ e.2 < n then
    some
      { vertices := List.range n
        edges := es
        prop := fun _ => p
        nodup := List.nodup_range
        closed := by simpa using h }
  else none

/-- An edge between two vertices of the graph. -/
def addEdge (g : AdjacencyList P) (u v : Nat) : Option (AdjacencyList P) :=
  if h : u ∈ g.vertices ∧ v ∈ g.vertices then
    some
      { g with
        edges := g.edges ++ [(u, v)]
        closed := by
          intro e he
          rcases List.mem_append.mp he with he | he
          · exact g.closed e he
          · cases List.mem_singleton.mp he
            exact h }
  else none

/-- The number of edge ends at `u`. -/
def outDegree (g : AdjacencyList P) (u : Nat) : Nat :=
  g.edges.countP (·.1 == u) + g.edges.countP (·.2 == u)

/-- Take out the edges at `u`. -/
def clearVertex (g : AdjacencyList P) (u : Nat) : AdjacencyList P :=
  { g with
    edges := g.edges.filter fun e => e.1 ≠ u ∧ e.2 ≠ u
    closed := fun e he => g.closed e (List.mem_of_mem_filter he) }

/-- Take out a vertex without edges. -/
def removeVertex (g : AdjacencyList P) (u : Nat) : Option (AdjacencyList P) :=
  if h : ∀ e ∈ g.edges, e.1 ≠ u ∧ e.2 ≠ u then
    some
      { g with
        vertices := g.vertices.erase u
        nodup := g.nodup.erase u
        closed := fun e he =>
          ⟨(List.mem_erase_of_ne (h e he).1).mpr (g.closed e he).1,
            (List.mem_erase_of_ne (h e he).2).mpr (g.closed e he).2⟩ }
  else none

/-- Give a vertex another label. -/
def setProp (g : AdjacencyList P) (u : Nat) (p : P) : AdjacencyList P :=
  { g with prop := fun v => if v = u then p else g.prop v }

/-- The labels, in the order of the vertices. -/
def labels (g : AdjacencyList P) : List P := g.vertices.map g.prop

/-- The labels at both ends of each edge. -/
def links (g : AdjacencyList P) : Multiset (Sym2 P) :=
  (g.edges.map fun e => s(g.prop e.1, g.prop e.2) : List (Sym2 P))

variable {g g' : AdjacencyList P} {u v : Nat}

/-- The label of a vertex by its number. -/
theorem getElem?_labels {i : Nat} (hu : g.vertices[i]? = some u) :
    g.labels[i]? = some (g.prop u) := by
  rw [labels, List.getElem?_map, hu, Option.map_some]

/-- An edge between vertices is added to the links. -/
theorem addEdge_of_mem (hu : u ∈ g.vertices) (hv : v ∈ g.vertices) :
    ∃ g', g.addEdge u v = some g' ∧ g'.vertices = g.vertices ∧ g'.labels = g.labels ∧
      g'.links = s(g.prop u, g.prop v) ::ₘ g.links := by
  refine ⟨_, dif_pos ⟨hu, hv⟩, rfl, rfl, ?_⟩
  rw [links, links, List.map_append, ← Multiset.coe_add, add_comm]
  rfl

/-- Where the labels differ, a vertex is told by its label. -/
theorem prop_inj (hnodup : g.labels.Nodup) (hu : u ∈ g.vertices) (hv : v ∈ g.vertices) :
    g.prop u = g.prop v ↔ u = v :=
  ⟨List.inj_on_of_nodup_map hnodup hu hv, fun h => h ▸ rfl⟩

/-- A link has the label of a vertex exactly if the vertex is one of its ends. -/
theorem prop_mem_link (hnodup : g.labels.Nodup) (hu : u ∈ g.vertices) {e : Nat × Nat}
    (he : e ∈ g.edges) : g.prop u ∈ s(g.prop e.1, g.prop e.2) ↔ e.1 = u ∨ e.2 = u := by
  obtain ⟨h₁, h₂⟩ := g.closed e he
  rw [Sym2.mem_iff, prop_inj hnodup hu h₁, prop_inj hnodup hu h₂, @eq_comm _ u, @eq_comm _ u]

/-- Clearing a vertex drops its links. -/
theorem links_clearVertex [DecidableEq P] (hnodup : g.labels.Nodup) (hu : u ∈ g.vertices) :
    (g.clearVertex u).links = g.links.filter (g.prop u ∉ ·) := by
  have hkept : ∀ e ∈ g.edges, decide (e.1 ≠ u ∧ e.2 ≠ u) =
      decide (g.prop u ∉ s(g.prop e.1, g.prop e.2)) := by
    intro e he
    rw [decide_eq_decide, prop_mem_link hnodup hu he, not_or]
  rw [links, links, Multiset.filter_coe, List.filter_map]
  exact congrArg _ (congrArg _ (List.filter_congr hkept))

/-- Clearing and removing the `i`-th vertex. -/
theorem removeVertex_clearVertex [DecidableEq P] (hnodup : g.labels.Nodup) {i : Nat}
    (hu : g.vertices[i]? = some u) :
    ∃ g', (g.clearVertex u).removeVertex u = some g' ∧ g'.labels = g.labels.eraseIdx i ∧
      g'.links = g.links.filter (g.prop u ∉ ·) := by
  have hno : ∀ e ∈ (g.clearVertex u).edges, e.1 ≠ u ∧ e.2 ≠ u := fun e he => by
    simpa using List.of_mem_filter he
  obtain ⟨hi, rfl⟩ := List.getElem?_eq_some_iff.mp hu
  refine ⟨_, dif_pos hno, ?_, links_clearVertex hnodup (List.getElem_mem hi)⟩
  rw [labels, labels, List.eraseIdx_map]
  exact congrArg (List.map g.prop) (g.nodup.erase_getElem i hi)

end AdjacencyList

/-- Links that come in groups are filtered so that some groups stay whole: the others are gone
    exactly if none of their links passes. -/
theorem filter_groups_eq_iff {ρ L : Type} {groups : List ρ} {links : ρ → List L} {p : L → Bool}
    {q : ρ → Bool} (hkept : ∀ r ∈ groups, q r → ∀ s ∈ links r, p s) :
    (((groups.flatMap links).filter p : List L) : Multiset L) =
        ((groups.filter q).flatMap links : List L) ↔
      ∀ r ∈ groups, ¬ q r → ∀ s ∈ links r, ¬ p s := by
  have hsplit : (groups.flatMap links).filter p ~ (groups.filter q).flatMap links ++
      (groups.filter fun r => !q r).flatMap fun r => (links r).filter p := by
    have hwhole : (groups.filter q).flatMap (fun r => (links r).filter p) =
        (groups.filter q).flatMap links := by
      refine List.flatMap_congr fun r hr => List.filter_eq_self.mpr ?_
      obtain ⟨hr, hq⟩ := List.mem_filter.mp hr
      exact hkept r hr hq
    rw [List.filter_flatMap, ← hwhole, ← List.flatMap_append]
    exact ((List.filter_append_perm q groups).symm).flatMap_right _
  rw [Multiset.coe_eq_coe.mpr hsplit, ← Multiset.coe_add, add_eq_left, Multiset.coe_eq_zero,
    List.flatMap_eq_nil_iff]
  simp [List.filter_eq_nil_iff]

end ForStd
