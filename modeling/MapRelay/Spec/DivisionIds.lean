import Mathlib.Algebra.Order.Group.Multiset
import MapRelay.ForStd.PairSum
import MapRelay.Spec.CrossVertex
import MapRelay.Spec.GraphDivision

/-!
# The ids of the vertices that division adds

`edge_division` names a new vertex after its coordinates and does not look whether the graph has
such a vertex already. Which vertices there will be is settled by the graph before the division:
each edge goes its way alone, by the order in which the loop comes to its ends.
-/

namespace MapRelay.NS3

open ForStd MapRelay.Graph

variable {K : Type}

/-! ## The visits to come -/

section Visits

variable {A : Type} {g : Graph A} {done : List Addr} {v x y : Addr} {es : List Edge}

/-- How often the loop is to meet an edge from `x` to `y` at `x`, between the visits of two
    vertices. -/
def visits (g : Graph A) (done : List Addr) (x y : Addr) : Nat :=
  if x ∈ done then 0 else (g.roads x y).length

/-- The same while it visits `v`, with the edges `es` before it. -/
def visitsAt (g : Graph A) (done : List Addr) (v : Addr) (es : List Edge) (x y : Addr) : Nat :=
  if x = v then (es.map Edge.vertex).count y else visits g done x y

/-- The loop does not come back to a vertex that is done. -/
private theorem visits_of_mem (hx : x ∈ done) : visits g done x y = 0 := if_pos hx

/-- At a vertex that is not done the loop meets all its edges. -/
private theorem visits_of_notMem (hx : x ∉ done) : visits g done x y = (g.roads x y).length :=
  if_neg hx

/-- At the vertex the loop is at, the edges before it are left. -/
private theorem visitsAt_self : visitsAt g done v es v y = (es.map Edge.vertex).count y :=
  if_pos rfl

/-- At the other vertices it is as between two visits. -/
private theorem visitsAt_of_ne (hx : x ≠ v) : visitsAt g done v es x y = visits g done x y :=
  if_neg hx

/-- The roads from `x` to `y` are as many as the edges in the row of `x` that lead to `y`. -/
private theorem length_roads (g : Graph A) (x y : Addr) :
    (g.roads x y).length = ((g.edgesOf x).map Edge.vertex).count y := by
  rw [roads, List.length_map, ← List.countP_eq_length_filter, List.count, List.countP_map]
  rfl

/-- At the start of a visit all edges are before the loop. -/
private theorem visitsAt_start (hv : v ∉ done) :
    visitsAt g done v (g.edgesOf v) = visits g done := by
  funext x y
  by_cases hx : x = v
  · rw [hx, visitsAt_self, visits_of_notMem hv, length_roads]
  · rw [visitsAt_of_ne hx]

/-- At its end none is. -/
private theorem visitsAt_nil : visitsAt g done v [] = visits g (done ++ [v]) := by
  funext x y
  by_cases hx : x = v
  · rw [hx, visitsAt_self, visits_of_mem (by simp)]
    rfl
  · rw [visitsAt_of_ne hx, visits, visits]
    simp [hx]

end Visits

/-! ## One edge -/

/-- The loop is at the vertex `v`, between the vertices `done` and `rest` of the list, with the
    edges `es` before it. -/
structure Visiting (g : Graph (Site K)) (done : List Addr) (v : Addr) (rest : List Addr)
    (es : List Edge) : Prop where
  wf : g.WF
  symm : g.roads.Symm
  nodes : g.vertices.nodes = done ++ v :: rest
  closed : ∀ e ∈ es, e.vertex ∈ g.vertices.nodes
  left : ∀ w, w ∉ done → w ≠ v → (es.map Edge.vertex).count w ≤ (g.roads w v).length

section Edge

variable {g : Graph (Site K)} {done rest : List Addr} {v : Addr} {e : Edge}
  {es : List Edge}

/-- The vertex that is visited is one of the graph. -/
theorem Visiting.mem (h : Visiting g done v rest es) : v ∈ g.vertices.nodes := by
  rw [h.nodes]
  simp

/-- It is not among those that are done. -/
private theorem Visiting.notMem_done (h : Visiting g done v rest es) : v ∉ done := by
  have hnodup := h.wf.nodup
  rw [h.nodes] at hnodup
  intro hmem
  exact (List.nodup_append.mp hnodup).2.2 v hmem v List.mem_cons_self rfl

/-- Which end of an edge of `v` is in front. -/
theorem Visiting.order (h : Visiting g done v rest es) {w : Addr} (hw : w ∈ g.vertices.nodes)
    (hne : w ≠ v) :
    (w ∈ done ∧ [w, v].Sublist g.vertices.nodes) ∨
      (w ∉ done ∧ [v, w].Sublist g.vertices.nodes) := by
  by_cases hdone : w ∈ done
  · refine .inl ⟨hdone, ?_⟩
    rw [h.nodes]
    exact (List.singleton_sublist.mpr hdone).append
      (List.singleton_sublist.mpr List.mem_cons_self)
  · refine .inr ⟨hdone, ?_⟩
    rw [h.nodes] at hw ⊢
    have hrest : w ∈ rest := by simpa [hdone, hne] using hw
    exact (List.nil_sublist done).append ((List.singleton_sublist.mpr hrest).cons_cons v)

/-- The loop goes on to the next edge. -/
theorem Visiting.tail (h : Visiting g done v rest (e :: es)) : Visiting g done v rest es where
  wf := h.wf
  symm := h.symm
  nodes := h.nodes
  closed e' he' := h.closed e' (List.mem_cons_of_mem e he')
  left w hw hne := by
    have hle := h.left w hw hne
    rw [List.map_cons, List.count_cons] at hle
    omega

/-- A visit starts with all edges of the vertex. -/
theorem Visiting.start (h : g.WF) (hsymm : g.roads.Symm)
    (hnodes : g.vertices.nodes = done ++ v :: rest) :
    Visiting g done v rest (g.edgesOf v) where
  wf := h
  symm := hsymm
  nodes := hnodes
  closed e he := h.closed v e he
  left w _ _ := by rw [← length_roads, hsymm]

end Edge

/-! ## A cut -/

section Cut

variable {g : Graph (Site K)} {done rest : List Addr} {v w x y : Addr} {e : Edge}
  {es : List Edge} {s : Vertex (Site K)}

/-- A cut puts the two parts into both directions. -/
private theorem symm_divide (h : g.WF) (hsymm : g.roads.Symm) (hv : v ∈ g.vertices.nodes)
    (hw : w ∈ g.vertices.nodes) (hs : s.edges.nodes = []) : (divide g v w s).roads.Symm := by
  rw [roads_divide ((h.live_iff v).mpr hv) ((h.live_iff w).mpr hw) hs]
  exact ((hsymm.link _ _ _).link _ _ _).unlink _ _

/-- Between the old vertices only the edge is gone. -/
private theorem length_roads_divide (h : g.WF) (hv : v ∈ g.vertices.nodes)
    (hw : w ∈ g.vertices.nodes) (hvw : v ≠ w) (hs : s.edges.nodes = []) (hx : x ∈ g.vertices.nodes)
    (hy : y ∈ g.vertices.nodes) :
    ((divide g v w s).roads x y).length =
      if Links.SamePair x y v w then (g.roads x y).length - 1 else (g.roads x y).length := by
  -- The new vertex is none of the old ones, so that the links to it are not between `x` and `y`
  have hnext : ∀ z ∈ g.vertices.nodes, z ≠ g.heap.next := by
    rintro z hz rfl
    exact h.next_not_mem hz
  have hlinks : ((g.roads.link v g.heap.next (dividedRoad g v w)).link g.heap.next w
      (dividedRoad g v w)) x y = g.roads x y := by
    rw [Links.link_of_not_samePair, Links.link_of_not_samePair]
    · rintro (⟨-, heq⟩ | ⟨heq, -⟩)
      exacts [hnext y hy heq, hnext x hx heq]
    · rintro (⟨heq, -⟩ | ⟨-, heq⟩)
      exacts [hnext x hx heq, hnext y hy heq]
  rw [roads_divide ((h.live_iff v).mpr hv) ((h.live_iff w).mpr hw) hs]
  split
  case isTrue hpair => rw [Links.unlink_of_samePair hvw hpair, hlinks, List.length_tail]
  case isFalse hpair => rw [Links.unlink_of_not_samePair hpair, hlinks]

/-- The new vertex is linked to the two ends. -/
private theorem length_roads_divide_next (h : g.WF) (hv : v ∈ g.vertices.nodes)
    (hw : w ∈ g.vertices.nodes) (hvw : v ≠ w) (hs : s.edges.nodes = []) :
    ((divide g v w s).roads g.heap.next x).length = if x = v ∨ x = w then 1 else 0 := by
  -- The new vertex has one link to each end of the cut edge, and no other
  have hnext : ∀ z ∈ g.vertices.nodes, g.heap.next ≠ z := by
    rintro z hz rfl
    exact h.next_not_mem hz
  have hapart : ¬ Links.SamePair g.heap.next x v w := by
    rintro (⟨heq, -⟩ | ⟨heq, -⟩)
    exacts [hnext v hv heq, hnext w hw heq]
  rw [roads_divide ((h.live_iff v).mpr hv) ((h.live_iff w).mpr hw) hs,
    Links.unlink_of_not_samePair hapart]
  by_cases hxw : x = w
  · -- The second of the two links
    have hnot : ¬ Links.SamePair g.heap.next x v g.heap.next := by
      rintro (⟨heq, -⟩ | ⟨-, heq⟩)
      exacts [hnext v hv heq, hvw (heq.symm.trans hxw)]
    rw [Links.link_of_samePair (hnext w hw) (.inl ⟨rfl, hxw⟩), Links.link_of_not_samePair hnot,
      h.roads_next, if_pos (.inr hxw)]
    rfl
  · have hnot : ¬ Links.SamePair g.heap.next x g.heap.next w := by
      rintro (⟨-, heq⟩ | ⟨heq, -⟩)
      exacts [hxw heq, hnext w hw heq]
    rw [Links.link_of_not_samePair hnot]
    by_cases hxv : x = v
    · -- The first one
      rw [Links.link_of_samePair (hnext v hv).symm (.inr ⟨rfl, hxv⟩), h.roads_next,
        if_pos (.inl hxv)]
      rfl
    · have hnot' : ¬ Links.SamePair g.heap.next x v g.heap.next := by
        rintro (⟨heq, -⟩ | ⟨-, heq⟩)
        exacts [hnext v hv heq, hxv heq]
      rw [Links.link_of_not_samePair hnot', h.roads_next, if_neg (by simp [hxv, hxw])]
      rfl

/-- After a cut the loop is still at its vertex, and the new vertex is among the rest. -/
theorem Visiting.divide (h : Visiting g done v rest (e :: es)) (hvw : v ≠ e.vertex)
    (hs : s.edges.nodes = []) :
    Visiting (divide g v e.vertex s) done v (rest ++ [g.heap.next]) es where
  wf := wf_divide h.wf h.mem (h.closed e List.mem_cons_self) hs
  symm := symm_divide h.wf h.symm h.mem (h.closed e List.mem_cons_self) hs
  nodes := by
    rw [vertices_divide, h.nodes]
    simp
  closed e' he' := by
    rw [vertices_divide]
    exact List.mem_append_left _ (h.closed e' (List.mem_cons_of_mem e he'))
  left w hw hne := by
    -- The other ends of the edges of `v` are old vertices, or the new one, to which no edge before
    -- the loop leads
    by_cases hmem : w ∈ g.vertices.nodes
    · -- The edge that is gone has been counted
      have hle := h.left w hw hne
      rw [length_roads_divide h.wf h.mem (h.closed e List.mem_cons_self) hvw hs hmem h.mem]
      rw [List.map_cons, List.count_cons] at hle
      by_cases hwe : e.vertex = w
      · rw [if_pos (.inr ⟨hwe.symm, rfl⟩)]
        simp only [hwe, beq_self_eq_true, if_true] at hle
        omega
      · rw [if_neg]
        · omega
        · rintro (⟨heq, -⟩ | ⟨heq, -⟩)
          exacts [hne heq, hwe heq.symm]
    · -- No edge that was there before leads to a new vertex
      rw [List.count_eq_zero_of_not_mem]
      · exact Nat.zero_le _
      · rintro hin
        obtain ⟨e', he', rfl⟩ := List.mem_map.mp hin
        exact hmem (h.closed e' (List.mem_cons_of_mem e he'))

/-- Between two old vertices the visits to come are those of before, but for the edge. -/
private theorem Visiting.visitsAt_divide (h : Visiting g done v rest (e :: es)) (hvw : v ≠ e.vertex)
    (hs : s.edges.nodes = []) (hx : x ∈ g.vertices.nodes)
    (hy : y ∈ g.vertices.nodes) :
    visitsAt (NS3.divide g v e.vertex s) done v es x y =
      if Links.SamePair x y v e.vertex then visitsAt g done v (e :: es) x y - 1
      else visitsAt g done v (e :: es) x y := by
  -- The edge is taken out between its ends, in both directions, and elsewhere all is as before
  by_cases hxv : x = v
  · subst hxv
    rw [visitsAt_self, visitsAt_self, List.map_cons, List.count_cons]
    by_cases hye : y = e.vertex
    · rw [if_pos (.inl ⟨rfl, hye⟩), hye]
      simp
    · rw [if_neg, if_neg (by simpa using fun heq => hye heq.symm), Nat.add_zero]
      rintro (⟨-, heq⟩ | ⟨heq, -⟩)
      exacts [hye heq, hvw heq]
  · rw [visitsAt_of_ne hxv, visitsAt_of_ne hxv]
    by_cases hdone : x ∈ done
    · rw [visits_of_mem hdone, visits_of_mem hdone]
      split <;> rfl
    · rw [visits_of_notMem hdone, visits_of_notMem hdone,
        length_roads_divide h.wf h.mem (h.closed e List.mem_cons_self) hvw hs hx hy]

/-- The ids of the vertices, in the order of the list. -/
def idsOf {A : Type} (g : Graph A) : List String :=
  g.vertices.nodes.map fun p => (g.idOf p).getD ""

/-- A cut puts one id at the end. -/
theorem idsOf_divide (h : g.WF) :
    idsOf (NS3.divide g v w s) = idsOf g ++ [s.idStr] := by
  rw [idsOf, idsOf, vertices_divide, List.map_append]
  congr 1
  · refine List.map_congr_left fun p hp => ?_
    rw [Graph.idOf_eq, Graph.idOf_eq, dataOf_divide_of_mem h hp]
  · rw [List.map_singleton, Graph.idOf_eq, dataOf_divide, if_pos rfl]
    rfl

end Cut

variable [Field K] [LinearOrder K] [FloorRing K]

/-! ## The stops on an edge -/

/-- The vertex that `edge_division` creates between two places. -/
def stop (env : MapEnv K) (f t : Site K) : Vertex (Site K) :=
  stopVertex env (vertexCreate "" 0 f) (vertexCreate "" 0 t)

/-- `edge_division` cuts an edge between two places. -/
def TooLong (env : MapEnv K) (f t : Site K) : Prop := env.getDistance f.y f.x t.y t.x > maxDist

instance (env : MapEnv K) (f t : Site K) : Decidable (TooLong env f t) :=
  inferInstanceAs (Decidable (_ > _))

/-- The ids of the stops, up to a depth, on an edge that the loop meets from `f` only: at the new
    vertex it meets the two parts, whose other ends are done. -/
def lateStops (env : MapEnv K) : Nat → Site K → Site K → List String
  | 0, _, _ => []
  | n + 1, f, t =>
    if TooLong env f t then
      let p := stop env f t
      p.idStr :: (lateStops env n p.attr f ++ lateStops env n p.attr t)
    else []

/-- The ids of the stops, up to a depth, on an edge that the loop meets from `f` first and then
    from `t`, before it comes to any new vertex. -/
def edgeStops (env : MapEnv K) : Nat → Site K → Site K → List String
  | 0, _, _ => []
  | n + 1, f, t =>
    if TooLong env f t then
      let p := stop env f t
      p.idStr :: (lateStops env n p.attr f ++ edgeStops env n t p.attr)
    else lateStops env (n + 1) t f

section Depth

variable (env : MapEnv K) (n : Nat) (f t : Site K)

/-- Looking deeper loses no stop on an edge that is met from one end. -/
private theorem lateStops_le_succ :
    (lateStops env n f t : Multiset String) ≤ (lateStops env (n + 1) f t : Multiset String) := by
  induction n generalizing f t with
  | zero => exact Multiset.zero_le _
  | succ n ih =>
    rw [lateStops, lateStops]
    split
    case isTrue =>
      simp only [← Multiset.cons_coe, ← Multiset.coe_add]
      exact Multiset.cons_le_cons _ (add_le_add (ih _ _) (ih _ _))
    case isFalse => exact le_refl _

/-- Looking deeper loses no stop on an edge that is met from both ends. -/
private theorem edgeStops_le_succ :
    (edgeStops env n f t : Multiset String) ≤ (edgeStops env (n + 1) f t : Multiset String) := by
  induction n generalizing f t with
  | zero => exact Multiset.zero_le _
  | succ n ih =>
    rw [edgeStops, edgeStops]
    split
    case isTrue =>
      simp only [← Multiset.cons_coe, ← Multiset.coe_add]
      exact Multiset.cons_le_cons _ (add_le_add (lateStops_le_succ env _ _ _) (ih _ _))
    case isFalse => exact lateStops_le_succ env _ _ _

variable {env n f t}

/-- A short edge has no stops. -/
theorem lateStops_of_short (h : ¬ TooLong env f t) : lateStops env n f t = [] := by
  cases n with
  | zero => rfl
  | succ n => rw [lateStops, if_neg h]

/-- An edge that is short from its first end may be long from the other. -/
theorem edgeStops_of_short (h : ¬ TooLong env f t) :
    edgeStops env n f t = lateStops env n t f := by
  cases n with
  | zero => rfl
  | succ n => rw [edgeStops, if_neg h]

/-- A long edge that is met from one end has its stop and those on the two parts. -/
private theorem lateStops_of_long (h : TooLong env f t) :
    (lateStops env (n + 1) f t : Multiset String) =
      {(stop env f t).idStr} + lateStops env n (stop env f t).attr f +
        lateStops env n (stop env f t).attr t := by
  rw [lateStops, if_pos h, add_assoc, Multiset.coe_add, Multiset.singleton_add, Multiset.cons_coe]

/-- On a long edge that is met from both ends, the part to the other end is met from there again.
-/
private theorem edgeStops_of_long (h : TooLong env f t) :
    (edgeStops env (n + 1) f t : Multiset String) =
      {(stop env f t).idStr} + lateStops env n (stop env f t).attr f +
        edgeStops env n t (stop env f t).attr := by
  rw [edgeStops, if_pos h, add_assoc, Multiset.coe_add, Multiset.singleton_add, Multiset.cons_coe]

end Depth

/-! ## The account of a graph -/

/-- Where the vertex at `p` is. -/
def siteOf (g : Graph (Site K)) (p : Addr) : Site K :=
  match g.heap.cell p with
  | some v => v.attr
  | none => ⟨0, 0, false⟩

omit [LinearOrder K] [FloorRing K] in
/-- The place of a vertex is part of its data. -/
theorem siteOf_eq (g : Graph (Site K)) (p : Addr) :
    siteOf g p = ((g.dataOf p).map (·.2.2)).getD ⟨0, 0, false⟩ := by
  unfold siteOf dataOf
  cases g.heap.cell p <;> rfl

/-- The stops to come on the edges between `x` and `y`, of which the loop is to meet `out x y`
    from `x`, and `out y x`, which are at least as many, from `y`. -/
def stopsBetween (env : MapEnv K) (n : Nat) (g : Graph (Site K)) (out : Addr → Addr → Nat)
    (x y : Addr) : Multiset String :=
  out x y • (edgeStops env n (siteOf g x) (siteOf g y) : Multiset String) +
    (out y x - out x y) • (lateStops env n (siteOf g y) (siteOf g x) : Multiset String)

/-- The ids that there are and that are to come. -/
def account (env : MapEnv K) (g : Graph (Site K)) (out : Addr → Addr → Nat) (n : Nat) :
    Multiset String :=
  (idsOf g : Multiset String) + pairSum (stopsBetween env n g out) g.vertices.nodes

/-- One account can be had from the other by going deeper. -/
structure Balanced (F F' : Nat → Multiset String) : Prop where
  le : ∀ n, F n ≤ F' n
  deeper : ∀ n, ∃ m, F' n ≤ F m

/-- An account balances with itself. -/
theorem Balanced.refl (F : Nat → Multiset String) : Balanced F F :=
  ⟨fun _ => le_refl _, fun n => ⟨n, le_refl _⟩⟩

/-- Accounts that balance with a third one balance. -/
theorem Balanced.trans {F F' F'' : Nat → Multiset String} (h : Balanced F F')
    (h' : Balanced F' F'') : Balanced F F'' where
  le n := (h.le n).trans (h'.le n)
  deeper n := by
    obtain ⟨m, hm⟩ := h'.deeper n
    obtain ⟨k, hk⟩ := h.deeper m
    exact ⟨k, hm.trans hk⟩

/-- An account that has one stop less to come and its id instead. -/
private theorem Balanced.of_deeper {F F' R X : Nat → Multiset String} (hR : ∀ n, R n ≤ R (n + 1))
    (hX : ∀ n, X n ≤ X (n + 1)) (hF : ∀ n, F n = R n + X n) (hF' : ∀ n, F' n = R n + X (n + 1)) :
    Balanced F F' where
  le n := by
    rw [hF, hF']
    exact add_le_add (le_refl _) (hX n)
  deeper n := by
    refine ⟨n + 1, ?_⟩
    rw [hF, hF']
    exact add_le_add (hR n) (le_refl _)

/-- Looking deeper, no stop between two vertices is lost. -/
private theorem stopsBetween_le_succ (env : MapEnv K) (n : Nat) (g : Graph (Site K))
    (out : Addr → Addr → Nat) (x y : Addr) :
    stopsBetween env n g out x y ≤ stopsBetween env (n + 1) g out x y :=
  add_le_add (nsmul_le_nsmul_right (edgeStops_le_succ env n _ _) _)
    (nsmul_le_nsmul_right (lateStops_le_succ env n _ _) _)

section Steps

variable {env : MapEnv K} {g : Graph (Site K)} {done rest : List Addr} {v w x : Addr} {e : Edge}
  {es : List Edge} {s : Vertex (Site K)}

omit [LinearOrder K] [FloorRing K] in
/-- A cut moves none of the old vertices. -/
theorem siteOf_divide (h : g.WF) (hx : x ∈ g.vertices.nodes) :
    siteOf (NS3.divide g v w s) x = siteOf g x := by
  rw [siteOf_eq, siteOf_eq, dataOf_divide_of_mem h hx]

omit [LinearOrder K] [FloorRing K] in
/-- The new vertex is where the stop is. -/
theorem siteOf_divide_next : siteOf (NS3.divide g v w s) g.heap.next = s.attr := by
  rw [siteOf_eq, dataOf_divide, if_pos rfl]
  rfl

/-- An edge that is passed over is met from its other end only, if at all. -/
private theorem Visiting.account_short (h : Visiting g done v rest (e :: es))
    (hshort : ¬ TooLong env (siteOf g v) (siteOf g e.vertex)) (n : Nat) :
    account env g (visitsAt g done v (e :: es)) n = account env g (visitsAt g done v es) n := by
  -- Away from the edge nothing changes
  have hout : ∀ x y, ¬ (x = v ∧ y = e.vertex) →
      visitsAt g done v (e :: es) x y = visitsAt g done v es x y := by
    intro x y hxy
    by_cases hx : x = v
    · rw [hx, visitsAt_self, visitsAt_self, List.map_cons, List.count_cons_of_ne]
      rintro rfl
      exact hxy ⟨hx, rfl⟩
    · rw [visitsAt_of_ne hx, visitsAt_of_ne hx]
  have hself : visitsAt g done v (e :: es) v e.vertex = visitsAt g done v es v e.vertex + 1 := by
    rw [visitsAt_self, visitsAt_self, List.map_cons, List.count_cons_self]
  have hpair : ∀ x y, [x, y].Sublist g.vertices.nodes →
      stopsBetween env n g (visitsAt g done v (e :: es)) x y =
        stopsBetween env n g (visitsAt g done v es) x y := by
    intro x y hxy
    have hne : x ≠ y := by
      rintro rfl
      exact List.nodup_iff_sublist.mp h.wf.nodup x hxy
    by_cases hfirst : x = v ∧ y = e.vertex
    · -- The edge comes up again at its other end, from where it is as long
      obtain ⟨rfl, rfl⟩ := hfirst
      have hdone : e.vertex ∉ done := by
        intro hmem
        rcases h.order (hxy.subset (by simp)) hne.symm with ⟨-, hback⟩ | ⟨hno, -⟩
        · exact not_sublist_swap h.wf.nodup hxy hback
        · exact hno hmem
      have hleft := h.left e.vertex hdone hne.symm
      rw [List.map_cons, List.count_cons_self] at hleft
      have hback : visitsAt g done x es e.vertex x = (g.roads e.vertex x).length := by
        rw [visitsAt_of_ne hne.symm, visits_of_notMem hdone]
      rw [stopsBetween, stopsBetween, hself, hout e.vertex x (fun heq => hne heq.1.symm), hback,
        visitsAt_self, edgeStops_of_short hshort, ← add_nsmul, ← add_nsmul]
      congr 1
      omega
    · by_cases hsecond : y = v ∧ x = e.vertex
      · -- The other end is done
        obtain ⟨rfl, rfl⟩ := hsecond
        rw [stopsBetween, stopsBetween, hout e.vertex y hfirst, lateStops_of_short hshort]
        simp
      · rw [stopsBetween, stopsBetween, hout x y hfirst, hout y x hsecond]
  rw [account, account, pairSum_congr hpair]

/-- What is to come on the edge before the loop, which its other end may have been met from. -/
def stopsAhead (env : MapEnv K) (n : Nat) (late : Prop) [Decidable late] (f t : Site K) :
    Multiset String :=
  if late then (lateStops env n f t : Multiset String) else (edgeStops env n f t : Multiset String)

/-- Looking deeper, no stop on the edge before the loop is lost. -/
private theorem stopsAhead_le_succ (env : MapEnv K) (n : Nat) (late : Prop) [Decidable late]
    (f t : Site K) : stopsAhead env n late f t ≤ stopsAhead env (n + 1) late f t := by
  rw [stopsAhead, stopsAhead]
  split
  case isTrue => exact lateStops_le_succ env n f t
  case isFalse => exact edgeStops_le_succ env n f t

/-- Its first stop, and what is to come on the two parts. -/
private theorem stopsAhead_of_long {late : Prop} [Decidable late] {n : Nat} {f t : Site K}
    (h : TooLong env f t) :
    stopsAhead env (n + 1) late f t =
      {(stop env f t).idStr} + lateStops env n (stop env f t).attr f +
        (if late then (lateStops env n (stop env f t).attr t : Multiset String)
        else (edgeStops env n t (stop env f t).attr : Multiset String)) := by
  rw [stopsAhead]
  split
  case isTrue => exact lateStops_of_long h
  case isFalse => exact edgeStops_of_long h

/-- The edge is taken off the account of its pair. -/
private theorem Visiting.stopsBetween_divide (h : Visiting g done v rest (e :: es))
    (hvw : v ≠ e.vertex) (hs : s.edges.nodes = []) (n : Nat) {a b : Addr}
    (hab : [a, b].Sublist g.vertices.nodes) (hpair : Links.SamePair a b v e.vertex) :
    stopsBetween env n g (visitsAt g done v (e :: es)) a b =
      stopsBetween env n (NS3.divide g v e.vertex s)
          (visitsAt (NS3.divide g v e.vertex s) done v es) a b +
        stopsAhead env n (e.vertex ∈ done) (siteOf g v) (siteOf g e.vertex) := by
  have hv := h.mem
  have hw := h.closed e List.mem_cons_self
  have ha : a ∈ g.vertices.nodes := hab.subset (by simp)
  have hb : b ∈ g.vertices.nodes := hab.subset (by simp)
  -- The counts of both directions go down by one; which one is counted depends on the order of the
  -- ends
  rw [stopsBetween, stopsBetween, siteOf_divide h.wf ha, siteOf_divide h.wf hb,
    h.visitsAt_divide hvw hs ha hb, h.visitsAt_divide hvw hs hb ha, if_pos hpair,
    if_pos (Links.SamePair.comm.mp hpair), stopsAhead]
  -- Before the cut, the edge itself is one of those to be met here
  have hhere : visitsAt g done v (e :: es) v e.vertex =
      (es.map Edge.vertex).count e.vertex + 1 := by
    rw [visitsAt_self, List.map_cons, List.count_cons_self]
  rcases h.order hw hvw.symm with ⟨hdone, horder⟩ | ⟨hdone, horder⟩
  · -- The other end is in front, and done
    obtain ⟨rfl, rfl⟩ : a = e.vertex ∧ b = v := by
      rcases hpair with ⟨rfl, rfl⟩ | hpair
      · exact absurd horder (not_sublist_swap h.wf.nodup hab)
      · exact hpair
    have hother : visitsAt g done b (e :: es) e.vertex b = 0 := by
      rw [visitsAt_of_ne hvw.symm, visits_of_mem hdone]
    rw [if_pos hdone, hhere, hother]
    simp only [zero_nsmul, zero_add, Nat.sub_zero, Nat.zero_sub, Nat.add_sub_cancel, succ_nsmul]
  · -- The other end comes later, where the edge would have been met again
    obtain ⟨rfl, rfl⟩ : a = v ∧ b = e.vertex := by
      rcases hpair with hpair | ⟨rfl, rfl⟩
      · exact hpair
      · exact absurd horder (not_sublist_swap h.wf.nodup hab)
    have hother : visitsAt g done a (e :: es) e.vertex a = (g.roads e.vertex a).length := by
      rw [visitsAt_of_ne hvw.symm, visits_of_notMem hdone]
    have hleft := h.left e.vertex hdone hvw.symm
    rw [List.map_cons, List.count_cons_self] at hleft
    rw [if_neg hdone, hhere, hother, Nat.add_sub_cancel, succ_nsmul, add_right_comm]
    congr 3
    omega

/-- What is to come on the edges of the new vertex. -/
private theorem Visiting.stopsBetween_divide_next (h : Visiting g done v rest (e :: es))
    (hvw : v ≠ e.vertex) (hs : s.edges.nodes = []) (n : Nat) (hx : x ∈ g.vertices.nodes) :
    stopsBetween env n (NS3.divide g v e.vertex s)
        (visitsAt (NS3.divide g v e.vertex s) done v es) x g.heap.next =
      if x = v then (lateStops env n s.attr (siteOf g v) : Multiset String)
      else if x = e.vertex then
        if e.vertex ∈ done then (lateStops env n s.attr (siteOf g e.vertex) : Multiset String)
        else (edgeStops env n (siteOf g e.vertex) s.attr : Multiset String)
      else 0 := by
  have hw := h.closed e List.mem_cons_self
  have hsymm := (h.divide hvw hs).symm
  -- The new vertex is not done, and no edge before the loop leads to it
  have hnew := h.wf.next_not_mem
  have hnv : g.heap.next ≠ v := fun heq => hnew (heq ▸ h.mem)
  have hnd : g.heap.next ∉ done := by
    intro hmem
    refine hnew ?_
    rw [h.nodes]
    exact List.mem_append_left _ hmem
  have hcount : (es.map Edge.vertex).count g.heap.next = 0 := by
    rw [List.count_eq_zero_of_not_mem]
    intro hin
    obtain ⟨e', he', heq⟩ := List.mem_map.mp hin
    exact hnew (heq ▸ h.closed e' (List.mem_cons_of_mem e he'))
  -- It has one link to either end, which the loop is to meet from there
  have hnext := length_roads_divide_next h.wf h.mem hw hvw hs (x := x)
  rw [stopsBetween, siteOf_divide h.wf hx, siteOf_divide_next, visitsAt_of_ne hnv,
    visits_of_notMem hnd, hnext]
  by_cases hxv : x = v
  -- At the vertex of the loop the new edge is met from the other end only
  · rw [hxv, visitsAt_self, hcount, if_pos (.inl rfl), if_pos rfl, zero_nsmul, zero_add,
      Nat.sub_zero, one_nsmul]
  · rw [visitsAt_of_ne hxv, if_neg hxv]
    by_cases hxw : x = e.vertex
    -- At the other end it is met if that end is not done
    · subst hxw
      rw [if_pos rfl, if_pos (.inr rfl)]
      by_cases hdone : e.vertex ∈ done
      · rw [visits_of_mem hdone, if_pos hdone, zero_nsmul, zero_add, Nat.sub_zero, one_nsmul]
      · rw [visits_of_notMem hdone, if_neg hdone, hsymm, hnext, if_pos (.inr rfl), Nat.sub_self,
          zero_nsmul, add_zero, one_nsmul]
    · -- No edge leads to the other vertices
      have hnone : visits (NS3.divide g v e.vertex s) done x g.heap.next = 0 := by
        rw [visits, hsymm, hnext, if_neg (not_or.mpr ⟨hxv, hxw⟩), ite_self]
      rw [hnone, if_neg hxw, if_neg (not_or.mpr ⟨hxv, hxw⟩)]
      simp

/-- The pairs that the cut does not touch keep their ids; the other one loses those of the edge that
    is gone. -/
private theorem Visiting.pairSum_divide (h : Visiting g done v rest (e :: es)) (hvw : v ≠ e.vertex)
    (hs : s.edges.nodes = []) (n : Nat) {a b : Addr} (hab : [a, b].Sublist g.vertices.nodes)
    (hpair : Links.SamePair a b v e.vertex) :
    pairSum (stopsBetween env n g (visitsAt g done v (e :: es))) g.vertices.nodes =
      pairSum (stopsBetween env n (NS3.divide g v e.vertex s)
          (visitsAt (NS3.divide g v e.vertex s) done v es)) g.vertices.nodes +
        stopsAhead env n (e.vertex ∈ done) (siteOf g v) (siteOf g e.vertex) := by
  set g' := NS3.divide g v e.vertex s with hg'
  -- Between any other two vertices nothing has changed
  have hothers : ∀ x y, [x, y].Sublist g.vertices.nodes → ¬ (x = a ∧ y = b) →
      stopsBetween env n g (visitsAt g done v (e :: es)) x y =
        stopsBetween env n g' (visitsAt g' done v es) x y := by
    intro x y hxy hne
    have hx : x ∈ g.vertices.nodes := hxy.subset (by simp)
    have hy : y ∈ g.vertices.nodes := hxy.subset (by simp)
    have hnot : ¬ Links.SamePair x y v e.vertex := by
      intro hsame
      rcases hsame with ⟨rfl, rfl⟩ | ⟨rfl, rfl⟩ <;> rcases hpair with ⟨rfl, rfl⟩ | ⟨rfl, rfl⟩
      · exact hne ⟨rfl, rfl⟩
      · exact not_sublist_swap h.wf.nodup hab hxy
      · exact not_sublist_swap h.wf.nodup hab hxy
      · exact hne ⟨rfl, rfl⟩
    rw [stopsBetween, stopsBetween, hg', siteOf_divide h.wf hx, siteOf_divide h.wf hy,
      h.visitsAt_divide hvw hs hx hy, h.visitsAt_divide hvw hs hy hx, if_neg hnot,
      if_neg (fun heq => hnot (Links.SamePair.comm.mp heq))]
  -- So the sum changes by the one pair
  have hsum := pairSum_update h.wf.nodup hab hothers
  rw [h.stopsBetween_divide hvw hs n hab hpair, ← hg', add_comm (stopsBetween env n g' _ a b),
    ← add_assoc] at hsum
  exact add_right_cancel hsum

/-- The new vertex has its ids with the two ends of the edge that was cut. -/
private theorem Visiting.sum_divide_next (h : Visiting g done v rest (e :: es)) (hvw : v ≠ e.vertex)
    (hs : s.edges.nodes = []) (n : Nat) :
    (g.vertices.nodes.map fun x =>
      stopsBetween env n (NS3.divide g v e.vertex s)
        (visitsAt (NS3.divide g v e.vertex s) done v es) x g.heap.next).sum =
        (lateStops env n s.attr (siteOf g v) : Multiset String) +
          (if e.vertex ∈ done then (lateStops env n s.attr (siteOf g e.vertex) : Multiset String)
          else (edgeStops env n (siteOf g e.vertex) s.attr : Multiset String)) := by
  have hw := h.closed e List.mem_cons_self
  rw [sum_map_eq_add h.wf.nodup hvw h.mem hw fun x hx hxv hxw => by
    rw [h.stopsBetween_divide_next hvw hs n hx, if_neg hxv, if_neg hxw]]
  rw [h.stopsBetween_divide_next hvw hs n h.mem, h.stopsBetween_divide_next hvw hs n hw,
    if_pos rfl, if_neg hvw.symm, if_pos rfl]

/-- A cut enters the id of the new vertex, and puts its two edges in the place of the one that is
    gone. -/
private theorem Visiting.account_divide (h : Visiting g done v rest (e :: es))
    (hvw : v ≠ e.vertex) (hs : s.edges.nodes = [])
    (hlong : TooLong env (siteOf g v) (siteOf g e.vertex))
    (hid : s.idStr = (stop env (siteOf g v) (siteOf g e.vertex)).idStr)
    (hattr : s.attr = (stop env (siteOf g v) (siteOf g e.vertex)).attr) :
    Balanced (account env g (visitsAt g done v (e :: es)))
      (account env (NS3.divide g v e.vertex s)
        (visitsAt (NS3.divide g v e.vertex s) done v es)) := by
  have hw := h.closed e List.mem_cons_self
  -- What stays, and what is to come on the edge
  refine Balanced.of_deeper
    (R := fun n => (idsOf g : Multiset String) +
      pairSum (stopsBetween env n (NS3.divide g v e.vertex s)
        (visitsAt (NS3.divide g v e.vertex s) done v es)) g.vertices.nodes)
    (X := fun n => stopsAhead env n (e.vertex ∈ done) (siteOf g v) (siteOf g e.vertex))
    (fun n => add_le_add (le_refl _)
      (pairSum_le_pairSum fun x y => stopsBetween_le_succ env n _ _ x y))
    (fun n => stopsAhead_le_succ env n _ _ _) (fun n => ?_) (fun n => ?_)
  · -- The edge belongs to one of the pairs
    show account env g _ n = _
    rcases h.order hw hvw.symm with ⟨-, horder⟩ | ⟨-, horder⟩
    · rw [account, h.pairSum_divide hvw hs n horder (.inr ⟨rfl, rfl⟩), add_assoc]
    · rw [account, h.pairSum_divide hvw hs n horder (.inl ⟨rfl, rfl⟩), add_assoc]
  · -- The new vertex has an id and two edges
    show account env (NS3.divide g v e.vertex s) _ n = _
    rw [account, idsOf_divide h.wf, vertices_divide, pairSum_concat, h.sum_divide_next hvw hs n,
      stopsAhead_of_long hlong, ← hid, ← hattr, ← Multiset.coe_add]
    simp only [Multiset.coe_singleton]
    abel

end Steps

/-! ## The loops -/

section Loops

variable {env : MapEnv K}

/-- The inner loop. -/
private theorem divideEdges_account (hself : ∀ lat lng, ¬ env.getDistance lat lng lat lng > maxDist)
    {g g' : Graph (Site K)} {done rest : List Addr} {v : Addr} {es : List Edge}
    (h : Visiting g done v rest es) (hok : divideEdges env g v es = .ok g') :
    ∃ rest', Visiting g' done v rest' [] ∧
      Balanced (account env g (visitsAt g done v es)) (account env g' (visitsAt g' done v [])) := by
  induction es generalizing g rest with
  | nil =>
    cases hok
    exact ⟨rest, h, .refl _⟩
  | cons e es ih =>
    -- The loop cuts this edge or does not, and goes on with the rest
    obtain ⟨g₁, hedge, htail⟩ := bind_eq_ok.mp hok
    obtain ⟨f, t, hf, ht, hcase⟩ := edgeDivision_eq_ok hedge
    have hsitef : siteOf g v = f.attr := by rw [siteOf, hf]
    have hsitet : siteOf g e.vertex = t.attr := by rw [siteOf, ht]
    rcases hcase with ⟨hshort, rfl⟩ | ⟨hlong, rfl⟩
    · -- The edge is short enough, and the account is the same
      rw [distance_of_cell hf ht] at hshort
      obtain ⟨rest', h', hbal⟩ := ih h.tail htail
      refine ⟨rest', h', ?_⟩
      have hpassed : ¬ TooLong env (siteOf g₁ v) (siteOf g₁ e.vertex) := by
        rwa [hsitef, hsitet]
      rwa [funext (h.account_short hpassed)]
    · -- The edge is cut, between two vertices
      rw [distance_of_cell hf ht] at hlong
      have hvw : v ≠ e.vertex := by
        intro heq
        rw [← heq, hf] at ht
        cases ht
        exact hself _ _ hlong
      have hcut : TooLong env (siteOf g v) (siteOf g e.vertex) := by
        rwa [hsitef, hsitet]
      have hstep := h.account_divide (s := stopVertex env f t) hvw rfl hcut
        (by rw [hsitef, hsitet]; rfl) (by rw [hsitef, hsitet]; rfl)
      obtain ⟨rest', h', hbal⟩ := ih (h.divide hvw rfl) htail
      exact ⟨rest', h', hstep.trans hbal⟩

/-- The outer loop from the `i`-th vertex on. -/
private theorem divideFrom_account (hself : ∀ lat lng, ¬ env.getDistance lat lng lat lng > maxDist)
    {fuel i : Nat} {g g' : Graph (Site K)} (h : g.WF) (hsymm : g.roads.Symm)
    (hok : divideFrom env fuel i g = .ok g') :
    g'.WF ∧ Balanced (account env g (visits g (g.vertices.nodes.take i)))
      fun _ => (idsOf g' : Multiset String) := by
  induction fuel generalizing i g with
  | zero => cases hok
  | succ fuel ih =>
    obtain ⟨hget, rfl⟩ | ⟨v, g₁, hget, hedges, hok⟩ := divideFrom_succ_eq_ok hok
    · -- All vertices are done
      have hall : g'.vertices.nodes.take i = g'.vertices.nodes :=
        List.take_of_length_le (List.getElem?_eq_none_iff.mp hget)
      have hend : account env g' (visits g' (g'.vertices.nodes.take i)) =
          fun _ => (idsOf g' : Multiset String) := by
        funext n
        rw [account, pairSum_eq_zero, add_zero]
        intro x y hxy
        rw [stopsBetween, hall, visits_of_mem (hxy.subset (by simp)),
          visits_of_mem (hxy.subset (by simp))]
        simp
      rw [hend]
      exact ⟨h, .refl _⟩
    -- The loop comes to the next vertex, whose edges it is about to meet
    · obtain ⟨hi, hv⟩ := List.getElem?_eq_some_iff.mp hget
      have hnodes : g.vertices.nodes =
          g.vertices.nodes.take i ++ v :: g.vertices.nodes.drop (i + 1) := by
        rw [← hv, List.cons_getElem_drop_succ, List.take_append_drop]
      have hstart := Visiting.start h hsymm hnodes
      obtain ⟨rest', h₁, hbal₁⟩ := divideEdges_account hself hstart hedges
      -- The vertices up to this one are done now; the new ones are behind
      have htake : g₁.vertices.nodes.take (i + 1) = g.vertices.nodes.take i ++ [v] := by
        rw [h₁.nodes, List.append_cons, List.take_left']
        simp
        omega
      obtain ⟨h', hbal⟩ := ih h₁.wf h₁.symm hok
      rw [htake, ← visitsAt_nil] at hbal
      rw [visitsAt_start hstart.notMem_done] at hbal₁
      exact ⟨h', hbal₁.trans hbal⟩

end Loops

/-! ## All ids -/

/-- The ids of the stops, up to a depth, on the edges between the vertices of a list: from the
    vertex that is in front. -/
def stopsOn (env : MapEnv K) (n : Nat) (g : Graph (Site K)) : List Addr → List String
  | [] => []
  | u :: us =>
    (us.flatMap fun v => (g.roads u v).flatMap fun _ =>
      edgeStops env n (siteOf g u) (siteOf g v)) ++ stopsOn env n g us

/-- The ids of the stops, up to a depth, that division makes on the edges of a graph. -/
def divisionStops (env : MapEnv K) (n : Nat) (g : Graph (Site K)) : List String :=
  stopsOn env n g g.vertices.nodes

/-- The ids tell the vertices apart: `getVertex` finds each vertex by its id, and in the target
    test of `cross_vertex` no other vertex passes for it. -/
structure IdsIdentify {A : Type} (g : Graph A) : Prop where
  distinct : DistinctIds g
  found : ∀ p ∈ g.vertices.nodes, ∀ id, g.idOf p = some id → getVertex g id = .ok p
  target : ∀ p ∈ g.vertices.nodes, ∀ q ∈ g.vertices.nodes, sameId g p q = .ok (decide (p = q))

section Ids

variable {A : Type} {g : Graph A}

/-- Each vertex of the list has an id. -/
theorem idOf_of_mem (h : g.WF) {p : Addr} (hp : p ∈ g.vertices.nodes) :
    g.idOf p = some ((g.idOf p).getD "") := by
  obtain ⟨v, hv⟩ := Heap.live_iff.mp ((h.live_iff p).mpr hp)
  simp [idOf, hv]

/-- The ids are distinct exactly if the list of them has no duplicates. -/
theorem distinctIds_iff_nodup (h : g.WF) : DistinctIds g ↔ (idsOf g).Nodup := by
  rw [idsOf, List.nodup_map_iff_inj_on h.nodup, DistinctIds]
  refine forall₂_congr fun p hp => forall₂_congr fun q hq => ?_
  rw [idOf_of_mem h hp, idOf_of_mem h hq]
  simp

/-- The same of the ids as the searches use them. -/
theorem idsIdentify_iff_nodup (h : g.WF) : IdsIdentify g ↔ (idsOf g).Nodup := by
  rw [← distinctIds_iff_nodup h]
  refine ⟨fun hids => hids.distinct, fun hids => ⟨hids, fun p hp id hid => ?_, fun p hp q hq => ?_⟩⟩
  · obtain ⟨q, hq, hqid, hget⟩ := getVertex_of_known h ⟨p, hp, hid⟩
    rw [hget, hids q hq p hp (hqid.trans hid.symm)]
  · exact sameId_eq h hids hp hq

/-- An id is known exactly if it is in the list of the ids. -/
theorem known_iff_mem_idsOf (h : g.WF) {id : String} : Known g id ↔ id ∈ idsOf g := by
  rw [idsOf, List.mem_map]
  refine exists_congr fun p => and_congr_right fun hp => ?_
  rw [idOf_of_mem h hp]
  simp

/-- Distinct ids and further ones. -/
theorem nodup_ids_append_iff (h : g.WF) (hids : DistinctIds g) {ids : List String} :
    (idsOf g ++ ids).Nodup ↔ ids.Nodup ∧ ∀ id ∈ ids, ¬ Known g id := by
  rw [List.nodup_append, and_iff_right ((distinctIds_iff_nodup h).mp hids)]
  refine and_congr_right fun _ => ?_
  simp only [known_iff_mem_idsOf h]
  constructor
  case mp =>
    intro hdisjoint id hid hmem
    exact hdisjoint id hmem id hid rfl
  case mpr =>
    rintro hfresh id hmem _ hid rfl
    exact hfresh _ hid hmem

end Ids

section Static

variable {env : MapEnv K}

/-- The stops of a list of links of one length. -/
private theorem coe_flatMap_const {R : Type} (rs : List R) (ids : List String) :
    ((rs.flatMap fun _ => ids : List String) : Multiset String) =
      rs.length • (ids : Multiset String) := by
  induction rs with
  | nil => simp
  | cons r rs ih =>
    rw [List.flatMap_cons, ← Multiset.coe_add, ih, List.length_cons, succ_nsmul, add_comm]

/-- Before division everything is to come. -/
private theorem account_start (g : Graph (Site K)) (hsymm : g.roads.Symm) (n : Nat) :
    account env g (visits g []) n = ((idsOf g ++ divisionStops env n g : List String) :
      Multiset String) := by
  -- At the start every edge is met from both ends, as many times from the one as from the other
  have hpair : ∀ x y, stopsBetween env n g (visits g []) x y =
      (((g.roads x y).flatMap fun _ => edgeStops env n (siteOf g x) (siteOf g y) : List String) :
        Multiset String) := by
    intro x y
    rw [stopsBetween, visits_of_notMem List.not_mem_nil, visits_of_notMem List.not_mem_nil,
      hsymm y x, Nat.sub_self, zero_nsmul, add_zero, coe_flatMap_const]
  -- Summed up over the pairs of the list, these are the stops of the division
  have hlist : ∀ us, pairSum (stopsBetween env n g (visits g [])) us =
      (stopsOn env n g us : Multiset String) := by
    intro us
    induction us with
    | nil => rfl
    | cons u us ih =>
      have hrow : ∀ vs : List Addr, (vs.map (stopsBetween env n g (visits g []) u)).sum =
          ((vs.flatMap fun v => (g.roads u v).flatMap fun _ =>
            edgeStops env n (siteOf g u) (siteOf g v) : List String) : Multiset String) := by
        intro vs
        induction vs with
        | nil => rfl
        | cons v vs ihv =>
          rw [List.map_cons, List.sum_cons, hpair, ihv, List.flatMap_cons, Multiset.coe_add]
      rw [pairSum, stopsOn, hrow, ih, Multiset.coe_add]
  rw [account, hlist, divisionStops, Multiset.coe_add]

/-- The stops do not depend on the ranges that division sets. -/
private theorem stops_setRanges (env : MapEnv K) (latRange lonRange : GeoHashRange K) (n : Nat)
    (f t : Site K) :
    lateStops { env with latRange, lonRange } n f t = lateStops env n f t ∧
      edgeStops { env with latRange, lonRange } n f t = edgeStops env n f t := by
  -- The ranges only go into the geohash of a stop, not into its id or its place
  have hid : ∀ f t, (stop { env with latRange, lonRange } f t).idStr = (stop env f t).idStr := by
    intro f t
    simp only [stop, stopVertex, vertexCreate, vertexDistance]
  have hattr : ∀ f t, (stop { env with latRange, lonRange } f t).attr = (stop env f t).attr := by
    intro f t
    simp only [stop, stopVertex, vertexCreate, vertexDistance]
  have hlong : ∀ f t, TooLong { env with latRange, lonRange } f t ↔ TooLong env f t :=
    fun _ _ => Iff.rfl
  have hlate : ∀ n f t, lateStops { env with latRange, lonRange } n f t = lateStops env n f t := by
    intro n
    induction n with
    | zero => intro f t; rfl
    | succ n ih =>
      intro f t
      simp only [lateStops, ih, hid, hattr, hlong]
  -- The depth is that of the recursion on both sides
  refine ⟨hlate n f t, ?_⟩
  induction n generalizing f t with
  | zero => rfl
  | succ n ih => simp only [edgeStops, ih, hlate, hid, hattr, hlong]

/-- The stops do not depend on the ranges of the geohash. -/
private theorem divisionStops_setRanges (env : MapEnv K) (latRange lonRange : GeoHashRange K)
    (n : Nat) (g : Graph (Site K)) :
    divisionStops { env with latRange, lonRange } n g = divisionStops env n g := by
  have hlist : ∀ us, stopsOn { env with latRange, lonRange } n g us = stopsOn env n g us := by
    intro us
    induction us with
    | nil => rfl
    | cons u us ih => simp only [stopsOn, ih, (stops_setRanges env latRange lonRange n _ _).2]
  exact hlist _

/-- What division leaves has an id for each vertex of its own exactly if no two of the ids that
    the vertices have and that the stops on the edges will have are the same. -/
theorem idsIdentify_of_graphDivision
    (hself : ∀ lat lng, ¬ env.getDistance lat lng lat lng > maxDist) {g g' : Graph (Site K)}
    (h : g.WF) (hsymm : g.roads.Symm) {fuel : Nat} (hok : graphDivision env fuel g = .ok g') :
    g'.WF ∧ (IdsIdentify g' ↔ ∀ n, (idsOf g ++ divisionStops env n g).Nodup) := by
  -- The globals that are set first have nothing to do with distances
  let env' : MapEnv K := { env with latRange := latRangeConst, lonRange := lonRangeConst }
  have hself' : ∀ lat lng, ¬ env'.getDistance lat lng lat lng > maxDist := hself
  obtain ⟨h', hbal⟩ := divideFrom_account hself' h hsymm hok
  rw [List.take_zero] at hbal
  refine ⟨h', ?_⟩
  rw [idsIdentify_iff_nodup h', ← Multiset.coe_nodup]
  constructor
  case mp =>
    intro hnodup n
    have hle := hbal.le n
    rw [account_start g hsymm, divisionStops_setRanges] at hle
    exact Multiset.coe_nodup.mp (Multiset.nodup_of_le hle hnodup)
  case mpr =>
    intro hall
    obtain ⟨m, hm⟩ := hbal.deeper 0
    rw [account_start g hsymm, divisionStops_setRanges] at hm
    exact Multiset.nodup_of_le hm (Multiset.coe_nodup.mpr (hall m))

/-- Division keeps the ids apart exactly if the stops on the edges have ids that differ from each
    other and from the ids that there are. -/
theorem graphDivision_idsIdentify_iff
    (hself : ∀ lat lng, ¬ env.getDistance lat lng lat lng > maxDist) {g g' : Graph (Site K)}
    (h : g.WF) (hsymm : g.roads.Symm) (hids : DistinctIds g) {fuel : Nat}
    (hok : graphDivision env fuel g = .ok g') :
    IdsIdentify g' ↔ ∀ n, (divisionStops env n g).Nodup ∧
      ∀ id ∈ divisionStops env n g, ¬ Known g id := by
  rw [(idsIdentify_of_graphDivision hself h hsymm hok).2]
  exact forall_congr' fun n => nodup_ids_append_iff h hids

end Static

/-! ## Two roads that cross -/

/-- The ends of two roads of the same length, each through the middle of the other. -/
def crossingSites : Graph (Site ℚ) :=
  (((graphCreate.addVertex (vertexCreate "a" 1 ⟨0, 0, true⟩)).addVertex
    (vertexCreate "b" 2 ⟨0, 100, true⟩)).addVertex
    (vertexCreate "c" 3 ⟨-50, 50, true⟩)).addVertex (vertexCreate "d" 4 ⟨50, 50, true⟩)

/-- The four ends are a graph that the operations build. -/
private theorem crossingSites_mirrored : crossingSites.Mirrored :=
  (((Mirrored.empty.addVertex rfl rfl rfl).addVertex rfl rfl rfl).addVertex rfl rfl
    rfl).addVertex rfl rfl rfl

/-- The first road. -/
def oneRoad : Graph (Site ℚ) := crossingSites.relinkRoad 1 2 7

/-- Both roads. -/
def crossingRoads : Graph (Site ℚ) := oneRoad.relinkRoad 3 4 8

/-- So is the graph with one road. -/
private theorem oneRoad_mirrored : oneRoad.Mirrored :=
  (crossingSites_mirrored.unlinkRoad (by decide) (by decide)).linkRoad
    (by decide) (by decide) 7

/-- So is the graph with both roads. -/
private theorem crossingRoads_mirrored : crossingRoads.Mirrored :=
  (oneRoad_mirrored.unlinkRoad (by decide) (by decide)).linkRoad
    (by decide) (by decide) 8

/-- No two edges of the one road have the same ends. -/
private theorem oneRoad_simple : oneRoad.roads.Simple := by
  have hnone : crossingSites.roads = fun _ _ => [] := by
    rw [crossingSites, roads_addVertex rfl, roads_addVertex rfl, roads_addVertex rfl,
      roads_addVertex rfl]
    rfl
  have h₁ : crossingSites.Live 1 := rfl
  have h₂ : crossingSites.Live 2 := rfl
  rw [oneRoad, roads_relinkRoad h₁ h₂, hnone]
  exact Links.Simple.empty.relink (by decide) 7

/-- Nor have any two of both roads. -/
private theorem crossingRoads_simple : crossingRoads.roads.Simple := by
  have h₃ : oneRoad.Live 3 := rfl
  have h₄ : oneRoad.Live 4 := rfl
  rw [crossingRoads, roads_relinkRoad h₃ h₄]
  exact oneRoad_simple.relink (by decide) 8

/-- A place is at no distance from itself. -/
theorem gridEnv_self (lat lng : ℚ) : ¬ gridEnv.getDistance lat lng lat lng > maxDist := by
  simp [gridEnv, maxDist]

/-- The two stops are the same place. -/
private theorem stop_oneRoad : stop gridEnv ⟨0, 0, true⟩ ⟨0, 100, true⟩ =
    stop gridEnv ⟨-50, 50, true⟩ ⟨50, 50, true⟩ := by
  have hround : cRound (2 : ℚ) = 2 := by norm_num [cRound]
  simp only [stop, stopVertex, vertexCreate, vertexDistance, gridEnv, averageDist]
  norm_num [hround]

/-- The first road is cut once, in its middle. -/
private theorem edgeStops_oneRoad : edgeStops gridEnv 1 ⟨0, 0, true⟩ ⟨0, 100, true⟩ =
    [(stop gridEnv ⟨0, 0, true⟩ ⟨0, 100, true⟩).idStr] := by
  rw [edgeStops, if_pos (by norm_num [TooLong, gridEnv, maxDist])]
  rfl

/-- So is the second one. -/
private theorem edgeStops_otherRoad : edgeStops gridEnv 1 ⟨-50, 50, true⟩ ⟨50, 50, true⟩ =
    [(stop gridEnv ⟨-50, 50, true⟩ ⟨50, 50, true⟩).idStr] := by
  rw [edgeStops, if_pos (by norm_num [TooLong, gridEnv, maxDist])]
  rfl

/-- The middle is the same, so that one id comes twice. -/
private theorem divisionStops_crossingRoads : divisionStops gridEnv 1 crossingRoads =
    [(stop gridEnv ⟨0, 0, true⟩ ⟨0, 100, true⟩).idStr,
      (stop gridEnv ⟨0, 0, true⟩ ⟨0, 100, true⟩).idStr] := by
  -- Four vertices with two roads, and every other pair without one
  have hnodes : crossingRoads.vertices.nodes = [1, 2, 3, 4] := by rfl
  have hfirst : crossingRoads.roads 1 2 = [7] := by decide
  have hsecond : crossingRoads.roads 3 4 = [8] := by decide
  have hothers : crossingRoads.roads 1 3 = [] ∧ crossingRoads.roads 1 4 = [] ∧
      crossingRoads.roads 2 3 = [] ∧ crossingRoads.roads 2 4 = [] := by decide
  obtain ⟨h₁₃, h₁₄, h₂₃, h₂₄⟩ := hothers
  have hroads : divisionStops gridEnv 1 crossingRoads =
      edgeStops gridEnv 1 (siteOf crossingRoads 1) (siteOf crossingRoads 2) ++
        edgeStops gridEnv 1 (siteOf crossingRoads 3) (siteOf crossingRoads 4) := by
    simp [divisionStops, stopsOn, hnodes, hfirst, hsecond, h₁₃, h₁₄, h₂₃, h₂₄]
  -- Where they are
  have h₁ : siteOf crossingRoads 1 = ⟨0, 0, true⟩ := by rfl
  have h₂ : siteOf crossingRoads 2 = ⟨0, 100, true⟩ := by rfl
  have h₃ : siteOf crossingRoads 3 = ⟨-50, 50, true⟩ := by rfl
  have h₄ : siteOf crossingRoads 4 = ⟨50, 50, true⟩ := by rfl
  rw [hroads, h₁, h₂, h₃, h₄]
  rw [edgeStops_oneRoad, edgeStops_otherRoad, stop_oneRoad]
  rfl

/-- The stops on a graph of one road are those on its edge. -/
private theorem divisionStops_oneRoad (n : Nat) :
    divisionStops gridEnv n oneRoad = edgeStops gridEnv n ⟨0, 0, true⟩ ⟨0, 100, true⟩ := by
  have hnodes : oneRoad.vertices.nodes = [1, 2, 3, 4] := by rfl
  have hroad : oneRoad.roads 1 2 = [7] := by decide
  have hothers : oneRoad.roads 1 3 = [] ∧ oneRoad.roads 1 4 = [] ∧ oneRoad.roads 2 3 = [] ∧
      oneRoad.roads 2 4 = [] ∧ oneRoad.roads 3 4 = [] := by decide
  obtain ⟨h₁₃, h₁₄, h₂₃, h₂₄, h₃₄⟩ := hothers
  have h₁ : siteOf oneRoad 1 = ⟨0, 0, true⟩ := by rfl
  have h₂ : siteOf oneRoad 2 = ⟨0, 100, true⟩ := by rfl
  simp [divisionStops, stopsOn, hnodes, hroad, h₁₃, h₁₄, h₂₃, h₂₄, h₃₄, h₁, h₂]

/-- Both parts of the first road are short. -/
private theorem edgeStops_oneRoad_mem (n : Nat) :
    edgeStops gridEnv n ⟨0, 0, true⟩ ⟨0, 100, true⟩ = [] ∨
      edgeStops gridEnv n ⟨0, 0, true⟩ ⟨0, 100, true⟩ =
        [(stop gridEnv ⟨0, 0, true⟩ ⟨0, 100, true⟩).idStr] := by
  have hround : cRound (2 : ℚ) = 2 := by norm_num [cRound]
  -- The stop is in the middle, and from there both ends are near
  have hplace : (stop gridEnv ⟨0, 0, true⟩ ⟨0, 100, true⟩).attr = ⟨0, 50, false⟩ := by
    simp only [stop, stopVertex, vertexCreate, vertexDistance, gridEnv, averageDist]
    norm_num [hround]
  have hfirst : ¬ TooLong gridEnv ⟨0, 50, false⟩ ⟨0, 0, true⟩ := by
    norm_num [TooLong, gridEnv, maxDist]
  have hsecond : ¬ TooLong gridEnv ⟨0, 100, true⟩ ⟨0, 50, false⟩ := by
    norm_num [TooLong, gridEnv, maxDist]
  have hback : ¬ TooLong gridEnv ⟨0, 50, false⟩ ⟨0, 100, true⟩ := by
    norm_num [TooLong, gridEnv, maxDist]
  cases n with
  | zero => exact .inl rfl
  | succ n =>
    refine .inr ?_
    rw [edgeStops, if_pos (by norm_num [TooLong, gridEnv, maxDist])]
    dsimp only
    rw [hplace, lateStops_of_short hfirst, edgeStops_of_short hsecond, lateStops_of_short hback]
    rfl

/-- The first road alone leaves each vertex its id. -/
theorem graphDivision_idsIdentify_oneRoad :
    ∃ fuel g', graphDivision gridEnv fuel oneRoad = .ok g' ∧ IdsIdentify g' := by
  have hwf := oneRoad_mirrored.degrees.wf
  obtain ⟨N, g', -, hok, -⟩ := graphDivision_chains straightDistances_grid hwf oneRoad_simple
  refine ⟨N, g', hok N (le_refl N), ?_⟩
  have hids := (distinctIds_iff_nodup hwf).mpr (by decide)
  refine (graphDivision_idsIdentify_iff gridEnv_self hwf oneRoad_mirrored.symm hids
    (hok N (le_refl N))).mpr fun n => ?_
  -- A place has a comma in its text
  have hcomma : ∀ id ∈ idsOf oneRoad, ',' ∉ id.toList := by decide
  rw [divisionStops_oneRoad]
  rcases edgeStops_oneRoad_mem n with hnone | hone
  · rw [hnone]
    simp
  · rw [hone]
    refine ⟨List.nodup_singleton _, fun id hid hknown => ?_⟩
    refine hcomma id ((known_iff_mem_idsOf hwf).mp hknown) ?_
    rw [List.mem_singleton.mp hid]
    simp [stop, stopVertex, vertexCreate, makeCoordinateString]

/-- The stops on two roads that cross get one id. -/
theorem graphDivision_crossingRoads :
    crossingRoads.WF ∧ crossingRoads.roads.Symm ∧ DistinctIds crossingRoads ∧
      ∃ fuel g', graphDivision gridEnv fuel crossingRoads = .ok g' ∧ ¬ IdsIdentify g' := by
  have hwf := crossingRoads_mirrored.degrees.wf
  obtain ⟨N, g', -, hok, -⟩ := graphDivision_chains straightDistances_grid hwf crossingRoads_simple
  refine ⟨hwf, crossingRoads_mirrored.symm, (distinctIds_iff_nodup hwf).mpr (by decide), N, g',
    hok N (le_refl N), fun hids => ?_⟩
  have hnodup := (idsIdentify_of_graphDivision gridEnv_self hwf crossingRoads_mirrored.symm
    (hok N (le_refl N))).2.mp hids 1
  rw [divisionStops_crossingRoads] at hnodup
  have hpair := (List.nodup_append.mp hnodup).2.1
  simp at hpair

end MapRelay.NS3
