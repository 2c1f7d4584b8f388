import MapRelay.Spec.CrossVertex

/-!
# The walk back through the queue

`find_vertex` gives an entry a new parent while the search goes on. The new parent is the entry
under examination, and the entry that gets it stands behind that one, as long as no vertex has
an edge to itself. So each parent is in front of its child, and `print_crossnode` comes to the
head of the queue.
-/

namespace MapRelay.NS3

open ForStd MapRelay.Graph Relation

variable {A : Type} {g : Graph A} {source target : Addr}

/-- No vertex has an edge to itself, whether or not it is in the vertex list. -/
def NoSelfLoops (g : Graph A) : Prop := ∀ u, ∀ e ∈ g.edgesOf u, e.vertex ≠ u

/-- A graph without loops has none by the edges, either. -/
private theorem noSelfLoops_of_wf (hwf : g.WF) (h : NoLoops g) : NoSelfLoops g := by
  intro u e he
  cases hcell : g.heap.cell u with
  | none => simp [edgesOf, hcell] at he
  | some v => exact h u ((hwf.live_iff u).mp (Heap.live_iff.mpr ⟨v, hcell⟩)) e he

/-! ## Queues whose parents come first -/

/-- The head has no parent, and every other entry an earlier one and an edge. -/
structure Rooted (q : List PathEntry) : Prop where
  head : ∀ p, q[0]? = some p → p.ancest = none
  linked : ∀ j p, q[j + 1]? = some p → ∃ a e, p.ancest = some a ∧ a ≤ j ∧ p.e = some e

/-- The entry at `a` is the parent of that at `i`. -/
def IsAncest (q : List PathEntry) (i a : Nat) : Prop := ∃ p, q[i]? = some p ∧ p.ancest = some a

namespace Rooted

variable {q : List PathEntry} {index i : Nat}

/-- The queue with the source alone is rooted. -/
theorem start (v : Addr) : Rooted [.start v] where
  head p hp := by
    cases hp
    rfl
  linked j p hp := by cases hp

/-- A vertex that is found from an earlier one keeps the queue rooted. -/
theorem append (h : Rooted q) (hindex : index < q.length) (v : Addr) (e : Edge) :
    Rooted (q ++ [⟨v, some index, some e⟩]) := by
  refine ⟨fun p hp => ?_, fun j p hp => ?_⟩
  -- The first entry stays the first
  · rw [List.getElem?_append_left (Nat.zero_lt_of_lt hindex)] at hp
    exact h.head p hp
  · rcases Nat.lt_or_ge (j + 1) q.length with hj | hj
    · rw [List.getElem?_append_left hj] at hp
      exact h.linked j p hp
    · -- The new entry
      rw [List.getElem?_append_right hj, List.getElem?_singleton] at hp
      split at hp
      · cases hp
        exact ⟨index, e, rfl, by omega, rfl⟩
      · cases hp

/-- A later entry gets the one at `index` as its parent. -/
theorem reparent (h : Rooted q) (hlt : index < i) :
    Rooted (q.modify i fun p => { p with ancest := some index }) := by
  refine ⟨fun p hp => ?_, fun j p hp => ?_⟩
  -- The first entry has no index below it, so it is not the one that changes
  · rw [List.getElem?_modify_ne _ _ (by omega)] at hp
    exact h.head p hp
  · by_cases hij : i = j + 1
    · -- The entry that changes keeps its edge
      subst hij
      rw [List.getElem?_modify_eq, Option.map_eq_map, Option.map_eq_some_iff] at hp
      obtain ⟨p', hp', rfl⟩ := hp
      obtain ⟨-, e, -, -, he⟩ := h.linked j p' hp'
      exact ⟨index, e, rfl, by omega, he⟩
    · rw [List.getElem?_modify_ne _ _ hij] at hp
      exact h.linked j p hp

/-- The parent of an entry is before it. -/
private theorem ancest_lt (h : Rooted q) {p : PathEntry} {a : Nat} (hp : q[i]? = some p)
    (ha : p.ancest = some a) : a < i := by
  cases i with
  | zero =>
    rw [h.head p hp] at ha
    cases ha
  | succ j =>
    obtain ⟨a', -, ha', hle, -⟩ := h.linked j p hp
    cases ha.symm.trans ha'
    omega

/-- Following the parents from any entry leads to the head. -/
private theorem reaches_head (h : Rooted q) (hi : i < q.length) :
    ReflTransGen (IsAncest q) i 0 := by
  induction i using Nat.strong_induction_on with
  | _ i ih =>
    cases i with
    | zero => exact .refl
    | succ j =>
      have hp := List.getElem?_eq_getElem hi
      obtain ⟨a, -, ha, hle, -⟩ := h.linked j _ hp
      exact .head ⟨_, hp, ha⟩ (ih a (by omega) (by omega))

/-- The walk takes at most as many steps as there are entries in front. -/
theorem crossnodeLoop_ok (h : Rooted q) (fuel : Nat) (second : Int32) (ver : Addr) (count : Nat)
    (hfuel : i < fuel) (hi : i < q.length) :
    ∃ r, crossnodeLoop q fuel i second ver count = .ok r := by
  induction fuel generalizing i second ver count with
  | zero => omega
  | succ fuel ih =>
    have hp := List.getElem?_eq_getElem hi
    generalize q[i] = p at hp
    have hentry : entryAt q i = .ok p := by rw [entryAt, hp]
    cases i with
    | zero =>
      -- The head, where the walk ends
      simp only [crossnodeLoop, hentry, h.head p hp, bind, Except.bind]
      exact ⟨_, rfl⟩
    | succ j =>
      obtain ⟨a, e, ha, hle, he⟩ := h.linked j p hp
      have hroad : p.roadId = .ok e.roadId := by rw [PathEntry.roadId, he]
      simp only [crossnodeLoop, hentry, ha, hroad, bind, Except.bind]
      split
      · exact ih _ _ _ (by omega) (by omega)
      · exact ih _ _ _ (by omega) (by omega)

/-- `print_crossnode` returns, from whichever entry it starts. -/
theorem printCrossnode_ok (h : Rooted q) (hi : i < q.length) :
    ∃ v, printCrossnode q i = .ok v := by
  have hp := List.getElem?_eq_getElem hi
  generalize q[i] = p at hp
  have hentry : entryAt q i = .ok p := by rw [entryAt, hp]
  cases i with
  -- At the root there is nothing to follow
  | zero =>
    simp only [printCrossnode, hentry, h.head p hp, bind, Except.bind]
    exact ⟨_, rfl⟩
  -- The parent comes before the entry, so the loop ends within the length of the queue
  | succ j =>
    obtain ⟨a, e, ha, hle, he⟩ := h.linked j p hp
    have hroad : p.roadId = .ok e.roadId := by rw [PathEntry.roadId, he]
    obtain ⟨⟨ver, count⟩, hloop⟩ :=
      h.crossnodeLoop_ok (i := a) q.length e.roadId NULL 0 (by omega) (by omega)
    simp only [printCrossnode, hentry, ha, hroad, hloop, bind, Except.bind]
    exact ⟨_, rfl⟩

end Rooted

/-! ## The search -/

/-- The queue while the edges of `u` are looked at, the entry of which is at `index`. -/
structure RootedAt (u : Addr) (index : Nat) (q : List PathEntry) : Prop where
  rooted : Rooted q
  at_index : (q.map PathEntry.v)[index]? = some u

/-- In a rooted queue each vertex is rooted at its place. -/
private theorem Rooted.rootedAt {index : Nat} {q : List PathEntry} {p : PathEntry} (h : Rooted q)
    (hp : q[index]? = some p) : RootedAt p.v index q :=
  ⟨h, by rw [List.getElem?_map, hp, Option.map_some]⟩

/-- The place of the vertex is in the queue. -/
theorem RootedAt.lt {u : Addr} {index : Nat} {q : List PathEntry} (h : RootedAt u index q) :
    index < q.length := by
  obtain ⟨hlt, -⟩ := List.getElem?_eq_some_iff.mp h.at_index
  rwa [List.length_map] at hlt

/-- One edge: what it leads to is another vertex than `u`, so that its entry is not at `index`. -/
theorem RootedAt.reachVertex {u : Addr} {index : Nat} {s s' : Search} {e : Edge}
    (h : RootedAt u index s.queue) (hne : e.vertex ≠ u)
    (hreach : NS3.reachVertex g target index s e = .ok s') : RootedAt u index s'.queue := by
  obtain ⟨-, ⟨-, hqueue, -⟩ | ⟨hfind, -⟩⟩ := reachVertex_cases hreach
  · -- A new vertex goes to the end of the queue
    rw [hqueue]
    refine ⟨h.rooted.append h.lt e.vertex e, ?_⟩
    rw [List.map_append, List.getElem?_append_left (by simpa using h.lt), h.at_index]
  · -- One that is in the queue may get a new parent
    obtain ⟨i, hi, hqueue⟩ := findVertex_eq_some hfind
    have hindex : i ≠ index := by
      rintro rfl
      exact hne (Option.some.inj (hi.symm.trans h.at_index))
    rw [hqueue]
    split
    next hle =>
      refine ⟨h.rooted.reparent (by omega), ?_⟩
      rw [map_modify_of_eq fun _ => by rfl]
      exact h.at_index
    next => exact h

/-- The edges of `u` one after the other. -/
theorem RootedAt.visitEdges {u : Addr} {index : Nat} {es : List Edge} {s s' : Search}
    (h : RootedAt u index s.queue) (hne : ∀ e ∈ es, e.vertex ≠ u)
    (hvisit : es.foldlM (visitEdge g target index) s = .ok s') : RootedAt u index s'.queue := by
  induction es generalizing s with
  | nil =>
    cases hvisit
    exact h
  | cons e es ih =>
    rw [List.foldlM_cons] at hvisit
    obtain ⟨s₂, hstep, hrest⟩ := bind_eq_ok.mp hvisit
    -- One edge: the lookup, which may change the queue, and the collecting, which does not
    obtain ⟨s₁, hreach, hcollect⟩ := bind_eq_ok.mp hstep
    have h₁ := h.reachVertex (hne e List.mem_cons_self) hreach
    rw [← queue_collect hcollect] at h₁
    exact ih h₁ (fun e' he' => hne e' (List.mem_cons_of_mem e he')) hrest

/-- The queue before the next vertex is expanded. -/
private theorem rooted_of_reached (hloop : NoSelfLoops g) {st : Nat × Search}
    (h : Reached g source target st) : Rooted st.2.queue := by
  obtain ⟨us, hrun⟩ := h
  refine hrun.invariant (I := fun st => Rooted st.2.queue) (.start source) ?_
  rintro st u st' hst ⟨p, v, hp, rfl, -, hderef, hvisit, -⟩
  rw [← edgesOf_of_cell (Heap.deref_eq_ok.mp hderef)] at hvisit
  exact ((Rooted.rootedAt hst hp).visitEdges (hloop p.v) hvisit).rooted

/-- The search comes to the state: before a vertex is expanded, between two of its edges, or when
    the next edge has been looked up in the queue and `print_crossnode` may be called. -/
inductive SearchPoint (g : Graph A) (source target : Addr) : Search → Prop where
  | vertex {index : Nat} {s : Search} (hreached : Reached g source target (index, s)) :
      SearchPoint g source target s
  | edge {index : Nat} {s₀ s : Search} {p : PathEntry} {v : Vertex A} {es : List Edge}
      (hreached : Reached g source target (index, s₀)) (hp : s₀.queue[index]? = some p)
      (hsame : sameId g p.v target = .ok false) (hderef : g.heap.deref p.v = .ok v)
      (hes : es <+: v.edges.nodes)
      (hvisit : es.foldlM (visitEdge g target index) s₀ = .ok s) : SearchPoint g source target s
  | lookup {index : Nat} {s₀ s s' : Search} {p : PathEntry} {v : Vertex A} {es : List Edge}
      {e : Edge} (hreached : Reached g source target (index, s₀))
      (hp : s₀.queue[index]? = some p) (hsame : sameId g p.v target = .ok false)
      (hderef : g.heap.deref p.v = .ok v) (hes : es ++ [e] <+: v.edges.nodes)
      (hvisit : es.foldlM (visitEdge g target index) s₀ = .ok s)
      (hreach : reachVertex g target index s e = .ok s') : SearchPoint g source target s'

/-- At every point of the search the queue is rooted. -/
private theorem SearchPoint.rooted (hloop : NoSelfLoops g) {s : Search}
    -- Between two vertices, between two edges, and between the lookup and the collecting
    (h : SearchPoint g source target s) : Rooted s.queue := by
  cases h with
  | vertex hreached => exact rooted_of_reached hloop hreached
  | @edge index s₀ s p v es hreached hp hsame hderef hes hvisit =>
    have hat := (rooted_of_reached hloop hreached).rootedAt hp
    rw [← edgesOf_of_cell (Heap.deref_eq_ok.mp hderef)] at hes
    exact (hat.visitEdges (fun e he => hloop p.v e (hes.subset he)) hvisit).rooted
  | @lookup index s₀ s s' p v es e hreached hp hsame hderef hes hvisit hreach =>
    have hat := (rooted_of_reached hloop hreached).rootedAt hp
    rw [← edgesOf_of_cell (Heap.deref_eq_ok.mp hderef)] at hes
    have hmid := hat.visitEdges
      (fun e' he' => hloop p.v e' (hes.subset (List.mem_append_left _ he'))) hvisit
    exact (hmid.reachVertex (hloop p.v e (hes.subset (by simp))) hreach).rooted

/-- Wherever the search is, the parent of an entry is in front of it, the parents lead to the head,
    and `print_crossnode` returns from any entry. -/
theorem printCrossnode_terminates (hloop : NoSelfLoops g) {s : Search}
    (h : SearchPoint g source target s) {i : Nat} {p : PathEntry} (hp : s.queue[i]? = some p) :
    (∀ a, p.ancest = some a → a < i) ∧ ReflTransGen (IsAncest s.queue) i 0 ∧
      ∃ v, printCrossnode s.queue i = .ok v := by
  have hrooted := h.rooted hloop
  have hi := (List.getElem?_eq_some_iff.mp hp).1
  exact ⟨fun a ha => hrooted.ancest_lt hp ha, hrooted.reaches_head hi,
    hrooted.printCrossnode_ok hi⟩

/-- The state after the edges of the first corner of the block have been looked at. -/
def blockSearch : Search where
  queue := [.start 1, ⟨2, some 0, some ⟨2, 1⟩⟩, ⟨3, some 0, some ⟨3, 1⟩⟩]
  target := none
  flag := false
  list := []

/-- The search around the block has such a point. -/
private theorem searchPoint_blockSearch : SearchPoint (block 1 2 1 2) 1 4 blockSearch := by
  have hlive : (block 1 2 1 2).Live 1 := by decide
  obtain ⟨v, hcell, hderef⟩ := Heap.deref_of_live hlive
  have hedges : v.edges.nodes = [⟨2, 1⟩, ⟨3, 1⟩] := by
    rw [← edgesOf_of_cell hcell]
    decide
  exact .edge (p := .start 1) ⟨[], .nil⟩ rfl (by decide) hderef (List.prefix_refl _)
    (by rw [hedges]; rfl)

/-- From the last entry of its queue. -/
theorem printCrossnode_terminates_block :
    (∀ a, some 0 = some a → a < 2) ∧ ReflTransGen (IsAncest blockSearch.queue) 2 0 ∧
      ∃ v, printCrossnode blockSearch.queue 2 = .ok v :=
  printCrossnode_terminates (i := 2) (p := ⟨3, some 0, some ⟨3, 1⟩⟩)
    (noSelfLoops_of_wf (block_wf 1 2 1 2) block_noLoops) searchPoint_blockSearch rfl

end MapRelay.NS3
