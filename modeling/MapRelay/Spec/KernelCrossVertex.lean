import MapRelay.ForStd.BfsTree
import MapRelay.Spec.CrossVertex
import MapRelay.Spec.KernelForward
import MapRelay.Spec.KernelGraph

/-!
# The intersection that the kernel's `cross_vertex` returns

The kernel copy stops as soon as it finds `to`, and gives no entry a new parent. So its queue is
a tree of shortest paths, and the walk back from its last entry reads the edges of a path with the
fewest edges, the last edge first. The vertex it stops at is the last one of the path at which the
road changes.
-/

namespace MapRelay.Kernel

open ForStd ForStd.BfsTree MapRelay.Graph MapRelay.NS3

variable {g : RoadGraph} {source target : Addr}

/-! ## Paths -/

/-- The edges `es` lead from `u` to `v`. -/
def Path (g : RoadGraph) (u : Addr) (es : List Edge) (v : Addr) : Prop :=
  Walk g.edgesOf Edge.vertex u es v

/-- There is no path from `u` to `v` with fewer edges. -/
def ShortestPath (g : RoadGraph) (u : Addr) (es : List Edge) (v : Addr) : Prop :=
  Path g u es v ∧ ∀ fs, Path g u fs v → es.length ≤ fs.length

/-- The entry of the queue as the program has it. -/
def toPath (x : Entry Addr Edge) : PathEntry :=
  ⟨x.v, x.parent.map Prod.fst, x.parent.map Prod.snd⟩

/-- The search of `cross_vertex` finds `target`, and `es` are the edges along the parents of its
    last entry. -/
def FoundPath (g : RoadGraph) (source target : Addr) (es : List Edge) : Prop :=
  ∃ t : List (Entry Addr Edge),
    searchQueue g target (g.vertices.nodes.length + 2) 0 [.start source] =
      .ok (t.map toPath, true) ∧ PathTo t (t.length - 1) es

/-- Different entries are different paths. -/
private theorem toPath_injective : Function.Injective toPath := by
  rintro ⟨v, p⟩ ⟨w, r⟩ h
  obtain ⟨rfl, hfst, hsnd⟩ := PathEntry.mk.inj h
  cases p with
  | none => cases r with
    | none => rfl
    | some r => cases hfst
  | some p => cases r with
    | none => cases hfst
    | some r => rw [Prod.ext (Option.some.inj hfst) (Option.some.inj hsnd)]

variable {t : List (Entry Addr Edge)}

/-- `find_vertex` asks whether the vertex is in the tree. -/
private theorem findVertex_map (t : List (Entry Addr Edge)) (v : Addr) :
    findVertex (t.map toPath) v = decide (v ∈ t.map Entry.v) := by
  rw [findVertex, List.any_map, Bool.eq_iff_iff, List.any_eq_true, decide_eq_true_iff,
    List.mem_map]
  simp [toPath]

/-- An entry of the queue is one of the tree. -/
private theorem entryAt_map {i : Nat} {x : Entry Addr Edge} (hx : t[i]? = some x) :
    entryAt (t.map toPath) i = .ok (toPath x) := by
  rw [entryAt, List.getElem?_map, hx]
  rfl

/-! ## The search -/

/-- The queue when the loop has come to position `index`: `target` has not been found, unless the
    search starts there. -/
structure SearchAt (g : RoadGraph) (source target : Addr) (t : List (Entry Addr Edge))
    (index : Nat) : Prop where
  tree : Tree g.edgesOf Edge.vertex source t
  expanded : Expanded g.edgesOf Edge.vertex t index
  below : Below t index
  mem : ∀ x ∈ t, x.v ∈ g.vertices.nodes
  missed : target ∈ t.map Entry.v → source = target

/-- The queue when the search has found `target`, by an edge of the entry at `index`. -/
structure Reached (g : RoadGraph) (source target : Addr) (t : List (Entry Addr Edge)) : Prop where
  tree : Tree g.edgesOf Edge.vertex source t
  mem : ∀ x ∈ t, x.v ∈ g.vertices.nodes
  last : ∃ index e, Expanded g.edgesOf Edge.vertex t index ∧
    t[t.length - 1]? = some ⟨target, some (index, e)⟩
  ne : source ≠ target

/-- The search starts with the source. -/
theorem SearchAt.start (hs : source ∈ g.vertices.nodes) :
    SearchAt g source target [⟨source, none⟩] 0 where
  tree := .singleton source
  expanded := by
    intro k x e hk
    omega
  below x hx a e hparent := by
    obtain rfl := List.mem_singleton.mp hx
    cases hparent
  mem x hx := by
    obtain rfl := List.mem_singleton.mp hx
    exact hs
  missed hmem := (List.mem_singleton.mp hmem).symm

/-- The queue holds each vertex at most once. -/
theorem SearchAt.length_le {index : Nat} (h : SearchAt g source target t index) :
    t.length ≤ g.vertices.nodes.length := Bfs.length_le_of_nodup h.tree.nodup h.mem

/-- A new vertex other than `target` goes to the end of the queue. -/
theorem SearchAt.append (hwf : g.WF) {index : Nat} (h : SearchAt g source target t index)
    {y : Entry Addr Edge} (hy : t[index]? = some y) {e : Edge} (he : e ∈ g.edgesOf y.v)
    (hnew : e.vertex ∉ t.map Entry.v) (hne : e.vertex ≠ target) :
    SearchAt g source target (t ++ [⟨e.vertex, some (index, e)⟩]) index where
  tree := h.tree.append h.below hy he hnew
  expanded := h.expanded.append (Nat.le_of_lt (List.getElem?_eq_some_iff.mp hy).1) _
  below := h.below.append e.vertex e
  mem := List.forall_mem_append.mpr
    ⟨h.mem, List.forall_mem_singleton.mpr (hwf.closed y.v e he)⟩
  missed hmem := by
    rw [List.map_append, List.mem_append] at hmem
    rcases hmem with hmem | hmem
    · exact h.missed hmem
    · exact absurd (List.mem_singleton.mp hmem).symm hne

/-- Where the new vertex is `target`, the search ends with its entry as the last one. -/
theorem SearchAt.reached (hwf : g.WF) {index : Nat} (h : SearchAt g source target t index)
    {y : Entry Addr Edge} (hy : t[index]? = some y) {e : Edge} (he : e ∈ g.edgesOf y.v)
    (hnew : e.vertex ∉ t.map Entry.v) (hto : e.vertex = target) :
    Reached g source target (t ++ [⟨e.vertex, some (index, e)⟩]) where
  tree := h.tree.append h.below hy he hnew
  mem := List.forall_mem_append.mpr
    ⟨h.mem, List.forall_mem_singleton.mpr (hwf.closed y.v e he)⟩
  last := by
    have hlt := (List.getElem?_eq_some_iff.mp hy).1
    refine ⟨index, e, h.expanded.append (Nat.le_of_lt hlt) _, ?_⟩
    rw [List.length_append, List.length_singleton, Nat.add_sub_cancel,
      List.getElem?_concat_length, hto]
  ne := by
    -- The search starts with `source` in the queue
    rintro rfl
    exact hnew (hto ▸ List.mem_map.mpr ⟨_, List.mem_of_getElem? h.tree.root, rfl⟩)

/-- The loop over the edges of a vertex either finds `target` or puts the ends of all the edges
    into the queue. -/
theorem SearchAt.searchEdges (hwf : g.WF) (hids : DistinctIds g)
    (ht : target ∈ g.vertices.nodes) {index : Nat} {y : Entry Addr Edge} {es : List Edge}
    (hes : ∀ e ∈ es, e ∈ g.edgesOf y.v) (h : SearchAt g source target t index)
    (hy : t[index]? = some y) :
    ∃ t' reached, searchEdges g target index es (t.map toPath) = .ok (t'.map toPath, reached) ∧
      (reached = true → Reached g source target t') ∧
      (reached = false → t <+: t' ∧ SearchAt g source target t' index ∧
        ∀ e ∈ es, e.vertex ∈ t'.map Entry.v) := by
  -- The queue grows at its end only, so that what is in it stays
  induction es generalizing t with
  | nil => exact ⟨t, false, rfl, nofun, fun _ => ⟨List.prefix_refl t, h, nofun⟩⟩
  | cons e es ih =>
    have hrest : ∀ e' ∈ es, e' ∈ g.edgesOf y.v := fun e' he' =>
      hes e' (List.mem_cons_of_mem _ he')
    have he := hes e List.mem_cons_self
    have hev := hwf.closed y.v e he
    rw [Kernel.searchEdges, findVertex_map]
    by_cases hold : e.vertex ∈ t.map Entry.v
    · -- The vertex has been found before
      rw [decide_eq_true hold, if_pos rfl]
      obtain ⟨t', reached, hok, hreached, hnot⟩ := ih hrest h hy
      refine ⟨t', reached, hok, hreached, fun hr => ?_⟩
      obtain ⟨hkept, h', hall⟩ := hnot hr
      refine ⟨hkept, h', fun e' he' => ?_⟩
      rcases List.mem_cons.mp he' with rfl | he'
      · exact (hkept.map Entry.v).subset hold
      · exact hall e' he'
    · have hindex := (List.getElem?_eq_some_iff.mp hy).1
      have hmap : t.map toPath ++ [⟨e.vertex, some index, some e⟩] =
          (t ++ [(⟨e.vertex, some (index, e)⟩ : Entry Addr Edge)]).map toPath := by
        rw [List.map_append]
        rfl
      rw [decide_eq_false hold, if_neg Bool.false_ne_true]
      simp only [hmap, sameId_eq hwf hids hev ht, bind, Except.bind]
      by_cases hto : e.vertex = target
      · -- `target` is found, and its entry is the last one
        rw [decide_eq_true hto, if_pos rfl]
        exact ⟨_, true, rfl, fun _ => h.reached hwf hy he hold hto, nofun⟩
      · -- The loop goes on with the longer queue
        rw [decide_eq_false hto, if_neg Bool.false_ne_true]
        have hnext := h.append hwf hy he hold hto
        obtain ⟨t', reached, hok, hreached, hnot⟩ := ih hrest hnext
          (by rw [List.getElem?_append_left hindex, hy])
        refine ⟨t', reached, hok, hreached, fun hr => ?_⟩
        obtain ⟨hkept, h', hall⟩ := hnot hr
        refine ⟨(List.prefix_append t _).trans hkept, h', fun e' he' => ?_⟩
        rcases List.mem_cons.mp he' with rfl | he'
        · refine (hkept.map Entry.v).subset ?_
          rw [List.map_append]
          exact List.mem_append_right _ List.mem_cons_self
        · exact hall e' he'

/-- The loop over the queue ends. It has found `target`, or it has expanded every entry. -/
theorem SearchAt.searchQueue (hwf : g.WF) (hids : DistinctIds g) (ht : target ∈ g.vertices.nodes)
    (fuel : Nat) {index : Nat} (h : SearchAt g source target t index) (hindex : index ≤ t.length)
    (hfuel : g.vertices.nodes.length + 2 ≤ index + fuel) :
    ∃ t' reached, searchQueue g target fuel index (t.map toPath) =
        .ok (t'.map toPath, reached) ∧
      (reached = true → Reached g source target t') ∧
      (reached = false → SearchAt g source target t' t'.length) := by
  induction fuel generalizing index t with
  | zero =>
    -- `index` is a place in a queue without duplicates
    have := h.length_le
    omega
  | succ fuel ih =>
    rw [Kernel.searchQueue, List.getElem?_map]
    cases hy : t[index]? with
    | none =>
      -- The end of the queue
      obtain rfl : index = t.length := by
        have := List.getElem?_eq_none_iff.mp hy
        omega
      exact ⟨t, false, rfl, by simp, fun _ => h⟩
    | some y =>
      have hlive := (hwf.live_iff y.v).mpr (h.mem y (List.mem_of_getElem? hy))
      obtain ⟨v, hv, hderef⟩ := Heap.deref_of_live hlive
      have hedges : g.edgesOf y.v = v.edges.nodes := by simp [edgesOf, hv]
      obtain ⟨t', reached, hok, hreached, hnot⟩ := h.searchEdges hwf hids ht
        (fun e he => hedges ▸ he) hy
      simp only [Option.map_some, toPath, hderef, bind, Except.bind, hok]
      cases reached with
      | true => exact ⟨t', true, rfl, hreached, by simp⟩
      | false =>
        -- All ends of its edges are in the queue: the entry has been expanded
        obtain ⟨hkept, h', hall⟩ := hnot rfl
        have hy' := Bfs.getElem?_of_prefix hkept hy
        rw [if_neg Bool.false_ne_true]
        refine ih ?_ (List.getElem?_eq_some_iff.mp hy').1 (by omega)
        exact
          { h' with
            expanded := h'.expanded.succ h'.below hy' fun e he => hall e (hedges ▸ he)
            below := h'.below.mono (Nat.le_succ index) }

/-! ## The walk back -/

/-- The walk back from the entry at `i`, after an edge of road `second`: either no other road is
    seen, or the walk stops at the last vertex that is not reached on it. -/
private theorem crossnodeFrom_ok (htree : Tree g.edgesOf Edge.vertex source t)
    (hmem : ∀ x ∈ t, x.v ≠ NULL) (fuel : Nat) {i : Nat} {es : List Edge} (hp : PathTo t i es)
    (second : Int32) (hfuel : i < fuel) :
    ∃ x, crossnodeFrom (t.map toPath) fuel i second = .ok x ∧
      (x = NULL ∧ (∀ e ∈ es, e.roadId = second) ∨
        ∃ before e after, es = before ++ e :: after ∧ x = e.vertex ∧ x ≠ NULL ∧
          e.roadId ≠ second ∧ ∀ f ∈ after, f.roadId = second) := by
  induction fuel generalizing i es with
  | zero => omega
  | succ fuel ih =>
    cases hp with
    | root =>
      -- The start of the search
      refine ⟨NULL, ?_, .inl ⟨rfl, nofun⟩⟩
      rw [crossnodeFrom, entryAt_map htree.root]
      rfl
    | @step j a v e es hx hpa =>
      obtain ⟨a', e', y, hentry, ha, -, -⟩ := htree.linked j _ hx
      cases hentry
      rw [crossnodeFrom, entryAt_map hx]
      simp only [bind, Except.bind, toPath, Option.map_some, PathEntry.roadId]
      by_cases hroad : second = e.roadId
      · -- The road goes on
        rw [if_neg (not_not.mpr hroad), ← hroad]
        obtain ⟨x, hok, hcases⟩ := ih hpa (by omega)
        refine ⟨x, hok, hcases.imp ?_ ?_⟩
        · rintro ⟨hnull, hall⟩
          exact ⟨hnull, List.forall_mem_append.mpr ⟨hall, List.forall_mem_singleton.mpr hroad.symm⟩⟩
        · rintro ⟨before, f, after, rfl, hxv, hnull, hne, hall⟩
          refine ⟨before, f, after ++ [e], by simp, hxv, hnull, hne, ?_⟩
          exact List.forall_mem_append.mpr ⟨hall, List.forall_mem_singleton.mpr hroad.symm⟩
      · -- Another road: the walk stops at the end of its edge
        rw [if_pos hroad]
        exact ⟨e.vertex, rfl, .inr ⟨es, e, [], rfl, rfl, hmem _ (List.mem_of_getElem? hx),
          Ne.symm hroad, nofun⟩⟩

/-- All the edges are of one road. -/
def SingleRoad (es : List Edge) : Prop := ∀ e ∈ es, ∀ f ∈ es, e.roadId = f.roadId

/-- `x` is the last vertex on the way at which the road changes. -/
def LastTurn (es : List Edge) (x : Addr) : Prop :=
  ∃ before e e' after, es = before ++ e :: e' :: after ∧ e.vertex = x ∧ e.roadId ≠ e'.roadId ∧
    ∀ f ∈ after, f.roadId = e'.roadId

/-- A way with a turn is not along one road. -/
private theorem LastTurn.not_singleRoad {es : List Edge} {x : Addr} (h : LastTurn es x) :
    ¬ SingleRoad es := by
  obtain ⟨before, e, e', after, rfl, -, hne, -⟩ := h
  exact fun hsingle => hne (hsingle e (by simp) e' (by simp))

/-- `print_crossnode` finds the last turn of the path, if there is one. -/
theorem Reached.printCrossnode (hwf : g.WF) (h : Reached g source target t) {es : List Edge}
    (hp : PathTo t (t.length - 1) es) :
    ∃ x, printCrossnode (t.map toPath) = .ok x ∧
      (x = NULL ∧ SingleRoad es ∨ x ≠ NULL ∧ LastTurn es x) := by
  have hnull : ∀ x ∈ t, x.v ≠ NULL := fun x hx =>
    ((hwf.live_iff x.v).mpr (h.mem x hx)).ne_null
  obtain ⟨index, e, -, hlast⟩ := h.last
  have hlen := (List.getElem?_eq_some_iff.mp hlast).1
  generalize hi : t.length - 1 = i at hp hlast
  cases hp with
  | root =>
    -- The first entry has no parent
    cases h.tree.root.symm.trans hlast
  | @step j a v e' es hx hpa =>
    obtain ⟨a', e'', y, hentry, ha, -, -⟩ := h.tree.linked j _ hx
    cases hentry
    obtain ⟨x, hok, hcases⟩ := crossnodeFrom_ok h.tree hnull t.length hpa e'.roadId (by omega)
    refine ⟨x, ?_, hcases.imp ?_ ?_⟩
    · rw [Kernel.printCrossnode, List.length_map, hi, entryAt_map hx]
      simpa only [bind, Except.bind, toPath, Option.map_some, PathEntry.roadId] using hok
    · rintro ⟨hnull, hall⟩
      have hroad : ∀ f ∈ es ++ [e'], f.roadId = e'.roadId :=
        List.forall_mem_append.mpr ⟨hall, List.forall_mem_singleton.mpr rfl⟩
      exact ⟨hnull, fun f hf f' hf' => (hroad f hf).trans (hroad f' hf').symm⟩
    · rintro ⟨before, f, after, rfl, rfl, hnull, hne, hall⟩
      refine ⟨hnull, before, f, ?_⟩
      -- The edge behind the turn is the first of `after`, or the last of the path
      cases after with
      | nil => exact ⟨e', [], by simp, rfl, hne, by simp⟩
      | cons f' after =>
        obtain ⟨hf', hrest⟩ := List.forall_mem_cons.mp hall
        refine ⟨f', after ++ [e'], by simp, rfl, fun heq => hne (heq.trans hf'), ?_⟩
        rw [hf']
        exact List.forall_mem_append.mpr ⟨hrest, List.forall_mem_singleton.mpr rfl⟩

/-! ## The result -/

/-- The path along the parents of the last entry is one with the fewest edges. -/
private theorem Reached.shortestPath (h : Reached g source target t) {es : List Edge}
    (hp : PathTo t (t.length - 1) es) : ShortestPath g source es target := by
  obtain ⟨index, e, hexp, hlast⟩ := h.last
  exact ⟨h.tree.walk_of_pathTo hp hlast, fun fs hfs => h.tree.shortest hexp hlast hp hfs⟩

/-- The search ends, and `target` is found where it is reachable and not the start. -/
private theorem search_ok (hwf : g.WF) (hids : DistinctIds g) (hs : source ∈ g.vertices.nodes)
    (ht : target ∈ g.vertices.nodes) :
    ∃ t reached, searchQueue g target (g.vertices.nodes.length + 2) 0 [.start source] =
        .ok (t.map toPath, reached) ∧
      (reached = true → Reached g source target t) ∧
      (reached = false → source = target ∨ ¬ ∃ es, Path g source es target) := by
  obtain ⟨t, reached, hok, hreached, hnot⟩ := (SearchAt.start hs).searchQueue hwf hids ht
    (g.vertices.nodes.length + 2) (Nat.zero_le _) (by omega)
  refine ⟨t, reached, hok, hreached, fun hr => or_iff_not_imp_right.mpr fun hpath => ?_⟩
  -- A queue of which every entry has been expanded has everything that is reachable
  obtain ⟨es, hes⟩ := not_not.mp hpath
  exact (hnot hr).missed ((hnot hr).tree.mem_of_walk (hnot hr).expanded hes)

/-- The kernel's `cross_vertex` terminates. It returns the last vertex at which the road changes
    on a path with the fewest edges, and `NULL` exactly if there is no path, if it has no edges,
    or if the path that has been found keeps to one road. -/
theorem crossVertex_last_turn (hwf : g.WF) (hids : DistinctIds g)
    (hs : source ∈ g.vertices.nodes) (ht : target ∈ g.vertices.nodes) :
    ∃ x, crossVertex g source target = .ok x ∧
      (x ≠ NULL → ∃ es, FoundPath g source target es ∧ ShortestPath g source es target ∧
        LastTurn es x) ∧
      (x = NULL ↔ (¬ ∃ es, Path g source es target) ∨ source = target ∨
        ∃ es, FoundPath g source target es ∧ SingleRoad es) := by
  obtain ⟨t, reached, hsearch, hreached, hnot⟩ := search_ok hwf hids hs ht
  rw [crossVertex, hsearch]
  cases reached with
  | false =>
    refine ⟨NULL, rfl, fun hnull => absurd rfl hnull, fun _ => ?_, fun _ => rfl⟩
    exact (hnot rfl).elim (fun heq => .inr (.inl heq)) .inl
  | true =>
    have h := hreached rfl
    obtain ⟨index, e, -, hlast⟩ := h.last
    obtain ⟨es, hes⟩ := h.tree.exists_pathTo hlast
    have hfound : FoundPath g source target es := ⟨t, hsearch, hes⟩
    obtain ⟨x, hok, hcases⟩ := h.printCrossnode hwf hes
    refine ⟨x, hok, fun hnull => ?_, fun hnull => ?_, fun hreason => ?_⟩
    · rcases hcases with ⟨hx, -⟩ | ⟨-, hturn⟩
      · exact absurd hx hnull
      · exact ⟨es, hfound, h.shortestPath hes, hturn⟩
    · rcases hcases with ⟨-, hsingle⟩ | ⟨hx, -⟩
      · exact .inr (.inr ⟨es, hfound, hsingle⟩)
      · exact absurd hnull hx
    · rcases hreason with hno | heq | ⟨fs, ⟨t', hsearch', hfs⟩, hsingle⟩
      · exact absurd ⟨es, (h.shortestPath hes).1⟩ hno
      · exact absurd heq h.ne
      · -- The search has found one path only
        obtain ⟨hmap, -⟩ := Prod.mk.inj (Except.ok.inj (hsearch'.symm.trans hsearch))
        obtain rfl := List.map_injective_iff.mpr toPath_injective hmap
        obtain rfl := hfs.unique hes
        rcases hcases with ⟨hx, -⟩ | ⟨-, hturn⟩
        · exact hx
        · exact absurd hsingle hturn.not_singleRoad

/-- The graph of the example is well-formed. -/
private theorem bend_wf : bend.WF := by
  have hnew : ∀ {g : RoadGraph} idStr h, Safe .same g (.newNode idStr h) := fun _ _ =>
    ⟨by simp [GraphDeliver.names], by simp⟩
  have hedge : ∀ {g : RoadGraph} {u v} r, Known g u → Known g v → Safe .same g (.newEdge u v r) :=
    fun _ hu hv => ⟨by simp [GraphDeliver.names, hu, hv], by simp⟩
  have hnodes : Run SafeStep graphCreate _ _ :=
    ((Run.nil.snoc (i := (.same, .newNode "a" 10)) ⟨hnew "a" 10, rfl⟩).snoc
      (i := (.same, .newNode "x" 20)) ⟨hnew "x" 20, rfl⟩).snoc
      (i := (.same, .newNode "d" 22)) ⟨hnew "d" 22, rfl⟩
  have hax := hnodes.snoc (i := (.same, .newEdge "a" "x" 1))
    ⟨hedge (u := "a") (v := "x") 1 (by decide) (by decide), rfl⟩
  exact wf_of_run (hax.snoc (i := (.same, .newEdge "x" "d" 2))
    ⟨hedge (u := "x") (v := "d") 2 (by decide) (by decide), rfl⟩)

/-- From `a` the road to `d` changes in the bend. -/
theorem crossVertex_last_turn_bend :
    crossVertex bend 1 3 = .ok 2 ∧ ∃ es, ShortestPath bend 1 es 3 ∧ LastTurn es 2 := by
  have hx : crossVertex bend 1 3 = .ok 2 := by decide
  obtain ⟨x, hok, hturn, -⟩ := @crossVertex_last_turn bend 1 3 bend_wf
    (by unfold DistinctIds; decide) (by decide) (by decide)
  cases hok.symm.trans hx
  obtain ⟨es, -, hshort, hlast⟩ := hturn (by decide)
  exact ⟨hx, es, hshort, hlast⟩

end MapRelay.Kernel
