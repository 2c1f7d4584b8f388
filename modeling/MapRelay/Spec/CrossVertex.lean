import Mathlib.Logic.Relation
import Mathlib.Tactic.IntervalCases
import MapRelay.ForStd.Bfs
import MapRelay.Native.CrossVertex
import MapRelay.Spec.GraphInvariant

/-!
# The intersections that `cross_vertex` returns

`cross_vertex` reads the roads of a path off the edges by which its vertices were found
first, but `find_vertex` also gives vertices new parents. The path is one of the graph as
long as the road by which a vertex was found also leads to it from each such parent. This is
a condition on the order in which a breadth-first search finds the vertices, which does not
depend on the parents.
-/

namespace MapRelay.NS3

open ForStd MapRelay.Graph Relation

variable {A : Type}

/-- There is an edge of road `r` from `u` to `v`. -/
def OnRoad (g : Graph A) (r : Int32) (u v : Addr) : Prop := r ∈ g.roads u v

/-- One road leads from `source` to `x`, and another one from there to `target`. -/
def SingleTurn (g : Graph A) (source x target : Addr) : Prop :=
  ∃ r₁ r₂, r₁ ≠ r₂ ∧ TransGen (OnRoad g r₁) source x ∧ TransGen (OnRoad g r₂) x target

/-- The vertices in the order in which a search for `target` finds them. -/
def searchOrder (g : Graph A) (source target : Addr) : List (Addr × Option Edge) :=
  Bfs.order g.edgesOf Edge.vertex target (g.vertices.nodes.length + 2) 0 [(source, none)]

/-- If a vertex that is found before `target` has an edge to one that is not found before
    itself, then it has one of the road by which that vertex is found. -/
def RoadsAgree (g : Graph A) (source target : Addr) : Prop :=
  let order := searchOrder g source target
  ∀ i j u f v e, i < (order.map Prod.fst).idxOf target → i ≤ j → order[i]? = some (u, f) →
    order[j]? = some (v, some e) → g.roads u v ≠ [] → OnRoad g e.roadId u v

/-- No edge leads from a vertex to itself. -/
def NoLoops (g : Graph A) : Prop := ∀ p ∈ g.vertices.nodes, ∀ e ∈ g.edgesOf p, e.vertex ≠ p

/-- Different vertices have different ids. -/
def DistinctIds (g : Graph A) : Prop :=
  ∀ p ∈ g.vertices.nodes, ∀ q ∈ g.vertices.nodes, g.idOf p = g.idOf q → p = q

variable {g : Graph A} {source target : Addr}

/-- With distinct ids, the comparison of the ids compares the vertices. -/
theorem sameId_eq (h : g.WF) (hids : DistinctIds g) {v w : Addr} (hv : v ∈ g.vertices.nodes)
    (hw : w ∈ g.vertices.nodes) : sameId g v w = .ok (decide (v = w)) := by
  obtain ⟨a, ha, hderefa⟩ := Heap.deref_of_live ((h.live_iff v).mpr hv)
  obtain ⟨b, hb, hderefb⟩ := Heap.deref_of_live ((h.live_iff w).mpr hw)
  have hid : a.idStr = b.idStr ↔ v = w := by
    constructor
    · intro heq
      apply hids v hv w hw
      rw [idOf, idOf, ha, hb, Option.map_some, Option.map_some, heq]
    · rintro rfl
      rw [ha] at hb
      rw [Option.some.inj hb]
  simp only [sameId, hderefa, hderefb, bind, Except.bind, pure, Except.pure, beq_eq_decide,
    hid]

/-! ## The queue -/

/-- The vertices of the queue and the edges by which they were found. -/
def found (q : List PathEntry) : List (Addr × Option Edge) := q.map fun p => (p.v, p.e)

/-- The vertices that were found are those of the queue. -/
theorem map_fst_found (q : List PathEntry) : (found q).map Prod.fst = q.map PathEntry.v := by
  rw [found, List.map_map]
  rfl

/-- What was found at a position of the queue. -/
private theorem getElem?_found {q : List PathEntry} {i : Nat} {p : PathEntry}
    (hp : q[i]? = some p) :
    (found q)[i]? = some (p.v, p.e) := by
  rw [found, List.getElem?_map, hp, Option.map_some]

/-- Every entry but the first has an earlier parent, and, under `agree`, its edge is of a road
    that leads from the parent to it. -/
structure QueueOk (agree : Prop) (g : Graph A) (source : Addr) (q : List PathEntry) : Prop where
  start : q[0]? = some (.start source)
  mem : ∀ p ∈ q, p.v ∈ g.vertices.nodes
  nodup : (q.map PathEntry.v).Nodup
  linked : ∀ j p, q[j + 1]? = some p → ∃ a u e, p.ancest = some a ∧ a ≤ j ∧
    (q.map PathEntry.v)[a]? = some u ∧ p.e = some e ∧ (agree → OnRoad g e.roadId u p.v)

variable {agree : Prop} {q : List PathEntry}

/-- Each position with a vertex has an entry. -/
theorem QueueOk.entry (h : QueueOk agree g source q) {i : Nat} {v : Addr}
    (hv : (q.map PathEntry.v)[i]? = some v) :
    ∃ p, entryAt q i = .ok p ∧ q[i]? = some p ∧ p.v = v ∧ p.v ∈ g.vertices.nodes := by
  rw [List.getElem?_map, Option.map_eq_some_iff] at hv
  obtain ⟨p, hp, rfl⟩ := hv
  exact ⟨p, by rw [entryAt, hp], hp, rfl, h.mem p (List.mem_of_getElem? hp)⟩

/-- The walk back from position `i`: either no change of the road is seen, or the first one
    seen is at a vertex `x`, and the second road leads there from it. -/
theorem crossnodeLoop_ok (h : QueueOk agree g source q) (fuel i : Nat) (v : Addr)
    (second : Int32) (ver : Addr) (count : Nat) (hfuel : i < fuel)
    (hv : (q.map PathEntry.v)[i]? = some v) :
    ∃ ver' count', crossnodeLoop q fuel i second ver count = .ok (ver', count') ∧
      count ≤ count' ∧
      (count' = count → ver' = ver ∧ (agree → ReflTransGen (OnRoad g second) source v)) ∧
      (count' = count + 1 → ∃ x r₁, r₁ ≠ second ∧ ver' = (if ver = NULL then x else ver) ∧
        (agree → TransGen (OnRoad g r₁) source x ∧ ReflTransGen (OnRoad g second) x v)) := by
  induction fuel generalizing i v second ver count with
  | zero => omega
  | succ fuel ih =>
    obtain ⟨p, hentry, hp, rfl, hmem⟩ := h.entry hv
    cases i with
    | zero =>
      -- The walk has come to the start
      rw [h.start] at hp
      cases hp
      refine ⟨ver, count, ?_, Nat.le_refl _, fun _ => ⟨rfl, fun _ => .refl⟩, by omega⟩
      rw [crossnodeLoop, hentry]
      rfl
    | succ j =>
      obtain ⟨a, u, e, hancest, ha, hu, he, hroad⟩ := h.linked j p hp
      have hunfold : crossnodeLoop q (fuel + 1) (j + 1) second ver count =
          if second ≠ e.roadId then
            crossnodeLoop q fuel a e.roadId (if ver = NULL then p.v else ver) (count + 1)
          else crossnodeLoop q fuel a e.roadId ver count := by
        rw [crossnodeLoop, hentry]
        simp only [bind, Except.bind, hancest, PathEntry.roadId, he]
      rw [hunfold]
      by_cases hsecond : second = e.roadId
      · -- The road goes on: both walks get longer by this edge
        subst hsecond
        rw [if_neg (by simp)]
        obtain ⟨ver', count', hok, hle, hsame, hone⟩ := ih a u e.roadId ver count (by omega) hu
        refine ⟨ver', count', hok, hle, ?_, ?_⟩
        · intro hcount
          refine ⟨(hsame hcount).1, fun hagree => ?_⟩
          exact ((hsame hcount).2 hagree).tail (hroad hagree)
        · intro hcount
          obtain ⟨x, r₁, hne, hver, hwalk⟩ := hone hcount
          refine ⟨x, r₁, hne, hver, fun hagree => ⟨(hwalk hagree).1, ?_⟩⟩
          exact (hwalk hagree).2.tail (hroad hagree)
      · rw [if_pos hsecond]
        obtain ⟨ver', count', hok, hle, hsame, -⟩ :=
          ih a u e.roadId (if ver = NULL then p.v else ver) (count + 1) (by omega) hu
        refine ⟨ver', count', hok, by omega, by omega, ?_⟩
        intro hcount
        -- The road changes here, and no further change is seen
        refine ⟨p.v, e.roadId, Ne.symm hsecond, (hsame hcount).1, fun hagree => ⟨?_, .refl⟩⟩
        exact TransGen.tail' ((hsame hcount).2 hagree) (hroad hagree)

/-- What `print_crossnode` returns is `NULL` or lies on a path with a single turn. -/
theorem printCrossnode_ok (h : QueueOk agree g source q) {i : Nat}
    (hi : (q.map PathEntry.v)[i]? = some target) :
    ∃ v, printCrossnode q i = .ok v ∧ (v ≠ NULL → agree → SingleTurn g source v target) := by
  obtain ⟨p, hentry, hp, rfl, -⟩ := h.entry hi
  cases i with
  | zero =>
    -- `target` is where the search starts: there is no path to print
    rw [h.start] at hp
    cases hp
    refine ⟨NULL, ?_, fun hnull => absurd rfl hnull⟩
    rw [printCrossnode, hentry]
    rfl
  | succ j =>
    obtain ⟨a, u, e, hancest, ha, hu, he, hroad⟩ := h.linked j p hp
    have hlen : j + 1 < q.length := (List.getElem?_eq_some_iff.mp hp).1
    obtain ⟨ver, count, hok, -, -, hone⟩ :=
      crossnodeLoop_ok h q.length a u e.roadId NULL 0 (by omega) hu
    refine ⟨if count = 1 then ver else NULL, ?_, ?_⟩
    · rw [printCrossnode, hentry]
      simp only [bind, Except.bind, hancest, PathEntry.roadId, he, hok]
      rfl
    · intro hnull hagree
      have hcount : count = 1 := by
        by_contra hcount
        exact hnull (if_neg hcount)
      obtain ⟨x, r₁, hne, hver, hwalk⟩ := hone hcount
      rw [if_pos hcount, hver, if_pos rfl]
      exact ⟨r₁, e.roadId, hne, (hwalk hagree).1, TransGen.tail' (hwalk hagree).2 (hroad hagree)⟩

/-! ## New entries and new parents -/

/-- The queue starts with the source. -/
theorem QueueOk.singleton (hs : source ∈ g.vertices.nodes) :
    QueueOk agree g source [.start source] where
  start := rfl
  mem p hp := by
    rw [List.mem_singleton.mp hp]
    exact hs
  nodup := List.nodup_singleton _
  linked j p hp := by cases hp

/-- A vertex that is not in the queue is added behind one that is. -/
theorem QueueOk.append (h : QueueOk agree g source q) {index : Nat} {u : Addr} {e : Edge}
    (hindex : (q.map PathEntry.v)[index]? = some u) (hmem : e.vertex ∈ g.vertices.nodes)
    (hnew : e.vertex ∉ q.map PathEntry.v) (hroad : agree → OnRoad g e.roadId u e.vertex) :
    QueueOk agree g source (q ++ [⟨e.vertex, some index, some e⟩]) := by
  have hlt : index < q.length := by
    have hlt := (List.getElem?_eq_some_iff.mp hindex).1
    rwa [List.length_map] at hlt
  -- The old positions are as they were, as the new entry is behind them
  have hold : ∀ {i : Nat} {v : Addr}, (q.map PathEntry.v)[i]? = some v →
      ((q ++ [(⟨e.vertex, some index, some e⟩ : PathEntry)]).map PathEntry.v)[i]? = some v := by
    intro i v hi
    rw [List.map_append, List.getElem?_append_left (List.getElem?_eq_some_iff.mp hi).1, hi]
  refine QueueOk.mk ?_ ?_ ?_ ?_
  · rw [List.getElem?_append_left (by omega), h.start]
  · intro p hp
    rcases List.mem_append.mp hp with hp | hp
    · exact h.mem p hp
    · rw [List.mem_singleton.mp hp]
      exact hmem
  · rw [List.map_append, List.map_singleton, ← List.concat_eq_append]
    exact .concat hnew h.nodup
  · intro j p hp
    rcases Bfs.getElem?_concat_cases hp with hp | ⟨hj, rfl⟩
    · obtain ⟨a, w, e', hancest, ha, hw, he', hroad'⟩ := h.linked j p hp
      exact ⟨a, w, e', hancest, ha, hold hw, he', hroad'⟩
    · -- The new entry
      exact ⟨index, u, e, rfl, by omega, hold hindex, rfl, hroad⟩

/-- A change that keeps a key keeps the keys of the list. -/
theorem map_modify_of_eq {α β : Type} {k : α → β} {f : α → α} (hf : ∀ a, k (f a) = k a)
    (l : List α) (i : Nat) : (l.modify i f).map k = l.map k := by
  apply List.ext_getElem?
  intro j
  rw [List.getElem?_map, List.getElem?_map, List.getElem?_modify]
  cases l[j]? with
  | none => rfl
  | some a =>
    show some (k (if i = j then f a else a)) = some (k a)
    split
    · rw [hf]
    · rfl

/-- A vertex found later gets a new parent, which has an edge to it of the road by which it
    was found. -/
theorem QueueOk.reparent (h : QueueOk agree g source q) {index j : Nat} {u v : Addr} {e : Edge}
    (hindex : (q.map PathEntry.v)[index]? = some u) (hle : index ≤ j)
    (hv : (found q)[j + 1]? = some (v, some e)) (hroad : agree → OnRoad g e.roadId u v) :
    QueueOk agree g source (q.modify (j + 1) fun p => { p with ancest := some index }) := by
  have hmap : (q.modify (j + 1) fun p => { p with ancest := some index }).map PathEntry.v =
      q.map PathEntry.v := by
    apply map_modify_of_eq
    intro p
    rfl
  -- The first entry is the source, which is not the one that is changed
  refine ⟨?_, ?_, hmap ▸ h.nodup, ?_⟩
  · rw [List.getElem?_modify_ne _ _ (by omega), h.start]
  · intro p hp
    have hpv : p.v ∈ q.map PathEntry.v := hmap ▸ List.mem_map_of_mem hp
    obtain ⟨p', hp', hpv'⟩ := List.mem_map.mp hpv
    rw [← hpv']
    exact h.mem p' hp'
  · intro i p hp
    rw [hmap]
    by_cases hi : j + 1 = i + 1
    · -- The entry that gets the new parent keeps its edge
      rw [← hi, List.getElem?_modify_eq, Option.map_eq_map, Option.map_eq_some_iff] at hp
      obtain ⟨p', hp', rfl⟩ := hp
      rw [found, List.getElem?_map, hp', Option.map_some, Option.some.injEq,
        Prod.mk.injEq] at hv
      obtain ⟨hpv, hpe⟩ := hv
      refine ⟨index, u, e, rfl, by omega, hindex, hpe, fun hagree => ?_⟩
      rw [show p'.v = v from hpv]
      exact hroad hagree
    -- Any other entry keeps its parent
    · rw [List.getElem?_modify_ne _ _ hi] at hp
      exact h.linked i p hp

/-! ## The search -/

/-- `find_vertex` fails exactly for vertices that are not in the queue. -/
private theorem findVertex_eq_none {index : Nat} {v : Addr} :
    findVertex q index v = none ↔ v ∉ q.map PathEntry.v := by
  unfold findVertex
  cases hfind : q.findIdx? (·.v == v) with
  | none =>
    rw [List.findIdx?_eq_none_iff] at hfind
    refine ⟨fun _ hv => ?_, fun _ => rfl⟩
    obtain ⟨p, hp, hpv⟩ := List.mem_map.mp hv
    have := hfind p hp
    simp [hpv] at this
  | some i =>
    obtain ⟨hi, hpi, -⟩ := List.findIdx?_eq_some_iff_getElem.mp hfind
    refine ⟨fun h => (nomatch h), fun hv => absurd ?_ hv⟩
    exact List.mem_map.mpr ⟨q[i], List.getElem_mem hi, eq_of_beq hpi⟩

/-- Otherwise it gives a vertex that is not before the current one a new ancestor. -/
theorem findVertex_eq_some {index : Nat} {v : Addr} {q' : List PathEntry}
    (h : findVertex q index v = some q') :
    ∃ i, (q.map PathEntry.v)[i]? = some v ∧
      q' = if index ≤ i then q.modify i fun p => { p with ancest := some index } else q := by
  unfold findVertex at h
  cases hfind : q.findIdx? (·.v == v) with
  | none =>
    rw [hfind] at h
    cases h
  | some i =>
    rw [hfind] at h
    obtain ⟨hi, hpi, -⟩ := List.findIdx?_eq_some_iff_getElem.mp hfind
    refine ⟨i, ?_, (Option.some.inj h).symm⟩
    rw [List.getElem?_map, List.getElem?_eq_getElem hi, Option.map_some, eq_of_beq hpi]

/-- The state of the search: the queue, the position of `target` in it, and what has been
    collected. -/
structure SearchOk (g : Graph A) (source target : Addr) (s : Search) : Prop where
  queue : QueueOk (RoadsAgree g source target) g source s.queue
  atTarget : ∀ i, s.target = some i → (s.queue.map PathEntry.v)[i]? = some target
  nodup : s.list.Nodup
  turns : RoadsAgree g source target → ∀ x ∈ s.list, SingleTurn g source x target

variable {s : Search}

/-- An edge can be looked at if the id of its vertex can be compared with that of `target`. -/
theorem reachVertex_ok {index : Nat} {e : Edge} {same : Bool}
    (hsame : sameId g e.vertex target = .ok same) :
    ∃ s', reachVertex g target index s e = .ok s' := by
  unfold reachVertex
  cases findVertex s.queue index e.vertex with
  | none =>
    simp only [hsame, bind, Except.bind]
    cases same <;> exact ⟨_, rfl⟩
  | some queue =>
    simp only [hsame, bind, Except.bind]
    split
    · cases same <;> exact ⟨_, rfl⟩
    · exact ⟨_, rfl⟩

/-- What looking at an edge can do: a vertex that is new goes to the end of the queue, and is
    remembered if it is `target`; a vertex that was found before may get another parent. -/
theorem reachVertex_cases {index : Nat} {e : Edge} {s' : Search}
    (h : reachVertex g target index s e = .ok s') : s'.list = s.list ∧
      ((e.vertex ∉ s.queue.map PathEntry.v ∧
          s'.queue = s.queue ++ [⟨e.vertex, some index, some e⟩] ∧
          ∃ same, sameId g e.vertex target = .ok same ∧
            s'.target = if same then some s.queue.length else s.target) ∨
        (findVertex s.queue index e.vertex = some s'.queue ∧ s'.target = s.target)) := by
  unfold reachVertex at h
  cases hfind : findVertex s.queue index e.vertex with
  -- `find_vertex` fails: a new entry is put at the end, and it may be the target
  | none =>
    rw [hfind] at h
    obtain ⟨same, hsame, h⟩ := bind_eq_ok.mp h
    have hnew := findVertex_eq_none.mp hfind
    cases same <;> cases h
    · exact ⟨rfl, .inl ⟨hnew, rfl, false, hsame, rfl⟩⟩
    · exact ⟨rfl, .inl ⟨hnew, rfl, true, hsame, rfl⟩⟩
  -- `find_vertex` has found the vertex, and has given it a new parent at most
  | some queue =>
    rw [hfind] at h
    dsimp only at h
    split at h
    · obtain ⟨same, -, h⟩ := bind_eq_ok.mp h
      cases same <;> cases h <;> exact ⟨rfl, .inr ⟨rfl, rfl⟩⟩
    · cases h
      exact ⟨rfl, .inr ⟨rfl, rfl⟩⟩

/-- The search starts with the source in the queue. -/
theorem SearchOk.start (hs : source ∈ g.vertices.nodes) :
    SearchOk g source target ⟨[.start source], none, false, []⟩ where
  queue := .singleton hs
  atTarget i hi := by cases hi
  nodup := List.nodup_nil
  turns _ x hx := by cases hx

/-- Collecting the turns keeps the invariant and the queue. -/
theorem SearchOk.collect (h : SearchOk g source target s) :
    ∃ s', NS3.collect s = .ok s' ∧ SearchOk g source target s' ∧ s'.queue = s.queue := by
  unfold NS3.collect
  split
  -- The target is in the queue, and printing its turns returns a vertex
  · next i hflag htarget =>
    obtain ⟨v, hprint, hturn⟩ := printCrossnode_ok h.queue (h.atTarget i htarget)
    simp only [hprint, bind, Except.bind]
    split
    · next hv =>
      -- The vertex is a turn that has not been collected yet
      refine ⟨_, rfl, ⟨h.queue, h.atTarget, ?_, ?_⟩, rfl⟩
      · show (s.list ++ [v]).Nodup
        rw [← List.concat_eq_append]
        exact .concat hv.2 h.nodup
      · intro hagree x hx
        rcases List.mem_append.mp hx with hx | hx
        · exact h.turns hagree x hx
        · rw [List.mem_singleton.mp hx]
          exact hturn hv.1 hagree
    · exact ⟨s, rfl, h, rfl⟩
  · exact ⟨s, rfl, h, rfl⟩
  · exact ⟨s, rfl, h, rfl⟩

/-- What the search needs in order to expand `u` at position `index`: if the roads agree, each
    vertex at this or a later position to which `u` has an edge is found by an edge of a road
    that leads there from `u`. -/
def Expands (g : Graph A) (source target : Addr) (index : Nat) (u : Addr) : Prop :=
  RoadsAgree g source target → ∀ j v e, index ≤ j →
    (searchOrder g source target)[j]? = some (v, some e) → g.roads u v ≠ [] →
    OnRoad g e.roadId u v

/-- If the roads agree, every vertex before the target can be expanded. -/
private theorem RoadsAgree.expands {index : Nat} {u : Addr} {f : Option Edge}
    (hindex : (searchOrder g source target)[index]? = some (u, f))
    (hlt : index < ((searchOrder g source target).map Prod.fst).idxOf target) :
    Expands g source target index u :=
  fun hagree j v e hle hj hroads => hagree index j u f v e hlt hle hindex hj hroads

/-- The edge leads to a vertex that was found before. It becomes the parent of that vertex only if
    the vertex was found later, and then by an edge of a road that `u` has to it, too. -/
theorem QueueOk.findVertex (h : QueueOk agree g source q) (hloop : NoLoops g)
    {index : Nat} {u : Addr} {e : Edge} {q' : List PathEntry}
    (hindex : (q.map PathEntry.v)[index]? = some u) (he : e ∈ g.edgesOf u)
    (hroad : agree → ∀ j e', index ≤ j → (found q)[j]? = some (e.vertex, some e') →
      OnRoad g e'.roadId u e.vertex)
    (hfind : NS3.findVertex q index e.vertex = some q') :
    QueueOk agree g source q' ∧ found q' = found q := by
  obtain ⟨i, hi, rfl⟩ := findVertex_eq_some hfind
  by_cases hle : index ≤ i
  · rw [if_pos hle]
    refine ⟨?_, map_modify_of_eq (fun _ => by rfl) q i⟩
    -- The vertex is not the one under examination, which has no edge to itself
    have hne : index ≠ i := by
      intro heq
      obtain ⟨p, -, -, hpv, hmem⟩ := h.entry hindex
      rw [heq, hi] at hindex
      exact hloop u (hpv ▸ hmem) e he (Option.some.inj hindex)
    obtain ⟨j, rfl⟩ : ∃ j, i = j + 1 := ⟨i - 1, by omega⟩
    obtain ⟨p, -, hp, hpv, -⟩ := h.entry hi
    obtain ⟨a, w, e', -, -, -, hpe, -⟩ := h.linked j p hp
    have hj : (found q)[j + 1]? = some (e.vertex, some e') := by
      rw [getElem?_found hp, hpv, hpe]
    exact h.reparent hindex (by omega) hj fun hagree => hroad hagree (j + 1) e' (by omega) hj
  · rw [if_neg hle]
    exact ⟨h, rfl⟩

/-- An edge of the vertex at position `index` is looked at. -/
theorem SearchOk.reachVertex (h : SearchOk g source target s) (hwf : g.WF) (hloop : NoLoops g)
    (hids : DistinctIds g) (ht : target ∈ g.vertices.nodes) {index : Nat} {u : Addr} {e : Edge}
    (hindex : (s.queue.map PathEntry.v)[index]? = some u) (he : e ∈ g.edgesOf u)
    (hexp : Expands g source target index u)
    (hsofar : found s.queue <+: searchOrder g source target) :
    ∃ s', NS3.reachVertex g target index s e = .ok s' ∧ SearchOk g source target s' ∧
      found s'.queue = Bfs.scan Edge.vertex [e] (found s.queue) := by
  have hmem : e.vertex ∈ g.vertices.nodes := hwf.closed u e he
  have hroad : OnRoad g e.roadId u e.vertex := mem_roads.mpr he
  obtain ⟨s', hreach⟩ : ∃ s', NS3.reachVertex g target index s e = .ok s' :=
    reachVertex_ok (sameId_eq hwf hids hmem ht)
  refine ⟨s', hreach, ?_⟩
  obtain ⟨hlist, ⟨hnew, hqueue, same, hsame, htarget⟩ | ⟨hfind, htarget⟩⟩ :=
    reachVertex_cases hreach
  · -- A new entry, whose parent is the vertex under examination
    have hok := h.queue.append hindex hmem hnew fun _ => hroad
    refine ⟨⟨hqueue ▸ hok, ?_, hlist ▸ h.nodup, hlist ▸ h.turns⟩, ?_⟩
    -- The target is at the position that is stored: it is the new entry, or was there before
    · rw [sameId_eq hwf hids hmem ht] at hsame
      cases hsame
      intro i hi
      rw [htarget] at hi
      rw [hqueue, List.map_append]
      split at hi
      · next hv =>
        cases hi
        rw [List.getElem?_append_right (by simp)]
        simpa using hv
      · have hold := h.atTarget i hi
        rw [List.getElem?_append_left (List.getElem?_eq_some_iff.mp hold).1, hold]
    · rw [hqueue, Bfs.scan_cons_new (by rwa [map_fst_found]), found, List.map_append]
      rfl
  · -- No new entry: the order stays as it is
    obtain ⟨hok, hfound⟩ := h.queue.findVertex hloop hindex he
      (fun hagree j e' hle hj => hexp hagree j e.vertex e' hle (Bfs.getElem?_of_prefix hsofar hj)
        (List.ne_nil_of_mem hroad)) hfind
    refine ⟨⟨hok, ?_, hlist ▸ h.nodup, hlist ▸ h.turns⟩, ?_⟩
    · rw [htarget, ← map_fst_found, hfound, map_fst_found]
      exact h.atTarget
    · obtain ⟨i, hi, -⟩ := findVertex_eq_some hfind
      rw [Bfs.scan_cons_old (by rw [map_fst_found]; exact List.mem_of_getElem? hi), hfound]
      rfl

/-- All the edges of the vertex at position `index` are looked at. -/
theorem SearchOk.visitEdges (hwf : g.WF) (hloop : NoLoops g) (hids : DistinctIds g)
    (ht : target ∈ g.vertices.nodes) {index : Nat} {u : Addr} {es : List Edge}
    (h : SearchOk g source target s) (hindex : (s.queue.map PathEntry.v)[index]? = some u)
    (hes : ∀ e ∈ es, e ∈ g.edgesOf u) (hexp : Expands g source target index u)
    (hsofar : Bfs.scan Edge.vertex es (found s.queue) <+: searchOrder g source target) :
    ∃ s', es.foldlM (visitEdge g target index) s = .ok s' ∧ SearchOk g source target s' ∧
      found s'.queue = Bfs.scan Edge.vertex es (found s.queue) := by
  induction es generalizing s with
  | nil => exact ⟨s, rfl, h, rfl⟩
  | cons e es ih =>
    -- One edge is followed and the turns are collected, then the loop goes on
    obtain ⟨s₁, hreach, hs₁, hfound₁⟩ := h.reachVertex hwf hloop hids ht hindex
      (hes e List.mem_cons_self) hexp ((Bfs.prefix_scan (e :: es) _).trans hsofar)
    obtain ⟨s₂, hcollect, hs₂, hqueue₂⟩ := hs₁.collect
    have hscan : Bfs.scan Edge.vertex es (found s₂.queue) =
        Bfs.scan Edge.vertex (e :: es) (found s.queue) := by
      rw [hqueue₂, hfound₁]
      rfl
    -- The vertex under examination keeps its position, since the queue only grows at the end
    have hindex₂ : (s₂.queue.map PathEntry.v)[index]? = some u := by
      rw [← map_fst_found] at hindex
      rw [← map_fst_found, hqueue₂, hfound₁]
      exact Bfs.getElem?_of_prefix ((Bfs.prefix_scan [e] _).map Prod.fst) hindex
    obtain ⟨s', hrest, hs', hfound'⟩ := ih hs₂ hindex₂
      (fun e' he' => hes e' (List.mem_cons_of_mem _ he')) (hscan ▸ hsofar)
    refine ⟨s', ?_, hs', hfound'.trans hscan⟩
    rw [List.foldlM_cons, visitEdge, hreach]
    simp only [bind, Except.bind, hcollect]
    exact hrest

/-- The queue holds each vertex at most once. -/
theorem QueueOk.length_le (h : QueueOk agree g source q) :
    q.length ≤ g.vertices.nodes.length := Bfs.length_le_of_nodup h.nodup h.mem

/-- The body of the loop of `cross_vertex` over the queue: the vertex `u` at the position in
    question is not `target`, and all its edges are looked at. -/
def ExpandStep (g : Graph A) (target : Addr) (st : Nat × Search) (u : Addr) (st' : Nat × Search) :
    Prop :=
  ∃ p v, st.2.queue[st.1]? = some p ∧ p.v = u ∧ sameId g u target = .ok false ∧
    g.heap.deref u = .ok v ∧ v.edges.nodes.foldlM (visitEdge g target st.1) st.2 = .ok st'.2 ∧
    st'.1 = st.1 + 1

/-- The loop goes on from the state after the step. -/
private theorem searchQueue_expand {st st' : Nat × Search} {u : Addr}
    (h : ExpandStep g target st u st') (fuel : Nat) :
    NS3.searchQueue g target (fuel + 1) st.1 st.2 = NS3.searchQueue g target fuel st'.1 st'.2 := by
  obtain ⟨p, v, hp, rfl, hsame, hderef, hvisit, hindex⟩ := h
  rw [NS3.searchQueue, hp]
  simp only [hsame, hderef, hvisit, hindex, bind, Except.bind]
  rfl

/-- The state of the search before the vertex at position `index` is expanded: what has been
    found so far are the first vertices of the order, and `target` is not before `index`. -/
structure SearchAt (g : Graph A) (source target : Addr) (index : Nat) (s : Search) : Prop where
  ok : SearchOk g source target s
  le : index ≤ s.queue.length
  order : ∃ fuel, g.vertices.nodes.length + 2 = fuel + index ∧
    Bfs.order g.edgesOf Edge.vertex target fuel index (found s.queue) = searchOrder g source target
  before : index ≤ ((searchOrder g source target).map Prod.fst).idxOf target

/-- At the start the queue is as the order says. -/
theorem SearchAt.start (hs : source ∈ g.vertices.nodes) :
    SearchAt g source target 0 ⟨[.start source], none, false, []⟩ where
  ok := .start hs
  le := Nat.zero_le _
  order := ⟨_, rfl, rfl⟩
  before := Nat.zero_le _

/-- The queue is a prefix of the order. -/
private theorem SearchAt.found_prefix {index : Nat} (h : SearchAt g source target index s) :
    found s.queue <+: searchOrder g source target := by
  obtain ⟨fuel, -, horder⟩ := h.order
  rw [← horder]
  exact Bfs.prefix_order fuel index _

/-- Expanding the vertex of a position brings the search to the next one. -/
theorem SearchAt.expand (hwf : g.WF) (hloop : NoLoops g) (hids : DistinctIds g)
    (ht : target ∈ g.vertices.nodes) {index : Nat} (h : SearchAt g source target index s)
    {p : PathEntry} (hp : s.queue[index]? = some p) (hstop : p.v ≠ target) :
    ∃ s', ExpandStep g target (index, s) p.v (index + 1, s') ∧
      SearchAt g source target (index + 1) s' ∧
      found s'.queue = Bfs.scan Edge.vertex (g.edgesOf p.v) (found s.queue) := by
  have hmem := h.ok.queue.mem p (List.mem_of_getElem? hp)
  have hin : index < s.queue.length := (List.getElem?_eq_some_iff.mp hp).1
  have hlen := h.ok.queue.length_le
  have hpos := getElem?_found hp
  obtain ⟨fuel, hfuel, horder⟩ := h.order
  obtain ⟨n, rfl⟩ : ∃ n, fuel = n + 1 := ⟨fuel - 1, by omega⟩
  rw [Bfs.order, hpos] at horder
  dsimp only at horder
  rw [if_neg hstop] at horder
  have hscan : Bfs.scan Edge.vertex (g.edgesOf p.v) (found s.queue) <+:
      searchOrder g source target := horder ▸ Bfs.prefix_order n (index + 1) _
  have hat := Bfs.getElem?_of_prefix h.found_prefix hpos
  -- This vertex is not `target`, which therefore comes later in the order
  have hlt : index < ((searchOrder g source target).map Prod.fst).idxOf target := by
    refine Nat.lt_of_le_of_ne h.before fun heq => hstop ?_
    have hfst : ((searchOrder g source target).map Prod.fst)[index]? = some p.v := by
      rw [List.getElem?_map, hat, Option.map_some]
    obtain ⟨hlen, hget⟩ := List.getElem?_eq_some_iff.mp hfst
    rw [← hget]
    simp only [heq]
    exact List.getElem_idxOf (heq ▸ hlen)
  obtain ⟨v, hcell, hderef⟩ := Heap.deref_of_live ((hwf.live_iff p.v).mpr hmem)
  obtain ⟨s', hvisit, hs', hfound⟩ := h.ok.visitEdges hwf hloop hids ht
    (by rw [List.getElem?_map, hp, Option.map_some])
    (fun e he => he) (RoadsAgree.expands hat hlt) hscan
  have hgrow : s.queue.length ≤ s'.queue.length := by
    have hstays : found s.queue <+: found s'.queue := by
      rw [hfound]
      exact Bfs.prefix_scan _ _
    have hle := hstays.length_le
    rw [found, found, List.length_map, List.length_map] at hle
    exact hle
  rw [edgesOf_of_cell hcell] at hvisit
  refine ⟨s', ⟨p, v, hp, rfl, ?_, hderef, hvisit, rfl⟩, ⟨hs', by omega, ⟨n, by omega, ?_⟩, hlt⟩,
    hfound⟩
  · rw [sameId_eq hwf hids hmem ht, decide_eq_false hstop]
  · rw [hfound]
    exact horder

/-- The loop over the queue ends, and its list is as it should be. -/
theorem SearchAt.searchQueue (hwf : g.WF) (hloop : NoLoops g) (hids : DistinctIds g)
    (ht : target ∈ g.vertices.nodes) (fuel : Nat) {index : Nat}
    (h : SearchAt g source target index s) (hfuel : g.vertices.nodes.length + 2 ≤ fuel + index) :
    ∃ list, NS3.searchQueue g target fuel index s = .ok list ∧ list.Nodup ∧
      (RoadsAgree g source target → ∀ x ∈ list, SingleTurn g source x target) := by
  induction fuel generalizing index s with
  | zero =>
    -- The fuel lasts, because the queue is no longer than the vertex list
    have hlen := h.ok.queue.length_le
    have hle := h.le
    omega
  | succ fuel ih =>
    cases hp : s.queue[index]? with
    | none =>
      rw [NS3.searchQueue, hp]
      exact ⟨s.list, rfl, h.ok.nodup, h.ok.turns⟩
    | some p =>
      by_cases hstop : p.v = target
      · have hmem := h.ok.queue.mem p (List.mem_of_getElem? hp)
        rw [NS3.searchQueue, hp]
        dsimp only
        rw [sameId_eq hwf hids hmem ht, decide_eq_true hstop]
        exact ⟨s.list, rfl, h.ok.nodup, h.ok.turns⟩
      · obtain ⟨s', hstep, h', -⟩ := h.expand hwf hloop hids ht hp hstop
        obtain ⟨list, hrest, hlist⟩ := ih h' (by omega)
        exact ⟨list, (searchQueue_expand hstep fuel).trans hrest, hlist⟩

/-! ## Roads that were recorded wrongly -/

/-- The state `st` is one that the search comes to. -/
def Reached (g : Graph A) (source target : Addr) (st : Nat × Search) : Prop :=
  ∃ us, Run (ExpandStep g target) (0, ⟨[.start source], none, false, []⟩) us st

/-- The edge of each entry is of a road that leads there from its parent. -/
def Truthful (g : Graph A) (q : List PathEntry) : Prop :=
  ∀ p ∈ q, ∀ a e w, p.ancest = some a → p.e = some e → q[a]? = some w → OnRoad g e.roadId w.v p.v

/-- If the roads agree, the queue tells the truth. -/
private theorem QueueOk.truthful (h : QueueOk agree g source q) (hagree : agree) :
    Truthful g q := by
  intro p hp a e w hancest he hw
  obtain ⟨i, hi⟩ := List.mem_iff_getElem?.mp hp
  cases i with
  -- The first entry is the source, which has no parent
  | zero =>
    rw [h.start] at hi
    cases hi
    cases hancest
  -- The parent and the edge of any other entry are those of the invariant
  | succ j =>
    obtain ⟨a', u, e', hancest', -, hu, he', hroad⟩ := h.linked j p hi
    cases hancest.symm.trans hancest'
    cases he.symm.trans he'
    rw [List.getElem?_map, hw, Option.map_some] at hu
    cases hu
    exact hroad hagree

/-- The search only comes to states as they should be. -/
private theorem SearchAt.of_reached (hwf : g.WF) (hloop : NoLoops g) (hids : DistinctIds g)
    (hs : source ∈ g.vertices.nodes) (ht : target ∈ g.vertices.nodes) {st : Nat × Search}
    (h : Reached g source target st) : SearchAt g source target st.1 st.2 := by
  obtain ⟨us, hrun⟩ := h
  refine hrun.invariant (I := fun st => SearchAt g source target st.1 st.2) (.start hs) ?_
  -- A step of the run expands the vertex at its position, which is not the target
  intro st u st' hst hstep
  obtain ⟨p, v, hp, rfl, hsame, hderef, hvisit, hindex⟩ := hstep
  have hmem := hst.ok.queue.mem p (List.mem_of_getElem? hp)
  have hstop : p.v ≠ target := by
    intro heq
    rw [sameId_eq hwf hids hmem ht, decide_eq_true heq] at hsame
    cases hsame
  -- Expanding it can have one outcome only, so that the step is the one of the invariant
  obtain ⟨s', ⟨p', v', hp', -, -, hderef', hvisit', -⟩, h', -⟩ :=
    hst.expand hwf hloop hids ht hp hstop
  cases hderef.symm.trans hderef'
  cases hvisit.symm.trans hvisit'
  rw [hindex]
  exact h'

/-- A vertex that comes before `target` in the order is in the queue when its turn comes. -/
theorem SearchAt.entry {index : Nat} (h : SearchAt g source target index s)
    (hlt : index < ((searchOrder g source target).map Prod.fst).idxOf target) :
    ∃ p, s.queue[index]? = some p ∧ p.v ≠ target := by
  have hlen := List.idxOf_le_length (l := (searchOrder g source target).map Prod.fst) (a := target)
  rw [List.length_map] at hlen
  cases hp : s.queue[index]? with
  | none =>
    -- Else the search would be over, and the order no longer than the queue
    exfalso
    have hqueue := List.getElem?_eq_none_iff.mp hp
    have hbound := h.ok.queue.length_le
    obtain ⟨fuel, hfuel, horder⟩ := h.order
    obtain ⟨n, rfl⟩ : ∃ n, fuel = n + 1 := ⟨fuel - 1, by have := h.le; omega⟩
    rw [Bfs.order, found, List.getElem?_map, hp, Option.map_none] at horder
    dsimp only at horder
    rw [← horder] at hlen hlt
    rw [List.length_map] at hlen
    omega
  | some p =>
    refine ⟨p, rfl, ?_⟩
    have hpos := Bfs.getElem?_of_prefix h.found_prefix (getElem?_found hp)
    have hfst : ((searchOrder g source target).map Prod.fst)[index]? = some p.v := by
      rw [List.getElem?_map, hpos, Option.map_some]
    obtain ⟨hindex, hget⟩ := List.getElem?_eq_some_iff.mp hfst
    have hne := List.not_of_lt_findIdx hlt
    rw [hget] at hne
    exact ne_of_beq_false hne

/-- The search comes to the vertices of the order, up to `target`. -/
private theorem reached_before (hwf : g.WF) (hloop : NoLoops g) (hids : DistinctIds g)
    (hs : source ∈ g.vertices.nodes) (ht : target ∈ g.vertices.nodes) {i : Nat}
    (hi : i ≤ ((searchOrder g source target).map Prod.fst).idxOf target) :
    ∃ s, Reached g source target (i, s) := by
  induction i with
  | zero => exact ⟨_, [], .nil⟩
  | succ i ih =>
    obtain ⟨s, us, hrun⟩ := ih (by omega)
    have hat := SearchAt.of_reached hwf hloop hids hs ht ⟨us, hrun⟩
    obtain ⟨p, hp, hstop⟩ := hat.entry (by omega)
    obtain ⟨s', hstep, -⟩ := hat.expand hwf hloop hids ht hp hstop
    exact ⟨s', _, hrun.snoc hstep⟩

/-- An entry that is not before position `index` gets the vertex there as its parent when an
    edge to it is looked at, and stays the same when another one is. -/
private theorem entry_reachVertex {index j : Nat} {e : Edge} {p : PathEntry} {s' : Search}
    (hnodup : (s.queue.map PathEntry.v).Nodup) (hp : s.queue[j]? = some p) (hle : index ≤ j)
    (hreach : NS3.reachVertex g target index s e = .ok s') :
    (s'.queue.map PathEntry.v).Nodup ∧
      s'.queue[j]? = some (if e.vertex = p.v then { p with ancest := some index } else p) := by
  have hpv : (s.queue.map PathEntry.v)[j]? = some p.v := by
    rw [List.getElem?_map, hp, Option.map_some]
  obtain ⟨-, ⟨hnew, hqueue, -⟩ | ⟨hfind, -⟩⟩ := reachVertex_cases hreach
  · -- A new entry behind the others, for another vertex
    have hne : e.vertex ≠ p.v := by
      intro heq
      exact hnew (heq ▸ List.mem_of_getElem? hpv)
    rw [hqueue, if_neg hne, List.getElem?_append_left (List.getElem?_eq_some_iff.mp hp).1, hp,
      List.map_append, List.map_singleton, ← List.concat_eq_append]
    exact ⟨.concat hnew hnodup, rfl⟩
  -- No new entry: the queue changes in the parent of one entry at most
  · obtain ⟨i, hi, hqueue⟩ := findVertex_eq_some hfind
    rw [hqueue]
    refine ⟨?_, ?_⟩
    · split
      · rw [map_modify_of_eq fun _ => by rfl]
        exact hnodup
      · exact hnodup
    -- The entry at `j` is the one that changes exactly if it is the one that was found
    by_cases heq : e.vertex = p.v
    · -- The vertex is in the queue once, at `j`
      have hij : i = j := by
        obtain ⟨hlt, -⟩ := List.getElem?_eq_some_iff.mp hi
        exact (List.getElem?_inj hlt hnodup).mp (by rw [hi, hpv, heq])
      subst hij
      rw [if_pos heq, if_pos hle, List.getElem?_modify_eq, hp]
      rfl
    · have hij : i ≠ j := by
        rintro rfl
        rw [hpv] at hi
        exact heq (Option.some.inj hi).symm
      rw [if_neg heq]
      split
      · rw [List.getElem?_modify_ne _ _ hij, hp]
      · exact hp

/-- Collecting the turns keeps the queue. -/
theorem queue_collect {s' : Search} (h : NS3.collect s = .ok s') : s'.queue = s.queue := by
  unfold NS3.collect at h
  split at h
  · obtain ⟨v, -, h⟩ := bind_eq_ok.mp h
    split at h <;> cases h <;> rfl
  · cases h
    rfl
  · cases h
    rfl

/-- After all edges of the vertex at position `index` have been looked at, it is the parent of
    each entry behind it to which it has an edge. -/
private theorem entry_visitEdges {index j : Nat} {es : List Edge} {p : PathEntry} {s' : Search}
    (hnodup : (s.queue.map PathEntry.v).Nodup) (hp : s.queue[j]? = some p) (hle : index ≤ j)
    (hvisit : es.foldlM (visitEdge g target index) s = .ok s')
    (hparent : (∃ e ∈ es, e.vertex = p.v) ∨ p.ancest = some index) :
    s'.queue[j]? = some { p with ancest := some index } := by
  induction es generalizing s p with
  | nil =>
    cases hvisit
    rcases hparent with ⟨e, he, -⟩ | hancest
    · cases he
    · rw [hp, ← hancest]
  | cons e es ih =>
    rw [List.foldlM_cons] at hvisit
    obtain ⟨s₂, hstep, hrest⟩ := bind_eq_ok.mp hvisit
    obtain ⟨s₁, hreach, hcollect⟩ := bind_eq_ok.mp hstep
    obtain ⟨hnodup₁, hp₁⟩ := entry_reachVertex hnodup hp hle hreach
    rw [← queue_collect hcollect] at hnodup₁ hp₁
    by_cases heq : e.vertex = p.v
    · -- Once the parent is the right one, it is set to the same again at most
      rw [if_pos heq] at hp₁
      exact ih (p := { p with ancest := some index }) hnodup₁ hp₁ hrest (.inr rfl)
    -- The edge leads elsewhere, so that the one to the vertex is still to come
    · rw [if_neg heq] at hp₁
      refine ih hnodup₁ hp₁ hrest (hparent.imp_left ?_)
      intro ⟨e', he', hv⟩
      rcases List.mem_cons.mp he' with rfl | he'
      · exact absurd hv heq
      · exact ⟨e', he', hv⟩

/-- Each vertex has one place in the order. -/
private theorem searchOrder_place {j k : Nat} {v : Addr} {f f' : Option Edge}
    (hj : (searchOrder g source target)[j]? = some (v, f))
    (hk : (searchOrder g source target)[k]? = some (v, f')) : k = j ∧ f' = f := by
  have hnodup : ((searchOrder g source target).map Prod.fst).Nodup :=
    Bfs.nodup_order _ _ (List.nodup_singleton _)
  have hjv : ((searchOrder g source target).map Prod.fst)[j]? = some v := by
    rw [List.getElem?_map, hj, Option.map_some]
  have hkv : ((searchOrder g source target).map Prod.fst)[k]? = some v := by
    rw [List.getElem?_map, hk, Option.map_some]
  obtain ⟨hlt, -⟩ := List.getElem?_eq_some_iff.mp hkv
  obtain rfl := (List.getElem?_inj hlt hnodup).mp (hkv.trans hjv.symm)
  exact ⟨rfl, Prod.mk.inj (Option.some.inj (hk.symm.trans hj)) |>.2⟩

/-- If the state is as it should be after `p` has been expanded, then the edge of an entry that
    was already there, and that `p` has an edge to, is of a road that leads there from `p`. -/
private theorem onRoad_of_truthful {i j : Nat} {p w : PathEntry} {e e' : Edge} {s' : Search}
    (hnodup : (s.queue.map PathEntry.v).Nodup) (hp : s.queue[i]? = some p)
    (hw : s.queue[j]? = some w) (hij : i ≤ j)
    (hstep : ExpandStep g target (i, s) p.v (i + 1, s'))
    (hfound : found s.queue <+: found s'.queue) (he : e ∈ g.edgesOf p.v) (hv : e.vertex = w.v)
    (hwe : w.e = some e') (htruthful : Truthful g s'.queue) : OnRoad g e'.roadId p.v w.v := by
  obtain ⟨p', vertex, -, -, -, hderef, hvisit, -⟩ := hstep
  rw [← edgesOf_of_cell (Heap.deref_eq_ok.mp hderef)] at hvisit
  have hparent := entry_visitEdges hnodup hw hij hvisit (.inl ⟨e, he, hv⟩)
  -- The parent is still at position `i`
  have hpos := Bfs.getElem?_of_prefix hfound (getElem?_found hp)
  rw [found, List.getElem?_map, Option.map_eq_some_iff] at hpos
  obtain ⟨parent, hget, hpu⟩ := hpos
  have hroad := htruthful _ (List.mem_of_getElem? hparent) i e' parent rfl hwe hget
  rw [show parent.v = p.v from congrArg Prod.fst hpu] at hroad
  exact hroad

/-- Where the roads do not agree, the search comes to a state with an entry whose edge is of a
    road that does not lead there from its parent. -/
private theorem exists_not_truthful (hwf : g.WF) (hloop : NoLoops g) (hids : DistinctIds g)
    (hs : source ∈ g.vertices.nodes) (ht : target ∈ g.vertices.nodes)
    (hroads : ¬ RoadsAgree g source target) :
    ∃ st, Reached g source target st ∧ ¬ Truthful g st.2.queue := by
  simp only [RoadsAgree, not_forall] at hroads
  obtain ⟨i, j, u, f, v, e, hi, hij, hiu, hjv, huv, hroad⟩ := hroads
  -- The state is the one after the expansion of `u`
  obtain ⟨s, hreached⟩ := reached_before hwf hloop hids hs ht (Nat.le_of_lt hi)
  have hat := SearchAt.of_reached hwf hloop hids hs ht hreached
  obtain ⟨p, hp, hstop⟩ := hat.entry hi
  obtain ⟨s', hstep, hat', hfound⟩ := hat.expand hwf hloop hids ht hp hstop
  have hreached' : Reached g source target (i + 1, s') := by
    obtain ⟨us, hrun⟩ := hreached
    exact ⟨_, hrun.snoc hstep⟩
  refine ⟨_, hreached', fun htruthful => hroad ?_⟩
  obtain rfl : p.v = u := by
    have hpos := Bfs.getElem?_of_prefix hat.found_prefix (getElem?_found hp)
    exact (Prod.mk.inj (Option.some.inj (hpos.symm.trans hiu))).1
  obtain ⟨r, hr⟩ := List.exists_mem_of_ne_nil _ huv
  have hedge := mem_roads.mp hr
  have hin : v ∈ (found s'.queue).map Prod.fst := by
    rw [hfound]
    exact Bfs.dst_mem_scan hedge
  obtain ⟨⟨v, x⟩, hx, rfl⟩ := List.mem_map.mp hin
  obtain ⟨k, hk⟩ := List.mem_iff_getElem?.mp hx
  obtain ⟨-, rfl⟩ := searchOrder_place hjv (Bfs.getElem?_of_prefix hat'.found_prefix hk)
  rw [hfound] at hx
  rcases Bfs.mem_scan hx with hold | ⟨e', he', heq⟩
  · -- Found before: its parent is now `u`, and its edge is the same as before
    obtain ⟨w, hw, heq⟩ := List.mem_map.mp hold
    obtain ⟨rfl, he⟩ := Prod.mk.inj heq
    obtain ⟨l, hl⟩ := List.mem_iff_getElem?.mp hw
    have hpos := Bfs.getElem?_of_prefix hat.found_prefix (getElem?_found hl)
    obtain ⟨rfl, -⟩ := searchOrder_place hjv hpos
    have hinitial : found s.queue <+: found s'.queue := hfound ▸ Bfs.prefix_scan _ _
    exact onRoad_of_truthful hat.ok.queue.nodup hp hl hij hstep hinitial hedge rfl he htruthful
  · -- Found by an edge of `u`
    cases heq
    exact mem_roads.mpr he'

/-- `cross_vertex` terminates and returns no vertex twice, and if the roads agree along the
    search, each vertex that it returns lies on a path with a single turn there. If they do
    not, and only then, the search comes to a state in which a road is recorded wrongly. -/
theorem crossVertex_single_turns (hwf : g.WF) (hloop : NoLoops g) (hids : DistinctIds g)
    (hs : source ∈ g.vertices.nodes) (ht : target ∈ g.vertices.nodes) :
    (∃ list, crossVertex g source target = .ok list ∧ list.Nodup ∧
      (RoadsAgree g source target → ∀ x ∈ list, SingleTurn g source x target)) ∧
    (RoadsAgree g source target ↔
      ∀ st, Reached g source target st → Truthful g st.2.queue) := by
  refine ⟨(SearchAt.start hs).searchQueue hwf hloop hids ht _ (Nat.le_refl _), ?_, ?_⟩
  · intro hagree st hst
    exact (SearchAt.of_reached hwf hloop hids hs ht hst).ok.queue.truthful hagree
  · intro hall
    by_contra hroads
    obtain ⟨st, hst, hnot⟩ := exists_not_truthful hwf hloop hids hs ht hroads
    exact hnot (hall st hst)

/-- A block of houses with the corners `f`, `a`, `b` and `t`: from `f` to `t` one can walk by way
    of `a`, over edges of the roads `r₁` and `r₂`, or by way of `b`, over `r₃` and `r₄`. -/
def blockOps (r₁ r₂ r₃ r₄ : Int32) : List (GraphOp ℚ) :=
  [.addVertex "f" 0 0 1 true, .addVertex "a" 60 0 2 true, .addVertex "b" 0 60 3 true,
    .addVertex "t" 60 60 4 true, .addEdgeExclusive 1 3 r₃, .addEdgeExclusive 3 4 r₄,
    .addEdgeExclusive 1 2 r₁, .addEdgeExclusive 2 4 r₂]

def block (r₁ r₂ r₃ r₄ : Int32) : Graph (Site ℚ) :=
  match (blockOps r₁ r₂ r₃ r₄).foldlM (GraphOp.apply gridEnv) graphCreate with
  | .ok g => g
  | .error _ => graphCreate

/-- The graph of the block is well-formed. -/
theorem block_wf (r₁ r₂ r₃ r₄ : Int32) : (block r₁ r₂ r₃ r₄).WF := by
  unfold block
  split
  · next g hg => exact (mirrored_of_run (Run.of_foldlM hg)).degrees.wf
  · exact Mirrored.empty.degrees.wf

/-- The block has no loops. -/
theorem block_noLoops : NoLoops (block 1 2 1 2) := by
  unfold NoLoops
  decide

/-- The vertices of the block have different ids. -/
private theorem block_distinctIds : DistinctIds (block 1 2 1 2) := by
  unfold DistinctIds
  decide

/-- Where both ways turn from road 1 to road 2, the second way to `t` is read off rightly. -/
private theorem block_roadsAgree : RoadsAgree (block 1 2 1 2) 1 4 := by
  have horder : searchOrder (block 1 2 1 2) 1 4 =
      [(1, none), (2, some ⟨2, 1⟩), (3, some ⟨3, 1⟩), (4, some ⟨4, 2⟩)] := by decide
  intro i j u f v e hlt hle hi hj hroads
  rw [horder] at hlt hi hj
  have hlt' : i < 3 := hlt
  have hj' : j < 4 := (List.getElem?_eq_some_iff.mp hj).1
  interval_cases i <;> interval_cases j <;> cases hi <;> cases hj <;>
    first | exact mem_roads.mpr (by decide) | exact absurd rfl hroads

/-- Around the block there are two ways with a single turn each. -/
theorem crossVertex_single_turns_block :
    crossVertex (block 1 2 1 2) 1 4 = .ok [2, 3] ∧
      ∀ x ∈ [2, 3], SingleTurn (block 1 2 1 2) 1 x 4 := by
  have hlist : crossVertex (block 1 2 1 2) 1 4 = .ok [2, 3] := by decide
  have hf : 1 ∈ (block 1 2 1 2).vertices.nodes := by decide
  have ht : 4 ∈ (block 1 2 1 2).vertices.nodes := by decide
  obtain ⟨⟨list, hok, -, hturns⟩, -⟩ :=
    crossVertex_single_turns (block_wf 1 2 1 2) block_noLoops block_distinctIds hf ht
  rw [hlist] at hok
  cases hok
  exact ⟨hlist, hturns block_roadsAgree⟩

/-- All edges from or to `b` are of road 2. -/
private theorem roads_b {r : Int32} {u v : Addr} (h : OnRoad (block 1 1 2 2) r u v)
    (hb : u = 3 ∨ v = 3) : r = 2 := by
  have hu : u ∈ (block 1 1 2 2).vertices.nodes :=
    ((block_wf 1 1 2 2).mem_of_roads (List.ne_nil_of_mem h)).1
  have hall : ∀ u ∈ (block 1 1 2 2).vertices.nodes, ∀ e ∈ (block 1 1 2 2).edgesOf u,
      u = 3 ∨ e.vertex = 3 → e.roadId = 2 := by decide
  exact hall u hu ⟨v, r⟩ (mem_roads.mp h) hb

/-- Where either way keeps to its road, `t` gets `b` as its new parent and keeps road 1, by which
    it was found from `a`: `b` is returned, although one does not turn there. -/
theorem crossVertex_no_turn :
    (block 1 1 2 2).WF ∧ NoLoops (block 1 1 2 2) ∧ DistinctIds (block 1 1 2 2) ∧
      1 ∈ (block 1 1 2 2).vertices.nodes ∧ 4 ∈ (block 1 1 2 2).vertices.nodes ∧
      crossVertex (block 1 1 2 2) 1 4 = .ok [3] ∧ ¬ SingleTurn (block 1 1 2 2) 1 3 4 := by
  refine ⟨block_wf 1 1 2 2, by unfold NoLoops; decide, by unfold DistinctIds; decide,
    by decide, by decide, by decide, ?_⟩
  intro ⟨r₁, r₂, hne, hfrom, hto⟩
  obtain ⟨u, -, hin⟩ := TransGen.tail'_iff.mp hfrom
  obtain ⟨v, hout, -⟩ := TransGen.head'_iff.mp hto
  exact hne ((roads_b hin (.inr rfl)).trans (roads_b hout (.inl rfl)).symm)

end MapRelay.NS3
