import Mathlib.Data.List.Find
import Mathlib.Data.Rat.Floor
import MapRelay.Native.SumoMap
import MapRelay.Spec.GraphInvariant

/-!
# What the import of a shape links

`parseShapeAndUpdateGraph` links the first point between the ends with every other one, and
does nothing for a shape of two points. Whatever the shape is, the roads of the resulting
graph are those of the graph before, with some pairs of points linked anew; whether these
are the pairs of neighbouring points can then be read off the two lists of pairs.
-/

namespace MapRelay

open ForStd MapRelay.Graph

variable {A : Type} {g : Graph A}

/-! ## Vertices by their ids -/

/-- The vertex that `getVertex` returns. -/
def vertexAt (g : Graph A) (idStr : String) : Addr :=
  (g.vertices.nodes.find? fun p => g.idOf p == some idStr).getD NULL

/-- `getVertex` returns `vertexAt`. -/
theorem getVertex_vertexAt (h : g.WF) (idStr : String) :
    getVertex g idStr = .ok (vertexAt g idStr) :=
  getVertex_eq (fun p => (h.live_iff p).mpr) idStr

/-- A known id leads to a vertex that has it. -/
private theorem vertexAt_of_known (h : g.WF) {idStr : String} (hk : Known g idStr) :
    vertexAt g idStr ∈ g.vertices.nodes ∧ g.idOf (vertexAt g idStr) = some idStr := by
  obtain ⟨v, hv, hid, hget⟩ := getVertex_of_known h hk
  rw [getVertex_vertexAt h] at hget
  cases hget
  exact ⟨hv, hid⟩

/-- An unknown one leads to `NULL`. -/
private theorem vertexAt_of_unknown (h : g.WF) {idStr : String} (hk : ¬ Known g idStr) :
    vertexAt g idStr = NULL := by
  have hget := getVertex_of_unknown h hk
  rw [getVertex_vertexAt h] at hget
  exact Except.ok.inj hget

/-- A known id does not lead to `NULL`. -/
theorem vertexAt_ne_null (h : g.WF) {idStr : String} (hk : Known g idStr) :
    vertexAt g idStr ≠ NULL :=
  Heap.Live.ne_null ((h.live_iff _).mpr (vertexAt_of_known h hk).1)

/-- The ids are those of the vertices of the list. -/
theorem known_congr {g g' : Graph A} (hnodes : g'.vertices.nodes = g.vertices.nodes)
    (hid : ∀ p, g'.idOf p = g.idOf p) {idStr : String} : Known g' idStr ↔ Known g idStr := by
  unfold Known
  simp only [hnodes, hid]

/-- There is an edge of the road from the vertex with the id `a` to the one with the id `b`. -/
def Adjacent (g : Graph A) (r : Int32) (a b : String) : Prop :=
  ∃ u v, getVertex g a = .ok u ∧ getVertex g b = .ok v ∧ r ∈ g.roads u v

/-- Adjacency of ids is that of their vertices. -/
private theorem adjacent_iff (h : g.WF) {r : Int32} {a b : String} :
    Adjacent g r a b ↔ r ∈ g.roads (vertexAt g a) (vertexAt g b) := by
  unfold Adjacent
  rw [getVertex_vertexAt h, getVertex_vertexAt h]
  constructor
  · intro ⟨u, v, hu, hv, hr⟩
    cases hu
    cases hv
    exact hr
  · intro hr
    exact ⟨_, _, rfl, rfl, hr⟩

/-! ## A new vertex -/

/-- A new vertex leaves the ids of the others. -/
theorem idOf_addVertex_of_mem (h : g.WF) (v : Vertex A) {p : Addr}
    (hp : p ∈ g.vertices.nodes) : (g.addVertex v).idOf p = g.idOf p := by
  have hne : p ≠ g.heap.next := Nat.ne_of_lt (Heap.Live.lt_next ((h.live_iff p).mpr hp))
  rw [Graph.idOf_eq, Graph.idOf_eq, dataOf_addVertex, if_neg hne]

/-- The new vertex has its own id. -/
theorem idOf_addVertex_next (v : Vertex A) :
    (g.addVertex v).idOf g.heap.next = some v.idStr := by
  rw [Graph.idOf_eq, dataOf_addVertex, if_pos rfl]
  rfl

/-- The new vertex is found where no old one has its id. -/
private theorem vertexAt_addVertex (h : g.WF) (v : Vertex A) (idStr : String) :
    vertexAt (g.addVertex v) idStr =
      if Known g idStr then vertexAt g idStr
      else if v.idStr = idStr then g.heap.next else NULL := by
  have hfind : (g.vertices.nodes.find? fun p => (g.addVertex v).idOf p == some idStr) =
      g.vertices.nodes.find? fun p => g.idOf p == some idStr := by
    apply List.find?_congr
    intro p hp
    rw [idOf_addVertex_of_mem h v hp]
  have happend : vertexAt (g.addVertex v) idStr =
      (((g.vertices.nodes.find? fun p => g.idOf p == some idStr).or
        ([g.heap.next].find? fun p => (g.addVertex v).idOf p == some idStr)).getD NULL) := by
    rw [← hfind, ← List.find?_append]
    rfl
  rw [happend]
  split
  · next hk =>
    -- The search ends before it comes to the new vertex
    obtain ⟨p, hp, hid⟩ := hk
    have hsome : (g.vertices.nodes.find? fun p => g.idOf p == some idStr).isSome :=
      List.find?_isSome.mpr ⟨p, hp, by rw [hid, beq_self_eq_true]⟩
    obtain ⟨q, hq⟩ := Option.isSome_iff_exists.mp hsome
    rw [vertexAt, hq]
    rfl
  · next hk =>
    -- Only the new vertex is left
    have hnone : (g.vertices.nodes.find? fun p => g.idOf p == some idStr) = none := by
      rw [List.find?_eq_none]
      intro p hp hid
      exact hk ⟨p, hp, beq_iff_eq.mp hid⟩
    rw [hnone, Option.none_or, List.find?_cons, idOf_addVertex_next]
    by_cases hid : v.idStr = idStr
    · simp [hid]
    · rw [if_neg hid, beq_eq_false_iff_ne.mpr (fun heq => hid (Option.some.inj heq))]
      rfl

/-- A new vertex makes one id known. -/
theorem known_addVertex (h : g.WF) (v : Vertex A) {idStr : String} :
    Known (g.addVertex v) idStr ↔ Known g idStr ∨ v.idStr = idStr := by
  constructor
  · intro ⟨p, hp, hid⟩
    rcases List.mem_append.mp hp with hp | hp
    · rw [idOf_addVertex_of_mem h v hp] at hid
      exact .inl ⟨p, hp, hid⟩
    · rw [List.mem_singleton.mp hp, idOf_addVertex_next] at hid
      exact .inr (Option.some.inj hid)
  · rintro (⟨p, hp, hid⟩ | rfl)
    · exact ⟨p, List.mem_append_left _ hp, (idOf_addVertex_of_mem h v hp).trans hid⟩
    · exact ⟨g.heap.next, List.mem_append_right _ List.mem_cons_self, idOf_addVertex_next v⟩

/-! ## Linking pairs of vertices anew -/

/-- `relinkIds` changes nothing but roads. -/
structure Relinked (g g' : Graph A) : Prop where
  wf : g'.WF
  nodes : g'.vertices.nodes = g.vertices.nodes
  data : ∀ p, g'.dataOf p = g.dataOf p

variable {g' : Graph A}

/-- Linking changes no ids. -/
theorem Relinked.idOf_eq (h : Relinked g g') (p : Addr) : g'.idOf p = g.idOf p := by
  rw [Graph.idOf_eq, Graph.idOf_eq, h.data]

/-- The pair is in the list, in this or the other order. -/
def InPairs (ps : List (String × String)) (a b : String) : Prop := (a, b) ∈ ps ∨ (b, a) ∈ ps

/-- The order within a pair does not matter. -/
theorem InPairs.symm {ps : List (String × String)} {a b : String} (h : InPairs ps a b) :
    InPairs ps b a := Or.symm h

section Adjacency

variable {r roadid : Int32} {ps : List (String × String)} {a b : String}

end Adjacency

section Points

variable {r : Int32} {roads links : List (String × String)} {points : List String}

end Points

namespace NS3

variable {K : Type} {g g' : Graph (Site K)} {fromid toid : String} {tokens : List String}

/-- The pairs of neighbouring points of a shape. -/
def roadPairs (fromid toid : String) (points : List String) : List (String × String) :=
  (fromid :: points).zip (points ++ [toid])

/-- The pairs that the import links, in this order. -/
def linkedPairs (fromid toid : String) : List String → List (String × String)
  | [] => []
  | t :: ts =>
    ts.map (fun t' => (t, t')) ++
      [(fromid, t), ((t :: ts).getLast (List.cons_ne_nil t ts), toid)]

variable [Field K] [LinearOrder K] [FloorRing K] {env : SumoEnv K}

/-- The vertex that the import creates for a token: its coordinates and geohash are those of
    the first two tokens of the shape. -/
def importedVertex (env : SumoEnv K) (tokens : List String) (token : String) : Vertex (Site K) :=
  let x := env.atof (tokens.getD 0 "")
  let y := env.atof (tokens.getD 1 "")
  vertexCreate token (sumoCartesian2Geohash env x y)
    ⟨(sumoCartesian2GPS env x y).1, (sumoCartesian2GPS env x y).2, false⟩

/-- What the first loop of the import does: it adds vertices for unknown tokens. -/
structure Created (env : SumoEnv K) (tokens : List String) (g g' : Graph (Site K)) : Prop where
  wf : g'.WF
  roads : g'.roads = g.roads
  nodes : ∀ p ∈ g.vertices.nodes, p ∈ g'.vertices.nodes
  old : ∀ idStr, Known g idStr → Known g' idStr ∧ vertexAt g' idStr = vertexAt g idStr
  new : ∀ idStr, Known g' idStr → ¬ Known g idStr → vertexAt g' idStr ∉ g.vertices.nodes ∧
    ∃ v, g'.heap.cell (vertexAt g' idStr) = some v ∧
      v.attr = (importedVertex env tokens idStr).attr

/-- Where no vertex has been made, everything is as before. -/
theorem Created.refl (h : g.WF) : Created env tokens g g where
  wf := h
  roads := rfl
  nodes _ hp := hp
  old _ hk := ⟨hk, rfl⟩
  new _ hk hno := absurd hk hno

/-- One more token. -/
theorem Created.createVertex {g₀ : Graph (Site K)} (h : Created env tokens g₀ g) {t : String}
    (hgeo : ¬ Known g₀ t →
      0 < sumoCartesian2Geohash env (env.atof (tokens.getD 0 "")) (env.atof (tokens.getD 1 ""))) :
    ∃ g', NS3.createVertex env tokens g t = .ok g' ∧ Created env tokens g₀ g' ∧ Known g' t ∧
      ∀ idStr, Known g idStr → Known g' idStr := by
  unfold NS3.createVertex
  rw [getVertex_vertexAt h.wf]
  by_cases hk : Known g t
  · -- A vertex of the graph, or one created for an equal token
    refine ⟨g, ?_, h, hk, fun _ hk' => hk'⟩
    dsimp only [bind, Except.bind]
    rw [if_pos (vertexAt_ne_null h.wf hk)]
    rfl
  -- The graph from before the shape did not know the token either
  · have hk₀ : ¬ Known g₀ t := fun hk₀ => hk (h.old t hk₀).1
    refine ⟨g.addVertex (importedVertex env tokens t), ?_, ?_, ?_, ?_⟩
    · dsimp only [bind, Except.bind]
      rw [vertexAt_of_unknown h.wf hk, if_neg (by simp), if_pos (hgeo hk₀)]
      rfl
    -- The graph is as before but for one vertex without edges
    · refine ⟨h.wf.addVertex rfl, (roads_addVertex rfl).trans h.roads,
        fun p hp => List.mem_append_left _ (h.nodes p hp), ?_, ?_⟩
      · intro idStr hid
        obtain ⟨hid', hat⟩ := h.old idStr hid
        refine ⟨(known_addVertex h.wf _).mpr (.inl hid'), ?_⟩
        rw [vertexAt_addVertex h.wf, if_pos hid', hat]
      · intro idStr hid hno
        rw [vertexAt_addVertex h.wf]
        by_cases hid' : Known g idStr
        · -- An earlier token of the shape
          rw [if_pos hid']
          obtain ⟨hnew, v, hv, hattr⟩ := h.new idStr hid' hno
          refine ⟨hnew, v, ?_, hattr⟩
          rw [cell_addVertex_of_live (Heap.live_iff.mpr ⟨v, hv⟩), hv]
        · -- The token just created
          have heq : t = idStr := ((known_addVertex h.wf _).mp hid).resolve_left hid'
          rw [if_neg hid', if_pos (show (importedVertex env tokens t).idStr = idStr from heq)]
          subst heq
          refine ⟨fun hmem => ?_, importedVertex env tokens t, ?_, rfl⟩
          · exact h.wf.next_not_mem (h.nodes _ hmem)
          · rw [Graph.addVertex, Heap.cell_alloc, if_pos rfl]
    · exact (known_addVertex h.wf _).mpr (.inr rfl)
    · exact fun idStr hid => (known_addVertex h.wf _).mpr (.inl hid)

/-- The two numbers of a token `x,y`, converted. -/
def tokenPosition (env : SumoEnv K) (token : String) : K × K :=
  let tokens2 := tokenize token ","
  sumoCartesian2GPS env (env.atof (tokens2.getD 0 "")) (env.atof (tokens2.getD 1 ""))

/-- The edges for which that is so. A pair of neighbours that the import does not link is
    adjacent already; so is a pair that it links although the points are no neighbours; and
    the first two tokens of the shape, read as coordinates, give the position of each new
    vertex. -/
structure ImportsRightly (env : SumoEnv K) (g : Graph (Site K)) (fromid toid : String)
    (roadid : Int32) (shape : String) : Prop where
  neighbours : ∀ p ∈ roadPairs fromid toid (interior (tokenize shape " ")),
    InPairs (linkedPairs fromid toid (interior (tokenize shape " "))) p.1 p.2 ∨
      Adjacent g roadid p.1 p.2 ∧ Adjacent g roadid p.2 p.1
  others : ∀ p ∈ linkedPairs fromid toid (interior (tokenize shape " ")),
    InPairs (roadPairs fromid toid (interior (tokenize shape " "))) p.1 p.2 ∨
      Adjacent g roadid p.1 p.2 ∧ Adjacent g roadid p.2 p.1
  positions : ∀ t ∈ interior (tokenize shape " "), ¬ Known g t →
    sumoCartesian2GPS env (env.atof ((tokenize shape " ").getD 0 ""))
      (env.atof ((tokenize shape " ").getD 1 "")) = tokenPosition env t

/-- Adjacency of points after the vertices have been created. -/
private theorem Created.adjacent_iff {g₁ : Graph (Site K)} (h : Created env tokens g g₁)
    (hwf : g.WF) {r : Int32} {a b : String} (ha : Known g₁ a) (hb : Known g₁ b) :
    Adjacent g₁ r a b ↔ Adjacent g r a b := by
  rw [MapRelay.adjacent_iff h.wf, MapRelay.adjacent_iff hwf, h.roads]
  -- An edge joins two vertices of the graph `g`
  have hends : ∀ {u v}, r ∈ g.roads u v → u ∈ g.vertices.nodes ∧ v ∈ g.vertices.nodes :=
    fun hr => hwf.mem_of_roads (List.ne_nil_of_mem hr)
  by_cases ha' : Known g a
  · by_cases hb' : Known g b
    · rw [(h.old a ha').2, (h.old b hb').2]
    · -- No road leads to a new vertex
      refine ⟨fun hr => absurd (hends hr).2 (h.new b hb hb').1, fun hr => ?_⟩
      rw [vertexAt_of_unknown hwf hb'] at hr
      exact absurd rfl (Heap.Live.ne_null ((hwf.live_iff _).mpr (hends hr).2))
  · -- Nor from one
    refine ⟨fun hr => absurd (hends hr).1 (h.new a ha ha').1, fun hr => ?_⟩
    rw [vertexAt_of_unknown hwf ha'] at hr
    exact absurd rfl (Heap.Live.ne_null ((hwf.live_iff _).mpr (hends hr).1))

omit [Field K] [LinearOrder K] [FloorRing K] in
/-- The second and the third of three new points are neither linked by the import nor adjacent
    already. -/
private theorem not_linked_second_third (h : g.WF) (hfrom : Known g fromid) (hto : Known g toid)
    {t₁ t₂ t₃ : String} {ts : List String} (hnodup : (t₁ :: t₂ :: t₃ :: ts).Nodup)
    (h₂ : ¬ Known g t₂) (h₃ : ¬ Known g t₃) {r : Int32} :
    ¬ (InPairs (linkedPairs fromid toid (t₁ :: t₂ :: t₃ :: ts)) t₂ t₃ ∨
      Adjacent g r t₂ t₃ ∧ Adjacent g r t₃ t₂) := by
  have hne : ∀ {a b : String}, Known g a → ¬ Known g b → b ≠ a := fun ha hb heq => hb (heq ▸ ha)
  obtain ⟨hmem, hnodup'⟩ := List.nodup_cons.mp hnodup
  have h₁₂ : t₂ ≠ t₁ := fun heq => hmem (heq ▸ List.mem_cons_self)
  have h₁₃ : t₃ ≠ t₁ := fun heq => hmem (heq ▸ List.mem_cons_of_mem _ List.mem_cons_self)
  rintro (hin | ⟨hadjacent, -⟩)
  · simp [InPairs, linkedPairs, h₁₂, h₁₃, hne hfrom h₂, hne hfrom h₃, hne hto h₂, hne hto h₃,
      h₁₂.symm, h₁₃.symm] at hin
  · rw [MapRelay.adjacent_iff h, vertexAt_of_unknown h h₂] at hadjacent
    have hnull := (h.mem_of_roads (List.ne_nil_of_mem hadjacent)).1
    exact Heap.Live.ne_null ((h.live_iff _).mpr hnull) rfl

omit [LinearOrder K] [FloorRing K] in
/-- Where all the points between the ends are new and different, the import is right for one or
    two of them, if their positions are, and for none, if the ends are linked already. -/
theorem importsRightly_new_iff (h : g.WF) (hfrom : Known g fromid) (hto : Known g toid)
    {roadid : Int32} {shape : String} (hnodup : (interior (tokenize shape " ")).Nodup)
    (hnew : ∀ t ∈ interior (tokenize shape " "), ¬ Known g t) :
    ImportsRightly env g fromid toid roadid shape ↔
      (interior (tokenize shape " ") = [] →
        Adjacent g roadid fromid toid ∧ Adjacent g roadid toid fromid) ∧
      (interior (tokenize shape " ")).length ≤ 2 ∧
      ∀ t ∈ interior (tokenize shape " "),
        sumoCartesian2GPS env (env.atof ((tokenize shape " ").getD 0 ""))
          (env.atof ((tokenize shape " ").getD 1 "")) = tokenPosition env t := by
  -- All points are new, so their vertices are those of the import
  have hpositions := forall₂_congr fun t ht => imp_iff_right (b := sumoCartesian2GPS env
    (env.atof ((tokenize shape " ").getD 0 "")) (env.atof ((tokenize shape " ").getD 1 "")) =
      tokenPosition env t) (hnew t ht)
  generalize hpoints : interior (tokenize shape " ") = points at *
  constructor
  · intro hright
    refine ⟨?_, ?_, hpositions.mp (hpoints ▸ hright.positions)⟩
    -- No point: the pairs the code links are none, the ends have to be neighbours already
    · rintro rfl
      have hends := hright.neighbours (fromid, toid) (by simp [hpoints, roadPairs])
      rw [hpoints] at hends
      exact hends.resolve_left (by simp [InPairs, linkedPairs])
    · -- With three points the second and the third are not linked
      match points, hpoints, hnodup, hnew with
      | t₁ :: t₂ :: t₃ :: ts, hpoints, hnodup, hnew =>
        have hlost := hright.neighbours (t₂, t₃) (by simp [hpoints, roadPairs])
        rw [hpoints] at hlost
        exact absurd hlost (not_linked_second_third h hfrom hto hnodup (hnew t₂ (by simp))
          (hnew t₃ (by simp)))
      | [], _, _, _ | [_], _, _, _ | [_, _], _, _, _ => simp
  -- At most two points: the code links all pairs there are
  · intro ⟨hends, hshort, hpos⟩
    -- First the neighbours along the shape, then the neighbours the code makes
    refine ⟨?_, ?_, hpoints ▸ hpositions.mpr hpos⟩ <;> rw [hpoints] <;> intro p hp
    · match points, hshort with
      | [], _ =>
        rw [List.mem_singleton.mp hp]
        exact .inr (hends rfl)
      | [t], _ => exact .inl (.inl hp)
      | [t₁, t₂], _ => exact .inl (.inl ((List.Perm.swap _ _ _).mem_iff.mp hp))
    · match points, hshort with
      | [], _ => cases hp
      | [t], _ => exact .inl (.inl hp)
      | [t₁, t₂], _ => exact .inl (.inl ((List.Perm.swap _ _ _).mem_iff.mp hp))

/-- Two junctions. -/
def junctions : Graph (Site ℚ) :=
  (graphCreate.addVertex (vertexCreate "a" 1 ⟨116.2, 39.8, true⟩)).addVertex
    (vertexCreate "b" 2 ⟨116.3, 39.8, true⟩)

end NS3

end MapRelay
