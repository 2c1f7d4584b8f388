import MapRelay.ForStd.Ends
import MapRelay.Native.SumoLoad
import MapRelay.Spec.DivisionIds
import MapRelay.Spec.PositionHash
import MapRelay.Spec.SumoMap

/-!
# What loading a net stores

The loop over the junctions does not come past an id that it meets again. A load that comes to its
end has made one vertex for each id of a junction and for each point between the ends of a shape,
and `getVertex` finds it, unless the id was too long for its place in the vertex.
-/

namespace MapRelay.NS3

open ForStd MapRelay.Graph

variable {K : Type} [Field K] [LinearOrder K] [FloorRing K]

/-! ## The vertices of a load -/

/-- The load has come to the graph `g`: a road network, with a vertex for each of the ids, at a
    position that has passed the assertion. -/
structure Loaded (env : SumoEnv K) (ids : Set String) (g : Graph (Site K)) : Prop where
  mirrored : g.Mirrored
  known : ∀ id, Known g id ↔ id ∈ ids
  distinct : DistinctIds g
  sites : ∀ p ∈ g.vertices.nodes, ∃ x y, 0 < sumoCartesian2Geohash env x y ∧
    ((siteOf g p).x, (siteOf g p).y) = sumoCartesian2GPS env x y

section Loaded

variable {env : SumoEnv K} {ids : Set String} {g g' : Graph (Site K)}

/-- A load is at a well-formed graph all the time. -/
theorem Loaded.wf (h : Loaded env ids g) : g.WF := h.mirrored.degrees.wf

/-- The load begins with the empty graph. -/
theorem Loaded.empty : Loaded env ∅ graphCreate where
  mirrored := .empty
  known id := by simp [Known, graphCreate, listCreate]
  distinct p hp := nomatch hp
  sites p hp := nomatch hp

/-- A vertex with a new id. -/
theorem Loaded.addVertex (h : Loaded env ids g) {id : String} (hid : id ∉ ids) {x y : K}
    (crossing : Bool) (hgeo : 0 < sumoCartesian2Geohash env x y) :
    Loaded env (insert id ids) (g.addVertex (vertexCreate id (sumoCartesian2Geohash env x y)
      ⟨(sumoCartesian2GPS env x y).1, (sumoCartesian2GPS env x y).2, crossing⟩)) where
  mirrored := h.mirrored.addVertex rfl rfl rfl
  known id' := by
    rw [known_addVertex h.wf, h.known, Set.mem_insert_iff, or_comm, eq_comm]
    rfl
  distinct p hp q hq heq := by
    -- No old vertex has the new id, by which two vertices of one id are both old or both new
    have hnew : ∀ r ∈ g.vertices.nodes, g.idOf r ≠ some id := fun r hr hrid =>
      hid ((h.known id).mp ⟨r, hr, hrid⟩)
    rcases List.mem_append.mp hp with hp | hp <;> rcases List.mem_append.mp hq with hq | hq
    · rw [idOf_addVertex_of_mem h.wf _ hp, idOf_addVertex_of_mem h.wf _ hq] at heq
      exact h.distinct p hp q hq heq
    · rw [List.mem_singleton.mp hq, idOf_addVertex_of_mem h.wf _ hp, idOf_addVertex_next] at heq
      exact absurd heq (hnew p hp)
    · rw [List.mem_singleton.mp hp, idOf_addVertex_of_mem h.wf _ hq, idOf_addVertex_next] at heq
      exact absurd heq.symm (hnew q hq)
    · rw [List.mem_singleton.mp hp, List.mem_singleton.mp hq]
  sites p hp := by
    -- The new vertex is at the position that was checked, and the old ones are where they were
    rw [siteOf_eq, dataOf_addVertex]
    split
    case isTrue => exact ⟨x, y, hgeo, rfl⟩
    case isFalse hne =>
      rcases List.mem_append.mp hp with hp | hp
      · rw [← siteOf_eq]
        exact h.sites p hp
      · exact absurd (List.mem_singleton.mp hp) hne

/-- A road, if there are vertices at both ends. -/
private theorem Loaded.addExclusive (h : Loaded env ids g) {u v : Addr} {r : Int32}
    (hok : vertexAddEdgeToVertexUndirectExclusive g u v r = .ok g') : Loaded env ids g' := by
  -- The exclusive link returned, so that its ends are vertices and it has its normal form
  obtain ⟨g₁, hremove, -⟩ := bind_eq_ok.mp hok
  obtain ⟨hu, hv⟩ := live_of_removeEdgeUndirect_ok h.wf hremove
  rw [vertexAddEdgeToVertexUndirectExclusive_eq hu hv] at hok
  have heq := Except.ok.inj hok
  -- The link changes neither data nor list, by which everything but the edges is as before
  have hdata : ∀ p, g'.dataOf p = g.dataOf p := fun p => by
    rw [← heq]
    exact dataOf_relinkRoad u v p r
  have hnodes : g'.vertices.nodes = g.vertices.nodes := by rw [← heq, vertices_relinkRoad]
  have hidOf : ∀ p, g'.idOf p = g.idOf p := fun p => by rw [idOf_eq, idOf_eq, hdata]
  have hu := (h.wf.live_iff u).mp hu
  have hv := (h.wf.live_iff v).mp hv
  refine ⟨?_, fun id => ?_, ?_, ?_⟩
  · rw [← heq, relinkRoad]
    refine (h.mirrored.unlinkRoad hu hv).linkRoad ?_ ?_ r
    all_goals rwa [vertices_unlinkRoad]
  · rw [known_congr hnodes hidOf, h.known]
  · unfold DistinctIds
    simp only [hnodes, hidOf]
    exact h.distinct
  · simp only [hnodes, siteOf_eq, hdata]
    simp only [← siteOf_eq]
    exact h.sites

/-! ## The loops over points and edges -/

/-- One token of a shape. -/
theorem Loaded.createVertex (h : Loaded env ids g) {tokens : List String} {t : String}
    (hok : NS3.createVertex env tokens g t = .ok g') : Loaded env (insert t ids) g' := by
  obtain ⟨v, hget, hok⟩ := bind_eq_ok.mp hok
  by_cases hk : t ∈ ids
  · -- The vertex is there
    obtain ⟨p, -, -, hp⟩ := getVertex_of_known h.wf ((h.known t).mpr hk)
    have hv := vertexAt_ne_null h.wf ((h.known t).mpr hk)
    rw [getVertex_vertexAt h.wf] at hget
    cases hget
    rw [if_pos hv] at hok
    cases hok
    rwa [Set.insert_eq_of_mem hk]
  -- The id is new: the vertex is made, if its position passes the assertion
  · rw [getVertex_of_unknown h.wf fun hknown => hk ((h.known t).mp hknown)] at hget
    cases hget
    rw [if_neg (by simp)] at hok
    dsimp only at hok
    split at hok
    case isTrue hgeo =>
      cases hok
      exact h.addVertex hk false hgeo
    case isFalse => cases hok

/-- The loop over the points of a shape adds the points that it makes vertices of. -/
private theorem Loaded.createVertexes (h : Loaded env ids g) {tokens ts : List String}
    (hok : ts.foldlM (NS3.createVertex env tokens) g = .ok g') :
    Loaded env (ids ∪ {t | t ∈ ts}) g' := by
  induction ts generalizing g ids with
  | nil =>
    cases hok
    simpa using h
  | cons t ts ih =>
    rw [List.foldlM_cons] at hok
    obtain ⟨g₁, hfirst, hok⟩ := bind_eq_ok.mp hok
    have hall := ih (h.createVertex hfirst) hok
    -- The ids of the first point and of the others are those of the whole list
    have hset : insert t ids ∪ {t' | t' ∈ ts} = ids ∪ {t' | t' ∈ t :: ts} := by
      ext t'
      simp only [Set.mem_union, Set.mem_insert_iff, Set.mem_ofPred_eq, List.mem_cons]
      tauto
    rwa [hset] at hall

/-- Linking the points of a shape makes no vertices. -/
theorem Loaded.createEdges (h : Loaded env ids g) {roadid : Int32} {ts : List String}
    {lastV : Addr} {finished : Bool}
    (hok : NS3.createEdges roadid ts lastV g = .ok (g', finished)) : Loaded env ids g' := by
  induction ts generalizing g lastV with
  | nil =>
    cases hok
    exact h
  | cons t ts ih =>
    obtain ⟨v, -, hok⟩ := bind_eq_ok.mp hok
    -- At the last point the loop stops; a point that is the one before is passed over
    split at hok
    case isTrue =>
      cases hok
      exact h
    case isFalse =>
      split at hok
      case isTrue => exact ih h hok
      case isFalse =>
        obtain ⟨g₁, hroad, hok⟩ := bind_eq_ok.mp hok
        exact ih (h.addExclusive hroad) hok

/-- A shape adds the points between its ends. -/
private theorem Loaded.parseShape (h : Loaded env ids g) {fromid toid shape : String}
    {roadid : Int32} (hok : parseShapeAndUpdateGraph env g fromid toid roadid shape = .ok g') :
    Loaded env (ids ∪ {t | t ∈ interior (tokenize shape " ")}) g' := by
  rw [parseShapeAndUpdateGraph] at hok
  split at hok
  case isTrue hshort =>
    have hnone : interior (tokenize shape " ") = [] := by
      apply List.eq_nil_of_length_eq_zero
      rw [interior, List.length_dropLast, List.length_tail]
      omega
    cases hok
    rw [hnone]
    simpa using h
  case isFalse =>
    obtain ⟨g₁, hpoints, hok⟩ := bind_eq_ok.mp hok
    obtain ⟨⟨g₂, finished⟩, hedges, hok⟩ := bind_eq_ok.mp hok
    have h₂ := (h.createVertexes hpoints).createEdges hedges
    dsimp only at hok
    split at hok
    case isTrue =>
      -- The two ends
      obtain ⟨u, -, hok⟩ := bind_eq_ok.mp hok
      obtain ⟨v, -, hok⟩ := bind_eq_ok.mp hok
      obtain ⟨g₃, hfirst, hok⟩ := bind_eq_ok.mp hok
      obtain ⟨u', -, hok⟩ := bind_eq_ok.mp hok
      obtain ⟨v', -, hok⟩ := bind_eq_ok.mp hok
      exact (h₂.addExclusive hfirst).addExclusive hok
    case isFalse =>
      cases hok
      exact h₂

/-- The ids that a shape gives to vertices: the points between its ends. -/
def shapeIds (edge : SumoEdge) : List String :=
  match edge.shape with
  | none => []
  | some shape => interior (tokenize shape " ")

/-- The loop over the edges adds the points of their shapes. -/
theorem Loaded.loadEdges (h : Loaded env ids g) {osm : Option (List OsmWay)}
    {roadIds roadIds' : RoadIds} {edges : List SumoEdge}
    (hok : NS3.loadEdges env osm g roadIds edges = .ok (g', roadIds')) :
    Loaded env (ids ∪ {t | t ∈ edges.flatMap shapeIds}) g' := by
  induction edges generalizing g ids roadIds with
  | nil =>
    cases hok
    simpa using h
  | cons edge edges ih =>
    -- The attributes are read, and then the edge or the points of its shape are linked
    obtain ⟨⟨roadidStr, fromid, toid⟩, -, hok⟩ := bind_eq_ok.mp hok
    obtain ⟨g₁, hedge, hok⟩ := bind_eq_ok.mp hok
    -- An edge without a shape is one link and makes no vertex
    have h₁ : Loaded env (ids ∪ {t | t ∈ shapeIds edge}) g₁ := by
      cases hshape : edge.shape with
      | none =>
        rw [hshape] at hedge
        obtain ⟨u, -, hedge⟩ := bind_eq_ok.mp hedge
        obtain ⟨v, -, hedge⟩ := bind_eq_ok.mp hedge
        simpa [shapeIds, hshape] using h.addExclusive hedge
      | some shape =>
        rw [hshape] at hedge
        simpa [shapeIds, hshape] using h.parseShape hedge
    have hall := ih h₁ hok
    -- The ids of the first edge and of the others are those of the whole list
    have hset : ids ∪ {t | t ∈ shapeIds edge} ∪ {t | t ∈ edges.flatMap shapeIds} =
        ids ∪ {t | t ∈ (edge :: edges).flatMap shapeIds} := by
      rw [Set.union_assoc]
      congr 1
      ext t
      simp
    rwa [hset] at hall

end Loaded

/-! ## The loop over the junctions -/

/-- The loop over the junctions meets no id for the second time, as far as it comes: it does not
    come past a missing attribute or a position that does not pass the assertion. -/
def RepeatFree (env : SumoEnv K) : List String → List SumoJunction → Prop
  | _, [] => True
  | nodeMap, junction :: junctions =>
    match junction.id, junction.x, junction.y with
    | some id, some xstr, some ystr =>
      id ∉ nodeMap ∧ (0 < sumoCartesian2Geohash env (env.atof xstr) (env.atof ystr) →
        RepeatFree env (id :: nodeMap) junctions)
    | _, _, _ => True

section Junctions

variable {env : SumoEnv K} {ids : Set String} {g g' : Graph (Site K)} {id xstr ystr : String}

/-- A junction makes a vertex or ends the load. -/
private theorem createJunction_eq (env : SumoEnv K) (g : Graph (Site K)) (id xstr ystr : String) :
    createJunction env g id xstr ystr =
      if 0 < sumoCartesian2Geohash env (env.atof xstr) (env.atof ystr) then
        .ok (g.addVertex (vertexCreate id
          (sumoCartesian2Geohash env (env.atof xstr) (env.atof ystr))
          ⟨(sumoCartesian2GPS env (env.atof xstr) (env.atof ystr)).1,
            (sumoCartesian2GPS env (env.atof xstr) (env.atof ystr)).2, true⟩))
      else .error .assertFailed := rfl

/-- An attribute is read exactly if it is there. -/
private theorem attributeText_eq_ok {value : Option String} {text : String} :
    attributeText value = .ok text ↔ value = some text := by
  cases value <;> simp [attributeText]

/-- The loop over the junctions adds their ids. -/
theorem Loaded.loadJunctions (h : Loaded env ids g) {nodeMap : List String}
    (hseen : ∀ id, id ∈ nodeMap ↔ id ∈ ids) {fuel : Nat} {junctions : List SumoJunction}
    (hok : NS3.loadJunctions env fuel nodeMap g junctions = .ok g') :
    Loaded env (ids ∪ {id | id ∈ junctions.filterMap SumoJunction.id}) g' := by
  induction fuel generalizing nodeMap g ids junctions with
  | zero => cases hok
  | succ fuel ih =>
    cases junctions with
    | nil =>
      cases hok
      simpa using h
    | cons junction junctions =>
      obtain ⟨id, hid, hok⟩ := bind_eq_ok.mp hok
      obtain ⟨xstr, -, hok⟩ := bind_eq_ok.mp hok
      obtain ⟨ystr, -, hok⟩ := bind_eq_ok.mp hok
      split at hok
      -- An id that `nodeMap` has is passed over
      case isTrue => exact ih h hseen hok
      case isFalse hnew =>
        obtain ⟨g₁, hcreate, hok⟩ := bind_eq_ok.mp hok
        rw [createJunction_eq] at hcreate
        split at hcreate
        case isTrue hgeo =>
          cases hcreate
          have h₁ := h.addVertex (fun hmem => hnew ((hseen id).mpr hmem)) true hgeo
          have hall := ih h₁ (fun id' => by simp [hseen]) hok
          have hset : insert id ids ∪ {id' | id' ∈ junctions.filterMap SumoJunction.id} =
              ids ∪ {id' | id' ∈ (junction :: junctions).filterMap SumoJunction.id} := by
            ext id'
            simp only [List.filterMap_cons, attributeText_eq_ok.mp hid, Set.mem_union,
              Set.mem_insert_iff, Set.mem_ofPred_eq, List.mem_cons]
            tauto
          rwa [hset] at hall
        case isFalse => cases hcreate

/-- Reading an attribute ends. -/
private theorem ends_attributeText (value : Option String) : Ends (attributeText value) := by
  cases value with
  | none => exact .error (by decide)
  | some text => exact .ok text

/-- Making the vertex of a junction ends. -/
private theorem ends_createJunction (env : SumoEnv K) (g : Graph (Site K)) (id xstr ystr : String) :
    Ends (createJunction env g id xstr ystr) := by
  rw [createJunction_eq]
  exact .ite (fun _ => .ok _) fun _ => .error (by decide)

/-- Without a repeated id each round takes a junction. -/
private theorem ends_loadJunctions {nodeMap : List String} {junctions : List SumoJunction}
    (h : RepeatFree env nodeMap junctions) {fuel : Nat} (hfuel : junctions.length < fuel) :
    Ends (loadJunctions env fuel nodeMap g junctions) := by
  induction junctions generalizing nodeMap g fuel with
  | nil =>
    obtain ⟨n, rfl⟩ : ∃ n, fuel = n + 1 := ⟨fuel - 1, by simp at hfuel; omega⟩
    exact .ok g
  | cons junction junctions ih =>
    obtain ⟨n, rfl⟩ : ∃ n, fuel = n + 1 := ⟨fuel - 1, by omega⟩
    refine (ends_attributeText _).bind fun id hid => ?_
    refine (ends_attributeText _).bind fun xstr hx => ?_
    refine (ends_attributeText _).bind fun ystr hy => ?_
    rw [RepeatFree, attributeText_eq_ok.mp hid, attributeText_eq_ok.mp hx,
      attributeText_eq_ok.mp hy] at h
    rw [if_neg h.1]
    refine (ends_createJunction env g id xstr ystr).bind fun g₁ hcreate => ?_
    refine ih (h.2 ?_) (by rw [List.length_cons] at hfuel; omega)
    -- The assertion has passed
    rw [createJunction_eq] at hcreate
    split at hcreate
    case isTrue hgeo => exact hgeo
    case isFalse => cases hcreate

/-- At a repeated id the loop stays. -/
private theorem loadJunctions_of_repeat {nodeMap : List String} {junctions : List SumoJunction}
    (h : ¬ RepeatFree env nodeMap junctions) (fuel : Nat) :
    loadJunctions env fuel nodeMap g junctions = .error .timeout := by
  induction fuel generalizing nodeMap g junctions with
  | zero => rfl
  | succ fuel ih =>
    cases junctions with
    | nil => exact absurd trivial h
    | cons junction junctions =>
      -- A missing attribute would end the loop, and it is none of the repeats
      obtain ⟨id, x, y⟩ := junction
      cases id with
      | none => exact absurd trivial h
      | some id =>
        cases x with
        | none => exact absurd trivial h
        | some xstr =>
          cases y with
          | none => exact absurd trivial h
          | some ystr =>
            simp only [loadJunctions, attributeText, bind, Except.bind]
            by_cases hmem : id ∈ nodeMap
            -- The id comes again: the loop does not take the junction off and runs on
            · rw [if_pos hmem]
              exact ih h
            · rw [if_neg hmem, createJunction_eq]
              -- The id is new, so that the repeat comes later, and only if this position passes the
              -- assertion
              have hrest : ¬ (0 < sumoCartesian2Geohash env (env.atof xstr) (env.atof ystr) →
                  RepeatFree env (id :: nodeMap) junctions) := fun hfree => h ⟨hmem, hfree⟩
              obtain ⟨hgeo, hrest⟩ := Classical.not_imp.mp hrest
              rw [if_pos hgeo]
              exact ih hrest

end Junctions

/-! ## The loop over the edges ends -/

section Edges

/-- Taking a token by its index ends. -/
private theorem ends_tokenAt (tokens : List String) (index : Nat) :
    Ends (tokenAt tokens index) := by
  rw [tokenAt]
  split
  case h_1 => exact .error (by decide)
  case h_2 => exact .ok _

/-- Cutting the way out of an id ends. -/
private theorem ends_parseOsmWayid (str : String) : Ends (parseOsmWayid str) :=
  (ends_tokenAt _ _).bind fun _ _ => .ite (fun _ => ends_tokenAt _ _) fun _ => ends_tokenAt _ _

/-- The search for the name among the tags ends. -/
private theorem ends_findName (tags : List OsmTag) : Ends (findName tags) := by
  induction tags with
  | nil => exact .ok none
  | cons tag tags ih =>
    refine (ends_attributeText _).bind fun k _ => .ite (fun _ => ?_) fun _ => ih
    exact (ends_attributeText _).bind fun v _ => .ok _

/-- The search for the name of a way ends. -/
private theorem ends_parseOsmRoadName (wayid : String) (ways : List OsmWay) :
    Ends (parseOsmRoadName wayid ways) := by
  induction ways with
  | nil => exact .ok ""
  | cons way ways ih =>
    refine (ends_attributeText _).bind fun id _ => .ite (fun _ => ?_) fun _ => ih
    refine (ends_findName _).bind fun name _ => ?_
    cases name with
    | none => exact ih
    | some name => exact .ok name

/-- Reading an edge ends. -/
private theorem ends_readEdge (osm : Option (List OsmWay)) (edge : SumoEdge) :
    Ends (readEdge osm edge) := by
  refine (ends_attributeText _).bind fun id _ => (ends_parseOsmWayid id).bind fun osmWayid _ => ?_
  have hroad : Ends (findRoadidStr osm osmWayid) := by
    cases osm with
    | none => exact .ok osmWayid
    | some ways => exact ends_parseOsmRoadName osmWayid ways
  refine hroad.bind fun roadidStr _ => ?_
  exact (ends_attributeText _).bind fun fromid _ => (ends_attributeText _).bind fun toid _ => .ok _

variable {A : Type}

/-- The search for a vertex by its id ends. -/
private theorem ends_getVertex (g : Graph A) (idStr : String) : Ends (getVertex g idStr) := by
  rw [getVertex]
  induction g.vertices.nodes with
  | nil => exact .ok NULL
  | cons n ns ih => exact (g.heap.ends_deref n).bind fun v _ => .ite (fun _ => .ok n) fun _ => ih

/-- Writing to a vertex ends. -/
theorem ends_modify (g : Graph A) (p : Addr) (f : Vertex A → Vertex A) : Ends (g.modify p f) :=
  (g.heap.ends_modify p f).bind fun _ _ => .ok _

/-- Adding an edge ends. -/
private theorem ends_addEdge (g : Graph A) (src dst : Addr) (roadId : Int32) :
    Ends (vertexAddEdgeToVertex g src dst roadId) :=
  (ends_modify g _ _).bind fun g₁ _ => (ends_modify g₁ _ _).bind fun g₂ _ => ends_modify g₂ _ _

/-- Removing an edge ends. -/
private theorem ends_removeEdge (g : Graph A) (src dst : Addr) :
    Ends (vertexRemoveEdgeToVertex g src dst) := by
  refine (g.heap.ends_deref src).bind fun v _ => .ite (fun _ => ?_) fun _ => .ok g
  exact (ends_modify g _ _).bind fun g₁ _ => (ends_modify g₁ _ _).bind fun g₂ _ =>
    ends_modify g₂ _ _

/-- The exclusive link ends. -/
private theorem ends_addExclusive (g : Graph A) (src dst : Addr) (roadId : Int32) :
    Ends (vertexAddEdgeToVertexUndirectExclusive g src dst roadId) := by
  refine ((ends_removeEdge g src dst).bind fun g₁ _ => ends_removeEdge g₁ dst src).bind
    fun g₂ _ => ?_
  exact (ends_addEdge g₂ src dst roadId).bind fun g₃ _ => ends_addEdge g₃ dst src roadId

omit [Field K] [LinearOrder K] [FloorRing K] in
/-- Linking the points of a shape ends. -/
private theorem ends_createEdges (roadid : Int32) (ts : List String) (lastV : Addr)
    (g : Graph (Site K)) : Ends (createEdges roadid ts lastV g) := by
  induction ts generalizing lastV g with
  | nil => exact .ok _
  | cons t ts ih =>
    refine (ends_getVertex g t).bind fun v _ => .ite (fun _ => .ok _) fun _ => ?_
    refine .ite (fun _ => ih v g) fun _ => ?_
    exact (ends_addExclusive g _ _ _).bind fun g₁ _ => ih lastV g₁

/-- Making the vertex of a point ends. -/
private theorem ends_createVertex (env : SumoEnv K) (tokens : List String) (g : Graph (Site K))
    (token : String) : Ends (createVertex env tokens g token) := by
  refine (ends_getVertex g token).bind fun v _ => .ite (fun _ => .ok g) fun _ => ?_
  exact .ite (fun _ => .ok _) fun _ => .error (by decide)

/-- The work on a whole shape ends. -/
private theorem ends_parseShape (env : SumoEnv K) (g : Graph (Site K)) (fromid toid : String)
    (roadid : Int32) (shape : String) :
    Ends (parseShapeAndUpdateGraph env g fromid toid roadid shape) := by
  refine .ite (fun _ => .ok g) fun _ => ?_
  refine (Ends.foldlM (fun g t => ends_createVertex env _ g t) _ g).bind fun g₁ _ => ?_
  refine (ends_createEdges roadid _ NULL g₁).bind fun ⟨g₂, finished⟩ _ => ?_
  refine .ite (fun _ => ?_) fun _ => .ok g₂
  -- The two ends
  refine (ends_getVertex g₂ _).bind fun u _ => (ends_getVertex g₂ _).bind fun v _ => ?_
  refine (ends_addExclusive g₂ u v roadid).bind fun g₃ _ => ?_
  refine (ends_getVertex g₃ _).bind fun u' _ => (ends_getVertex g₃ _).bind fun v' _ => ?_
  exact ends_addExclusive g₃ u' v' roadid

/-- The loop over the edges ends. -/
private theorem ends_loadEdges (env : SumoEnv K) (osm : Option (List OsmWay)) (g : Graph (Site K))
    (roadIds : RoadIds) (edges : List SumoEdge) : Ends (loadEdges env osm g roadIds edges) := by
  induction edges generalizing g roadIds with
  | nil => exact .ok _
  | cons edge edges ih =>
    refine (ends_readEdge osm edge).bind fun ⟨roadidStr, fromid, toid⟩ _ => ?_
    have hedge : ∀ roadid, Ends (loadSumoMapEdge env g fromid toid roadid edge.shape) := by
      intro roadid
      cases edge.shape with
      | none =>
        refine (ends_getVertex g _).bind fun u _ => (ends_getVertex g _).bind fun v _ => ?_
        exact ends_addExclusive g u v roadid
      | some shape => exact ends_parseShape env g fromid toid roadid shape
    exact (hedge _).bind fun g₁ _ => ih g₁ _

end Edges

/-! ## The length of the ids -/

/-- The id and its terminator fit into `idStr[25]`, to which `vertex_create` copies them. -/
def FitsIdStr (id : String) : Prop := id.utf8ByteSize < 25

instance (id : String) : Decidable (FitsIdStr id) := inferInstanceAs (Decidable (_ < _))

/-- The place is in the area of the experiment. -/
def SiteInArea (s : Site K) : Prop := InArea latRangeConst lonRangeConst s.y s.x

section Text

/-- A text of characters of one byte has as many bytes as characters. -/
private theorem utf8ByteSize_ofList {l : List Char} (h : ∀ c ∈ l, c.utf8Size = 1) :
    (String.ofList l).utf8ByteSize = l.length := by
  induction l with
  | nil => rfl
  | cons c l ih =>
    have hcons : String.ofList (c :: l) = String.singleton c ++ String.ofList l := by
      simp [String.ofList_cons]
    rw [hcons, String.utf8ByteSize_append, String.utf8ByteSize_singleton, h c List.mem_cons_self,
      ih fun c' hc' => h c' (List.mem_cons_of_mem c hc'), List.length_cons, Nat.add_comm]

/-- Digits are characters of one byte. -/
private theorem utf8Size_of_mem_padDigits {w n : Nat} : ∀ c ∈ padDigits w n, c.utf8Size = 1 := by
  intro c hc
  rcases List.mem_append.mp hc with hc | hc
  · rw [List.eq_of_mem_replicate hc]
    rfl
  · have hdigit := Nat.isDigit_of_mem_toDigits (by decide) (by decide) hc
    rw [Char.utf8Size_eq_one_iff]
    simp only [Char.isDigit, Bool.and_eq_true, decide_eq_true_eq] at hdigit
    grind

/-- A number below `10 ^ k` that is padded to at most `k` digits has at most `k`. -/
private theorem length_padDigits_le {w n k : Nat} (hk : 0 < k) (hw : w ≤ k) (hn : n < 10 ^ k) :
    (padDigits w n).length ≤ k := by
  have hdigits := (Nat.length_toDigits_le_iff (b := 10) (by decide) hk).mpr hn
  rw [padDigits, List.length_append, List.length_replicate]
  omega

variable [IsStrictOrderedRing K]

omit [IsStrictOrderedRing K] in
/-- Rounding to six decimals goes up by at most one of them. -/
private theorem roundMicro_le {x : K} {m : Nat} (hx : ⌊x * 1000000⌋ ≤ m) :
    roundMicro x ≤ m + 1 := by
  rw [roundMicro]
  split
  case isTrue => omega
  case isFalse =>
    split
    case isTrue => omega
    case isFalse => split <;> omega

/-- A coordinate from 0 to 200 has three digits in front of the point at most. -/
private theorem formatCoordinate_length {x : K} (h₀ : 0 ≤ x) (h₁ : x ≤ 200) :
    (formatCoordinate x).length ≤ 10 ∧ ∀ c ∈ formatCoordinate x, c.utf8Size = 1 := by
  -- There are 200 whole degrees at most, and six decimals behind them
  have hfloor : ⌊x * 1000000⌋ ≤ ((200000000 : Nat) : Int) := by
    rw [Int.floor_le_iff]
    push_cast
    linarith
  have hround := roundMicro_le hfloor
  rw [formatCoordinate, abs_of_nonneg h₀, if_neg (not_lt.mpr h₀)]
  have hfront := length_padDigits_le (w := 2) (n := roundMicro x / 1000000) (k := 3) (by decide)
    (by decide) (by omega)
  have hback := length_padDigits_le (w := 6) (n := roundMicro x % 1000000) (k := 6) (by decide)
    (by decide) (by omega)
  refine ⟨?_, fun c hc => ?_⟩
  · simp only [List.length_nil, List.nil_append, List.length_append, List.length_cons,
      Nat.sub_zero]
    omega
  -- The characters are digits and the point
  · rcases List.mem_append.mp hc with hc | hc
    · exact utf8Size_of_mem_padDigits c (by simpa using hc)
    · rcases List.mem_cons.mp hc with rfl | hc
      · rfl
      · exact utf8Size_of_mem_padDigits c hc

/-- In the area the text of two coordinates has 21 characters at most. -/
private theorem fitsIdStr_makeCoordinateString {s : Site K} (h : SiteInArea s) :
    FitsIdStr (makeCoordinateString s.y s.x) := by
  -- The bounds of the area are at most 200 degrees
  obtain ⟨hlat₀, hlat₁, hlon₀, hlon₁⟩ := h
  simp only [latRangeConst, lonRangeConst] at hlat₀ hlat₁ hlon₀ hlon₁
  obtain ⟨hlat, hlatc⟩ := formatCoordinate_length (x := s.y)
    (le_trans (by norm_num) hlat₀) (hlat₁.trans (by norm_num))
  obtain ⟨hlon, hlonc⟩ := formatCoordinate_length (x := s.x)
    (le_trans (by norm_num) hlon₀) (hlon₁.trans (by norm_num))
  rw [FitsIdStr, makeCoordinateString, utf8ByteSize_ofList]
  -- Twice ten characters and the comma between them
  · simp only [List.length_append, List.length_cons]
    omega
  · intro c hc
    rcases List.mem_append.mp hc with hc | hc
    · exact hlatc c hc
    · rcases List.mem_cons.mp hc with rfl | hc
      · rfl
      · exact hlonc c hc

/-- Between two points of a range. -/
private theorem between_mem {m M x y n : K} (hx : m ≤ x ∧ x ≤ M) (hy : m ≤ y ∧ y ≤ M) (hn : 2 ≤ n) :
    m ≤ x + (y - x) / n ∧ x + (y - x) / n ≤ M := by
  have hs₀ : 0 ≤ 1 / n := by positivity
  have hs₁ : 1 / n ≤ 1 := by
    rw [div_le_one (by linarith)]
    linarith
  rw [div_eq_mul_one_div]
  constructor
  · nlinarith [mul_nonneg hs₀ (sub_nonneg.mpr hy.1),
      mul_nonneg (sub_nonneg.mpr hs₁) (sub_nonneg.mpr hx.1)]
  · nlinarith [mul_nonneg hs₀ (sub_nonneg.mpr hy.2),
      mul_nonneg (sub_nonneg.mpr hs₁) (sub_nonneg.mpr hx.2)]

omit [IsStrictOrderedRing K] in
/-- The id of a stop is made of its place. -/
private theorem idStr_stopVertex (env : MapEnv K) (f t : Vertex (Site K)) :
    (stopVertex env f t).idStr =
      makeCoordinateString (stopVertex env f t).attr.y (stopVertex env f t).attr.x := by
  simp only [stopVertex, vertexCreate]

/-- The stop between two vertices in the area is in the area. -/
private theorem siteInArea_stopVertex {env : MapEnv K} {f t : Vertex (Site K)}
    (hf : SiteInArea f.attr) (ht : SiteInArea t.attr) (hlong : maxDist < vertexDistance env f t) :
    SiteInArea (stopVertex env f t).attr := by
  obtain ⟨htwo, -, -⟩ := cRound_parts hlong
  have hlat := between_mem ⟨hf.1, hf.2.1⟩ ⟨ht.1, ht.2.1⟩ htwo
  have hlon := between_mem ⟨hf.2.2.1, hf.2.2.2⟩ ⟨ht.2.2.1, ht.2.2.2⟩ htwo
  exact ⟨hlat.1, hlat.2, hlon.1, hlon.2⟩

end Text

/-! ## What the import stores -/

/-- Each vertex has its id in its place, and `getVertex` finds it there. -/
structure IdsStored {A : Type} (g : Graph A) : Prop where
  fits : ∀ id, Known g id → FitsIdStr id
  found : ∀ p ∈ g.vertices.nodes, ∀ id, g.idOf p = some id → getVertex g id = .ok p

/-- Each vertex is found exactly if the ids are distinct. -/
private theorem idsStored_iff {A : Type} {g : Graph A} (h : g.WF) :
    IdsStored g ↔ (∀ id, Known g id → FitsIdStr id) ∧ IdsIdentify g := by
  refine ⟨fun hstored => ⟨hstored.fits, ?_⟩, fun ⟨hfits, hids⟩ => ⟨hfits, hids.found⟩⟩
  rw [idsIdentify_iff_nodup h, ← distinctIds_iff_nodup h]
  intro p hp q hq heq
  have hid := idOf_of_mem h hp
  have hfirst := hstored.found p hp _ hid
  have hsecond := hstored.found q hq _ (heq.symm.trans hid)
  exact Except.ok.inj (hfirst.symm.trans hsecond)

/-- The ids that a net gives to vertices before the division. -/
def givenIds (net : SumoNet) : List String :=
  net.junctions.filterMap SumoJunction.id ++ net.edges.flatMap shapeIds

section Import

variable {env : SumoEnv K} {menv : MapEnv K} {osm : Option (List OsmWay)}
  {mapRoadid : List (String × Int32)} {net : SumoNet} {g g' : Graph (Site K)} {roadIds : RoadIds}
  {fuel : Nat}

/-- A load that comes to its end. -/
private theorem loaded_of_loadSumoMap
    (hok : loadSumoMap env osm fuel mapRoadid net = .ok (g, roadIds)) :
    Loaded env {id | id ∈ givenIds net} g := by
  obtain ⟨g₁, hjunctions, hedges⟩ := bind_eq_ok.mp hok
  have hall := (Loaded.empty.loadJunctions (by simp) hjunctions).loadEdges hedges
  have hset : ∅ ∪ {id | id ∈ net.junctions.filterMap SumoJunction.id} ∪
      {t | t ∈ net.edges.flatMap shapeIds} = {id | id ∈ givenIds net} := by
    ext id
    simp [givenIds]
  rwa [hset] at hall

/-- The load comes to the graph `g`, whatever becomes of it then, when it has got through a part of
    the net that gives the ids: some of the junctions, all of them and some of the edges, or with
    these the points of one more shape. -/
inductive ComesTo (env : SumoEnv K) (osm : Option (List OsmWay))
    (mapRoadid : List (String × Int32)) (net : SumoNet) : Graph (Site K) → List String → Prop where
  | junctions {fuel : Nat} {g : Graph (Site K)} {before after : List SumoJunction}
      (hnet : net.junctions = before ++ after)
      (h : loadJunctions env fuel [] graphCreate before = .ok g) :
      ComesTo env osm mapRoadid net g (before.filterMap SumoJunction.id)
  | edges {fuel : Nat} {g : Graph (Site K)} {roadIds : RoadIds} {before after : List SumoEdge}
      (hnet : net.edges = before ++ after)
      (h : loadSumoMap env osm fuel mapRoadid ⟨net.junctions, before⟩ = .ok (g, roadIds)) :
      ComesTo env osm mapRoadid net g (givenIds ⟨net.junctions, before⟩)
  | shape {fuel : Nat} {g g' : Graph (Site K)} {roadIds : RoadIds} {before after : List SumoEdge}
      {edge : SumoEdge} {read : String × String × String} {shape : String}
      (hnet : net.edges = before ++ edge :: after)
      (h : loadSumoMap env osm fuel mapRoadid ⟨net.junctions, before⟩ = .ok (g, roadIds))
      (hread : readEdge osm edge = .ok read) (hshape : edge.shape = some shape)
      (hlong : 2 < (tokenize shape " ").length)
      (hpoints : (interior (tokenize shape " ")).foldlM
        (createVertex env (tokenize shape " ")) g = .ok g') :
      ComesTo env osm mapRoadid net g' (givenIds ⟨net.junctions, before⟩ ++ shapeIds edge)

/-- The ids are those of the net. -/
theorem ComesTo.subset {ids : List String} (h : ComesTo env osm mapRoadid net g ids) :
    ids ⊆ givenIds net := by
  intro id hid
  cases h with
  | junctions hnet =>
    rw [givenIds, hnet, List.filterMap_append]
    exact List.mem_append_left _ (List.mem_append_left _ hid)
  | edges hnet =>
    simp only [givenIds, hnet, List.flatMap_append, List.mem_append] at hid ⊢
    tauto
  | shape hnet =>
    simp only [givenIds, hnet, List.flatMap_append, List.flatMap_cons, List.mem_append] at hid ⊢
    tauto

/-- Wherever the load comes to, its graph is a road network with the ids so far. -/
private theorem ComesTo.loaded {ids : List String} (h : ComesTo env osm mapRoadid net g ids) :
    Loaded env {id | id ∈ ids} g := by
  cases h with
  | junctions _ h =>
    have hall := Loaded.empty.loadJunctions (by simp) h
    rwa [Set.empty_union] at hall
  | edges _ h => exact loaded_of_loadSumoMap h
  | @shape fuel g₀ _ roadIds before after edge read shape _ h _ hshape _ hpoints =>
    have hall := (loaded_of_loadSumoMap h).createVertexes hpoints
    have hset : {id | id ∈ givenIds ⟨net.junctions, before⟩} ∪
        {t | t ∈ interior (tokenize shape " ")} =
        {id | id ∈ givenIds ⟨net.junctions, before⟩ ++ shapeIds edge} := by
      ext id
      simp [shapeIds, hshape]
    rwa [hset] at hall

/-- A load that comes to its end comes to its graph. -/
private theorem comesTo_of_loadSumoMap
    (hok : loadSumoMap env osm fuel mapRoadid net = .ok (g, roadIds)) :
    ComesTo env osm mapRoadid net g (givenIds net) :=
  .edges (List.append_nil _).symm hok

/-- A load ends exactly if its first loop meets no id for the second time. -/
private theorem loadSumoMap_ends_iff :
    (∃ N, ∀ fuel, N ≤ fuel → Ends (loadSumoMap env osm fuel mapRoadid net)) ↔
      RepeatFree env [] net.junctions := by
  constructor
  case mp =>
    intro ⟨N, hends⟩
    by_contra hrepeat
    exact hends N (le_refl N) (bind_of_timeout (loadJunctions_of_repeat hrepeat N))
  case mpr =>
    intro hfree
    refine ⟨net.junctions.length + 1, fun fuel hfuel => ?_⟩
    exact (ends_loadJunctions hfree (by omega)).bind fun g₁ _ => ends_loadEdges env osm g₁ _ _

/-- What a load has stored when it has come to a graph. -/
private theorem ComesTo.idsStored_iff {ids : List String}
    (hcomes : ComesTo env osm mapRoadid net g ids) :
    IdsStored g ↔ ∀ id ∈ ids, FitsIdStr id := by
  have h := hcomes.loaded
  rw [NS3.idsStored_iff h.wf, idsIdentify_iff_nodup h.wf, ← distinctIds_iff_nodup h.wf,
    and_iff_left h.distinct]
  exact forall_congr' fun id => by rw [h.known]; rfl

variable [IsStrictOrderedRing K]

/-- A position that has passed the assertion is in the area. -/
private theorem Loaded.siteInArea {ids : Set String} (h : Loaded env ids g) {p : Addr}
    (hp : p ∈ g.vertices.nodes) : SiteInArea (siteOf g p) := by
  obtain ⟨x, y, hgeo, hsite⟩ := h.sites p hp
  have hne : sumoCartesian2Geohash env x y ≠ 0 := by
    intro hzero
    rw [hzero] at hgeo
    exact absurd hgeo (by decide)
  rw [Ne, sumoCartesian2Geohash_eq_zero_iff, not_or, not_not, ← hsite] at hne
  exact hne.1

/-- The graph comes from `g₀` by cuts: its vertices are in the area, and their ids are the old ones
    and others that fit. -/
structure CutInArea (g₀ g : Graph (Site K)) : Prop where
  wf : g.WF
  area : ∀ p ∈ g.vertices.nodes, SiteInArea (siteOf g p)
  old : ∀ id, Known g₀ id → Known g id
  new : ∀ id, Known g id → Known g₀ id ∨ FitsIdStr id

/-- A cut of a long edge puts its stop into the area, with an id that fits. -/
theorem CutInArea.divide {g₀ : Graph (Site K)} (h : CutInArea g₀ g) {u v : Addr}
    {f t : Vertex (Site K)} (hf : g.heap.cell u = some f) (ht : g.heap.cell v = some t)
    (hlong : maxDist < vertexDistance menv f t) :
    CutInArea g₀ (NS3.divide g u v (stopVertex menv f t)) := by
  have hu := (h.wf.live_iff u).mp (Heap.live_iff.mpr ⟨f, hf⟩)
  have hv := (h.wf.live_iff v).mp (Heap.live_iff.mpr ⟨t, ht⟩)
  have hwf : (NS3.divide g u v (stopVertex menv f t)).WF := wf_divide h.wf hu hv rfl
  have hareaf := h.area u hu
  have hareat := h.area v hv
  rw [siteOf, hf] at hareaf
  rw [siteOf, ht] at hareat
  have hstop := siteInArea_stopVertex hareaf hareat hlong
  -- The cut makes one id known, that of the stop
  have hknown : ∀ id, Known (NS3.divide g u v (stopVertex menv f t)) id ↔
      Known g id ∨ id = (stopVertex menv f t).idStr := by
    intro id
    rw [known_iff_mem_idsOf hwf, known_iff_mem_idsOf h.wf, idsOf_divide h.wf]
    simp
  refine ⟨hwf, fun p hp => ?_, fun id hid => ?_, fun id hid => ?_⟩
  -- The old places are in the area, and so is the stop between two of them
  · rw [vertices_divide] at hp
    rcases List.mem_append.mp hp with hp | hp
    · rw [siteOf_divide h.wf hp]
      exact h.area p hp
    · rw [List.mem_singleton.mp hp, siteOf_divide_next]
      exact hstop
  · exact (hknown id).mpr (.inl (h.old id hid))
  -- The new id is made of a place in the area, and fits
  · rcases (hknown id).mp hid with hid | rfl
    · exact h.new id hid
    · rw [idStr_stopVertex]
      exact .inr (fitsIdStr_makeCoordinateString hstop)

/-- The division of the edges of one vertex consists of such cuts. -/
theorem CutInArea.divideEdges {g₀ : Graph (Site K)} (h : CutInArea g₀ g) {v : Addr}
    {es : List Edge} (hok : NS3.divideEdges menv g v es = .ok g') : CutInArea g₀ g' := by
  induction es generalizing g with
  | nil =>
    cases hok
    exact h
  | cons e es ih =>
    obtain ⟨g₁, hedge, hok⟩ := bind_eq_ok.mp hok
    refine ih ?_ hok
    obtain ⟨f, t, hf, ht, ⟨-, rfl⟩ | ⟨hlong, rfl⟩⟩ := edgeDivision_eq_ok hedge
    · exact h
    · rw [distance_of_cell hf ht] at hlong
      exact h.divide hf ht hlong

/-- So does the loop over the vertices. -/
theorem CutInArea.divideFrom {g₀ : Graph (Site K)} (h : CutInArea g₀ g) {i : Nat}
    (hok : NS3.divideFrom menv fuel i g = .ok g') : CutInArea g₀ g' := by
  induction fuel generalizing i g with
  | zero => cases hok
  | succ fuel ih =>
    obtain ⟨-, rfl⟩ | ⟨w, g₁, -, hedges, hok⟩ := divideFrom_succ_eq_ok hok
    · exact h
    · exact ih (h.divideEdges hedges) hok

/-- Division adds ids that fit, to a graph whose vertices are in the area. -/
private theorem fits_of_graphDivision (hwf : g.WF)
    (harea : ∀ p ∈ g.vertices.nodes, SiteInArea (siteOf g p))
    (hok : graphDivision menv fuel g = .ok g') :
    (∀ id, Known g' id → FitsIdStr id) ↔ ∀ id, Known g id → FitsIdStr id := by
  have hstart : CutInArea g g := ⟨hwf, harea, fun _ hid => hid, fun _ hid => .inl hid⟩
  have h := hstart.divideFrom hok
  refine ⟨fun hfits id hid => hfits id (h.old id hid), fun hfits id hid => ?_⟩
  exact (h.new id hid).elim (hfits id) fun hfit => hfit

/-- What the import promises of its ids: the load ends; wherever it comes to, and even if it aborts
    from there, it has made one vertex for each of the ids so far, and has stored them; and so has
    the division after it. -/
structure StoresIds (env : SumoEnv K) (menv : MapEnv K) (osm : Option (List OsmWay))
    (mapRoadid : List (String × Int32)) (net : SumoNet) : Prop where
  ends : ∃ N, ∀ fuel, N ≤ fuel → Ends (loadSumoMap env osm fuel mapRoadid net)
  once : ∀ g ids, ComesTo env osm mapRoadid net g ids → ∀ id ∈ ids,
    ∃! p, p ∈ g.vertices.nodes ∧ g.idOf p = some id
  loaded : ∀ g ids, ComesTo env osm mapRoadid net g ids → IdsStored g
  divided : ∀ fuel g roadIds n g', loadSumoMap env osm fuel mapRoadid net = .ok (g, roadIds) →
    graphDivision menv n g = .ok g' → IdsStored g'

/-- What is stored when the division has come after the load. -/
private theorem idsStored_divided_iff
    (hself : ∀ lat lng, ¬ menv.getDistance lat lng lat lng > maxDist)
    (hok : loadSumoMap env osm fuel mapRoadid net = .ok (g, roadIds)) {n : Nat}
    (hdivide : graphDivision menv n g = .ok g') :
    IdsStored g' ↔ (∀ id ∈ givenIds net, FitsIdStr id) ∧
      ∀ d, (divisionStops menv d g).Nodup ∧ ∀ id ∈ divisionStops menv d g, ¬ Known g id := by
  have h := loaded_of_loadSumoMap hok
  obtain ⟨hwf', hids⟩ := idsIdentify_of_graphDivision hself h.wf h.mirrored.symm hdivide
  rw [idsStored_iff hwf', fits_of_graphDivision h.wf (fun p => h.siteInArea) hdivide, hids]
  refine and_congr (forall_congr' fun id => by rw [h.known]; rfl) (forall_congr' fun d => ?_)
  exact nodup_ids_append_iff h.wf h.distinct

/-- The import keeps its promises exactly if its first loop meets no id for the second time, the ids
    of the junctions and the points of the shapes fit, as far as the load comes, and if it comes to
    its end, the stops of the division have ids of their own. -/
theorem storesIds_iff (hself : ∀ lat lng, ¬ menv.getDistance lat lng lat lng > maxDist) :
    StoresIds env menv osm mapRoadid net ↔
      RepeatFree env [] net.junctions ∧
        (∀ g ids, ComesTo env osm mapRoadid net g ids → ∀ id ∈ ids, FitsIdStr id) ∧
          ∀ fuel g roadIds, loadSumoMap env osm fuel mapRoadid net = .ok (g, roadIds) →
            ∀ n g', graphDivision menv n g = .ok g' → ∀ d, (divisionStops menv d g).Nodup ∧
              ∀ id ∈ divisionStops menv d g, ¬ Known g id := by
  constructor
  -- What is promised of the ids says what they are, by the lemmas on the load and on the division
  case mp =>
    intro hstores
    refine ⟨loadSumoMap_ends_iff.mp hstores.ends, fun g ids hcomes => ?_,
      fun fuel g roadIds hok n g' hdivide => ?_⟩
    · exact hcomes.idsStored_iff.mp (hstores.loaded g ids hcomes)
    · exact ((idsStored_divided_iff hself hok hdivide).mp
        (hstores.divided fuel g roadIds n g' hok hdivide)).2
  case mpr =>
    intro ⟨hfree, hfits, hstops⟩
    refine ⟨loadSumoMap_ends_iff.mpr hfree, ?_, ?_, ?_⟩
    · -- Each id has one vertex
      intro g ids hcomes id hid
      have h := hcomes.loaded
      obtain ⟨p, hp, hpid⟩ := (h.known id).mpr hid
      refine ⟨p, ⟨hp, hpid⟩, fun q ⟨hq, hqid⟩ => ?_⟩
      exact h.distinct q hq p hp (hqid.trans hpid.symm)
    -- What has been loaded is stored if the ids fit
    · intro g ids hcomes
      exact hcomes.idsStored_iff.mpr (hfits g ids hcomes)
    · intro fuel g roadIds n g' hok hdivide
      exact (idsStored_divided_iff hself hok hdivide).mpr
        ⟨hfits g _ (comesTo_of_loadSumoMap hok), hstops fuel g roadIds hok n g' hdivide⟩

end Import

/-- A graph with short edges only has no stops to come. -/
private theorem divisionStops_of_short {menv : MapEnv K} {g : Graph (Site K)}
    (h : ∀ u ∈ g.vertices.nodes, ∀ v ∈ g.vertices.nodes,
      ¬ TooLong menv (siteOf g u) (siteOf g v)) (n : Nat) : divisionStops menv n g = [] := by
  -- No pair of vertices has a stop, whichever end the loop comes from
  have hpair : ∀ u ∈ g.vertices.nodes, ∀ v ∈ g.vertices.nodes,
      edgeStops menv n (siteOf g u) (siteOf g v) = [] := fun u hu v hv => by
    rw [edgeStops_of_short (h u hu v hv), lateStops_of_short (h v hv u hu)]
  have hlist : ∀ us, us ⊆ g.vertices.nodes → stopsOn menv n g us = [] := by
    intro us
    induction us with
    | nil => intro _; rfl
    | cons u us ih =>
      intro hsub
      obtain ⟨hu, hus⟩ := List.cons_subset.mp hsub
      rw [stopsOn, ih hus, List.append_nil, List.flatMap_eq_nil_iff]
      intro v hv
      rw [hpair u hu v (hus hv)]
      simp
  exact hlist _ (List.Subset.refl _)

section Examples

/-- A junction somewhere in the net. -/
def junctionAt (id : String) : SumoJunction := ⟨some id, some "0", some "0"⟩

/-- An edge between two junctions, without a shape. -/
def straightEdge (id fromid toid : String) : SumoEdge := ⟨some id, some fromid, some toid, none⟩

/-- The position of the examples passes the assertion. -/
private theorem placed_geohash : 0 < sumoCartesian2Geohash (placed 40 (1165 / 10))
    ((placed 40 (1165 / 10)).atof "0") ((placed 40 (1165 / 10)).atof "0") := by
  decide +kernel

/-- Two junctions and an edge between them. -/
theorem storesIds_plainNet : StoresIds (placed 40 (1165 / 10)) gridEnv none []
    ⟨[junctionAt "a", junctionAt "b"], [straightEdge "e" "a" "b"]⟩ := by
  have hfits : ∀ id ∈ givenIds ⟨[junctionAt "a", junctionAt "b"], [straightEdge "e" "a" "b"]⟩,
      FitsIdStr id := by decide
  refine (storesIds_iff gridEnv_self).mpr ⟨⟨by decide, fun _ => ⟨by decide, fun _ => trivial⟩⟩,
    fun g ids hcomes id hid => hfits id (hcomes.subset hid), ?_⟩
  intro fuel g roadIds hok n g' _ d
  -- All vertices are at one place
  have h := loaded_of_loadSumoMap hok
  have hplace : ∀ p ∈ g.vertices.nodes, ((siteOf g p).x, (siteOf g p).y) =
      sumoCartesian2GPS (placed 40 (1165 / 10)) 0 0 := fun p hp => by
    obtain ⟨x, y, -, hsite⟩ := h.sites p hp
    exact hsite
  have hshort : ∀ u ∈ g.vertices.nodes, ∀ v ∈ g.vertices.nodes,
      ¬ TooLong gridEnv (siteOf g u) (siteOf g v) := by
    intro u hu v hv
    obtain ⟨hx, hy⟩ := Prod.mk.inj ((hplace u hu).trans (hplace v hv).symm)
    rw [TooLong, hx, hy]
    exact gridEnv_self _ _
  rw [divisionStops_of_short hshort]
  simp

/-- At the second of two junctions with one id the load does not end, and an id of 26 bytes does
    not fit into its vertex, even if the load aborts at the junction behind it. -/
theorem not_storesIds :
    (∀ fuel, loadSumoMap (placed 40 (1165 / 10)) none fuel []
        ⟨[junctionAt "a", junctionAt "a"], []⟩ = .error .timeout) ∧
      ¬ StoresIds (placed 40 (1165 / 10)) gridEnv none []
        ⟨[junctionAt "a", junctionAt "a"], []⟩ ∧
      ¬ StoresIds (placed 40 (1165 / 10)) gridEnv none []
        ⟨[junctionAt "cluster_298135838_49135231"], []⟩ ∧
      ¬ StoresIds (placed 40 (1165 / 10)) gridEnv none []
        ⟨[junctionAt "cluster_298135838_49135231", ⟨some "b", none, none⟩], []⟩ := by
  have hrepeat : ¬ RepeatFree (placed 40 (1165 / 10)) [] [junctionAt "a", junctionAt "a"] :=
    fun ⟨_, h⟩ => (h placed_geohash).1 (by decide)
  -- The load comes past the junction with the long id
  have hok : ∃ g, loadJunctions (placed 40 (1165 / 10)) 2 [] graphCreate
      [junctionAt "cluster_298135838_49135231"] = .ok g := by
    simp only [loadJunctions, junctionAt, attributeText, bind, Except.bind, createJunction_eq]
    rw [if_neg (by decide)]
    exact ⟨_, by rw [if_pos placed_geohash]⟩
  have hlong : ∀ after, ¬ StoresIds (placed 40 (1165 / 10)) gridEnv none []
      ⟨junctionAt "cluster_298135838_49135231" :: after, []⟩ := by
    intro after h
    obtain ⟨g, hok⟩ := hok
    have hcomes : ComesTo (placed 40 (1165 / 10)) none []
        ⟨junctionAt "cluster_298135838_49135231" :: after, []⟩ g
        ["cluster_298135838_49135231"] := .junctions rfl hok
    exact absurd (hcomes.idsStored_iff.mp (h.loaded g _ hcomes) _ List.mem_cons_self) (by decide)
  refine ⟨fun fuel => bind_of_timeout (loadJunctions_of_repeat hrepeat fuel), fun h => ?_,
    hlong [], hlong _⟩
  exact hrepeat (loadSumoMap_ends_iff.mp h.ends)

end Examples

end MapRelay.NS3
