import MapRelay.Native.SumoMap

/-!
# The road ids of an import (`mbr_sumomap.cpp`)

`loadSumoMap` gives every edge of the net a number for its road. It knows the road by a string:
the name of the way in the OSM file if there is one, the id of the way otherwise. The map from
the strings to the numbers belongs to the importer, the counter to a single load.
-/

namespace MapRelay.NS3

open ForStd

/-- The text that `Attribute` returns becomes a `string`, which a null pointer cannot. -/
def attributeText : Option String → Except Fault String
  | none => .error .nullDeref
  | some text => .ok text

/-- `tokens[index]`. -/
def tokenAt (tokens : List String) (index : Nat) : Except Fault String :=
  match tokens[index]? with
  | none => .error .danglingDeref
  | some token => .ok token

/-- `parseOsmWayid`. -/
def parseOsmWayid (str : String) : Except Fault String := do
  let tokens := tokenize str "#"
  let tokens1 := tokenize (← tokenAt tokens 0) "-"
  if tokens1.length = 1 then tokenAt tokens1 0
  else tokenAt tokens1 1

/-- An element `tag` of a way. -/
structure OsmTag where
  k : Option String
  v : Option String

/-- An element `way` of an OSM file. -/
structure OsmWay where
  id : Option String
  tags : List OsmTag

/-- The inner loop of `parseOsmRoadName`: the value of the first tag with the key `name`. -/
def findName : List OsmTag → Except Fault (Option String)
  | [] => .ok none
  | tag :: tags => do
    let k ← attributeText tag.k
    if k = "name" then
      let v ← attributeText tag.v
      return some v
    else findName tags

/-- `parseOsmRoadName`. -/
def parseOsmRoadName (wayid : String) : List OsmWay → Except Fault String
  | [] => .ok ""
  | way :: ways => do
    let id ← attributeText way.id
    if id = wayid then
      match ← findName way.tags with
      | some name => return name
      -- A way without a name does not end the search
      | none => parseOsmRoadName wayid ways
    else parseOsmRoadName wayid ways

/-- The attributes of an element `edge` that are read. -/
structure SumoEdge where
  id : Option String
  fromid : Option String
  toid : Option String
  shape : Option String

/-- `roadid_str`. There is no OSM map if the name of its file is empty. -/
def findRoadidStr (osm : Option (List OsmWay)) (osmWayid : String) : Except Fault String :=
  match osm with
  | some ways => parseOsmRoadName osmWayid ways
  | none => .ok osmWayid

/-- The strings that the loop reads first: `roadid_str`, `fromid` and `toid`. -/
def readEdge (osm : Option (List OsmWay)) (edge : SumoEdge) :
    Except Fault (String × String × String) := do
  let osmWayid ← parseOsmWayid (← attributeText edge.id)
  let roadidStr ← findRoadidStr osm osmWayid
  let fromid ← attributeText edge.fromid
  let toid ← attributeText edge.toid
  return (roadidStr, fromid, toid)

/-- `m_map_roadid` and `kkk`. -/
structure RoadIds where
  mapRoadid : List (String × Int32)
  kkk : Int32

/-- `roadid_int` for a string, which is entered in the map if it is new. -/
def roadidInt (ids : RoadIds) (roadidStr : String) : Int32 × RoadIds :=
  match ids.mapRoadid.lookup roadidStr with
  | some roadid => (roadid, ids)
  | none => (ids.kkk, ⟨(roadidStr, ids.kkk) :: ids.mapRoadid, ids.kkk + 1⟩)

/-- The loop of `loadSumoMap` over the edges, without what it does to the graph: the numbers
    that the edges are given. -/
def giveRoadids (osm : Option (List OsmWay)) :
    RoadIds → List SumoEdge → Except Fault (List Int32 × RoadIds)
  | ids, [] => .ok ([], ids)
  | ids, edge :: edges => do
    let (roadidStr, _, _) ← readEdge osm edge
    let (roadid, ids) := roadidInt ids roadidStr
    let (roadids, ids) ← giveRoadids osm ids edges
    return (roadid :: roadids, ids)

/-- What one call of `Initialize` reads: the OSM map, if there is a name for it, and the edges
    of the net. -/
structure Load where
  osm : Option (List OsmWay)
  edges : List SumoEdge

/-- The numbers that the edges are given in a sequence of loads. -/
def giveAllRoadids : List (String × Int32) → List Load → Except Fault (List (List Int32))
  | _, [] => .ok []
  | mapRoadid, load :: loads => do
    let (roadids, ids) ← giveRoadids load.osm ⟨mapRoadid, 1⟩ load.edges
    let rest ← giveAllRoadids ids.mapRoadid loads
    return roadids :: rest

section Graph

variable {K : Type} [Field K] [LinearOrder K] [FloorRing K]

/-- The loop of `loadSumoMap` over the edges. -/
def loadEdges (env : SumoEnv K) (osm : Option (List OsmWay)) :
    Graph (Site K) → RoadIds → List SumoEdge → Except Fault (Graph (Site K) × RoadIds)
  | g, ids, [] => .ok (g, ids)
  | g, ids, edge :: edges => do
    let (roadidStr, fromid, toid) ← readEdge osm edge
    let (roadid, ids) := roadidInt ids roadidStr
    let g ← loadSumoMapEdge env g fromid toid roadid edge.shape
    loadEdges env osm g ids edges

end Graph

end MapRelay.NS3
