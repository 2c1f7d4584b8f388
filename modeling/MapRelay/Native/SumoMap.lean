import MapRelay.Native.Division

/-!
# Importing the edges of a SUMO net (`mbr_sumomap.cpp`)

An edge of a SUMO net may have a shape, a list of points in the coordinates of the net. The
points between its ends become vertices of the road graph, named by the text of the point.
-/

namespace MapRelay.NS3

open ForStd

/-- What the import reads from its surroundings: `atof`, the inverse `pj_inv` of the projection
    that `projParameter` names, and `netOffset`. -/
structure SumoEnv (K : Type) where
  atof : String → K
  pjInv : K → K → K × K
  netoffsetX : K
  netoffsetY : K

/-- `Tokenize` with the rest of the string and the characters of the current token, the last
    one first. -/
def tokenizeFrom (delimiters : List Char) : List Char → List Char → List String
  | [], [] => []
  | [], token => [String.ofList token.reverse]
  | c :: cs, token =>
    if c ∈ delimiters then
      -- Several delimiters in a row do not make empty tokens
      if token = [] then tokenizeFrom delimiters cs []
      else String.ofList token.reverse :: tokenizeFrom delimiters cs []
    else tokenizeFrom delimiters cs (c :: token)

/-- `Tokenize`: the longest pieces of the string without delimiters. -/
def tokenize (str delimiters : String) : List String :=
  tokenizeFrom delimiters.toList str.toList []

section Convert

variable {K : Type} [Field K]

/-- `RAD_TO_DEG`. -/
def radToDeg : K := 57295779513082321 / 1000000000000000

/-- `sumoCartesian2GPS`: longitude and latitude. -/
def sumoCartesian2GPS (env : SumoEnv K) (inputX inputY : K) : K × K :=
  let p := env.pjInv (inputX - env.netoffsetX) (inputY - env.netoffsetY)
  (p.1 * radToDeg, p.2 * radToDeg)

variable [LinearOrder K] [FloorRing K]

/-- `sumoCartesian2Geohash`. -/
def sumoCartesian2Geohash (env : SumoEnv K) (inputX inputY : K) : UInt64 :=
  let (x, y) := sumoCartesian2GPS env inputX inputY
  (geohashFastEncode latRangeConst lonRangeConst y x geohashStepBit ⟨0, 0⟩).2.bits

/-- The body of the first loop of `parseShapeAndUpdateGraph`, for one of the tokens between
    the ends. The coordinates are read from the first two tokens of the shape: the parts
    `tokens2` of the token itself are not used. -/
def createVertex (env : SumoEnv K) (tokens : List String) (g : Graph (Site K))
    (token : String) : Except Fault (Graph (Site K)) := do
  if (← getVertex g token) ≠ NULL then return g
  else
    let inputX := env.atof (tokens.getD 0 "")
    let inputY := env.atof (tokens.getD 1 "")
    let geohash := sumoCartesian2Geohash env inputX inputY
    if geohash > 0 then
      let (x, y) := sumoCartesian2GPS env inputX inputY
      let (g, v) := g.newVertex (vertexCreate token geohash ⟨x, y, false⟩)
      return graphAddVertex g v
    else throw .assertFailed

end Convert

variable {K : Type}

/-- The second loop of `parseShapeAndUpdateGraph`, with `last_v`. The flag says that the loop
    was not left by the `return` in it. -/
def createEdges (roadid : Int32) :
    List String → Addr → Graph (Site K) → Except Fault (Graph (Site K) × Bool)
  | [], _, g => .ok (g, true)
  | token :: tokens, lastV, g => do
    let v ← getVertex g token
    if v = NULL then return (g, false)
    else if lastV = NULL then createEdges roadid tokens v g
    else do
      -- `last_v` is not set again
      let g ← vertexAddEdgeToVertexUndirectExclusive g lastV v roadid
      createEdges roadid tokens lastV g

/-- The tokens with the indices `1` to `tokens.size() - 2`. -/
def interior (tokens : List String) : List String := tokens.tail.dropLast

variable [Field K] [LinearOrder K] [FloorRing K]

/-- `parseShapeAndUpdateGraph`. -/
def parseShapeAndUpdateGraph (env : SumoEnv K) (g : Graph (Site K)) (fromid toid : String)
    (roadid : Int32) (shape : String) : Except Fault (Graph (Site K)) := do
  let tokens := tokenize shape " "
  -- A shape of two points returns before anything is linked
  if tokens.length ≤ 2 then return g
  else
    let g ← (interior tokens).foldlM (createVertex env tokens) g
    let (g, finished) ← createEdges roadid (interior tokens) NULL g
    if finished then
      -- The two ends
      let u ← getVertex g fromid
      let v ← getVertex g (tokens.getD 1 "")
      let g ← vertexAddEdgeToVertexUndirectExclusive g u v roadid
      let u ← getVertex g (tokens.getD (tokens.length - 2) "")
      let v ← getVertex g toid
      vertexAddEdgeToVertexUndirectExclusive g u v roadid
    else return g

/-- The body of the loop of `loadSumoMap` over the edges, once the road id has been looked
    up. -/
def loadSumoMapEdge (env : SumoEnv K) (g : Graph (Site K)) (fromid toid : String)
    (roadid : Int32) : Option String → Except Fault (Graph (Site K))
  | none => do
    let u ← getVertex g fromid
    let v ← getVertex g toid
    vertexAddEdgeToVertexUndirectExclusive g u v roadid
  | some shape => parseShapeAndUpdateGraph env g fromid toid roadid shape

end MapRelay.NS3
