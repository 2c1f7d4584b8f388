import MapRelay.Native.KernelGraph

/-!
# Intersections on the way to a destination (`cross_vertex`)

Both copies search the road graph breadth-first from one vertex and then walk back from the
other along the parents, looking for a change of the road. The queue of the search is a
linked list of `path` entries that is never shortened; here it is a list, and an entry's
`ancest` is the position of its parent. The kernel copy stops at the first path it finds.
The NS-3 copy goes on, gives entries new parents, and collects the intersections of all the
paths it sees.
-/

namespace MapRelay

open ForStd

/-- `struct path`. The first entry of a queue has neither parent nor edge. -/
structure PathEntry where
  v : Addr
  ancest : Option Nat
  e : Option Edge
  deriving DecidableEq, Repr

/-- `strcmp (v->idStr, w->idStr) == 0`. -/
def sameId {A : Type} (g : Graph A) (v w : Addr) : Except Fault Bool := do
  let v ← g.heap.deref v
  let w ← g.heap.deref w
  return v.idStr == w.idStr

/-- The `road_id` of the edge to the parent. -/
def PathEntry.roadId (p : PathEntry) : Except Fault Int32 :=
  match p.e with
  | some e => .ok e.roadId
  | none => .error .nullDeref

/-- The entry that a `path` pointer into the queue refers to. -/
def entryAt (q : List PathEntry) (i : Nat) : Except Fault PathEntry :=
  match q[i]? with
  | some p => .ok p
  | none => .error .danglingDeref

/-- The entry that `cross_vertex` starts with. -/
def PathEntry.start (v : Addr) : PathEntry := ⟨v, none, none⟩

/-! ## The kernel copy -/

namespace Kernel

/-- `find_vertex`: the vertex has been reached already. -/
def findVertex (head : List PathEntry) (v : Addr) : Bool := head.any (·.v == v)

/-- The loop of `cross_vertex` over the edges of the vertex at position `index`. The flag
    says that `to` has been reached, and then it is the last entry of the queue. -/
def searchEdges (g : RoadGraph) (target : Addr) (index : Nat) :
    List Edge → List PathEntry → Except Fault (List PathEntry × Bool)
  | [], q => .ok (q, false)
  | e :: n, q =>
    if findVertex q e.vertex then searchEdges g target index n q
    else do
      let q := q ++ [⟨e.vertex, some index, some e⟩]
      -- Found: the search ends at once, in the middle of the edge list
      if ← sameId g e.vertex target then return (q, true)
      else searchEdges g target index n q

/-- The loop of `cross_vertex` over the queue. -/
def searchQueue (g : RoadGraph) (target : Addr) :
    Nat → Nat → List PathEntry → Except Fault (List PathEntry × Bool)
  | 0, _, _ => .error .timeout
  | fuel + 1, index, q =>
    match q[index]? with
    | none => .ok (q, false)
    | some p => do
      let v ← g.heap.deref p.v
      let (q, reached) ← searchEdges g target index v.edges.nodes q
      if reached then return (q, true) else searchQueue g target fuel (index + 1) q

/-- The loop of `print_crossnode`: the vertex at which the road changes first. -/
def crossnodeFrom (q : List PathEntry) : Nat → Nat → Int32 → Except Fault Addr
  | 0, _, _ => .error .timeout
  | fuel + 1, i, second => do
    let p ← entryAt q i
    match p.ancest with
    | none => return NULL
    | some a =>
      let roadId ← p.roadId
      if second ≠ roadId then return p.v else crossnodeFrom q fuel a roadId

/-- `print_crossnode` from the last entry of the queue. -/
def printCrossnode (q : List PathEntry) : Except Fault Addr := do
  let p ← entryAt q (q.length - 1)
  let second ← p.roadId
  match p.ancest with
  | none => .error .nullDeref
  | some a => crossnodeFrom q q.length a second

/-- `cross_vertex`. The queue holds each vertex once, so that the number of vertices bounds
    the loop over it. -/
def crossVertex (g : RoadGraph) (source target : Addr) : Except Fault Addr := do
  let (q, reached) ← searchQueue g target (g.vertices.nodes.length + 2) 0 [.start source]
  if reached then printCrossnode q else return NULL

end Kernel

/-! ## The NS-3 copy -/

namespace NS3

variable {A : Type}

/-- `find_vertex`: the vertex has been reached already. Where its entry is the one under
    examination or a later one, it becomes the parent of the entry; the edge of the entry
    stays the one by which it was reached first. -/
def findVertex (head : List PathEntry) (index : Nat) (v : Addr) : Option (List PathEntry) :=
  match head.findIdx? (·.v == v) with
  | none => none
  | some i =>
    some (if index ≤ i then head.modify i fun p => { p with ancest := some index } else head)

/-- The loop of `print_crossnode`, with its variables `second`, `ver` and `count`. -/
def crossnodeLoop (q : List PathEntry) :
    Nat → Nat → Int32 → Addr → Nat → Except Fault (Addr × Nat)
  | 0, _, _, _, _ => .error .timeout
  | fuel + 1, i, second, ver, count => do
    let p ← entryAt q i
    match p.ancest with
    | none => return (ver, count)
    | some a =>
      let roadId ← p.roadId
      -- Every change of the road counts, the first one is remembered
      if second ≠ roadId then
        crossnodeLoop q fuel a roadId (if ver = NULL then p.v else ver) (count + 1)
      else crossnodeLoop q fuel a roadId ver count

/-- `print_crossnode`: the vertex at which the road changes, if it changes exactly once. -/
def printCrossnode (q : List PathEntry) (i : Nat) : Except Fault Addr := do
  let p ← entryAt q i
  match p.ancest with
  | none => return NULL
  | some a =>
    let second ← p.roadId
    let (ver, count) ← crossnodeLoop q q.length a second NULL 0
    return if count = 1 then ver else NULL

/-- The variables of `cross_vertex`: the queue, `target`, `flag`, and the list it returns. -/
structure Search where
  queue : List PathEntry
  target : Option Nat
  flag : Bool
  list : List Addr

/-- `cross_vertex` comes to the next edge of the vertex at position `index`, and finds its
    vertex in the queue or adds it. -/
def reachVertex (g : Graph A) (target : Addr) (index : Nat) (s : Search) (e : Edge) :
    Except Fault Search :=
  match findVertex s.queue index e.vertex with
  | some queue =>
    -- `flag` may be set again here, `target` stays the entry that was found first
    if s.target.isSome then do
      if ← sameId g e.vertex target then return { s with queue, flag := true }
      else return { s with queue }
    else .ok { s with queue }
  | none => do
    let queue := s.queue ++ [⟨e.vertex, some index, some e⟩]
    if ← sameId g e.vertex target then
      return { s with queue, flag := true, target := some s.queue.length }
    else return { s with queue }

/-- Under `flag`, `cross_vertex` adds the intersection on the way to `target` to its list. -/
def collect (s : Search) : Except Fault Search :=
  match s.flag, s.target with
  | true, some i => do
    let v ← printCrossnode s.queue i
    -- `find_vertexlist`: a vertex is collected once
    if v ≠ NULL ∧ v ∉ s.list then return { s with list := s.list ++ [v] } else return s
  | true, none => .ok s
  | false, _ => .ok s

/-- The body of the loop of `cross_vertex` over the edges of a vertex. -/
def visitEdge (g : Graph A) (target : Addr) (index : Nat) (s : Search) (e : Edge) :
    Except Fault Search := do
  let s ← reachVertex g target index s e
  collect s

/-- The loop of `cross_vertex` over the queue. `flag` is never reset. -/
def searchQueue (g : Graph A) (target : Addr) :
    Nat → Nat → Search → Except Fault (List Addr)
  | 0, _, _ => .error .timeout
  | fuel + 1, index, s =>
    match s.queue[index]? with
    | none => .ok s.list
    | some p => do
      if ← sameId g p.v target then return s.list
      else
        let v ← g.heap.deref p.v
        let s ← v.edges.nodes.foldlM (visitEdge g target index) s
        searchQueue g target fuel (index + 1) s

/-- `cross_vertex`. The queue holds each vertex once, so that the number of vertices bounds
    the loop over it. -/
def crossVertex (g : Graph A) (source target : Addr) : Except Fault (List Addr) :=
  searchQueue g target (g.vertices.nodes.length + 2) 0 ⟨[.start source], none, false, []⟩

end NS3

end MapRelay
