import MapRelay.ForStd.Run
import MapRelay.Native.Netlink
import MapRelay.Spec.KernelGraph

/-!
# Which messages the netlink callback keeps to

`netlink_recv_cb` looks at the length of a message once, and asks for no more than an empty
header. A message is handled within its bounds if its payload is a whole `graph_deliver` with ids
that end in their arrays, or asks for nothing, and if the length in its header is not larger than
the payload is. No other message is, from the empty graph on.
-/

namespace MapRelay.Kernel

open ForStd MapRelay.Graph

variable {e : Endian} {g g' : RoadGraph} {skb : Region}

/-! ## What a message should be -/

/-- The id arrays that the branch for `mode` reads. -/
def idFields (mode : Int16) : List Nat :=
  if mode = modeDelNode ∨ mode = modeNewNode then [8]
  else if mode = modeNewEdge then [8, 33]
  else []

/-- The payload has the bytes of a `graph_deliver`, and its ids end in their arrays. -/
def IsGraphDeliver (e : Endian) (skb : Region) : Prop :=
  nlmsgHdrlen + sizeofGraphDeliver ≤ skb.own.length ∧
    ∀ field ∈ idFields (graphDeliverMode e skb nlmsgHdrlen),
      skb.Terminated (nlmsgHdrlen + field) idLength

instance : Decidable (IsGraphDeliver e skb) := inferInstanceAs (Decidable (_ ∧ _))

/-- The first word of the payload is none of the three commands. -/
def NoCommand (e : Endian) (skb : Region) : Prop :=
  graphDeliverMode e skb nlmsgHdrlen ∉ [modeDelNode, modeNewNode, modeNewEdge]

instance : Decidable (NoCommand e skb) := inferInstanceAs (Decidable (¬ _))

/-- The callback keeps to the message: it leaves the graph alone if the payload is no
    `graph_deliver`, and the reply is made of bytes of the payload. -/
structure BoundsKept (e : Endian) (g : RoadGraph) (skb : Region) : Prop where
  unchanged : ¬ IsGraphDeliver e skb →
    ∀ next, ∃ reply, netlinkRecvCbSkb e next g skb = .ok (g, reply)
  reply : ∀ next g' reply, netlinkRecvCbSkb e next g skb = .ok (g', some reply) →
    reply <+: skb.own.drop nlmsgHdrlen

/-- A message is received, whatever it finds in a list node that it has freed. -/
def Received (e : Endian) (g : RoadGraph) (skb : Region) (g' : RoadGraph) : Prop :=
  ∃ next reply, netlinkRecvCbSkb e next g skb = .ok (g', reply)

/-! ## What the callback does -/

/-- The callback reads the command, carries it out and answers. -/
theorem netlinkRecvCbSkb_eq_ok (hlen : nlmsgHdrlen ≤ skb.own.length) {next : FreedNext}
    {reply : Option (List UInt8)} :
    netlinkRecvCbSkb e next g skb = .ok (g', reply) ↔
      ∃ d, graphDeliverAt e skb nlmsgHdrlen = .ok d ∧ netlinkRecvCb next g d = .ok g' ∧
        reply = some (netlinkSendMsg skb nlmsgHdrlen (nlmsgLen e skb)) := by
  have hlong : skb.own.length ≥ nlmsgTotalSize 0 := hlen
  rw [netlinkRecvCbSkb, if_pos hlong, bind_eq_ok]
  constructor
  · intro ⟨d, hd, hrest⟩
    obtain ⟨g₁, hg₁, hpure⟩ := bind_eq_ok.mp hrest
    cases hpure
    exact ⟨d, hd, hg₁, rfl⟩
  · rintro ⟨d, hd, hg', rfl⟩
    exact ⟨d, hd, bind_eq_ok.mpr ⟨g', hg', rfl⟩⟩

/-- A message is no command exactly if its mode is not one of the three. -/
private theorem graphDeliverAt_eq_other {mode : Int16} :
    graphDeliverAt e skb nlmsgHdrlen = .ok (.other mode) ↔
      NoCommand e skb ∧ graphDeliverMode e skb nlmsgHdrlen = mode := by
  simp only [graphDeliverAt, NoCommand, List.mem_cons, List.not_mem_nil, or_false, not_or]
  split
  · simp_all
  · split
    · simp_all [bind_eq_ok, pure, Except.pure]
    · split <;> simp_all

/-- On the empty graph, a command that leaves the graph alone is none of the three. -/
private theorem other_of_unchanged {next : FreedNext} {d : GraphDeliver}
    (h : netlinkRecvCb next graphCreate d = .ok graphCreate) : ∃ mode, d = .other mode := by
  have hwf : (graphCreate : RoadGraph).WF := Mirrored.empty.degrees.wf
  have hunknown : ∀ idStr, ¬ Known (graphCreate : RoadGraph) idStr := by
    rintro idStr ⟨p, hp, -⟩
    cases hp
  cases d with
  | other mode => exact ⟨mode, rfl⟩
  | delNode vertex => exact absurd (known_of_delNode_ok hwf h) (hunknown vertex)
  | newEdge source target roadId =>
    exact absurd ((newEdge_ok_iff hwf next).mp ⟨_, h⟩).1 (hunknown source)
  | newNode vertex geohash =>
    -- There is a vertex now
    have hnodes := congrArg (fun g : RoadGraph => g.vertices.nodes) (Except.ok.inj h)
    cases hnodes

/-- The reply keeps to the payload exactly if the length in the header does. -/
private theorem reply_isPrefix_iff (hlen : nlmsgHdrlen ≤ skb.own.length) :
    netlinkSendMsg skb nlmsgHdrlen (nlmsgLen e skb) <+: skb.own.drop nlmsgHdrlen ↔
      nlmsgHdrlen + (nlmsgLen e skb).toNat ≤ skb.own.length :=
  Region.read_isPrefix_iff hlen

/-! ## Messages that are carried out -/

/-- The reading of a removal. -/
theorem graphDeliverAt_delNode (hmode : graphDeliverMode e skb nlmsgHdrlen = modeDelNode) :
    graphDeliverAt e skb nlmsgHdrlen =
      .ok (.delNode (idString (skb.cString (nlmsgHdrlen + 8)))) := by
  rw [graphDeliverAt, if_pos hmode]

/-- The reading of a road. -/
private theorem graphDeliverAt_newEdge (hmode : graphDeliverMode e skb nlmsgHdrlen = modeNewEdge) :
    ∃ roadId, graphDeliverAt e skb nlmsgHdrlen =
      .ok (.newEdge (idString (skb.cString (nlmsgHdrlen + 8)))
        (idString (skb.cString (nlmsgHdrlen + 33))) roadId) := by
  rw [graphDeliverAt, hmode]
  exact ⟨_, rfl⟩

/-- An id that ends in its array can be copied. -/
private theorem graphDeliverAt_newNode (hmode : graphDeliverMode e skb nlmsgHdrlen = modeNewNode)
    (hend : skb.Terminated (nlmsgHdrlen + 8) idLength) :
    ∃ geohash, graphDeliverAt e skb nlmsgHdrlen =
      .ok (.newNode (idString (skb.cString (nlmsgHdrlen + 8))) geohash) := by
  have hcopy : strcpyIdStr (skb.cString (nlmsgHdrlen + 8)) =
      .ok (idString (skb.cString (nlmsgHdrlen + 8))) :=
    if_pos (Region.cString_of_terminated hend).2
  rw [graphDeliverAt, hmode, hcopy]
  exact ⟨_, rfl⟩

/-- A message that creates a vertex under the id in an array of another message. -/
def createsId (e : Endian) (skb : Region) (field : Nat) : Region where
  own := List.replicate nlmsgHdrlen 0 ++ (e.bytes 2 ++ (List.replicate 6 0 ++
    ((skb.own.drop (nlmsgHdrlen + field)).take idLength ++ List.replicate 31 0)))
  behind := []

/-- A number of 16 bits has 2 bytes. -/
private theorem length_bytes (x : UInt16) : (e.bytes x).length = 2 := by
  cases e <;> rfl

/-- The message of the example creates a site. -/
private theorem graphDeliverMode_createsId (field : Nat) :
    graphDeliverMode e (createsId e skb field) nlmsgHdrlen = modeNewNode := by
  have hread : (createsId e skb field).read nlmsgHdrlen 2 = e.bytes 2 := by
    rw [Region.read_of_le (by simp [createsId, length_bytes])]
    simp [createsId, nlmsgHdrlen, List.drop_append, length_bytes]
  rw [graphDeliverMode, hread]
  cases e <;> decide

/-- It is received on any graph. -/
private theorem received_createsId {field : Nat}
    (hend : skb.Terminated (nlmsgHdrlen + field) idLength)
    (hlen : nlmsgHdrlen + field + idLength ≤ skb.own.length) (g : RoadGraph) :
    ∃ g' geohash, Received e g (createsId e skb field) g' ∧
      netlinkRecvCb .same g (.newNode (idString (skb.cString (nlmsgHdrlen + field))) geohash) =
        .ok g' := by
  -- The array of the new message has the bytes of the old one
  have hfield : ((createsId e skb field).own.drop (nlmsgHdrlen + 8)).take idLength =
      (skb.own.drop (nlmsgHdrlen + field)).take idLength := by
    have harray : ((skb.own.drop (nlmsgHdrlen + field)).take idLength).length = idLength := by
      rw [List.length_take, List.length_drop]
      omega
    simp only [createsId]
    generalize (skb.own.drop (nlmsgHdrlen + field)).take idLength = array at harray ⊢
    have hmode : (e.bytes 2).drop 8 = [] := List.drop_eq_nil_of_le (by simp [length_bytes])
    simp [nlmsgHdrlen, List.drop_append, length_bytes, hmode, ← harray]
  have hend' : (createsId e skb field).Terminated (nlmsgHdrlen + 8) idLength := by
    rw [Region.Terminated, hfield]
    exact hend
  have hstring : (createsId e skb field).cString (nlmsgHdrlen + 8) =
      skb.cString (nlmsgHdrlen + field) := by
    rw [(Region.cString_of_terminated hend').1, hfield, (Region.cString_of_terminated hend).1]
  obtain ⟨geohash, hd⟩ := graphDeliverAt_newNode (graphDeliverMode_createsId field) hend'
  rw [hstring] at hd
  refine ⟨_, geohash, ⟨.same, _, (netlinkRecvCbSkb_eq_ok ?_).mpr ⟨_, hd, rfl, rfl⟩⟩, rfl⟩
  simp [createsId]

/-- A new site makes its id known. -/
private theorem known_newNode (h : g.WF) {idStr : String} {geohash : UInt64}
    (hok : netlinkRecvCb .same g (.newNode idStr geohash) = .ok g') :
    Known g' idStr ∧ ∀ other, Known g other → Known g' other := by
  cases hok
  refine ⟨⟨g.heap.next, List.mem_cons_self, ?_⟩, ?_⟩
  · simp [graphAddVertex, idOf, vertexCreate, Heap.cell_alloc]
  · rintro other ⟨p, hp, hid⟩
    refine ⟨p, List.mem_cons_of_mem _ hp, ?_⟩
    -- The new vertex is at an address of its own
    have hne : p ≠ g.heap.next := by
      rintro rfl
      exact g.heap.not_live_next ((h.live_iff _).mpr hp)
    simpa [graphAddVertex, Graph.newVertex, idOf, Heap.cell_alloc, hne] using hid

/-- For every `graph_deliver` there is a graph that messages lead to and on which it is carried
    out. -/
private theorem exists_carriedOut (h : IsGraphDeliver e skb) :
    ∃ skbs g d g', Run (Received e) graphCreate skbs g ∧
      graphDeliverAt e skb nlmsgHdrlen = .ok d ∧ netlinkRecvCb .same g d = .ok g' := by
  obtain ⟨hlen, hids⟩ := h
  have hfirst : nlmsgHdrlen + 8 + idLength ≤ skb.own.length := by
    simp only [nlmsgHdrlen, sizeofGraphDeliver, idLength] at hlen ⊢
    omega
  have hsecond : nlmsgHdrlen + 33 + idLength ≤ skb.own.length := by
    simp only [nlmsgHdrlen, sizeofGraphDeliver, idLength] at hlen ⊢
    omega
  by_cases hdel : graphDeliverMode e skb nlmsgHdrlen = modeDelNode
  · -- A vertex is deleted that has just been created
    obtain ⟨g, geohash, hrecv, hnew⟩ := received_createsId
      (hids 8 (by rw [hdel]; decide)) hfirst graphCreate
    have hwf : g.WF := Safe.wf Mirrored.empty.degrees.wf
      ⟨by simp [GraphDeliver.names], by simp⟩ hnew
    obtain ⟨v, hv, -, hget⟩ := getVertex_of_known hwf
      (known_newNode Mirrored.empty.degrees.wf hnew).1
    obtain ⟨g', hrun, -⟩ :=
    graphRemoveVertexUndirect_ok (show FreedNext.same ≠ .other by decide) hwf hv
    exact ⟨_, g, _, g', Run.nil.snoc hrecv, graphDeliverAt_delNode hdel,
      (netlinkRecvCb_delNode .same hget).trans hrun⟩
  by_cases hnew : graphDeliverMode e skb nlmsgHdrlen = modeNewNode
  · obtain ⟨geohash, hd⟩ := graphDeliverAt_newNode hnew (hids 8 (by rw [hnew]; decide))
    exact ⟨_, graphCreate, _, _, .nil, hd, rfl⟩
  by_cases hedge : graphDeliverMode e skb nlmsgHdrlen = modeNewEdge
  · -- An edge is added between two vertices that have just been created
    obtain ⟨g₁, _, hrecv₁, hnew₁⟩ := received_createsId
      (hids 8 (by rw [hedge]; decide)) hfirst graphCreate
    obtain ⟨g₂, _, hrecv₂, hnew₂⟩ := received_createsId
      (hids 33 (by rw [hedge]; decide)) hsecond g₁
    have hwf₁ : g₁.WF := Safe.wf Mirrored.empty.degrees.wf
      ⟨by simp [GraphDeliver.names], by simp⟩ hnew₁
    have hwf₂ : g₂.WF := Safe.wf hwf₁ ⟨by simp [GraphDeliver.names], by simp⟩ hnew₂
    have hknown₁ := (known_newNode Mirrored.empty.degrees.wf hnew₁).1
    obtain ⟨hknown₂, hkept⟩ := known_newNode hwf₁ hnew₂
    obtain ⟨roadId, hd⟩ := graphDeliverAt_newEdge hedge
    obtain ⟨g', hok⟩ := (newEdge_ok_iff hwf₂ .same (r := roadId)).mpr ⟨hkept _ hknown₁, hknown₂⟩
    exact ⟨_, g₂, _, g', (Run.nil.snoc hrecv₁).snoc hrecv₂, hd, hok⟩
  · refine ⟨_, graphCreate, _, _, .nil, graphDeliverAt_eq_other.mpr ⟨?_, rfl⟩, rfl⟩
    simp [NoCommand, hdel, hnew, hedge]

/-! ## The bounds -/

/-- In every graph that messages lead to the callback keeps to a message, exactly if the payload
    is a `graph_deliver` or no command, and the length in the header is within the message. -/
theorem bounds_kept_iff (e : Endian) (skb : Region) (hlen : nlmsgHdrlen ≤ skb.own.length) :
    (∀ skbs g, Run (Received e) graphCreate skbs g → BoundsKept e g skb) ↔
      (IsGraphDeliver e skb ∨ NoCommand e skb) ∧
        nlmsgHdrlen + (nlmsgLen e skb).toNat ≤ skb.own.length := by
  constructor
  · intro hkept
    have hcommand : IsGraphDeliver e skb ∨ NoCommand e skb := by
      by_contra hneither
      obtain ⟨hno, hmode⟩ := not_or.mp hneither
      -- The empty graph would have to stay empty
      obtain ⟨reply, hok⟩ := (hkept [] graphCreate .nil).unchanged hno .same
      obtain ⟨d, hd, hsame, -⟩ := (netlinkRecvCbSkb_eq_ok hlen).mp hok
      obtain ⟨mode, rfl⟩ := other_of_unchanged hsame
      exact hmode (graphDeliverAt_eq_other.mp hd).1
    refine ⟨hcommand, ?_⟩
    -- Some graph leads to a reply
    have hreply : ∃ skbs g d g', Run (Received e) graphCreate skbs g ∧
        graphDeliverAt e skb nlmsgHdrlen = .ok d ∧ netlinkRecvCb .same g d = .ok g' := by
      rcases hcommand with hdeliver | hnone
      · exact exists_carriedOut hdeliver
      · exact ⟨_, graphCreate, _, _, .nil, graphDeliverAt_eq_other.mpr ⟨hnone, rfl⟩, rfl⟩
    obtain ⟨skbs, g, d, g', hrun, hd, hok⟩ := hreply
    have hsent := (netlinkRecvCbSkb_eq_ok hlen).mpr ⟨d, hd, hok, rfl⟩
    exact (reply_isPrefix_iff hlen).mp ((hkept skbs g hrun).reply .same _ _ hsent)
  · intro ⟨hcommand, hfits⟩ skbs g _
    refine ⟨fun hno next => ?_, fun next g' reply hok => ?_⟩
    · have hnone := hcommand.resolve_left hno
      exact ⟨_, (netlinkRecvCbSkb_eq_ok hlen).mpr
        ⟨_, graphDeliverAt_eq_other.mpr ⟨hnone, rfl⟩, rfl, rfl⟩⟩
    · obtain ⟨d, -, -, hreply⟩ := (netlinkRecvCbSkb_eq_ok hlen).mp hok
      cases hreply
      exact (reply_isPrefix_iff hlen).mpr hfits

/-- A message with the command `mode` for the id `"a"`, whose header says that it has `len`
    bytes. -/
def messageFor (len : List UInt8) (mode : UInt8) : Region where
  own := len ++ (List.replicate 12 0 ++ ([mode, 0] ++ (List.replicate 6 0 ++
    (0x61 :: List.replicate 55 0))))
  behind := []

/-- The deletion of a vertex, with its own length in its header. -/
theorem bounds_kept_delNode :
    nlmsgHdrlen ≤ (messageFor [80, 0, 0, 0] 1).own.length ∧
      ∀ skbs g, Run (Received .little) graphCreate skbs g →
        BoundsKept .little g (messageFor [80, 0, 0, 0] 1) :=
  ⟨by decide, (bounds_kept_iff .little (messageFor [80, 0, 0, 0] 1) (by decide)).mpr (by decide)⟩

/-- The first two bytes of a `graph_deliver` make a vertex, of the memory behind them, and a
    header that says 65551 gets 65535 bytes back. -/
theorem bounds_not_kept :
    (∃ skb : Region, skb.own.length = 18 ∧ ¬ BoundsKept .little graphCreate skb) ∧
      ∃ skb : Region, skb.own.length = 80 ∧ IsGraphDeliver .little skb ∧
        ¬ BoundsKept .little graphCreate skb := by
  constructor
  · refine ⟨⟨[18, 0, 0, 0] ++ List.replicate 12 0 ++ [2, 0], List.replicate 6 0 ++ [0x61]⟩,
      by decide, fun hkept => ?_⟩
    obtain ⟨reply, hok⟩ := hkept.unchanged (by decide) .same
    obtain ⟨d, hd, hsame, -⟩ := (netlinkRecvCbSkb_eq_ok (by decide)).mp hok
    obtain ⟨mode, rfl⟩ := other_of_unchanged hsame
    exact absurd (graphDeliverAt_eq_other.mp hd).1 (by decide)
  · refine ⟨messageFor [15, 0, 1, 0] 2, by decide, by decide, fun hkept => ?_⟩
    have hmode :
        graphDeliverMode .little (messageFor [15, 0, 1, 0] 2) nlmsgHdrlen = modeNewNode := by
      decide
    obtain ⟨geohash, hd⟩ := graphDeliverAt_newNode hmode (by decide)
    have hsent := hkept.reply .same _ _ ((netlinkRecvCbSkb_eq_ok (by decide)).mpr ⟨_, hd, rfl, rfl⟩)
    exact absurd ((reply_isPrefix_iff (by decide)).mp hsent) (by decide)

end MapRelay.Kernel
