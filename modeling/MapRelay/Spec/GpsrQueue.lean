import MapRelay.Spec.DeferredPackets
import MapRelay.Spec.GpsrPacket
import MapRelay.Spec.GpsrRoute

/-!
# The deferred packets of GPSR

`SendPacketFromQueue` of GPSR returns `false` only while the destination is searched for. Else it
takes all packets for it out of the queue, and each of them is sent on, reported as dropped, or
given back to its error callback. With the location service of the simulator, which never
searches, this is so half a second after a packet has come at the latest.
-/

namespace MapRelay.NS3.Gpsr

open ForStd
open GeoSvr (Callback Ipv4Header RoutingFault)
open Relation (ReflTransGen)

variable {K U E : Type}

/-- The packet of the entry carries a payload. -/
def IsCarrier (env : PacketEnv K) (e : QueuedPacket U E) : Prop :=
  ∃ payload, Carries env payload e.packet

/-- The output answers the entry: its error callback is called, or its packet is sent on or
    reported as dropped. -/
inductive Output.AnswersTo (env : PacketEnv K) : Output U E → QueuedPacket U E → Prop where
  | error (e : QueuedPacket U E) : AnswersTo env (.call (RequestQueue.drop e)) e
  | settles {e : QueuedPacket U E} {payload : List UInt8} {header : Ipv4Header}
      {out : Output U E} (hcarries : Carries env payload e.packet)
      (hheader : header.destination = e.destination)
      (hsettles : out.Settles env payload e.ucb e.destination header) : AnswersTo env out e

/-- What answers an entry is an answer. -/
theorem Output.AnswersTo.isAnswer {env : PacketEnv K} {out : Output U E} {e : QueuedPacket U E}
    (h : out.AnswersTo env e) : out.isAnswer = true := by
  cases h with
  | error => rfl
  | settles _ _ hsettles => exact hsettles.isAnswer

/-- No packet for `dst` is left, and those that have gone are answered. -/
structure Answered (env : PacketEnv K) (dst : UInt32) (q q' : RequestQueue U E)
    (outputs : List (Output U E)) : Prop where
  shrinks : q.Shrinks q'
  empties : ∀ e ∈ q'.queue, e.destination ≠ dst
  settled : Settled (Output.AnswersTo env) q.queue q'.queue (outputs.filter Output.isAnswer)

/-- All calls are answers. -/
theorem filter_isAnswer_calls (calls : List (Callback U E)) :
    (calls.map Output.call).filter Output.isAnswer = calls.map .call :=
  List.filter_eq_self.mpr fun out hout => by
    obtain ⟨c, -, rfl⟩ := List.mem_map.mp hout
    rfl

/-- A purge calls the error callback of each entry that it drops. -/
theorem settled_purge (env : PacketEnv K) (now : Int) (q : RequestQueue U E) :
    Settled (Output.AnswersTo env) q.queue (q.purge now).2.queue
      (((q.purge now).1.map Output.call).filter Output.isAnswer) := by
  rw [filter_isAnswer_calls]
  simp only [RequestQueue.purge, List.map_map]
  exact .filter _ _ _ .error

/-- So does the drop of the packets for a destination. -/
private theorem answered_dropPacketWithDst (env : PacketEnv K) (now : Int) (dst : UInt32)
    (q : RequestQueue U E) :
    Answered env dst q (q.dropPacketWithDst now dst).2
      ((q.dropPacketWithDst now dst).1.map .call) where
  shrinks := RequestQueue.shrinks_dropPacketWithDst now dst q
  empties _ he := RequestQueue.destination_of_mem_dropPacketWithDst he
  settled := by
    -- All live entries for `dst` are dropped
    have hdrop : Settled (Output.AnswersTo env) (q.purge now).2.queue
        (q.dropPacketWithDst now dst).2.queue
        (((q.purge now).2.queue.filter (RequestQueue.isEqual dst)).map
          (Output.call ∘ RequestQueue.drop)) := .filter _ _ _ .error
    simp only [RequestQueue.dropPacketWithDst, List.map_append, List.filter_append]
    -- First the expired ones are answered, then these
    apply (settled_purge env now q).trans
    rw [filter_isAnswer_calls, List.map_map]
    exact hdrop

/-- A round of one of the loops: the first packet for `dst` goes with its answer, and the other
    rounds follow. -/
theorem Answered.round {env : PacketEnv K} {now : Int} {dst : UInt32} {q q' : RequestQueue U E}
    {before after : List (QueuedPacket U E)} {e : QueuedPacket U E} {out : Output U E}
    {outputs rest : List (Output U E)} (hqueue : (q.purge now).2.queue = before ++ e :: after)
    (hout : outputs.filter Output.isAnswer = [out]) (hanswer : out.AnswersTo env e)
    (h : Answered env dst { q with queue := before ++ after } q' rest) :
    Answered env dst q q' ((q.purge now).1.map .call ++ (outputs ++ rest)) where
  shrinks := (RequestQueue.shrinks_take hqueue).trans h.shrinks
  empties := h.empties
  settled := by
    rw [List.filter_append, List.filter_append, hout]
    -- The expired entries, then `e`, then those of the later rounds
    apply (settled_purge env now q).trans
    apply Settled.trans _ h.settled
    apply Settled.of_perm _ hanswer
    rw [hqueue]
    exact List.perm_middle

/-- A round that has made no other output. -/
private theorem Answered.round_one {env : PacketEnv K} {now : Int} {dst : UInt32}
    {q q' : RequestQueue U E} {before after : List (QueuedPacket U E)} {e : QueuedPacket U E}
    {out : Output U E} {rest : List (Output U E)}
    (hqueue : (q.purge now).2.queue = before ++ e :: after) (hanswer : out.AnswersTo env e)
    (h : Answered env dst { q with queue := before ++ after } q' rest) :
    Answered env dst q q' ((q.purge now).1.map .call ++ out :: rest) :=
  Answered.round hqueue (List.filter_eq_self.mpr fun out' hout' => by
    rw [List.mem_singleton.mp hout']
    exact hanswer.isAnswer) hanswer h

/-- The last round, which finds no packet. -/
theorem Answered.done {env : PacketEnv K} {now : Int} {dst : UInt32} {q : RequestQueue U E}
    (hnone : ∀ e ∈ (q.purge now).2.queue, e.destination ≠ dst) :
    Answered env dst q (q.purge now).2 ((q.purge now).1.map .call) :=
  ⟨RequestQueue.shrinks_purge now q, hnone, settled_purge env now q⟩

/-! ## The headers of the packets -/

/-- The packets for `dst` that have not expired. -/
def queuedFor (now : Int) (dst : UInt32) (q : RequestQueue U E) : List (QueuedPacket U E) :=
  (q.purge now).2.queue.filter (RequestQueue.isEqual dst)

/-- When the first packet for `dst` is taken out, the others wait, and none of them expires. -/
private theorem queuedFor_take {now : Int} {dst : UInt32} {q : RequestQueue U E}
    {before after : List (QueuedPacket U E)} {e : QueuedPacket U E}
    (hqueue : (q.purge now).2.queue = before ++ e :: after) (hdst : e.destination = dst)
    (hbefore : ∀ b ∈ before, b.destination ≠ dst) :
    (({ q with queue := before ++ after } : RequestQueue U E).purge now).1 = [] ∧
      queuedFor now dst q = e :: queuedFor now dst { q with queue := before ++ after } := by
  -- What the purge has left stays when it is purged again
  have hlive : ∀ i ∈ before ++ after, RequestQueue.isExpired now i = false := by
    intro i hi
    have hmem : i ∈ (q.purge now).2.queue := by
      rw [hqueue]
      exact (List.mem_append.mp hi).elim (List.mem_append_left _) fun h =>
        List.mem_append_right _ (List.mem_cons_of_mem e h)
    simpa [RequestQueue.purge] using (List.mem_filter.mp hmem).2
  have hkept : (before ++ after).filter (!RequestQueue.isExpired now ·) = before ++ after :=
    List.filter_eq_self.mpr fun i hi => by rw [hlive i hi]; rfl
  -- The entries before `e` are for other destinations
  have hskip : before.filter (RequestQueue.isEqual dst) = [] :=
    List.filter_eq_nil_iff.mpr fun b hb heq => hbefore b hb (beq_iff_eq.mp heq)
  have htaken : RequestQueue.isEqual dst e = true := beq_iff_eq.mpr hdst
  constructor
  · simp only [RequestQueue.purge]
    rw [List.filter_eq_nil_iff.mpr fun i hi => by rw [hlive i hi]; exact Bool.false_ne_true]
    rfl
  · rw [queuedFor, hqueue, List.filter_append, hskip, List.filter_cons_of_pos htaken, queuedFor]
    simp only [RequestQueue.purge]
    rw [hkept, List.filter_append, hskip]
    rfl

/-- Where nothing for `dst` is left, the list is empty. -/
private theorem queuedFor_eq_nil {now : Int} {dst : UInt32} {q : RequestQueue U E}
    (hnone : ∀ e ∈ (q.purge now).2.queue, e.destination ≠ dst) : queuedFor now dst q = [] :=
  List.filter_eq_nil_iff.mpr fun e he heq => hnone e he (beq_iff_eq.mp heq)

/-- What `SendPacketFromQueue` decides by. -/
def queueEntry (env : PacketEnv K) (e : QueuedPacket U E) : QueueEntry K :=
  match openPacket env e.packet with
  | .ok o => ⟨o.tHeader.valid, o.hdr⟩
  | .error _ => ⟨false, none⟩

/-- The call by which the packet of the entry is sent to the next hop. -/
def sentTo (env : SendEnv K) (dst nextHop : UInt32) (e : QueuedPacket U E) : Output U E :=
  let header :=
    if e.header.source = unsetSource then { e.header with source := env.address } else e.header
  .call (.unicast e.ucb (routeVia dst header nextHop) e.packet header)

/-- What becomes of the packet of the entry in the recovery mode. -/
def recoveryOutputs (env : PacketEnv K) (dst : UInt32) (e : QueuedPacket U E)
    (call : RecoveryCall K) : List (Output U E) :=
  match openPacket env e.packet, call.hdr with
  | .ok o, some posHeader =>
    .recCount (o.close env posHeader) ::
      match call.recovered with
      | .invalid => []
      | .dropPkt hdr => [.dropPkt (o.close env hdr)]
      | .forward gateway hdr =>
        [.call (.unicast e.ucb (routeVia dst e.header gateway) (o.close env hdr) e.header)]
  | _, _ => []

/-- What the decision makes of the packets. -/
def Sent.outputs (env : SendEnv K) (dst : UInt32) (es : List (QueuedPacket U E)) :
    Sent K → List (Output U E)
  | .inSearch => []
  | .dropPackets => es.map fun e => .call (RequestQueue.drop e)
  | .forward nextHop _ => es.map (sentTo env dst nextHop)
  | .recovery calls => (List.zipWith (recoveryOutputs env.toPacketEnv dst) es calls).flatten

section Send

variable {env : SendEnv K} {now : Int} {dst : UInt32}

/-- A header that has been written is read again. -/
private theorem PositionHeader.received_eq (hmem : ∀ x, env.ofBits (env.toBits x) = x)
    (h : PositionHeader K) : h.received env.toPacketEnv = h := by
  simp only [PositionHeader.received, PacketEnv.received, hmem]

/-- Every packet for `dst` is sent to the next hop. -/
private theorem forwardLoop_eq (env : SendEnv K) (now : Int) (dst nextHop : UInt32) (n : Nat)
    (q : RequestQueue U E) (hn : q.queue.length < n) :
    ∃ q', forwardLoop env now dst nextHop n q = .ok (q', (q.purge now).1.map .call ++
      (queuedFor now dst q).map (sentTo env dst nextHop)) := by
  -- The queue is shorter after each round than the fuel
  induction n generalizing q with
  | zero => exact absurd hn (Nat.not_lt_zero _)
  | succ n ih =>
    rcases RequestQueue.dequeue_cases now dst q with
      ⟨hdeq, hnone⟩ | ⟨before, e, after, hqueue, hdst, hbefore, hdeq⟩
    -- Nothing is queued for `dst` any more, the loop ends
    · refine ⟨(q.purge now).2, ?_⟩
      rw [forwardLoop, hdeq, queuedFor_eq_nil hnone, List.map_nil, List.append_nil]
    -- The first entry for `dst` is sent, and the loop goes on without it
    · obtain ⟨-, hlen, -⟩ := RequestQueue.round_leaves (P := fun _ => True) hqueue hn
        fun _ _ => trivial
      obtain ⟨hnew, hqueued⟩ := queuedFor_take hqueue hdst hbefore
      obtain ⟨q', hrest⟩ := ih { q with queue := before ++ after } hlen
      rw [hnew] at hrest
      refine ⟨q', ?_⟩
      rw [forwardLoop, hdeq, hqueued]
      simp only [hrest, bind, Except.bind]
      rfl

/-- The loop with a next hop answers all packets for `dst`. -/
private theorem forwardLoop_answered (env : SendEnv K) (now : Int) (dst nextHop : UInt32) (n : Nat)
    (q : RequestQueue U E) (hn : q.queue.length < n)
    (hq : ∀ e ∈ q.queue, IsCarrier env.toPacketEnv e) :
    ∃ q' outputs, forwardLoop env now dst nextHop n q = .ok (q', outputs) ∧
      Answered env.toPacketEnv dst q q' outputs := by
  induction n generalizing q with
  | zero => exact absurd hn (Nat.not_lt_zero _)
  | succ n ih =>
    rcases RequestQueue.dequeue_cases now dst q with
      ⟨hdeq, hnone⟩ | ⟨before, e, after, hqueue, hdst, -, hdeq⟩
    · exact ⟨_, _, by rw [forwardLoop, hdeq], .done hnone⟩
    · obtain ⟨⟨payload, hcarries⟩, hlen, hleft⟩ := RequestQueue.round_leaves hqueue hn hq
      obtain ⟨q', rest, hrest, hanswered⟩ := ih { q with queue := before ++ after } hlen hleft
      refine ⟨q', _, by rw [forwardLoop, hdeq]; simp only [hrest, bind, Except.bind]; rfl, ?_⟩
      apply Answered.round_one hqueue _ hanswered
      -- The header has the destination that it had, whatever the source is set to
      subst hdst
      apply Output.AnswersTo.settles hcarries _ (.unicast hcarries)
      split
      · rfl
      · rfl

variable [Field K] [LinearOrder K]

/-- The loop in recovery mode answers all packets for `dst`. -/
private theorem recoverLoop_answered (n : Nat) (t : NeighborTable K) (vars : PositionHeader K)
    (q : RequestQueue U E) (hn : q.queue.length < n)
    (hq : ∀ e ∈ q.queue, IsCarrier env.toPacketEnv e) :
    ∃ t' q' outputs, recoverLoop env now dst n t vars q = .ok (true, t', q', outputs) ∧
      Answered env.toPacketEnv dst q q' outputs := by
  induction n generalizing q t vars with
  | zero => exact absurd hn (Nat.not_lt_zero _)
  | succ n ih =>
    rcases RequestQueue.dequeue_cases now dst q with
      ⟨hdeq, hnone⟩ | ⟨before, e, after, hqueue, hdst, -, hdeq⟩
    · exact ⟨t, _, _, by rw [recoverLoop, hdeq], .done hnone⟩
    · obtain ⟨⟨payload, hcarries⟩, hlen, hleft⟩ := RequestQueue.round_leaves hqueue hn hq
      obtain ⟨hdr, hopen⟩ := hcarries.open
      -- The packet goes to `RecoveryMode` with another header and the same payload
      have hclosed : Carries env.toPacketEnv payload (Opened.close env.toPacketEnv
          ⟨.new .pos, some hdr, payload⟩ { hdr with
            recPosx := (planar env.pos).x
            recPosy := (planar env.pos).y
            inRec := 1 }) := .close _ _ rfl
      obtain ⟨out, hrecovery, hsettles⟩ := recoveryModePacket_of_carries (E := E) hclosed now t
        env.pos dst e.ucb e.header
      obtain ⟨t', q', rest, hrest, hanswered⟩ := ih (t.purge env.toGpsrEnv now) hdr
        { q with queue := before ++ after } hlen hleft
      have hcount : [Output.recCount (Opened.close env.toPacketEnv
          ⟨.new .pos, some hdr, payload⟩ { hdr with
            recPosx := (planar env.pos).x
            recPosy := (planar env.pos).y
            inRec := 1 }), out].filter Output.isAnswer = [out] := by
        rw [List.filter_cons_of_neg (by simp [Output.isAnswer]),
          List.filter_cons_of_pos hsettles.isAnswer]
        rfl
      have hanswer : out.AnswersTo env.toPacketEnv e :=
        .settles hcarries rfl (by rw [hdst]; exact hsettles)
      refine ⟨t', q', _, ?_, Answered.round hqueue hcount hanswer hanswered⟩
      rw [recoverLoop, hdeq]
      simp only [hopen, TypeHeader.new, bind, Except.bind, Bool.true_eq_false, if_false,
        Option.getD_some] at hrecovery ⊢
      simp only [hrecovery, hrest]
      rfl

/-- A packet goes on from `RecoveryMode` as its header does. -/
private theorem recoveryModePacket_eq_outputs (hmem : ∀ x, env.ofBits (env.toBits x) = x)
    {e : QueuedPacket U E} {hdr : PositionHeader K} {payload : List UInt8}
    (hopen : openPacket env.toPacketEnv e.packet = .ok ⟨.new .pos, some hdr, payload⟩)
    (now : Int) (dst : UInt32) (t : NeighborTable K) (entry : QueueEntry K)
    (posHeader : PositionHeader K) :
    recoveryModePacket env.toPacketEnv now t env.pos dst
        (Opened.close env.toPacketEnv ⟨.new .pos, some hdr, payload⟩ posHeader) e.ucb e.header =
      .ok (recoveryOutputs env.toPacketEnv dst e ⟨entry, some posHeader,
        recoveryMode env.toRecoveryEnv now t env.pos true (some posHeader)⟩) := by
  -- The header that was put on is read back
  rw [recoveryModePacket, openPacket_close _ _ _ rfl, posHeader.received_eq hmem]
  simp only [recoveryOutputs, hopen, bind, Except.bind, TypeHeader.new]
  cases recoveryMode env.toRecoveryEnv now t env.pos true (some posHeader) with
  | invalid => rfl
  | dropPkt hdr => rfl
  | forward gateway hdr => rfl

/-- Every packet for `dst` is taken into the recovery mode as its header says. -/
private theorem recoverLoop_eq (hmem : ∀ x, env.ofBits (env.toBits x) = x) (now : Int)
    (dst : UInt32) (n : Nat) (t : NeighborTable K) (vars : PositionHeader K) (q : RequestQueue U E)
    (hn : q.queue.length < n) (hq : ∀ e ∈ q.queue, IsCarrier env.toPacketEnv e) :
    ∃ t' q', recoverLoop env now dst n t vars q = .ok (true, t', q', (q.purge now).1.map .call ++
      (List.zipWith (recoveryOutputs env.toPacketEnv dst) (queuedFor now dst q)
        (recoverQueue env.toRecoveryEnv now env.pos t vars
          ((queuedFor now dst q).map (queueEntry env.toPacketEnv)))).flatten) := by
  -- The queue is shorter after each round than the fuel
  induction n generalizing q t vars with
  | zero => exact absurd hn (Nat.not_lt_zero _)
  | succ n ih =>
    rcases RequestQueue.dequeue_cases now dst q with
      ⟨hdeq, hnone⟩ | ⟨before, e, after, hqueue, hdst, hbefore, hdeq⟩
    -- Nothing is queued for `dst` any more, the loop ends
    · refine ⟨t, (q.purge now).2, ?_⟩
      rw [recoverLoop, hdeq, queuedFor_eq_nil hnone]
      simp
    · obtain ⟨⟨payload, hcarries⟩, hlen, hleft⟩ := RequestQueue.round_leaves hqueue hn hq
      obtain ⟨hdr, hopen⟩ := hcarries.open
      obtain ⟨hnew, hqueued⟩ := queuedFor_take hqueue hdst hbefore
      obtain ⟨t', q', hrest⟩ := ih (t.purge env.toGpsrEnv now) hdr
        { q with queue := before ++ after } hlen hleft
      rw [hnew] at hrest
      -- The header of the entry is what the model of the recovery mode keeps of it
      have hentry : queueEntry env.toPacketEnv e = ⟨true, some hdr⟩ := by
        rw [queueEntry, hopen]
        rfl
      -- The recovery mode starts at the own position
      have hrecovery := recoveryModePacket_eq_outputs hmem hopen now dst t
        ⟨true, some hdr⟩ { hdr with
          recPosx := (planar env.pos).x
          recPosy := (planar env.pos).y
          inRec := 1 }
      refine ⟨t', q', ?_⟩
      rw [recoverLoop, hdeq, hqueued, List.map_cons, hentry, recoverQueue]
      simp only [hopen, TypeHeader.new, bind, Except.bind, Bool.true_eq_false, if_false,
        Option.getD_some, Option.map_some] at hrecovery ⊢
      simp only [hrecovery, hrest]
      rfl

/-- What `SendPacketFromQueue` decides by the headers of the packets is what it does with the
    packets, if a number that is moved to a word and back is the same. -/
theorem sendPackets_eq_outputs (hmem : ∀ x, env.ofBits (env.toBits x) = x)
    (t : NeighborTable K) {q : RequestQueue U E}
    (hq : ∀ e ∈ q.queue, IsCarrier env.toPacketEnv e) :
    let sent := sendPacketFromQueue env.toRecoveryEnv now t env.locationService
      (env.hasPosition dst) env.pos ((queuedFor now dst q).map (queueEntry env.toPacketEnv)) dst
    (sent = .inSearch ∧ sendPackets env now dst t q = .ok (false, t, q, [])) ∨
      (sent ≠ .inSearch ∧ ∃ t' q', sendPackets env now dst t q = .ok (true, t', q',
        (q.purge now).1.map .call ++ sent.outputs env dst (queuedFor now dst q))) := by
  intro sent
  have hsent : sent = sendPacketFromQueue env.toRecoveryEnv now t env.locationService
    (env.hasPosition dst) env.pos ((queuedFor now dst q).map (queueEntry env.toPacketEnv)) dst :=
      rfl
  rw [sendPacketFromQueue] at hsent
  rw [sendPackets]
  cases hsearch : env.locationService.isInSearch dst with
  | true =>
    rw [hsearch, if_pos rfl] at hsent
    exact .inl ⟨hsent, rfl⟩
  | false =>
    rw [hsearch, if_neg Bool.false_ne_true] at hsent
    rw [if_neg Bool.false_ne_true]
    right
    cases hpos : env.hasPosition dst with
    | false =>
      rw [hpos, if_pos rfl] at hsent
      rw [hsent, if_pos rfl]
      refine ⟨by simp, t, (q.dropPacketWithDst now dst).2, ?_⟩
      simp [RequestQueue.dropPacketWithDst, Sent.outputs, queuedFor]
    | true =>
      simp only [hpos, Bool.true_eq_false, if_false] at hsent ⊢
      generalize t.isNeighbour env.toGpsrEnv now dst = found at hsent ⊢
      obtain ⟨direct, t₁⟩ := found
      have hforward (nextHop : UInt32) :=
        forwardLoop_eq env now dst nextHop (q.queue.length + 1) q (Nat.lt_succ_self _)
      cases direct with
      | true =>
        -- The destination is a neighbour
        obtain ⟨q', hloop⟩ := hforward dst
        simp only [if_true] at hsent ⊢
        refine ⟨by rw [hsent]; simp, t₁, q', ?_⟩
        rw [hsent, if_neg (by simp)]
        simp only [hloop, bind, Except.bind]
        rfl
      | false =>
        dsimp only at hsent ⊢
        simp only [Bool.false_eq_true, if_false, true_and] at hsent ⊢
        generalize t₁.bestNeighbor env.toRecoveryEnv now (env.locationService.getPosition dst)
          (planar env.pos) = hop at hsent ⊢
        obtain ⟨nextHop, t₂⟩ := hop
        dsimp only at hsent ⊢
        by_cases hzero : nextHop = 0
        · rw [if_pos hzero] at hsent ⊢
          obtain ⟨t', q', hloop⟩ :=
            recoverLoop_eq hmem now dst (q.queue.length + 1) t₂ .default q (Nat.lt_succ_self _) hq
          refine ⟨by rw [hsent]; simp, t', q', ?_⟩
          rw [hsent]
          exact hloop
        · rw [if_neg hzero] at hsent ⊢
          obtain ⟨q', hloop⟩ := hforward nextHop
          refine ⟨by rw [hsent]; simp, t₂, q', ?_⟩
          rw [hsent]
          simp only [hloop, bind, Except.bind]
          rfl

/-- `SendPacketFromQueue` does nothing while the destination is searched for, and else it answers
    every packet for it. -/
theorem sendPackets_cases (env : SendEnv K) (now : Int) (dst : UInt32) (t : NeighborTable K)
    {q : RequestQueue U E} (hq : ∀ e ∈ q.queue, IsCarrier env.toPacketEnv e) :
    (env.locationService.isInSearch dst = true ∧
        sendPackets env now dst t q = .ok (false, t, q, [])) ∨
      ∃ t' q' outputs, sendPackets env now dst t q = .ok (true, t', q', outputs) ∧
        Answered env.toPacketEnv dst q q' outputs := by
  cases hsearch : env.locationService.isInSearch dst with
  | true => exact .inl ⟨rfl, by rw [sendPackets, if_pos hsearch]⟩
  | false =>
    right
    simp only [sendPackets, hsearch, Bool.false_eq_true, if_false]
    split
    · exact ⟨_, _, _, rfl, answered_dropPacketWithDst env.toPacketEnv now dst q⟩
    -- Whatever the next hop is, one of the loops runs
    generalize t.isNeighbour env.toGpsrEnv now dst = found
    obtain ⟨direct, t₁⟩ := found
    dsimp only
    generalize (if direct = true then (dst, t₁) else t₁.bestNeighbor env.toRecoveryEnv now
      (env.locationService.getPosition dst) (planar env.pos)) = hop
    obtain ⟨nextHop, t₂⟩ := hop
    dsimp only
    split
    · exact recoverLoop_answered _ _ _ q (Nat.lt_succ_self _) hq
    · obtain ⟨q', outputs, hloop, hanswered⟩ :=
        forwardLoop_answered env now dst nextHop (q.queue.length + 1) q (Nat.lt_succ_self _) hq
      refine ⟨t₂, q', outputs, ?_, hanswered⟩
      simp only [hloop, bind, Except.bind]
      rfl

/-- `SendPacketFromQueue` takes packets for `dst` only, and all of them unless it is held. -/
theorem sendPackets_sound (env : SendEnv K) (now : Int) (held : UInt32 → Prop)
    (hheld : ∀ dst, env.locationService.isInSearch dst = true → held dst) :
    (sendPackets env now : SendPacket U E RoutingFault (NeighborTable K) (Output U E)).Sound
      (IsCarrier env.toPacketEnv) held where
  shrinks {dst t q done t' q' calls} hq h := by
    -- A search in progress leaves the queue as it is, anything else answers it
    rcases sendPackets_cases env now dst t hq with ⟨-, hok⟩ | ⟨t₁, q₁, outputs, hok, hanswered⟩
    · rw [hok] at h
      cases h
      exact .refl q
    · rw [hok] at h
      cases h
      exact hanswered.shrinks
  empties {dst t q t' q' calls} hq h := by
    rcases sendPackets_cases env now dst t hq with ⟨-, hok⟩ | ⟨t₁, q₁, outputs, hok, hanswered⟩
    · rw [hok] at h
      cases h
    · rw [hok] at h
      cases h
      exact hanswered.empties
  held {dst t q t' q' calls} hq h := by
    -- Only a search in progress keeps the entries back
    rcases sendPackets_cases env now dst t hq with ⟨hsearch, -⟩ | ⟨t₁, q₁, outputs, hok, -⟩
    · exact hheld dst hsearch
    · rw [hok] at h
      cases h

/-- What `SendPacketFromQueue` takes out is answered. -/
theorem sendPackets_settled {env : SendEnv K} {now : Int} {dst : UInt32}
    {t t' : NeighborTable K} {q q' : RequestQueue U E} {done : Bool} {outputs : List (Output U E)}
    (hq : ∀ e ∈ q.queue, IsCarrier env.toPacketEnv e)
    (h : sendPackets env now dst t q = .ok (done, t', q', outputs)) :
    Settled (Output.AnswersTo env.toPacketEnv) q.queue q'.queue
      (outputs.filter Output.isAnswer) := by
  rcases sendPackets_cases env now dst t hq with ⟨-, hok⟩ | ⟨t₁, q₁, outputs₁, hok, hanswered⟩
  · rw [hok] at h
    cases h
    exact .refl _
  · rw [hok] at h
    cases h
    exact hanswered.settled

/-- `CheckQueue` comes to its end if all packets carry a payload. -/
theorem checkQueue_sendPackets_ok (env : SendEnv K) (now : Int) (t : NeighborTable K)
    {s : DeferredPackets U E} (hs : ∀ e ∈ s.queue.queue, IsCarrier env.toPacketEnv e) :
    ∃ r, checkQueue (sendPackets env now) now t s = .ok r := by
  apply checkQueue_ok (sendPackets_sound env now (fun _ => True) fun _ _ => trivial) _ now t hs
  intro dst t q hq
  rcases sendPackets_cases env now dst t hq with ⟨-, hok⟩ | ⟨t', q', outputs, hok, -⟩
  · exact ⟨_, hok⟩
  · exact ⟨_, hok⟩

end Send

/-! ## A node over time -/

section Node

variable [Field K] [LinearOrder K]

/-- The calls of `SendPacketFromQueue` at a node: the location service may have any table and
    position, and searches only for destinations that are held. -/
def Sends (env : PacketEnv K) (held : UInt32 → Prop) (now : Int)
    (send : SendPacket U E RoutingFault (NeighborTable K) (Output U E)) : Prop :=
  ∃ senv : SendEnv K, senv.toPacketEnv = env ∧
    (∀ dst, senv.locationService.isInSearch dst = true → held dst) ∧ send = sendPackets senv now

/-- Let a node defer packets with headers, at any times, and check its queue whenever the timer
    runs out. Then it can go on with both at any time. A packet in its queue waits under an
    address that is checked, and the timer runs out within half a second. If its destination is
    never searched for, that is within half a second of its coming, and it cannot expire
    before. -/
theorem deferred_attended (env : PacketEnv K) (held : UInt32 → Prop) (start : Int)
    {s : Deferring U E}
    (hrun : ReflTransGen (DeferringStep (IsCarrier env) (Sends env held)) ⟨start, .new⟩ s) :
    (∀ now entry, ∃ r, deferredRouteOutput now entry s.packets = some r) ∧
      (∀ (senv : SendEnv K) now t, senv.toPacketEnv = env →
        ∃ r, checkQueue (sendPackets senv now) now t s.packets = .ok r) ∧
      ∀ e ∈ s.packets.queue.queue, e.destination ∈ s.packets.queuedAddresses ∧
        ∃ t, s.packets.checkQueueTimer = some t ∧ s.now ≤ t ∧ t ≤ s.now + checkInterval ∧
          (¬ held e.destination → t ≤ e.born + checkInterval ∧
            ∀ now ≤ t, RequestQueue.isExpired now e = false) := by
  -- The invariant of the run, with what SendPacketFromQueue guarantees in each round
  have hkept : s.Kept (IsCarrier env) held := by
    refine (Deferring.Kept.new start).run (fun e _ _ he => he) ?_ hrun
    rintro now send ⟨senv, rfl, hheld, rfl⟩
    exact sendPackets_sound senv now held hheld
  refine ⟨deferredRouteOutput_ok hkept.bounded, ?_, fun e he => hkept.attended_of_mem he⟩
  rintro senv now t rfl
  exact checkQueue_sendPackets_ok senv now t hkept.entries

end Node

/-- A number in the other byte order has 4 bytes as well. -/
theorem width_reversed : networkU32.reversed.width = 4 := rfl

/-- An environment with coordinates that are natural numbers. -/
def wireEnv : PacketEnv ℚ where
  toRecoveryEnv := voidEnv
  buffer := .network
  u32 := networkU32.reversed
  width_u32 := width_reversed
  toBits x := UInt64.ofNat x.num.toNat
  ofBits w := w.toNat

/-- A packet for node 9 that waits. -/
def waitingEntry : QueuedPacket Unit Unit :=
  ⟨⟨Opened.close wireEnv ⟨.new .pos, none, [7]⟩ .default, ⟨5, 9⟩, (), (), 0⟩, 1⟩

/-- The node that has deferred it at time 5. -/
def waitingNode : Deferring Unit Unit :=
  ⟨5, ⟨⟨[waitingEntry.setExpireTime 5 maxQueueTime], maxQueueLen, maxQueueTime⟩, [9],
    some (5 + checkInterval)⟩⟩

/-- The node with a waiting packet, which is attended to. -/
theorem deferred_attended_waiting :
    (∀ now entry, ∃ r, deferredRouteOutput now entry waitingNode.packets = some r) ∧
      (∀ (senv : SendEnv ℚ) now t, senv.toPacketEnv = wireEnv →
        ∃ r, checkQueue (sendPackets senv now) now t waitingNode.packets = .ok r) ∧
      ∀ e ∈ waitingNode.packets.queue.queue,
        e.destination ∈ waitingNode.packets.queuedAddresses ∧
        ∃ t, waitingNode.packets.checkQueueTimer = some t ∧ waitingNode.now ≤ t ∧
          t ≤ waitingNode.now + checkInterval ∧
          (¬ False → t ≤ e.born + checkInterval ∧
            ∀ now ≤ t, RequestQueue.isExpired now e = false) := by
  -- The first packet starts the timer
  have hdefer : deferredRouteOutput 5 waitingEntry .new = some ([], waitingNode.packets) := rfl
  have hfirst : DeferringStep (IsCarrier wireEnv) (Sends wireEnv fun _ => False)
      ⟨0, .new⟩ waitingNode :=
    .deferredRouteOutput (by decide) (by simp [DeferredPackets.new]) ⟨[7], _, rfl⟩ hdefer
  exact deferred_attended wireEnv (fun _ => False) 0 (.single hfirst)

end MapRelay.NS3.Gpsr
