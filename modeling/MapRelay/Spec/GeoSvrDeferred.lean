import MapRelay.Spec.DeferredOrder
import MapRelay.Spec.GeoSvrRoute

/-!
# The deferred packets of GeoSVR

A packet that `RouteOutput` defers has no path tag, so that `AddHeaders` gives it a header without
a path. `Forwarding` can send it to its destination if that is a neighbour by then, and nowhere
else: the map is not asked again. So when `CheckQueue` comes to a destination, all packets for it
are sent if it is a neighbour, and otherwise the first of them is lost.
-/

namespace MapRelay.NS3.GeoSvr

open ForStd
open Relation (ReflTransGen)

variable {K U E : Type}

/-- The packet of the entry has a header without a path. -/
def IsPathless (i : Buffer) (e : QueuedPacket U E) : Prop :=
  ∃ payload, Carries i [] payload e.packet

/-- The call sends the packet of the entry to its destination, without a path and with the same
    payload, or gives it back. -/
inductive AnswersDirectly (i : Buffer) : Callback U E → QueuedPacket U E → Prop where
  | unicast {e : QueuedPacket U E} {payload p : List UInt8}
      (hcarries : Carries i [] payload e.packet) (hsent : Carries i [] payload p) :
      AnswersDirectly i (.unicast e.ucb (routeVia e.header e.destination) p e.header) e
  | error (e : QueuedPacket U E) : AnswersDirectly i (NS3.RequestQueue.drop e) e

/-- A purge calls the error callback of each entry that it drops. -/
theorem settled_purge (i : Buffer) (now : Int) (q : RequestQueue U E) :
    Settled (AnswersDirectly i) q.queue (q.purge now).2.queue (q.purge now).1 :=
  .filter _ _ _ .error

/-- The drop of the packets for a destination calls the error callback of each. -/
private theorem settled_dropPacketWithDst (i : Buffer) (now : Int) (dst : UInt32)
    (q : RequestQueue U E) :
    Settled (AnswersDirectly i) q.queue (q.dropPacketWithDst now dst).2.queue
      (q.dropPacketWithDst now dst).1 :=
  (settled_purge i now q).trans (.filter _ _ _ .error)

variable [Field K] [LinearOrder K] {env : RoutingEnv K} {fuel : Nat} {now : Int}
  {map : MsvrMap K} {dst : UInt32} {t t' : Neighbors K}

/-- Without a path only the neighbours count. -/
private theorem forwarding_of_pathless {payload packet : List UInt8}
    (h : Carries env.buffer [] payload packet) (fuel : Nat) (now : Int) (map : MsvrMap K)
    (t : Neighbors K) (header : Ipv4Header) (ucb : U) :
    ∃ p, Carries env.buffer [] payload p ∧
      forwarding (E := E) env fuel now map t packet header ucb = .ok
        (if (t.isNeighbor now header.destination).1 then
          (true, t.settle now, [.unicast ucb (routeVia header header.destination) p header])
        else (false, t.settle now, [])) := by
  obtain ⟨mem, hdr, hholds, hopen⟩ := openPacket_of_carries h
  obtain ⟨p, hclose, hcarries⟩ := close_of_holds env env.position hholds payload
  refine ⟨p, hcarries, ?_⟩
  cases hnear : (t.isNeighbor now header.destination).1 with
  | true =>
    simp only [forwarding, hopen, Neighbors.isNeighbor_of_fst hnear, hclose, bind, Except.bind]
    rfl
  | false =>
    -- A path with less than two nodes has no next one
    obtain ⟨found, hdecode⟩ := hholds.decodePath
    simp only [forwarding, hopen, Neighbors.isNeighbor_of_fst hnear, chooseHop, hdecode, onHeap,
      List.map_nil, trimPath, bind, Except.bind, Bool.false_eq_true, if_false]
    rfl

/-! ## `SendPacketFromQueue` -/

/-- What becomes of the queue when it is checked for a destination. If not all packets for it are
    gone, the first of them is. -/
structure Checked (i : Buffer) (dst : UInt32) (q q' : RequestQueue U E) (done : Bool)
    (calls : List (Callback U E)) : Prop where
  shrinks : q.Shrinks q'
  empties : done = true → ∀ e ∈ q'.queue, e.destination ≠ dst
  advances : q'.queue.Sublist (q.queue.eraseP (NS3.RequestQueue.isEqual dst))
  settled : SettledBut (AnswersDirectly i) q.queue q'.queue calls

/-- What is left without a packet for `dst` has been left without the first one. -/
private theorem sublist_eraseP {q q' : RequestQueue U E} (h : q.Shrinks q')
    (hnone : ∀ e ∈ q'.queue, e.destination ≠ dst) :
    q'.queue.Sublist (q.queue.eraseP (NS3.RequestQueue.isEqual dst)) := by
  have hkept : q'.queue.eraseP (NS3.RequestQueue.isEqual dst) = q'.queue :=
    List.eraseP_of_forall_not fun e he heq => hnone e he (beq_iff_eq.mp heq)
  rw [← hkept]
  exact h.sublist.eraseP

/-- The first packet for `dst` after `Purge` is taken out. -/
private theorem sublist_eraseP_take {q : RequestQueue U E} {before after : List (QueuedPacket U E)}
    {e : QueuedPacket U E} (hqueue : (q.purge now).2.queue = before ++ e :: after)
    (hdst : e.destination = dst) (hbefore : ∀ b ∈ before, b.destination ≠ dst) :
    (before ++ after).Sublist (q.queue.eraseP (NS3.RequestQueue.isEqual dst)) := by
  have htake : (before ++ e :: after).eraseP (NS3.RequestQueue.isEqual dst) =
      before ++ after := by
    have hskip : ∀ b ∈ before, ¬ NS3.RequestQueue.isEqual dst b = true := fun b hb heq =>
      hbefore b hb (beq_iff_eq.mp heq)
    have htaken : NS3.RequestQueue.isEqual dst e = true := beq_iff_eq.mpr hdst
    rw [List.eraseP_append_right _ hskip, List.eraseP_cons_of_pos htaken]
  rw [← htake, ← hqueue]
  exact (RequestQueue.shrinks_purge now q).sublist.eraseP

/-- The loop over packets without a path comes to its end, and all it takes is answered. -/
private theorem sendQueued_checked (n : Nat) (t : Neighbors K) (q : RequestQueue U E)
    (hn : q.queue.length < n) (hq : ∀ e ∈ q.queue, IsPathless env.buffer e) :
    ∃ done t' q' calls, sendQueued env fuel now map dst n t q = .ok (done, t', q', calls) ∧
      Checked env.buffer dst q q' done calls := by
  induction n generalizing q t with
  | zero => exact absurd hn (Nat.not_lt_zero _)
  | succ n ih =>
    have hpurge := settled_purge env.buffer now q
    rcases RequestQueue.dequeue_cases now dst q with
      ⟨hdeq, hnone⟩ | ⟨before, e, after, hqueue, hdst, hbefore, hdeq⟩
    · refine ⟨true, t, _, _, by rw [sendQueued, hdeq], RequestQueue.shrinks_purge now q,
        fun _ => hnone, ?_, hpurge.but⟩
      exact sublist_eraseP (RequestQueue.shrinks_purge now q) hnone
    · obtain ⟨⟨payload, hcarries⟩, hlen, hleft⟩ := RequestQueue.round_leaves hqueue hn hq
      obtain ⟨p, hsent, hforward⟩ := forwarding_of_pathless (E := E) hcarries fuel now map t
        e.header e.ucb
      have htake := RequestQueue.shrinks_take hqueue
      have herase := sublist_eraseP_take hqueue hdst hbefore
      have hperm : (q.purge now).2.queue.Perm (e :: (before ++ after)) := by
        rw [hqueue]
        exact List.perm_middle
      cases hnear : (t.isNeighbor now e.header.destination).1 with
      | true =>
        -- The packet is sent, and the next round follows
        rw [hnear, if_pos rfl] at hforward
        obtain ⟨done, t', q', rest, hrest, hchecked⟩ := ih (t.settle now)
          { q with queue := before ++ after } hlen hleft
        refine ⟨done, t', q', (q.purge now).1 ++
          ([.unicast e.ucb (routeVia e.header e.destination) p e.header] ++ rest), ?_,
          htake.trans hchecked.shrinks, hchecked.empties, ?_, ?_⟩
        · rw [sendQueued, hdeq]
          simp only [hforward, hrest, bind, Except.bind, Bool.true_eq_false, if_false]
          rfl
        · exact (hchecked.shrinks.sublist).trans herase
        · have hanswer : Settled (AnswersDirectly env.buffer) (q.purge now).2.queue
              (before ++ after) [.unicast e.ucb (routeVia e.header e.destination) p e.header] :=
            .of_perm hperm (.unicast hcarries hsent)
          exact hpurge.but.trans (hanswer.but.trans hchecked.settled)
      | false =>
        -- The packet is gone without a call
        rw [hnear, if_neg Bool.false_ne_true] at hforward
        refine ⟨false, t.settle now, _, (q.purge now).1 ++ [], ?_, htake, by simp, herase, ?_⟩
        · rw [sendQueued, hdeq]
          simp only [hforward, bind, Except.bind, if_true]
          rfl
        · exact hpurge.but.trans (.of_perm hperm)

/-- `SendPacketFromQueue` does nothing while the destination is searched for, and else it gets on
    with the packets for it. -/
theorem sendPackets_cases (env : RoutingEnv K) (fuel : Nat) (now : Int) (map : MsvrMap K)
    (dst : UInt32) (t : Neighbors K) {q : RequestQueue U E}
    (hq : ∀ e ∈ q.queue, IsPathless env.buffer e) :
    (env.isInSearch dst = true ∧ sendPackets env fuel now map dst t q = .ok (false, t, q, [])) ∨
      ∃ done t' q' calls, sendPackets env fuel now map dst t q = .ok (done, t', q', calls) ∧
        Checked env.buffer dst q q' done calls := by
  cases hsearch : env.isInSearch dst with
  | true => exact .inl ⟨rfl, by rw [sendPackets, if_pos hsearch]⟩
  | false =>
    right
    simp only [sendPackets, hsearch, Bool.false_eq_true, if_false]
    -- Without a position for `dst` its packets are dropped
    split
    · have hnone : ∀ e ∈ (q.dropPacketWithDst now dst).2.queue, e.destination ≠ dst :=
        fun _ he => RequestQueue.destination_of_mem_dropPacketWithDst he
      have hshrinks := RequestQueue.shrinks_dropPacketWithDst now dst q
      exact ⟨true, t, _, _, rfl, hshrinks, fun _ => hnone, sublist_eraseP hshrinks hnone,
        (settled_dropPacketWithDst env.buffer now dst q).but⟩
    · exact sendQueued_checked _ t q (Nat.lt_succ_self _) hq

/-- `SendPacketFromQueue` does nothing during a search, and else answers what it takes. -/
private theorem sendPackets_checked {done : Bool} {q q' : RequestQueue U E}
    {calls : List (Callback U E)} (hq : ∀ e ∈ q.queue, IsPathless env.buffer e)
    (h : sendPackets env fuel now map dst t q = .ok (done, t', q', calls)) :
    env.isInSearch dst = true ∧ done = false ∧ q' = q ∧ calls = [] ∨
      Checked env.buffer dst q q' done calls := by
  rcases sendPackets_cases env fuel now map dst t hq with
    ⟨hsearch, hok⟩ | ⟨done₁, t₁, q₁, calls₁, hok, hchecked⟩
  · cases hok.symm.trans h
    exact .inl ⟨hsearch, rfl, rfl, rfl⟩
  · cases hok.symm.trans h
    exact .inr hchecked

/-- It takes packets for `dst` only. -/
theorem sendPackets_sound (env : RoutingEnv K) (fuel : Nat) (now : Int) (map : MsvrMap K) :
    (sendPackets env fuel now map :
      SendPacket U E RoutingFault (Neighbors K) (Callback U E)).Sound
        (IsPathless env.buffer) fun _ => True where
  shrinks hq h := by
    rcases sendPackets_checked hq h with ⟨-, -, rfl, -⟩ | hchecked
    · exact .refl _
    · exact hchecked.shrinks
  empties hq h := by
    rcases sendPackets_checked hq h with ⟨-, hdone, -⟩ | hchecked
    · cases hdone
    · exact hchecked.empties rfl
  held _ _ := trivial

/-- Unless the destination is searched for, it takes a packet for `dst` if there is one. -/
private theorem sendPackets_advances (env : RoutingEnv K) (fuel : Nat) (now : Int) (map : MsvrMap K)
    {searched : UInt32 → Prop} (hsearched : ∀ dst, env.isInSearch dst = true → searched dst) :
    (sendPackets env fuel now map :
      SendPacket U E RoutingFault (Neighbors K) (Callback U E)).Advances
        (IsPathless env.buffer) searched := by
  intro dst t q done t' q' calls hq h hfree
  rcases sendPackets_checked hq h with ⟨hsearch, -⟩ | hchecked
  · exact absurd (hsearched dst hsearch) hfree
  · exact hchecked.advances

/-- `CheckQueue` succeeds, and what it takes out of the queue it sends to its destination, gives
    back or loses. -/
theorem checkQueue_sendPackets_ok (env : RoutingEnv K) (fuel : Nat) (now : Int)
    (map : MsvrMap K) (t : Neighbors K) {s : DeferredPackets U E}
    (hs : ∀ e ∈ s.queue.queue, IsPathless env.buffer e) :
    ∃ calls t' s', checkQueue (sendPackets env fuel now map) now t s = .ok (calls, t', s') ∧
      s.queue.Shrinks s'.queue ∧
        SettledBut (AnswersDirectly env.buffer) s.queue.queue s'.queue.queue calls := by
  -- The rounds do not fault, and what each of them keeps the whole of `CheckQueue` keeps
  have hsound := sendPackets_sound (U := U) (E := E) env fuel now map
  have hok : ∃ r, checkQueue (sendPackets env fuel now map) now t s = .ok r := by
    apply checkQueue_ok hsound _ now t hs
    intro dst t q hq
    rcases sendPackets_cases env fuel now map dst t hq with
      ⟨-, hok⟩ | ⟨done, t', q', calls, hok, -⟩
    · exact ⟨_, hok⟩
    · exact ⟨_, hok⟩
  -- From here on about the result
  obtain ⟨⟨calls, t', s'⟩, hr⟩ := hok
  refine ⟨calls, t', s', hr, checkQueue_shrinks hsound hs hr, ?_⟩
  apply checkQueue_induct (fun q q' calls =>
    SettledBut (AnswersDirectly env.buffer) q.queue q'.queue calls) hsound _ _ _ hs hr
  · exact fun q => (Settled.refl _).but
  · exact fun hfirst hrest => hfirst.trans hrest
  · intro dst t q done t' q' calls hq h
    rcases sendPackets_checked hq h with ⟨-, -, rfl, rfl⟩ | hchecked
    · exact (Settled.refl _).but
    · exact hchecked.settled

/-! ## Without the numbers of the packets -/

/-- The queue without the numbers of its packets. -/
def queueEntries (q : RequestQueue U E) : List (QueueEntry U E) :=
  q.queue.map QueuedPacket.toQueueEntry

/-- The numbers do not decide what expires. -/
private theorem purge_entries (now : Int) (q : RequestQueue U E) :
    RequestQueue.purge now (queueEntries q) = ((q.purge now).1, queueEntries (q.purge now).2) := by
  simp only [RequestQueue.purge, NS3.RequestQueue.purge, queueEntries, List.filter_map,
    List.map_map]
  rfl

/-- The drop of the packets for a destination, in both models of the queue. -/
private theorem dropPacketWithDst_entries (now : Int) (dst : UInt32) (q : RequestQueue U E) :
    RequestQueue.dropPacketWithDst now dst (queueEntries q) =
      ((q.dropPacketWithDst now dst).1, queueEntries (q.dropPacketWithDst now dst).2) := by
  rw [RequestQueue.dropPacketWithDst, purge_entries]
  simp only [NS3.RequestQueue.dropPacketWithDst, queueEntries, List.filter_map, List.map_map]
  rfl

/-- Nor what is taken out. -/
private theorem dequeue_entries (now : Int) (dst : UInt32) (q : RequestQueue U E) :
    RequestQueue.dequeue now dst (queueEntries q) =
      ((q.dequeue now dst).1, (q.dequeue now dst).2.1.map QueuedPacket.toQueueEntry,
        queueEntries (q.dequeue now dst).2.2) := by
  -- The purged queue is searched for the same destination in both
  have hfind : (queueEntries (q.purge now).2).find? (RequestQueue.isEqual dst) =
      ((q.purge now).2.queue.find? (NS3.RequestQueue.isEqual dst)).map
        QueuedPacket.toQueueEntry := List.find?_map ..
  have herase : (queueEntries (q.purge now).2).eraseP (RequestQueue.isEqual dst) =
      ((q.purge now).2.queue.eraseP (NS3.RequestQueue.isEqual dst)).map
        QueuedPacket.toQueueEntry := List.eraseP_map ..
  rw [RequestQueue.dequeue, purge_entries, NS3.RequestQueue.dequeue]
  dsimp only
  rw [hfind, herase]
  cases (q.purge now).2.queue.find? (NS3.RequestQueue.isEqual dst) with
  | none => rfl
  | some e => rfl

/-- The loop on the queue with the numbers does what the one without them does. -/
private theorem sendLoop_entries (env : RoutingEnv K) (fuel : Nat) (now : Int) (dst : UInt32)
    (map : MsvrMap K) (n : Nat) (t : Neighbors K) (q : RequestQueue U E) :
    sendLoop env fuel now dst n ⟨queueEntries q, t, map⟩ =
      (sendQueued env fuel now map dst n t q).map fun (done, t, q, calls) =>
        (done, ⟨queueEntries q, t, map⟩, calls) := by
  induction n generalizing t q with
  | zero => rfl
  | succ n ih =>
    rw [sendLoop, sendQueued, dequeue_entries]
    generalize q.dequeue now dst = r
    obtain ⟨calls, e, q₁⟩ := r
    cases e with
    | none => rfl
    | some e =>
      dsimp only [Option.map_some]
      cases forwarding (E := E) env fuel now map t e.packet e.header e.ucb with
      | error fault => rfl
      | ok r =>
        obtain ⟨sent, t₁, calls'⟩ := r
        cases sent with
        | false => rfl
        | true =>
          -- The rounds that follow agree
          simp only [bind, Except.bind, Bool.not_true, Bool.false_eq_true, if_false,
            Bool.true_eq_false, ih]
          cases sendQueued env fuel now map dst n t₁ q₁ with
          | error fault => rfl
          | ok r => rfl

/-- `SendPacketFromQueue` does the same with and without the numbers of the packets. -/
theorem sendPacketFromQueue_entries (env : RoutingEnv K) (fuel : Nat) (now : Int) (dst : UInt32)
    (map : MsvrMap K) (t : Neighbors K) (q : RequestQueue U E) :
    sendPacketFromQueue env fuel now dst ⟨queueEntries q, t, map⟩ =
      (sendPackets env fuel now map dst t q).map fun (done, t, q, calls) =>
        (done, ⟨queueEntries q, t, map⟩, calls) := by
  rw [sendPacketFromQueue, sendPackets]
  -- The two tests of the source, then the loop
  cases env.isInSearch dst with
  | true => rfl
  | false =>
    cases env.hasPosition dst with
    | false =>
      simp only [Bool.not_false, if_true, Bool.false_eq_true, if_false,
        dropPacketWithDst_entries]
      rfl
    | true =>
      have hlen : (queueEntries q).length = q.queue.length := List.length_map ..
      simp only [Bool.not_true, Bool.false_eq_true, if_false, Bool.true_eq_false, hlen]
      exact sendLoop_entries env fuel now dst map _ t q

/-! ## A node over time -/

/-- The calls of `SendPacketFromQueue` at a node: the node may have any map, table and position,
    and its location service searches only for some destinations. -/
def Sends (K : Type) [Field K] [LinearOrder K] (i : Buffer) (searched : UInt32 → Prop) (now : Int)
    (send : SendPacket U E RoutingFault (Neighbors K) (Callback U E)) : Prop :=
  ∃ (env : RoutingEnv K) (fuel : Nat) (map : MsvrMap K), env.buffer = i ∧
    (∀ dst, env.isInSearch dst = true → searched dst) ∧ send = sendPackets env fuel now map

/-- Let a node defer packets without a path, at any times, and check its queue whenever the timer
    runs out. Then it can go on with both at any time, and what it takes out of the queue goes to
    its destination or back, or is lost. A packet in the queue waits under an address that is
    checked, and the timer runs out within half a second. A packet behind `k` others for the same
    destination, which is never searched for, is out of the queue within `k + 1` half seconds. -/
theorem deferred_served (i : Buffer) (searched : UInt32 → Prop) (start : Int)
    {s : Deferring U E}
    (hrun : ReflTransGen (DeferringStep (IsPathless i) (Sends K i searched)) ⟨start, .new⟩ s) :
    (∀ now entry, ∃ r, deferredRouteOutput now entry s.packets = some r) ∧
      (∀ (env : RoutingEnv K) fuel now map t, env.buffer = i → ∃ calls t' packets,
        checkQueue (sendPackets env fuel now map) now t s.packets = .ok (calls, t', packets) ∧
          SettledBut (AnswersDirectly i) s.packets.queue.queue packets.queue.queue calls) ∧
      ∀ e k, Behind e k s.packets.queue.queue →
        e.destination ∈ s.packets.queuedAddresses ∧
        (∃ t, s.packets.checkQueueTimer = some t ∧ s.now ≤ t ∧ t ≤ s.now + checkInterval) ∧
        (¬ searched e.destination → ∀ s', ReflTransGen (fun a b =>
            DeferringStep (IsPathless i) (Sends K i searched) a b ∧
              e ∈ b.packets.queue.queue) s s' →
          s'.now ≤ s.now + (k + 1) * checkInterval) := by
  have hexpire : ∀ (e : QueuedPacket U E) now exp, IsPathless i e →
      IsPathless i (e.setExpireTime now exp) := fun _ _ _ he => he
  have hsends : ∀ now (send : SendPacket U E RoutingFault (Neighbors K) (Callback U E)),
      Sends K i searched now send → send.Sound (IsPathless i) fun _ => True := by
    rintro now send ⟨env, fuel, map, rfl, -, rfl⟩
    exact sendPackets_sound env fuel now map
  have hadvances : ∀ now (send : SendPacket U E RoutingFault (Neighbors K) (Callback U E)),
      Sends K i searched now send → send.Advances (IsPathless i) searched := by
    rintro now send ⟨env, fuel, map, rfl, hsearched, rfl⟩
    exact sendPackets_advances env fuel now map hsearched
  -- The invariant holds in the beginning and after each step
  have hinv : s.Kept (IsPathless i) (fun _ => True) ∧ s.Distinct := by
    induction hrun with
    | refl => exact ⟨.new start, List.nodup_nil⟩
    | tail _ hstep ih =>
      exact ⟨ih.1.step hexpire hsends hstep, ih.2.step hsends ih.1 hstep⟩
  obtain ⟨hkept, hdistinct⟩ := hinv
  refine ⟨deferredRouteOutput_ok hkept.bounded, ?_, fun e k hbehind => ?_⟩
  · rintro env fuel now map t rfl
    obtain ⟨calls, t', packets, hok, -, hsettled⟩ :=
      checkQueue_sendPackets_ok env fuel now map t hkept.entries
    exact ⟨calls, t', packets, hok, hsettled⟩
  -- An entry in the queue is attended, and served once those before it are
  · obtain ⟨haddress, t, ht, hnow, hle, -⟩ := hkept.attended_of_mem hbehind.mem
    refine ⟨haddress, ⟨t, ht, hnow, hle⟩, fun hfree s' hstays => ?_⟩
    exact Deferring.served hexpire hsends hadvances hkept hdistinct hfree hbehind hstays

/-- A packet for node 9 that waits. -/
def waitingEntry : QueuedPacket Unit Unit :=
  ⟨⟨(TypeHeader.new .datapacket).serialize .network ++
      ((DatapacketHeader.new 0 1 2 1 0 0 0 0 NULL).wire .network [] ++ [7]), ⟨5, 9⟩, (), (), 0⟩, 1⟩

/-- The node that has deferred it at time 5. -/
def waitingNode : Deferring Unit Unit :=
  ⟨5, ⟨⟨[waitingEntry.setExpireTime 5 maxQueueTime], maxQueueLen, maxQueueTime⟩, [9],
    some (5 + checkInterval)⟩⟩

/-- The node with a waiting packet, which is served. -/
theorem deferred_served_waiting :
    (∀ now entry, ∃ r, deferredRouteOutput now entry waitingNode.packets = some r) ∧
      (∀ (env : RoutingEnv ℚ) fuel now map t, env.buffer = .network → ∃ calls t' packets,
        checkQueue (sendPackets env fuel now map) now t waitingNode.packets =
          .ok (calls, t', packets) ∧
          SettledBut (AnswersDirectly .network) waitingNode.packets.queue.queue
            packets.queue.queue calls) ∧
      ∀ e k, Behind e k waitingNode.packets.queue.queue →
        e.destination ∈ waitingNode.packets.queuedAddresses ∧
        (∃ t, waitingNode.packets.checkQueueTimer = some t ∧ waitingNode.now ≤ t ∧
          t ≤ waitingNode.now + checkInterval) ∧
        (¬ False → ∀ s', ReflTransGen (fun a b =>
            DeferringStep (IsPathless .network) (Sends ℚ .network fun _ => False) a b ∧
              e ∈ b.packets.queue.queue) waitingNode s' →
          s'.now ≤ waitingNode.now + (k + 1) * checkInterval) := by
  have hdefer : deferredRouteOutput 5 waitingEntry .new = some ([], waitingNode.packets) := rfl
  have hpathless : IsPathless .network waitingEntry := ⟨[7], _, ⟨rfl, Nat.zero_le _⟩, rfl⟩
  -- The first packet starts the timer
  have hfirst : DeferringStep (IsPathless .network) (Sends ℚ .network fun _ => False)
      ⟨0, .new⟩ waitingNode :=
    .deferredRouteOutput (by decide) (by simp [DeferredPackets.new]) hpathless hdefer
  exact deferred_served .network (fun _ => False) 0 (.single hfirst)

end MapRelay.NS3.GeoSvr
