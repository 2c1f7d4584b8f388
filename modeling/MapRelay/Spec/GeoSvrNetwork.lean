import Mathlib.Algebra.Order.Group.Multiset
import Mathlib.Tactic.Abel
import MapRelay.ForStd.Lookup
import MapRelay.Native.GeoSvrNetwork
import MapRelay.Spec.GeoSvrDeferred

/-!
# The packets of a GeoSVR network

Whatever the nodes do in whatever order, a packet in the air is one that was sent, with its
payload as it was and with a path that is the end of the one its source has found. A message may
get lost in many ways, but it is never doubled. A deferred packet has no path and goes to its
destination only.
-/

namespace MapRelay.NS3.GeoSvr

open ForStd
open Gpsr (Message Transit arriving isBoardcast loopedBack)
open Relation (ReflTransGen)

variable {K : Type} {i : Buffer}

/-! ## The messages in the network -/

/-- What a packet with headers carries. -/
def payloadOf (i : Buffer) (p : List UInt8) : List UInt8 :=
  match ((TypeHeader.new .datapacket).deserialize i).run p with
  | some (_, p) =>
    match (DatapacketHeader.default.deserialize i Heap.empty).run p with
    | some (_, payload) => payload
    | none => []
  | none => []

/-- The payload of a packet that carries one. -/
theorem Carries.payloadOf_eq {ids payload p : List UInt8} (h : Carries i ids payload p) :
    payloadOf i p = payload := by
  obtain ⟨hdr, hlen, rfl⟩ := h
  rw [payloadOf, TypeHeader.run_deserialize]
  dsimp only
  rw [DatapacketHeader.run_deserialize i hlen]

/-- The message of a packet with its header. -/
def messageOf (i : Buffer) (header : Ipv4Header) (p : List UInt8) : Message :=
  ⟨header.destination, payloadOf i p⟩

/-- The message of a packet that a node has in its queue. -/
def entryMessage (i : Buffer) (e : QueuedPacket Unit Unit) : Message :=
  messageOf i e.header e.packet

/-- The message of a packet in the air. -/
def transitMessage (i : Buffer) (x : Transit) : Message := messageOf i x.header x.packet

namespace NetworkState

/-- The messages in the air. -/
def flying (i : Buffer) (s : NetworkState) : List Message := s.inFlight.map (transitMessage i)

/-- The messages in the queues of the nodes. -/
def queued (i : Buffer) (s : NetworkState) : List Message :=
  s.nodes.flatMap fun node => node.packets.queue.queue.map (entryMessage i)

/-- The messages that are somewhere. -/
def messages (i : Buffer) (s : NetworkState) : List Message :=
  s.flying i ++ (s.queued i ++ s.delivered)

end NetworkState

/-- The packet bears the message: the payload is that of the message, and the path the end of the
    one that was found for it. It goes to its destination, or two nodes of the path are left, if
    its length can be written into a byte. -/
structure Bears (i : Buffer) (m : Sent) (x : Transit) (ids : List UInt8) : Prop where
  destination_eq : x.header.destination = m.message.destination
  carries : Carries i ids m.message.payload x.packet
  suffix : ids <:+ wirePath m.paths
  direct_or : x.gateway = x.header.destination ∨
    2 ≤ m.paths.length ∧ (m.paths.length ≤ 255 → 2 ≤ ids.length)

/-- The entry waits with a message for which no path was found. -/
structure Waits (i : Buffer) (m : Sent) (e : QueuedPacket Unit Unit) : Prop where
  destination_eq : e.destination = m.message.destination
  paths_eq : m.paths = []
  carries : Carries i [] m.message.payload e.packet

/-- A packet that waits has no path. -/
private theorem Waits.isPathless {m : Sent} {e : QueuedPacket Unit Unit} (h : Waits i m e) :
    IsPathless i e := ⟨_, h.carries⟩

/-- All packets bear messages that were sent, and there are no more of them than were sent. -/
structure NetworkState.Faithful (i : Buffer) (s : NetworkState) : Prop where
  flying : ∀ x ∈ s.inFlight, ∃ m ∈ s.sent, ∃ ids, Bears i m x ids
  queued : ∀ node ∈ s.nodes, ∀ e ∈ node.packets.queue.queue, ∃ m ∈ s.sent, Waits i m e
  bounded : ∀ node ∈ s.nodes, node.packets.queue.Bounded
  once : (s.messages i).Subperm (s.sent.map (·.message))

/-! ## What a node does -/

section Calls

variable {q q' : List (QueuedPacket Unit Unit)} {calls : List (Callback Unit Unit)}

/-- The calls put at most the messages into the air that have left the queue. -/
private theorem subperm_calls (h : SettledBut (AnswersDirectly i) q q' calls) :
    (q'.map (entryMessage i) ++
      (calls.filterMap Callback.transit).map (transitMessage i)).Subperm
        (q.map (entryMessage i)) := by
  obtain ⟨lost, hsettled⟩ := h
  -- Either way out carries the message of the entry
  have hsame : ∀ c e x, AnswersDirectly i c e → Callback.transit c = some x →
      transitMessage i x = entryMessage i e := by
    intro c e x hanswer hx
    cases hanswer with
    | unicast hcarries hsent =>
      cases hx
      rw [transitMessage, entryMessage, messageOf, messageOf, hsent.payloadOf_eq,
        hcarries.payloadOf_eq]
    | error => cases hx
  -- The lost entries count as still there, so that every entry has its place
  have hplaced : Settled (fun _ _ => True) (q.map (entryMessage i))
      ((q' ++ lost).map (entryMessage i) ++
        (calls.filterMap Callback.transit).map (transitMessage i))
      (calls.filter fun c => (Callback.transit c).isNone) :=
    hsettled.place hsame fun _ _ _ _ => trivial
  obtain ⟨gone, hperm, -⟩ := hplaced
  refine List.Subperm.trans ?_ hperm.symm.subperm
  rw [List.map_append, ← Multiset.coe_le]
  simp only [← Multiset.coe_add]
  -- Without the lost and the given up it is a part
  apply Multiset.le_iff_exists_add.mpr
  refine ⟨(lost.map (entryMessage i) : Multiset Message) + (gone : Multiset Message), ?_⟩
  abel

/-- And what they put there bears a message that has waited. -/
private theorem bears_calls {sent : List Sent} (hq : ∀ e ∈ q, ∃ m ∈ sent, Waits i m e)
    (h : SettledBut (AnswersDirectly i) q q' calls) :
    ∀ x ∈ calls.filterMap Callback.transit, ∃ m ∈ sent, ∃ ids, Bears i m x ids := by
  intro x hx
  obtain ⟨c, hc, hx⟩ := List.mem_filterMap.mp hx
  obtain ⟨lost, hsettled⟩ := h
  obtain ⟨e, he, hanswer⟩ := hsettled.answered hc
  cases hanswer with
  | unicast hcarries hsent =>
    cases hx
    obtain ⟨m, hm, hwaits⟩ := hq e he
    have hpayload := hcarries.payloadOf_eq.symm.trans hwaits.carries.payloadOf_eq
    exact ⟨m, hm, [], hwaits.destination_eq, hpayload ▸ hsent, List.nil_suffix, .inl rfl⟩
  | error => cases hx

end Calls

/-! ## What a step keeps -/

section Steps

variable {s s' : NetworkState}

/-- At the start nothing is on its way. -/
theorem NetworkState.Faithful.start (i : Buffer) (addresses : List UInt32) :
    (NetworkState.start addresses).Faithful i where
  -- Nothing is in the air and every queue is empty
  flying _ hx := nomatch hx
  queued node hnode e he := by
    obtain ⟨address, -, rfl⟩ := List.mem_map.mp hnode
    cases he
  bounded node hnode := by
    obtain ⟨address, -, rfl⟩ := List.mem_map.mp hnode
    have hpos : 0 < maxQueueLen.toNat := by decide
    exact ⟨hpos, Nat.zero_le _⟩
  once := by
    have hnil : (NetworkState.start addresses).messages i = [] := by
      simp [NetworkState.messages, NetworkState.flying, NetworkState.queued, NetworkState.start,
        DeferredPackets.new]
    rw [hnil]
    exact List.nil_subperm

/-- A node takes what is in its queue, and perhaps a message that is sent now, and leaves some of
    it there. -/
theorem NetworkState.Faithful.node_step {before after : List GeoSvrNode} {node : GeoSvrNode}
    {packets : DeferredPackets Unit Unit} {calls : List (Callback Unit Unit)}
    (came : List (QueuedPacket Unit Unit)) (new : List Sent) (h : s.Faithful i)
    (hnode : s.nodes = before ++ node :: after) (hbounded : packets.queue.Bounded)
    (hcame : ∀ e ∈ came, ∃ m ∈ new, Waits i m e)
    (hmessages : came.map (entryMessage i) = new.map (·.message))
    (hsettled : SettledBut (AnswersDirectly i) (node.packets.queue.queue ++ came)
      packets.queue.queue calls) :
    (NetworkState.emit { s with
      nodes := before ++ { node with packets } :: after
      sent := s.sent ++ new } calls).Faithful i := by
  have hmem : node ∈ s.nodes := by rw [hnode]; simp
  -- Each entry in the queue or newly come waits for a message that was sent
  have hwaits : ∀ e ∈ node.packets.queue.queue ++ came, ∃ m ∈ s.sent ++ new, Waits i m e := by
    intro e he
    rcases List.mem_append.mp he with he | he
    · obtain ⟨m, hm, hwaits⟩ := h.queued node hmem e he
      exact ⟨m, List.mem_append_left _ hm, hwaits⟩
    · obtain ⟨m, hm, hwaits⟩ := hcame e he
      exact ⟨m, List.mem_append_right _ hm, hwaits⟩
  -- What stays in the queue was there before
  have hleft : ∀ e ∈ packets.queue.queue, e ∈ node.packets.queue.queue ++ came := by
    obtain ⟨lost, gone, hperm, -⟩ := hsettled
    exact fun e he => hperm.mem_iff.mpr (by simp [he])
  constructor
  -- In the air: the packets from before and those the calls have sent
  · intro x hx
    rcases List.mem_append.mp hx with hx | hx
    · obtain ⟨m, hm, ids, hbears⟩ := h.flying x hx
      exact ⟨m, List.mem_append_left _ hm, ids, hbears⟩
    · exact bears_calls hwaits hsettled x hx
  -- The queues: that of `node` and the others
  · refine forall_mem_replace (e := node) (P := fun n => ∀ e ∈ n.packets.queue.queue,
      ∃ m ∈ s.sent ++ new, Waits i m e) ?_ ?_
    · intro n hn e he
      obtain ⟨m, hm, hwaits⟩ := h.queued n (hnode ▸ hn) e he
      exact ⟨m, List.mem_append_left _ hm, hwaits⟩
    · exact fun e he => hwaits e (hleft e he)
  -- The bound on the queues
  · exact forall_mem_replace (e := node) (P := fun n => n.packets.queue.Bounded)
      (hnode ▸ h.bounded) hbounded
  · -- The messages elsewhere stay
    have hcalls := subperm_calls hsettled
    have honce := h.once
    rw [NetworkState.messages, NetworkState.flying, NetworkState.queued, hnode,
      List.flatMap_append, List.flatMap_cons,
      ← Multiset.coe_le] at honce
    -- The entries of the node and the new ones give what is left and what is in the air
    rw [List.map_append, hmessages, ← Multiset.coe_le] at hcalls
    show List.Subperm ((s.inFlight ++ calls.filterMap Callback.transit).map (transitMessage i) ++
      ((before ++ { node with packets } :: after).flatMap _ ++ s.delivered))
        ((s.sent ++ new).map (·.message))
    rw [List.map_append, List.flatMap_append, List.flatMap_cons, List.map_append,
      ← Multiset.coe_le]
    simp only [← Multiset.coe_add] at honce hcalls ⊢
    have hboth := add_le_add honce hcalls
    -- The entries of the node stand on both sides
    apply le_of_add_le_add_right
      (a := (node.packets.queue.queue.map (entryMessage i) : Multiset Message))
    convert hboth using 1
    · abel
    · abel

/-- The message of a packet that bears one. -/
private theorem Bears.message_eq {m : Sent} {x : Transit} {ids : List UInt8} (h : Bears i m x ids) :
    transitMessage i x = m.message := by
  rw [transitMessage, messageOf, h.carries.payloadOf_eq, h.destination_eq]

/-- A message is sent by a route. -/
theorem NetworkState.Faithful.route (h : s.Faithful i) {m : Sent} {x : Transit}
    {ids : List UInt8} (hbears : Bears i m x ids) :
    ({ s with
      inFlight := s.inFlight ++ [x]
      sent := s.sent ++ [m] } : NetworkState).Faithful i where
  -- The new packet is the one the new message goes with
  flying y hy := by
    rcases List.mem_append.mp hy with hy | hy
    · obtain ⟨m', hm', ids', hbears'⟩ := h.flying y hy
      exact ⟨m', List.mem_append_left _ hm', ids', hbears'⟩
    · rw [List.mem_singleton.mp hy]
      exact ⟨m, by simp, ids, hbears⟩
  queued node hnode e he := by
    obtain ⟨m', hm', hwaits⟩ := h.queued node hnode e he
    exact ⟨m', List.mem_append_left _ hm', hwaits⟩
  bounded := h.bounded
  -- One message more on both sides
  once := by
    have honce := h.once
    show List.Subperm ((s.inFlight ++ [x]).map (transitMessage i) ++ (s.queued i ++ s.delivered))
      ((s.sent ++ [m]).map (·.message))
    rw [NetworkState.messages, NetworkState.flying, ← Multiset.coe_le] at honce
    rw [List.map_append, List.map_append, List.map_singleton, List.map_singleton,
      hbears.message_eq, ← Multiset.coe_le]
    simp only [← Multiset.coe_add] at honce ⊢
    have hboth := add_le_add_left honce (([m.message] : List Message) : Multiset Message)
    convert hboth using 1
    abel

/-- A packet is taken from the air, and its message is put back there, delivered or lost. -/
theorem NetworkState.Faithful.take (h : s.Faithful i) {before after : List Transit} {x : Transit}
    (transits : List Transit) (delivered : List Message)
    (hflight : s.inFlight = before ++ x :: after)
    (htransits : ∀ y ∈ transits, ∃ m ∈ s.sent, ∃ ids, Bears i m y ids)
    (honce : (transits.map (transitMessage i) ++ delivered).Subperm [transitMessage i x]) :
    ({ s with
      inFlight := before ++ after ++ transits
      delivered := s.delivered ++ delivered } : NetworkState).Faithful i where
  -- The packets that stay, and those that come instead of `x`
  flying y hy := by
    rcases List.mem_append.mp hy with hy | hy
    · apply h.flying y
      rw [hflight]
      rcases List.mem_append.mp hy with hy | hy
      · exact List.mem_append_left _ hy
      · exact List.mem_append_right _ (List.mem_cons_of_mem _ hy)
    · exact htransits y hy
  queued := h.queued
  bounded := h.bounded
  -- `x` makes room for one message at most
  once := by
    have hbefore := h.once
    show List.Subperm ((before ++ after ++ transits).map (transitMessage i) ++
      (s.queued i ++ (s.delivered ++ delivered))) (s.sent.map (·.message))
    rw [NetworkState.messages, NetworkState.flying, hflight, List.map_append, List.map_cons,
      ← List.singleton_append, ← Multiset.coe_le] at hbefore
    rw [← Multiset.coe_le] at honce
    rw [List.map_append, List.map_append, ← Multiset.coe_le]
    simp only [← Multiset.coe_add] at hbefore honce ⊢
    have hboth := add_le_add hbefore honce
    -- The message of `x` stands on both sides
    apply le_of_add_le_add_right (a := (([transitMessage i x] : List Message) : Multiset Message))
    convert hboth using 1
    abel

variable [Field K] [LinearOrder K]

section Arriving

variable {env : RoutingEnv K} {ids payload : List UInt8} {x : Transit}

/-- A packet that comes to its destination is delivered there. -/
private theorem routeInput_delivers (h : Carries env.buffer ids payload x.packet)
    (hdst : x.header.destination = x.gateway) (fuel : Nat) (now : Int) (map : MsvrMap K)
    (t : Neighbors K) :
    routeInput env fuel now map t x.packet x.header (arriving x.gateway x.header.destination) =
      .ok (.deliver payload) := by
  obtain ⟨mem, hdr, -, hopen⟩ := openPacket_of_carries h
  simp only [routeInput, arriving, hdst, hopen, bind, Except.bind, Bool.false_eq_true,
    false_and, if_false, decide_true, if_true]
  rfl

/-- A packet that comes to another node goes to `Forwarding`. -/
private theorem routeInput_elsewhere (hdst : x.header.destination ≠ x.gateway) (fuel : Nat)
    (now : Int) (map : MsvrMap K) (t : Neighbors K) :
    routeInput env fuel now map t x.packet x.header (arriving x.gateway x.header.destination) =
      (do
        let (sent, _, calls) ← forwarding (E := Unit) env fuel now map t x.packet x.header ()
        return .forwarded sent calls) := by
  simp only [routeInput, arriving, hdst, Bool.false_eq_true, false_and, if_false, decide_false]

/-- It is sent on or lost there. Only the map can be in the way. -/
private theorem routeInput_forwards (h : Carries env.buffer ids payload x.packet)
    (hdst : x.header.destination ≠ x.gateway) (fuel : Nat) (now : Int) (map : MsvrMap K)
    (t : Neighbors K) :
    FailsOnMap (routeInput env fuel now map t x.packet x.header
        (arriving x.gateway x.header.destination)) ∧
      ∀ input, routeInput env fuel now map t x.packet x.header
          (arriving x.gateway x.header.destination) = .ok input →
        input = .forwarded false [] ∨ ∃ gateway p ids',
          input = .forwarded true [.unicast () (routeVia x.header gateway) p x.header] ∧
            Forwards env.buffer ids payload x.header.destination gateway p ids' := by
  -- RouteInput hands over the outcome of Forwarding
  obtain ⟨hfails, hforward⟩ := forwarding_of_carries (E := Unit) h fuel now map t x.header ()
  rw [routeInput_elsewhere hdst]
  refine ⟨hfails.bind fun _ _ => .ok _, fun input hinput => ?_⟩
  obtain ⟨⟨sent, t', calls⟩, hok, hinput⟩ := bind_eq_ok.mp hinput
  cases hinput
  rcases hforward _ _ _ hok with ⟨rfl, rfl⟩ | ⟨rfl, gateway, p, ids', rfl, hforwards⟩
  · exact .inl rfl
  · exact .inr ⟨gateway, p, ids', rfl, hforwards⟩

/-- It is sent straight to its destination if that is a neighbour. -/
private theorem routeInput_near (h : Carries env.buffer ids payload x.packet)
    (hdst : x.header.destination ≠ x.gateway) (fuel : Nat) (now : Int) (map : MsvrMap K)
    {t : Neighbors K} (hnear : (t.isNeighbor now x.header.destination).1 = true) :
    ∃ p, routeInput env fuel now map t x.packet x.header
        (arriving x.gateway x.header.destination) = .ok (.forwarded true
          [.unicast () (routeVia x.header x.header.destination) p x.header]) ∧
      Carries env.buffer ids payload p := by
  obtain ⟨p, hok, hcarries⟩ := forwarding_of_near (E := Unit) h fuel now map hnear ()
  refine ⟨p, ?_, hcarries⟩
  rw [routeInput_elsewhere hdst, hok]
  rfl

end Arriving

/-- A packet that is sent on still bears its message. -/
theorem Bears.forward {m : Sent} {x : Transit} {ids ids' p : List UInt8} {gateway : UInt32}
    (h : Bears i m x ids)
    (hforwards : Forwards i ids m.message.payload x.header.destination gateway p ids') :
    Bears i m ⟨gateway, x.header, p⟩ ids' where
  destination_eq := h.destination_eq
  carries := hforwards.carries
  suffix := hforwards.suffix.trans h.suffix
  direct_or := by
    rcases hforwards.direct_or with hdirect | htwo
    · exact .inl hdirect
    · -- The path that was found has more nodes than what is left of it
      have hlen := (hforwards.suffix.trans h.suffix).length_le
      rw [wirePath, List.length_map, List.length_take] at hlen
      exact .inr ⟨by omega, fun _ => htwo⟩

/-- Every step keeps the invariant. -/
theorem NetworkState.Faithful.step (h : s.Faithful i) (hstep : NetworkStep K i s s') :
    s'.Faithful i := by
  cases hstep with
  | @route env fuel now map t oifDiffers header r route payload p henv haddress hunicast houtput
      hroute hp =>
    subst henv
    have htagged := (routeOutput_cases houtput).1 route hroute
    obtain ⟨p', hok, hcarries⟩ := newPacket_some env (length_wirePath r.paths) header.destination
      payload
    rw [htagged.tag_eq] at hp
    cases hok.symm.trans hp
    have hfirst : Bears env.buffer ⟨⟨header.destination, payload⟩, r.paths⟩
        ⟨route.gateway, ⟨route.source, route.destination⟩, p⟩ (wirePath r.paths) := by
      refine ⟨htagged.destination_eq, hcarries, List.suffix_refl _, ?_⟩
      rcases htagged.direct_or with ⟨hdirect, -⟩ | ⟨found, map', -, -, htwo⟩
      · exact .inl (hdirect.trans htagged.destination_eq.symm)
      · refine .inr ⟨htwo, fun hshort => ?_⟩
        have hbyte : r.paths.length < 256 := Nat.lt_succ_of_le hshort
        rw [wirePath, List.length_map, List.length_take, Nat.mod_eq_of_lt hbyte]
        omega
    exact h.route hfirst
  | @defer env fuel now map t oifDiffers header r payload p before after node uid entry calls
      packets henv hnode houtput hdeferred hp hnew hinput hdefer =>
    subst henv
    -- There is no tag, and `RouteInput` makes an entry of the packet
    rw [(routeOutput_cases houtput).2 hdeferred] at hp
    obtain ⟨p', hok, hcarries⟩ := newPacket_none env header.destination payload
    cases hok.symm.trans hp
    simp only [routeInput, loopedBack, and_self, if_true] at hinput
    cases hinput
    have hmem : node ∈ s.nodes := by rw [hnode]; simp
    have hbounded := h.bounded node hmem
    have hsettled := deferredRouteOutput_settled (R := AnswersDirectly env.buffer) .error hbounded
      hnew hdefer
    apply h.node_step _ _ hnode (deferredRouteOutput_leaves hbounded hdefer).1 _ _ hsettled.but
    · intro e he
      rw [List.mem_singleton.mp he]
      exact ⟨_, List.mem_singleton_self _, rfl, rfl, hcarries⟩
    · rw [List.map_singleton, entryMessage, messageOf]
      simp only [QueuedPacket.setExpireTime, hcarries.payloadOf_eq, List.map_singleton]
  | @receive env fuel now map t before after x input henv hflight hinput =>
    subst henv
    have hmem : x ∈ s.inFlight := by rw [hflight]; simp
    obtain ⟨m, hm, ids, hbears⟩ := h.flying x hmem
    by_cases hdst : x.header.destination = x.gateway
    · cases (routeInput_delivers hbears.carries hdst fuel now map t).symm.trans hinput
      have htaken := h.take [] [⟨x.gateway, m.message.payload⟩] hflight (by simp) (by
        rw [transitMessage, messageOf, hbears.carries.payloadOf_eq, hdst]
        exact List.Subperm.refl _)
      rw [List.append_nil] at htaken
      exact htaken
    rcases (routeInput_forwards hbears.carries hdst fuel now map t).2 input hinput with
      rfl | ⟨gateway, p, ids', rfl, hforwards⟩
    · have htaken := h.take [] [] hflight (by simp) List.nil_subperm
      rw [List.append_nil s.delivered] at htaken
      exact htaken
    · have hbears' := hbears.forward hforwards
      have htaken := h.take [⟨gateway, x.header, p⟩] [] hflight (by
          intro y hy
          rw [List.mem_singleton.mp hy]
          exact ⟨m, hm, ids', hbears'⟩) (by
          rw [List.map_singleton, hbears'.message_eq, hbears.message_eq]
          exact List.Subperm.refl _)
      rw [List.append_nil s.delivered] at htaken
      exact htaken
  | @lose before after x hflight =>
    have htaken := h.take [] [] hflight (by simp) List.nil_subperm
    rw [List.append_nil, List.append_nil] at htaken
    exact htaken
  | @checkQueue env fuel now map t t' before after node calls packets henv hnode hcheck =>
    subst henv
    have hmem : node ∈ s.nodes := by rw [hnode]; simp
    have hpathless : ∀ e ∈ node.packets.queue.queue, IsPathless env.buffer e := by
      intro e he
      obtain ⟨m, -, hwaits⟩ := h.queued node hmem e he
      exact hwaits.isPathless
    obtain ⟨calls', t'', packets', hok, hshrinks, hsettled⟩ :=
      checkQueue_sendPackets_ok env fuel now map t hpathless
    cases hok.symm.trans hcheck
    have hstepped := h.node_step [] [] hnode
      (hshrinks.bounded (h.bounded node hmem)) (by simp) rfl (by rwa [List.append_nil])
    rw [List.append_nil] at hstepped
    exact hstepped

/-- The invariant holds in every run. -/
theorem NetworkState.Faithful.run (h : s.Faithful i)
    (hrun : ReflTransGen (NetworkStep K i) s s') : s'.Faithful i := by
  induction hrun with
  | refl => exact h
  | tail _ hstep ih => exact ih.step hstep

end Steps

/-! ## Runs -/

section Runs

variable [Field K] [LinearOrder K] {s : NetworkState}

/-- In every run of the network a packet in the air has the payload of a message that was sent,
    and in its header the end of the path that `RouteOutput` had found for it. It goes to its
    destination, or two nodes of the path are left. A packet in a queue has no path. Every queue
    can be checked, and what goes out of it goes straight to its destination. -/
theorem network_paths (i : Buffer) (addresses : List UInt32)
    (hrun : ReflTransGen (NetworkStep K i) (.start addresses) s) :
    (∀ x ∈ s.inFlight, ∃ m ∈ s.sent, ∃ ids, Bears i m x ids) ∧
      ∀ node ∈ s.nodes, (∀ e ∈ node.packets.queue.queue, ∃ m ∈ s.sent, Waits i m e) ∧
        ∀ (env : RoutingEnv K) fuel now map t, env.buffer = i → ∃ calls t' packets,
          checkQueue (sendPackets env fuel now map) now t node.packets =
            .ok (calls, t', packets) ∧
          ∀ x ∈ calls.filterMap Callback.transit, x.gateway = x.header.destination := by
  -- The invariant of the run
  have h := (NetworkState.Faithful.start i addresses).run hrun
  refine ⟨h.flying, fun node hnode => ⟨h.queued node hnode, ?_⟩⟩
  rintro env fuel now map t rfl
  -- An entry waits with an empty path, so the packet still lacks a header
  have hpathless : ∀ e ∈ node.packets.queue.queue, IsPathless env.buffer e := by
    intro e he
    obtain ⟨m, -, hwaits⟩ := h.queued node hnode e he
    exact hwaits.isPathless
  obtain ⟨calls, t', packets, hok, -, lost, hsettled⟩ :=
    checkQueue_sendPackets_ok env fuel now map t hpathless
  refine ⟨calls, t', packets, hok, fun x hx => ?_⟩
  obtain ⟨c, hc, hx⟩ := List.mem_filterMap.mp hx
  obtain ⟨e, -, hanswer⟩ := hsettled.answered hc
  -- What CheckQueue sends on goes straight to the destination
  cases hanswer with
  | unicast hcarries hsent =>
    cases hx
    rfl
  | error => cases hx

/-- What `RouteInput` does with a packet in the air: it delivers the payload if the packet is for
    the node, and sends it on or loses it else, to its destination if that is a neighbour. It reads
    nothing beyond the packet and makes no fault on the heap. -/
def Handles (i : Buffer) (env : RoutingEnv K) (fuel : Nat) (now : Int) (map : MsvrMap K)
    (t : Neighbors K) (x : Transit) : Prop :=
  let result := routeInput env fuel now map t x.packet x.header
    (arriving x.gateway x.header.destination)
  if x.header.destination = x.gateway then result = .ok (.deliver (payloadOf i x.packet))
  else FailsOnMap result ∧
    (∀ input, result = .ok input → ∃ sent calls, input = .forwarded sent calls ∧
      (calls.filterMap Callback.transit).map (transitMessage i) =
        if sent then [transitMessage i x] else []) ∧
    ((t.isNeighbor now x.header.destination).1 = true → ∃ p,
      result = .ok (.forwarded true
        [.unicast () (routeVia x.header x.header.destination) p x.header]) ∧
      payloadOf i p = payloadOf i x.packet)

/-- In every run of the network the messages in the air, in the queues and delivered are among
    those that were sent, none of them more often than it was sent. A packet that comes to a node
    is delivered with its payload if it is for that node, and else it is sent on or lost. -/
theorem network_once (i : Buffer) (addresses : List UInt32)
    (hrun : ReflTransGen (NetworkStep K i) (.start addresses) s) :
    (s.flying i ++ (s.queued i ++ s.delivered)).Subperm (s.sent.map (·.message)) ∧
      ∀ x ∈ s.inFlight, ∀ (env : RoutingEnv K) fuel now map t, env.buffer = i →
        Handles i env fuel now map t x := by
  -- The invariant of the run, then the two cases of RouteInput
  have h := (NetworkState.Faithful.start i addresses).run hrun
  refine ⟨h.once, ?_⟩
  rintro x hx env fuel now map t rfl
  obtain ⟨m, -, ids, hbears⟩ := h.flying x hx
  unfold Handles
  split
  · next hdst =>
    rw [hbears.carries.payloadOf_eq]
    exact routeInput_delivers hbears.carries hdst fuel now map t
  · next hdst =>
    obtain ⟨hfails, hinput⟩ := routeInput_forwards hbears.carries hdst fuel now map t
    refine ⟨hfails, fun input hok => ?_, fun hnear => ?_⟩
    -- The call of Forwarding, if it answers with one, sends the same message on
    · rcases hinput input hok with rfl | ⟨gateway, p, ids', rfl, hforwards⟩
      · exact ⟨false, [], rfl, rfl⟩
      · refine ⟨true, _, rfl, ?_⟩
        have hforward := (hbears.forward hforwards).message_eq.trans hbears.message_eq.symm
        exact congrArg (fun m => [m]) hforward
    -- A destination within reach gets the packet at once
    · obtain ⟨p, hok, hcarries⟩ := routeInput_near hbears.carries hdst fuel now map hnear
      exact ⟨p, hok, hcarries.payloadOf_eq.trans hbears.carries.payloadOf_eq.symm⟩

end Runs

/-- A node at the origin that has node 9 as its neighbour. -/
def pairEnv : OutputEnv ℚ where
  toRoutingEnv := loneEnv
  getPosition _ := ⟨1, 0, 0⟩
  invalidPosition := ⟨-1, -1, 0⟩
  calculateDistance _ _ := 1
  address := 1
  tagBuffer := .ns3
  toBits _ := 0

/-- The table with this neighbour. -/
def pairTable : Neighbors ℚ := ⟨[⟨⟨1, 0, 0, 0, 0, 9⟩, 10⟩], false, none⟩

/-- The network of nodes 1 and 9 with a packet in the air. -/
def pairSent : NetworkState :=
  ⟨[⟨1, .new⟩, ⟨9, .new⟩], [⟨9, ⟨1, 9⟩, [1] ++ List.replicate 7 0 ++ [1, 0, 0, 0, 2, 0, 0, 0, 1]
    ++ List.replicate 32 0 ++ [7]⟩], [⟨⟨9, [7]⟩, []⟩], []⟩

/-- The state of the example is reached. -/
private theorem pairSent_reached :
    ReflTransGen (NetworkStep ℚ .network) (.start [1, 9]) pairSent := by
  have houtput : routeOutput pairEnv 0 0 loneEnv.newMap pairTable true true false ⟨1, 9⟩ =
      .ok ⟨.route ⟨9, 1, 9, 1⟩, some [0, 0, 0, 0], [], loneEnv.newMap, pairTable⟩ := rfl
  exact .single (.route rfl (by decide) (by decide) houtput rfl rfl)

/-- Two nodes, one of which has sent a packet to the other. -/
theorem network_paths_pair :
    (∀ x ∈ pairSent.inFlight, ∃ m ∈ pairSent.sent, ∃ ids, Bears .network m x ids) ∧
      ∀ node ∈ pairSent.nodes,
        (∀ e ∈ node.packets.queue.queue, ∃ m ∈ pairSent.sent, Waits .network m e) ∧
        ∀ (env : RoutingEnv ℚ) fuel now map t, env.buffer = .network → ∃ calls t' packets,
          checkQueue (sendPackets env fuel now map) now t node.packets =
            .ok (calls, t', packets) ∧
          ∀ x ∈ calls.filterMap Callback.transit, x.gateway = x.header.destination :=
  network_paths .network [1, 9] pairSent_reached

/-- The same two nodes: the packet is there once, and it is handled. -/
theorem network_once_pair :
    (pairSent.flying .network ++ (pairSent.queued .network ++ pairSent.delivered)).Subperm
        (pairSent.sent.map (·.message)) ∧
      ∀ x ∈ pairSent.inFlight, ∀ (env : RoutingEnv ℚ) fuel now map t, env.buffer = .network →
        Handles .network env fuel now map t x :=
  network_once .network [1, 9] pairSent_reached

end MapRelay.NS3.GeoSvr
