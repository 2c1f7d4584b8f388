import Mathlib.Algebra.Order.Group.Multiset
import Mathlib.Tactic.Abel
import MapRelay.ForStd.Lookup
import MapRelay.Native.GpsrNetwork
import MapRelay.Spec.GpsrQueue

/-!
# A GPSR network neither loses nor copies nor alters a message

A message that has been sent is in the air or in the queue of a node, or it has been delivered, or
lost in the air, or its end has been reported: by the trace source for dropped packets, or by the
error callback. It is one of these only, and its payload stays as it was, in whatever order the
nodes send, receive and check their queues.
-/

namespace MapRelay.NS3.Gpsr

open ForStd
open GeoSvr (Callback Ipv4Header RoutingFault)
open Relation (ReflTransGen)

variable {K : Type}

/-! ## The messages in the network -/

/-- What a packet carries. -/
def payloadOf (env : PacketEnv K) (p : List UInt8) : List UInt8 :=
  match openPacket env p with
  | .ok o => o.payload
  | .error _ => []

/-- The payload of a packet that carries one. -/
theorem Carries.payloadOf_eq {env : PacketEnv K} {payload p : List UInt8}
    (h : Carries env payload p) : payloadOf env p = payload := by
  obtain ⟨hdr, hopen⟩ := h.open
  rw [payloadOf, hopen]

/-- The message of a packet with its header. -/
def messageOf (env : PacketEnv K) (header : Ipv4Header) (p : List UInt8) : Message :=
  ⟨header.destination, payloadOf env p⟩

def Transit.message (env : PacketEnv K) (x : Transit) : Message := messageOf env x.header x.packet

def entryMessage (env : PacketEnv K) (e : QueuedPacket Unit Unit) : Message :=
  messageOf env e.header e.packet

namespace NetworkState

/-- The messages in the air. -/
def flying (env : PacketEnv K) (s : NetworkState) : List Message :=
  s.inFlight.map (·.message env)

/-- The messages in the queues of the nodes. -/
def queued (env : PacketEnv K) (s : NetworkState) : List Message :=
  s.nodes.flatMap fun node => node.packets.queue.queue.map (entryMessage env)

/-- The messages whose end is not reported. -/
def accounted (env : PacketEnv K) (s : NetworkState) : List Message :=
  s.flying env ++ (s.queued env ++ (s.delivered ++ s.lost))

end NetworkState

/-- The report is about a packet with the message. -/
inductive Reports (env : PacketEnv K) : Output Unit Unit → Message → Prop where
  | dropPkt {m : Message} {p : List UInt8} (h : Carries env m.payload p) :
      Reports env (.dropPkt p) m
  | error {m : Message} {p : List UInt8} {header : Ipv4Header}
      (hdst : header.destination = m.destination) (h : Carries env m.payload p) :
      Reports env (.call (.error () p header)) m

/-- All packets carry messages, the queues are in bounds, and every message that was sent is
    accounted for or reported. -/
structure NetworkState.Conserves (env : PacketEnv K) (s : NetworkState) : Prop where
  flying : ∀ x ∈ s.inFlight, ∃ payload, Carries env payload x.packet
  queued : ∀ node ∈ s.nodes, ∀ e ∈ node.packets.queue.queue, IsCarrier env e
  bounded : ∀ node ∈ s.nodes, node.packets.queue.Bounded
  settled : Settled (Reports env) s.sent (s.accounted env) s.reports

/-! ## What a node does -/

section Outputs

variable {env : PacketEnv K} {q q' : List (QueuedPacket Unit Unit)}
  {outputs : List (Output Unit Unit)}

/-- Only answers are packets on their way. -/
private theorem transit_of_isAnswer {out : Output Unit Unit} (h : out.isAnswer = false) :
    out.transit = none := by
  cases out with
  | call c => cases h
  | recCount p => rfl
  | dropPkt p => rfl

/-- A packet that answers an entry by going into the air has the message of the entry. -/
theorem Output.AnswersTo.transit {out : Output Unit Unit} {e : QueuedPacket Unit Unit} {x : Transit}
    (h : out.AnswersTo env e) (hx : out.transit = some x) :
    x.message env = entryMessage env e ∧ ∃ payload, Carries env payload x.packet := by
  cases h with
  | error => cases hx
  | settles hcarries hheader hsettles =>
    cases hsettles with
    | unicast hsent =>
      cases hx
      refine ⟨?_, _, hsent⟩
      rw [Transit.message, entryMessage, messageOf, messageOf, hsent.payloadOf_eq,
        hcarries.payloadOf_eq]
      exact congrArg (Message.mk · _) hheader
    | dropPkt hdropped => cases hx

/-- An answer that is no packet on its way reports the entry as dropped. -/
theorem Output.AnswersTo.reports {out : Output Unit Unit} {e : QueuedPacket Unit Unit}
    (h : out.AnswersTo env e) (he : IsCarrier env e) (hout : out.transit = none) :
    Reports env out (entryMessage env e) := by
  cases h with
  -- An error callback hands the queued packet back unchanged
  | error =>
    obtain ⟨payload, hcarries⟩ := he
    have hmessage : Carries env (entryMessage env e).payload e.packet := by
      show Carries env (payloadOf env e.packet) e.packet
      rw [hcarries.payloadOf_eq]
      exact hcarries
    exact .error rfl hmessage
  | settles hcarries hheader hsettles =>
    cases hsettles with
    -- A packet that was sent on is on its way, `hout` says that none is
    | unicast hsent => cases hout
    | dropPkt hdropped =>
      apply Reports.dropPkt
      show Carries env (payloadOf env e.packet) _
      rw [hcarries.payloadOf_eq]
      exact hdropped

/-- The outputs of a node put the messages of the entries that are gone into the air, or report
    their end. -/
private theorem settled_outputs (hq : ∀ e ∈ q, IsCarrier env e)
    (h : Settled (Output.AnswersTo env) q q' (outputs.filter Output.isAnswer)) :
    Settled (Reports env) (q.map (entryMessage env))
        (q'.map (entryMessage env) ++ (outputs.filterMap Output.transit).map (·.message env))
        (outputs.filter Output.isReport) ∧
      ∀ x ∈ outputs.filterMap Output.transit, ∃ payload, Carries env payload x.packet := by
  -- Only answers put a packet on its way, so that filtering by `isAnswer` loses none of them
  have htransit : (outputs.filter Output.isAnswer).filterMap Output.transit =
      outputs.filterMap Output.transit := by
    rw [List.filterMap_filter]
    refine List.filterMap_congr fun out _ => ?_
    cases hanswer : out.isAnswer with
    | true => rfl
    | false => exact (transit_of_isAnswer hanswer).symm
  -- The answers without a packet on its way are the reports
  have hreport : (outputs.filter Output.isAnswer).filter (fun out => out.transit.isNone) =
      outputs.filter Output.isReport := by
    rw [List.filter_filter]
    exact List.filter_congr fun out _ => Bool.and_comm _ _
  -- The messages move from the queue to the air or into the reports
  constructor
  · have hboth : Settled (fun out e => Output.AnswersTo env out e ∧ IsCarrier env e) q q'
        (outputs.filter Output.isAnswer) := h.imp fun out e he hanswer => ⟨hanswer, hq e he⟩
    rw [← htransit, ← hreport]
    exact hboth.place (fun out e x hout hx => (hout.1.transit hx).1)
      fun out e hout hx => hout.1.reports hout.2 hx
  -- What is sent on carries the payload of the entry it answers
  · intro x hx
    rw [← htransit] at hx
    obtain ⟨out, hout, hx⟩ := List.mem_filterMap.mp hx
    obtain ⟨e, -, hanswer⟩ := h.answered hout
    exact (hanswer.transit hx).2

end Outputs

/-! ## What a step keeps -/

section Steps

variable {env : PacketEnv K} {s s' : NetworkState}

/-- The messages in the queues, with those of one node apart. -/
private theorem NetworkState.queued_split {before after : List GpsrNode} {node : GpsrNode}
    (hnode : s.nodes = before ++ node :: after) :
    s.queued env = before.flatMap (fun n => n.packets.queue.queue.map (entryMessage env)) ++
      (node.packets.queue.queue.map (entryMessage env) ++
        after.flatMap fun n => n.packets.queue.queue.map (entryMessage env)) := by
  rw [queued, hnode, List.flatMap_append, List.flatMap_cons]

/-- The messages that are not in the queue of the node between `before` and `after`. -/
def NetworkState.elsewhere (env : PacketEnv K) (s : NetworkState) (before after : List GpsrNode) :
    List Message :=
  s.flying env ++ (before.flatMap (fun n => n.packets.queue.queue.map (entryMessage env)) ++
    (after.flatMap (fun n => n.packets.queue.queue.map (entryMessage env)) ++
      (s.delivered ++ s.lost)))

/-- At the start there are no packets. -/
theorem NetworkState.Conserves.start (env : PacketEnv K) (addresses : List UInt32) :
    (NetworkState.start addresses).Conserves env where
  -- Nothing is in the air and every queue is empty
  flying _ hx := nomatch hx
  queued node hnode e he := by
    obtain ⟨address, -, rfl⟩ := List.mem_map.mp hnode
    cases he
  bounded node hnode := by
    obtain ⟨address, -, rfl⟩ := List.mem_map.mp hnode
    have hpos : 0 < maxQueueLen.toNat := by decide
    exact ⟨hpos, Nat.zero_le _⟩
  settled := by
    have hnil : (NetworkState.start addresses).accounted env = [] := by
      simp [NetworkState.accounted, NetworkState.flying, NetworkState.queued,
        NetworkState.start, DeferredPackets.new]
    rw [hnil]
    exact .refl []

/-- A node takes what is in its queue, and perhaps a new message, and leaves some of it there;
    what it puts out accounts for the rest. -/
theorem NetworkState.Conserves.node_step {before after : List GpsrNode} {node : GpsrNode}
    {packets : DeferredPackets Unit Unit} {came : List (QueuedPacket Unit Unit)}
    {outputs : List (Output Unit Unit)} (h : s.Conserves env)
    (hnode : s.nodes = before ++ node :: after) (hcame : ∀ e ∈ came, IsCarrier env e)
    (hbounded : packets.queue.Bounded) (hleft : ∀ e ∈ packets.queue.queue, IsCarrier env e)
    (hsettled : Settled (Output.AnswersTo env) (node.packets.queue.queue ++ came)
      packets.queue.queue (outputs.filter Output.isAnswer)) :
    (NetworkState.emit { s with
      nodes := before ++ { node with packets } :: after
      sent := s.sent ++ came.map (entryMessage env) } outputs).Conserves env := by
  have hmem : node ∈ s.nodes := by rw [hnode]; simp
  -- What the step settles are carriers: the old queue and the packet that came
  have hq : ∀ e ∈ node.packets.queue.queue ++ came, IsCarrier env e := by
    intro e he
    rcases List.mem_append.mp he with he | he
    · exact h.queued node hmem e he
    · exact hcame e he
  obtain ⟨hmessages, hflying⟩ := settled_outputs hq hsettled
  constructor
  -- In the air: the packets from before and those the outputs put there
  · intro x hx
    rcases List.mem_append.mp hx with hx | hx
    · exact h.flying x hx
    · exact hflying x hx
  -- Of the queues only the one of `node` has changed
  · exact forall_mem_replace (hnode ▸ h.queued) hleft
  · exact forall_mem_replace (hnode ▸ h.bounded) hbounded
  · -- The new messages come, and then those of the node move
    have hcome := h.settled.come (came.map (entryMessage env))
    have hold : (s.accounted env ++ came.map (entryMessage env)).Perm
        (s.elsewhere env before after ++
          (node.packets.queue.queue ++ came).map (entryMessage env)) := by
      rw [NetworkState.accounted, NetworkState.queued_split hnode, NetworkState.elsewhere,
        List.map_append, ← Multiset.coe_eq_coe]
      simp only [← Multiset.coe_add]
      abel
    have hnew : (s.elsewhere env before after ++
          (packets.queue.queue.map (entryMessage env) ++
            (outputs.filterMap Output.transit).map (·.message env))).Perm
        ((NetworkState.emit { s with
          nodes := before ++ { node with packets } :: after
          sent := s.sent ++ came.map (entryMessage env) } outputs).accounted env) := by
      have hsplit : (NetworkState.emit { s with
          nodes := before ++ { node with packets } :: after
          sent := s.sent ++ came.map (entryMessage env) } outputs).accounted env =
            (s.flying env ++ (outputs.filterMap Output.transit).map (·.message env)) ++
              (before.flatMap (fun n => n.packets.queue.queue.map (entryMessage env)) ++
                (packets.queue.queue.map (entryMessage env) ++
                  after.flatMap fun n => n.packets.queue.queue.map (entryMessage env)) ++
                (s.delivered ++ s.lost)) := by
        show (s.inFlight ++ outputs.filterMap Output.transit).map _ ++
          ((before ++ { node with packets } :: after).flatMap _ ++ (s.delivered ++ s.lost)) = _
        rw [List.map_append, List.flatMap_append, List.flatMap_cons]
        rfl
      rw [hsplit, NetworkState.elsewhere, ← Multiset.coe_eq_coe]
      simp only [← Multiset.coe_add]
      abel
    exact hcome.move _ hold hmessages hnew

/-- The messages with that of one packet in the air apart. -/
private theorem NetworkState.accounted_take {before after : List Transit} {x : Transit}
    (hflight : s.inFlight = before ++ x :: after) :
    (s.accounted env).Perm
      (({ s with inFlight := before ++ after } : NetworkState).accounted env ++
        [x.message env]) := by
  -- The packet `x` taken out of its place in the air
  have hsplit : s.flying env =
      before.map (·.message env) ++ x.message env :: after.map (·.message env) := by
    rw [flying, hflight, List.map_append, List.map_cons]
  have hleft : ({ s with inFlight := before ++ after } : NetworkState).accounted env =
      before.map (·.message env) ++ after.map (·.message env) ++
        (s.queued env ++ (s.delivered ++ s.lost)) := by
    show (before ++ after).map _ ++ (s.queued env ++ (s.delivered ++ s.lost)) = _
    rw [List.map_append]
  rw [accounted, hsplit, hleft, ← List.singleton_append, ← Multiset.coe_eq_coe]
  simp only [← Multiset.coe_add]
  abel

/-- A message is sent by a route. -/
theorem NetworkState.Conserves.route (h : s.Conserves env) {gateway source dst : UInt32}
    {payload packet : List UInt8} (hcarries : Carries env payload packet) :
    ({ s with
      inFlight := s.inFlight ++ [⟨gateway, ⟨source, dst⟩, packet⟩]
      sent := s.sent ++ [⟨dst, payload⟩] } : NetworkState).Conserves env where
  -- The packet the upper layer has handed over is in the air, and one more message is sent
  flying x hx := by
    rcases List.mem_append.mp hx with hx | hx
    · exact h.flying x hx
    · rw [List.mem_singleton.mp hx]
      exact ⟨payload, hcarries⟩
  queued := h.queued
  bounded := h.bounded
  settled := by
    apply (h.settled.come [⟨dst, payload⟩]).perm
    -- The new packet stands for just the new message
    have hmessage : ([⟨gateway, ⟨source, dst⟩, packet⟩] : List Transit).map (·.message env) =
        [⟨dst, payload⟩] := by
      rw [List.map_singleton, Transit.message, messageOf, hcarries.payloadOf_eq]
    have hnew : ({ s with
        inFlight := s.inFlight ++ [⟨gateway, ⟨source, dst⟩, packet⟩]
        sent := s.sent ++ [⟨dst, payload⟩] } : NetworkState).accounted env =
          s.flying env ++ [⟨dst, payload⟩] ++ (s.queued env ++ (s.delivered ++ s.lost)) := by
      show (s.inFlight ++ _).map _ ++ (s.queued env ++ (s.delivered ++ s.lost)) = _
      rw [List.map_append, hmessage]
      rfl
    rw [hnew, NetworkState.accounted, ← Multiset.coe_eq_coe]
    simp only [← Multiset.coe_add]
    abel

/-- A packet is taken from the air, and what is done with it accounts for its message. -/
theorem NetworkState.Conserves.take (h : s.Conserves env) {before after : List Transit}
    {x : Transit} {transits : List Transit} {delivered lost : List Message}
    {reports : List (Output Unit Unit)} (hflight : s.inFlight = before ++ x :: after)
    (htransits : ∀ y ∈ transits, ∃ payload, Carries env payload y.packet)
    (hsettled : Settled (Reports env) [x.message env]
      (transits.map (·.message env) ++ (delivered ++ lost)) reports) :
    ({ s with
      inFlight := before ++ after ++ transits
      delivered := s.delivered ++ delivered
      lost := s.lost ++ lost
      reports := s.reports ++ reports } : NetworkState).Conserves env where
  -- In the air: what stays of the old packets, and what `x` has become
  flying y hy := by
    rcases List.mem_append.mp hy with hy | hy
    · apply h.flying y
      rw [hflight]
      rcases List.mem_append.mp hy with hy | hy
      · exact List.mem_append_left _ hy
      · exact List.mem_append_right _ (List.mem_cons_of_mem _ hy)
    · exact htransits y hy
  queued := h.queued
  bounded := h.bounded
  settled := by
    -- One message moves: from the packet `x` to its successor, the delivered or the lost ones
    apply h.settled.move _ (NetworkState.accounted_take hflight) hsettled
    have hold : ({ s with inFlight := before ++ after } : NetworkState).accounted env =
        (before ++ after).map (·.message env) ++
          (s.queued env ++ (s.delivered ++ s.lost)) := rfl
    have hnew : ({ s with
        inFlight := before ++ after ++ transits
        delivered := s.delivered ++ delivered
        lost := s.lost ++ lost
        reports := s.reports ++ reports } : NetworkState).accounted env =
          (before ++ after).map (·.message env) ++ transits.map (·.message env) ++
            (s.queued env ++ (s.delivered ++ delivered ++ (s.lost ++ lost))) := by
      show (before ++ after ++ transits).map _ ++
        (s.queued env ++ (s.delivered ++ delivered ++ (s.lost ++ lost))) = _
      rw [List.map_append]
    rw [hold, hnew, ← Multiset.coe_eq_coe]
    simp only [← Multiset.coe_add]
    abel

variable [Field K] [LinearOrder K]

/-- A packet that comes to a node is delivered there, if that is its destination, and else it is
    sent on or reported as dropped. -/
private theorem routeInput_arriving {payload : List UInt8} {x : Transit}
    (h : Carries env payload x.packet) (now : Int) (t : NeighborTable K)
    (locationService : LocationService K) (pos : Vector3D K) :
    (x.header.destination = x.gateway ∧ routeInput env now t locationService pos x.packet x.header
        (arriving x.gateway x.header.destination) = .ok (.deliver payload)) ∨
      x.header.destination ≠ x.gateway ∧ ∃ outputs out,
        routeInput env now t locationService pos x.packet x.header
          (arriving x.gateway x.header.destination) = .ok (.forwarded true outputs) ∧
        outputs.filter Output.isAnswer = [out] ∧
          Output.Settles env payload () x.header.destination x.header out := by
  -- RouteInput first asks whether the packet is for this node
  by_cases hdst : x.header.destination = x.gateway
  -- For this node: the TypeHeader opens and the payload goes up
  · obtain ⟨hdr, hopen⟩ := h.open
    refine .inl ⟨hdst, ?_⟩
    simp only [routeInput, arriving, hdst, hopen, bind, Except.bind, TypeHeader.new,
      Bool.false_eq_true, false_and, if_false, decide_true, if_true, Bool.true_eq_false]
    rfl
  -- For another node: Forwarding answers with one output
  · obtain ⟨outputs, out, hok, hanswer, hsettles⟩ := forwardingPacket_of_carries (E := Unit) h now t
      locationService pos () x.header
    refine .inr ⟨hdst, outputs, out, ?_, hanswer, hsettles⟩
    simp only [routeInput, arriving, hdst, hok, bind, Except.bind, Bool.false_eq_true, false_and,
      if_false, decide_false]
    rfl

/-- Every step keeps the invariant. -/
theorem NetworkState.Conserves.step (h : s.Conserves env) (hstep : NetworkStep env s s') :
    s'.Conserves env := by
  cases hstep with
  | route hsource hunicast hroute =>
    exact h.route (carries_newPacket env _ _ _ _)
  | @defer now t t' locationService pos oifDiffers dst payload before after node uid entry calls
      packets hnode hroute hnew hinput hdefer =>
    -- `RouteInput` makes an entry of the packet
    simp only [routeInput, loopedBack, and_self, if_true] at hinput
    cases hinput
    have hcarries := carries_newPacket env locationService pos dst payload
    have hmem : node ∈ s.nodes := by rw [hnode]; simp
    obtain ⟨hbounded, -, hleft, -⟩ := deferredRouteOutput_leaves (h.bounded node hmem) hdefer
    have hsettled := deferredRouteOutput_settled (R := fun c e => Output.AnswersTo env (.call c) e)
      .error (h.bounded node hmem) hnew hdefer
    have hanswers : Settled (Output.AnswersTo env) _ _ (calls.map Output.call) := hsettled.map
    rw [← filter_isAnswer_calls] at hanswers
    have hstepped := h.node_step hnode (by
      intro e he
      rw [List.mem_singleton.mp he]
      exact ⟨payload, hcarries⟩) hbounded (by
      intro e he
      rcases hleft e he with rfl | he
      · exact ⟨payload, hcarries⟩
      · exact h.queued node hmem e (List.mem_of_mem_filter he)) hanswers
    rw [List.map_singleton, entryMessage, messageOf] at hstepped
    have hpayload := hcarries.payloadOf_eq
    simp only [QueuedPacket.setExpireTime, hpayload] at hstepped
    exact hstepped
  | @receive now t locationService pos before after x input hflight hinput =>
    obtain ⟨payload, hcarries⟩ := h.flying x (by rw [hflight]; simp)
    have hmessage : x.message env = ⟨x.header.destination, payload⟩ := by
      rw [Transit.message, messageOf, hcarries.payloadOf_eq]
    rcases routeInput_arriving hcarries now t locationService pos with
      ⟨hdst, hok⟩ | ⟨-, outputs, out, hok, hanswer, hsettles⟩
    · cases hok.symm.trans hinput
      have hdelivered : Settled (Reports env) [x.message env]
          (([] : List Transit).map (·.message env) ++ ([⟨x.gateway, payload⟩] ++ [])) [] := by
        rw [hmessage, hdst]
        exact .refl _
      have htaken := h.take hflight (by simp) hdelivered
      simp only [List.append_nil] at htaken
      exact htaken
    · cases hok.symm.trans hinput
      -- The outputs are those for an entry with the packet
      have hentry : Settled (Output.AnswersTo env)
          [(⟨⟨x.packet, x.header, (), (), 0⟩, 0⟩ : QueuedPacket Unit Unit)] []
          (outputs.filter Output.isAnswer) := by
        rw [hanswer]
        exact .of_perm (.refl _) (.settles hcarries rfl hsettles)
      obtain ⟨hmessages, hflying⟩ := settled_outputs (by
        intro e he
        rw [List.mem_singleton.mp he]
        exact ⟨payload, hcarries⟩) hentry
      have hmoved : Settled (Reports env) [x.message env]
          ((outputs.filterMap Output.transit).map (·.message env) ++ ([] ++ []))
          (outputs.filter Output.isReport) := by
        rw [List.append_nil, List.append_nil]
        exact hmessages
      have htaken := h.take hflight hflying hmoved
      simp only [List.append_nil] at htaken
      exact htaken
  | @lose before after x payload hflight hopen =>
    obtain ⟨payload', hcarries⟩ := h.flying x (by rw [hflight]; simp)
    obtain ⟨hdr, hopened⟩ := hcarries.open
    rw [hopened] at hopen
    cases hopen
    have hlost : Settled (Reports env) [x.message env]
        (([] : List Transit).map (·.message env) ++ ([] ++ [⟨x.header.destination, payload'⟩]))
        [] := by
      rw [Transit.message, messageOf, hcarries.payloadOf_eq]
      exact .refl _
    have htaken := h.take hflight (by simp) hlost
    simp only [List.append_nil] at htaken
    exact htaken
  | @checkQueue now t t' senv before after node outputs packets hnode henv haddress hcheck =>
    subst henv
    have hmem : node ∈ s.nodes := by rw [hnode]; simp
    have hsound : (sendPackets senv now : SendPacket Unit Unit _ _ _).Sound _ fun _ => True :=
      sendPackets_sound senv now _ fun _ _ => trivial
    have hshrinks := checkQueue_shrinks hsound (h.queued node hmem) hcheck
    have hanswers := checkQueue_settled hsound sendPackets_settled (h.queued node hmem) hcheck
    rw [← List.append_nil node.packets.queue.queue] at hanswers
    have hstepped := h.node_step hnode (by simp) (hshrinks.bounded (h.bounded node hmem))
      (fun e he => h.queued node hmem e (hshrinks.sublist.subset he)) hanswers
    rw [List.map_nil, List.append_nil] at hstepped
    exact hstepped

/-- The invariant holds in every run. -/
theorem NetworkState.Conserves.run (h : s.Conserves env)
    (hrun : ReflTransGen (NetworkStep env) s s') : s'.Conserves env := by
  induction hrun with
  | refl => exact h
  | tail _ hstep ih => exact ih.step hstep

end Steps

/-! ## Runs -/

section Runs

variable [Field K] [LinearOrder K]

/-- Let the nodes of a network send, receive and check their queues in any order. Then whatever they
    do next succeeds: a packet in the air is delivered with its payload at the node that it is for,
    and sent on or dropped at any other, every queue has room for a packet that is deferred, and
    every queue can be checked. The messages in the air, in the queues, delivered and lost in the
    air, together with one for each report that is about it, are those that were sent, each as often
    as it was sent. -/
theorem network_conserves (env : PacketEnv K) (addresses : List UInt32) {s : NetworkState}
    (hrun : ReflTransGen (NetworkStep env) (.start addresses) s) :
    (∀ x ∈ s.inFlight, ∀ now t locationService pos, ∃ input,
        routeInput env now t locationService pos x.packet x.header
          (arriving x.gateway x.header.destination) = .ok input ∧
        if x.header.destination = x.gateway then input = .deliver (payloadOf env x.packet)
        else ∃ outputs, input = .forwarded true outputs) ∧
      (∀ node ∈ s.nodes, ∀ now entry, ∃ r, deferredRouteOutput now entry node.packets = some r) ∧
      (∀ node ∈ s.nodes, ∀ (senv : SendEnv K) now t, senv.toPacketEnv = env →
        ∃ r, checkQueue (sendPackets senv now) now t node.packets = .ok r) ∧
      ∃ gone, s.sent.Perm (s.flying env ++ (s.queued env ++ (s.delivered ++ s.lost)) ++ gone) ∧
        List.Forall₂ (Reports env) s.reports gone := by
  -- The invariant of the run gives all four parts
  have h := (NetworkState.Conserves.start env addresses).run hrun
  refine ⟨fun x hx now t locationService pos => ?_, fun node hnode now entry => ?_,
    fun node hnode senv now t henv => ?_, h.settled⟩
  -- An arriving packet carries a payload, so RouteInput does not abort on it
  · obtain ⟨payload, hcarries⟩ := h.flying x hx
    rcases routeInput_arriving hcarries now t locationService pos with
      ⟨hdst, hok⟩ | ⟨hdst, outputs, out, hok, -, -⟩
    · exact ⟨_, hok, by rw [if_pos hdst, hcarries.payloadOf_eq]⟩
    · exact ⟨_, hok, by rw [if_neg hdst]; exact ⟨outputs, rfl⟩⟩
  · exact deferredRouteOutput_ok (h.bounded node hnode) now entry
  · subst henv
    exact checkQueue_sendPackets_ok senv now t (h.queued node hnode)

end Runs

/-- A table with node 9 as the only neighbour. -/
def pairTable : NeighborTable ℚ := .own ⟨[⟨9, ⟨1, 0, 0⟩, 0⟩], List.pairwise_singleton ..⟩

/-- The packet of node 1 with payload 7 for node 9. -/
def pairPacket : List UInt8 := newPacket wireEnv voidService ⟨0, 0, 0⟩ 9 [7]

/-- The network of nodes 1 and 9 with the packet in the air. -/
def pairSent : NetworkState :=
  ⟨[⟨1, .new⟩, ⟨9, .new⟩], [⟨9, ⟨1, 9⟩, pairPacket⟩], [⟨9, [7]⟩], [], [], []⟩

/-- The network after it has been delivered. -/
def pairDelivered : NetworkState :=
  ⟨[⟨1, .new⟩, ⟨9, .new⟩], [], [⟨9, [7]⟩], [⟨9, [7]⟩], [], []⟩

/-- Two nodes, one of which has sent a packet to the other. -/
theorem network_conserves_pair :
    (∀ x ∈ pairDelivered.inFlight, ∀ now t locationService pos, ∃ input,
        routeInput wireEnv now t locationService pos x.packet x.header
          (arriving x.gateway x.header.destination) = .ok input ∧
        if x.header.destination = x.gateway then input = .deliver (payloadOf wireEnv x.packet)
        else ∃ outputs, input = .forwarded true outputs) ∧
      (∀ node ∈ pairDelivered.nodes, ∀ now entry, ∃ r,
        deferredRouteOutput now entry node.packets = some r) ∧
      (∀ node ∈ pairDelivered.nodes, ∀ (senv : SendEnv ℚ) now t, senv.toPacketEnv = wireEnv →
        ∃ r, checkQueue (sendPackets senv now) now t node.packets = .ok r) ∧
      ∃ gone, pairDelivered.sent.Perm (pairDelivered.flying wireEnv ++
          (pairDelivered.queued wireEnv ++ (pairDelivered.delivered ++ pairDelivered.lost)) ++
            gone) ∧
        List.Forall₂ (Reports wireEnv) pairDelivered.reports gone := by
  -- The neighbour 9 is closer than the node itself, so the packet is handed to it
  have hroute : (pairTable.routeOutput wireEnv.toRecoveryEnv 0 voidService ⟨0, 0, 0⟩ true true
      false 9).1 = .route 9 := by decide +kernel
  have hsent : NetworkStep wireEnv (.start [1, 9]) pairSent :=
    .route (by decide) (by decide) (Prod.ext hroute rfl)
  -- The only packet in the air is the one that arrives
  have hflight : pairSent.inFlight = [] ++ ⟨9, ⟨1, 9⟩, pairPacket⟩ :: [] := rfl
  have hinput : routeInput wireEnv 0 pairTable voidService ⟨1, 0, 0⟩ pairPacket ⟨1, 9⟩
      (arriving 9 9) = .ok (.deliver [7]) := rfl
  have hreceived : NetworkStep wireEnv pairSent
      (NetworkState.input { pairSent with inFlight := [] ++ [] } 9 (.deliver [7])) :=
    .receive hflight hinput
  exact network_conserves wireEnv [1, 9] ((ReflTransGen.single hsent).tail hreceived)

end MapRelay.NS3.Gpsr
