import MapRelay.Spec.DeferredPackets

/-!
# How long a deferred packet waits

`CheckQueue` may leave packets for a destination in the queue. As long as it takes out the first
of them each time, a packet comes nearer to its turn, and it waits half a second for each packet in
front of it that is for the same destination.
-/

namespace MapRelay.NS3

open ForStd
open GeoSvr (Callback)
open Relation (ReflTransGen)

variable {U E ε σ γ : Type}

/-! ## Packets in front -/

/-- The packet is in the queue, behind at most `k` packets for the same destination. -/
def Behind (e : QueuedPacket U E) (k : Nat) (queue : List (QueuedPacket U E)) : Prop :=
  ∃ before after, queue = before ++ e :: after ∧
    before.countP (RequestQueue.isEqual e.destination) ≤ k

section Behind

variable {e : QueuedPacket U E} {k : Nat} {queue queue' : List (QueuedPacket U E)}

/-- An entry that is behind others is in the queue. -/
theorem Behind.mem (h : Behind e k queue) : e ∈ queue := by
  obtain ⟨before, after, rfl, -⟩ := h
  simp

/-- New entries are put behind it. -/
theorem Behind.append (h : Behind e k queue) (added : List (QueuedPacket U E)) :
    Behind e k (queue ++ added) := by
  obtain ⟨before, after, rfl, hle⟩ := h
  exact ⟨before, after ++ added, by simp, hle⟩

/-- When others leave, no packet comes in front of it. -/
theorem Behind.sublist (h : Behind e k queue) (hdistinct : (queue.map QueuedPacket.key).Nodup)
    (hsub : queue'.Sublist queue) (he : e ∈ queue') : Behind e k queue' := by
  obtain ⟨before, after, rfl, hle⟩ := h
  have hnodup := List.Nodup.of_map _ hdistinct
  obtain ⟨hnot, -⟩ := List.nodup_cons.mp (List.nodup_middle.mp hnodup)
  rw [List.mem_append, not_or] at hnot
  obtain ⟨front, back, rfl, hfront, hback⟩ := List.sublist_append_iff.mp hsub
  have hmem : e ∈ back := (List.mem_append.mp he).resolve_left fun hmem =>
    hnot.1 (hfront.subset hmem)
  rcases List.sublist_cons_iff.mp hback with hback | ⟨rest, rfl, -⟩
  · exact absurd (hback.subset hmem) hnot.2
  · exact ⟨front, rest, rfl, (hfront.countP_le).trans hle⟩

/-- When the first packet for its destination leaves, that was in front of it. -/
theorem Behind.eraseP (h : Behind e k queue) (hdistinct : (queue.map QueuedPacket.key).Nodup)
    (he : e ∈ queue.eraseP (RequestQueue.isEqual e.destination)) :
    0 < k ∧ Behind e (k - 1) (queue.eraseP (RequestQueue.isEqual e.destination)) := by
  obtain ⟨before, after, rfl, hle⟩ := h
  have hself : RequestQueue.isEqual e.destination e = true := beq_iff_eq.mpr rfl
  -- One of those before it goes, so that it moves up
  by_cases hfirst : ∃ b ∈ before, RequestQueue.isEqual e.destination b = true
  · obtain ⟨b, hb, hdst⟩ := hfirst
    obtain ⟨a, front, rest, hfront, ha, rfl, herase⟩ := List.exists_of_eraseP hb hdst
    rw [List.eraseP_append_left hdst _ hb, herase]
    rw [List.countP_append, List.countP_cons_of_pos ha] at hle
    refine ⟨by omega, front ++ rest, after, rfl, ?_⟩
    rw [List.countP_append]
    omega
  · -- It is the first itself, and not in the queue twice
    have hnone : ∀ b ∈ before, ¬ RequestQueue.isEqual e.destination b = true :=
      fun b hb hdst => hfirst ⟨b, hb, hdst⟩
    rw [List.eraseP_append_right _ hnone, List.eraseP_cons_of_pos hself] at he
    have hnodup := List.Nodup.of_map _ hdistinct
    exact absurd he (List.nodup_cons.mp (List.nodup_middle.mp hnodup)).1

end Behind

/-! ## What a step does to the order -/

/-- For packets as in `entries`, `SendPacketFromQueue` takes out the first packet for every
    destination that is not held. -/
def SendPacket.Advances (entries : QueuedPacket U E → Prop) (held : UInt32 → Prop)
    (send : SendPacket U E ε σ γ) : Prop :=
  ∀ {dst t q done t' q' calls}, (∀ e ∈ q.queue, entries e) →
    send dst t q = .ok (done, t', q', calls) → ¬ held dst →
      q'.queue.Sublist (q.queue.eraseP (RequestQueue.isEqual dst))

section Steps

variable {entries : QueuedPacket U E → Prop} {held searched : UInt32 → Prop}
  {send : SendPacket U E ε σ γ} {now : Int} {s s' : DeferredPackets U E}

/-- `CheckQueue` takes out the first packet for each of the addresses that are not held. -/
theorem checkQueue_advances (hsend : send.Sound entries held)
    (hadvances : send.Advances entries searched) {dst : UInt32} (hfree : ¬ searched dst)
    {t t' : σ} {calls : List γ} (hentries : ∀ e ∈ s.queue.queue, entries e)
    (hdst : dst ∈ s.queuedAddresses) (h : checkQueue send now t s = .ok (calls, t', s')) :
    s'.queue.queue.Sublist (s.queue.queue.eraseP (RequestQueue.isEqual dst)) := by
  -- The induction is on the addresses, of which `dst` is one
  have hloop : ∀ (addresses toRemove toRemove' : List UInt32) (t t' : σ) (q q' : RequestQueue U E)
      (calls : List γ), (∀ e ∈ q.queue, entries e) → dst ∈ addresses →
      checkLoop send addresses toRemove t q = .ok (toRemove', t', q', calls) →
      q'.queue.Sublist (q.queue.eraseP (RequestQueue.isEqual dst)) := by
    intro addresses
    induction addresses with
    | nil => exact fun _ _ _ _ _ _ _ _ hmem => nomatch hmem
    | cons a addresses ih =>
      intro toRemove toRemove' t t' q q' calls hq hmem h
      obtain ⟨⟨done, t₁, q₁, calls₁⟩, hfirst, h⟩ := bind_eq_ok.mp h
      obtain ⟨⟨toRemove₂, t₂, q₂, calls₂⟩, hrest, h⟩ := bind_eq_ok.mp h
      cases h
      have hshrinks := hsend.shrinks hq hfirst
      have hq₁ : ∀ e ∈ q₁.queue, entries e := fun e he => hq e (hshrinks.sublist.subset he)
      -- This is the round for `dst`, the later ones only take packets out
      rcases List.mem_cons.mp hmem with rfl | hmem
      · have hleaves := checkLoop_leaves hsend hq₁ hrest
        exact hleaves.shrinks.sublist.trans (hadvances hq hfirst hfree)
      · exact (ih _ _ _ _ _ _ _ hq₁ hmem hrest).trans hshrinks.sublist.eraseP
  obtain ⟨⟨toRemove, t₁, q, calls₁⟩, hok, h⟩ := bind_eq_ok.mp h
  cases h
  exact hloop _ _ _ _ _ _ _ _ hentries hdst hok

/-- A packet comes in behind those that stay, none of which it is, and the timer is left alone
    where one stays. -/
theorem deferredRouteOutput_order (hs : s.queue.Bounded) (htimeout : 0 ≤ s.queue.queueTimeout)
    {entry : QueuedPacket U E} {calls : List (Callback U E)}
    (h : deferredRouteOutput now entry s = some (calls, s')) :
    ∃ kept added, s'.queue.queue = kept ++ added ∧ kept.Sublist s.queue.queue ∧
      ((s.queue.queue.map QueuedPacket.key).Nodup → (s'.queue.queue.map QueuedPacket.key).Nodup) ∧
      (∀ e ∈ added, e ∉ s.queue.queue) ∧
      (kept ≠ [] → s'.checkQueueTimer = s.checkQueueTimer) := by
  obtain ⟨-, -, -, -, htimer⟩ := deferredRouteOutput_leaves hs h
  obtain ⟨⟨calls₁, accepted, q⟩, henqueue, h⟩ := Option.bind_eq_some_iff.mp h
  cases h
  have hpurge := RequestQueue.shrinks_purge now s.queue
  have hbounded := hpurge.bounded hs
  have hagain := (RequestQueue.shrinks_purge now (s.queue.purge now).2).sublist
  have hstays : ∀ {kept : List (QueuedPacket U E)},
      kept.Sublist (s.queue.purge now).2.queue → kept ≠ [] →
        (if (s.queue.purge now).2.queue = [] then some (now + checkInterval)
          else s.checkQueueTimer) = s.checkQueueTimer := by
    intro kept hsub hne
    refine if_neg fun hnil => hne ?_
    rw [hnil] at hsub
    exact List.sublist_nil.mp hsub
  -- An entry that comes in is another one than all that are there, expired ones included
  have hnew : entry.key ∉ ((s.queue.purge now).2.purge now).2.queue.map QueuedPacket.key →
      entry.setExpireTime now s.queue.queueTimeout ∉ s.queue.queue := by
    intro hkey hmem
    have hlive : RequestQueue.isExpired now
        (entry.setExpireTime now s.queue.queueTimeout) = false := by
      have hlater : ¬ s.queue.queueTimeout + now - now < 0 := by omega
      exact decide_eq_false hlater
    apply hkey
    refine List.mem_map.mpr ⟨entry.setExpireTime now s.queue.queueTimeout, ?_, rfl⟩
    have hkeep : (!RequestQueue.isExpired now
        (entry.setExpireTime now s.queue.queueTimeout)) = true := by rw [hlive]; rfl
    exact List.mem_filter.mpr ⟨List.mem_filter.mpr ⟨hmem, hkeep⟩, hkeep⟩
  have hdistinct : ∀ {kept : List (QueuedPacket U E)}, kept.Sublist s.queue.queue →
      (∀ e ∈ kept, e.key ≠ entry.key) → (s.queue.queue.map QueuedPacket.key).Nodup →
      ((kept ++ [entry.setExpireTime now s.queue.queueTimeout]).map QueuedPacket.key).Nodup := by
    intro kept hsub hother hnodup
    rw [List.map_append]
    refine List.nodup_append.mpr ⟨hnodup.sublist (hsub.map _), List.nodup_singleton _, ?_⟩
    intro a ha b hb
    obtain ⟨e, he, rfl⟩ := List.mem_map.mp ha
    rw [List.mem_singleton.mp hb]
    exact hother e he
  rcases RequestQueue.enqueue_cases hbounded now entry with
    ⟨-, hok⟩ | ⟨hkey, ⟨front, rest, hqueue, -, hok⟩ | ⟨-, hok⟩⟩
  · cases hok.symm.trans henqueue
    refine ⟨_, [], (List.append_nil _).symm, hagain.trans hpurge.sublist, fun hnodup =>
      hnodup.sublist ((hagain.trans hpurge.sublist).map _), by simp, fun hne => ?_⟩
    exact htimer.trans (hstays hagain hne)
  · cases hok.symm.trans henqueue
    have hrest : rest.Sublist (s.queue.purge now).2.queue := by
      rw [hqueue] at hagain
      exact (List.sublist_cons_self front rest).trans hagain
    refine ⟨rest, _, rfl, hrest.trans hpurge.sublist, ?_, ?_, fun hne => ?_⟩
    · apply hdistinct (hrest.trans hpurge.sublist)
      intro e he heq
      rw [hqueue] at hkey
      exact hkey (heq ▸ List.mem_map.mpr ⟨e, List.mem_cons_of_mem _ he, rfl⟩)
    · intro e he
      rw [List.mem_singleton.mp he]
      exact hnew hkey
    · exact htimer.trans (hstays hrest hne)
  · cases hok.symm.trans henqueue
    refine ⟨_, _, rfl, hagain.trans hpurge.sublist, ?_, ?_, fun hne => ?_⟩
    · apply hdistinct (hagain.trans hpurge.sublist)
      intro e he heq
      exact hkey (heq ▸ List.mem_map.mpr ⟨e, he, rfl⟩)
    · intro e he
      rw [List.mem_singleton.mp he]
      exact hnew hkey
    · exact htimer.trans (hstays hagain hne)

end Steps

/-! ## Runs -/

section Runs

variable {entries : QueuedPacket U E → Prop} {held searched : UInt32 → Prop}
  {sends : Int → SendPacket U E ε σ γ → Prop} {s s' : Deferring U E} {e : QueuedPacket U E}

/-- No two packets in the queue are the same for the same destination. -/
def Deferring.Distinct (s : Deferring U E) : Prop :=
  (s.packets.queue.queue.map QueuedPacket.key).Nodup

/-- The packet has its turn by `bound`: the timer runs out once for each packet in front. -/
structure Deferring.Awaits (e : QueuedPacket U E) (bound : Int) (s : Deferring U E) : Prop where
  distinct : s.Distinct
  turn : ∃ k t, Behind e k s.packets.queue.queue ∧ s.packets.checkQueueTimer = some t ∧
    t + k * checkInterval ≤ bound

/-- Every step keeps the entries distinct. -/
theorem Deferring.Distinct.step (hsends : ∀ now send, sends now send → send.Sound entries held)
    (hkept : s.Kept entries held) (h : s.Distinct) (hstep : DeferringStep entries sends s s') :
    s'.Distinct := by
  -- The key has no expiry in it, a distinct packet stays so when its expiry is set
  have htimeout : 0 ≤ s.packets.queue.queueTimeout := by
    rw [hkept.timeout]
    decide
  cases hstep with
  | deferredRouteOutput hnow htimer hentry hdefer =>
    obtain ⟨kept, added, -, -, hdistinct, -⟩ :=
      deferredRouteOutput_order hkept.bounded htimeout hdefer
    exact hdistinct h
  | checkQueue htimer hsend hcheck =>
    have hshrinks := checkQueue_shrinks (hsends _ _ hsend) hkept.entries hcheck
    exact List.Nodup.sublist (hshrinks.sublist.map _) h

/-- As long as the packet stays, its turn comes no later. -/
theorem Deferring.Awaits.step (hsends : ∀ now send, sends now send → send.Sound entries held)
    (hadvances : ∀ now send, sends now send → send.Advances entries searched)
    (hfree : ¬ searched e.destination) {bound : Int} (hkept : s.Kept entries held)
    (h : s.Awaits e bound) (hstep : DeferringStep entries sends s s')
    (he : e ∈ s'.packets.queue.queue) : s'.Awaits e bound := by
  have hdistinct := h.distinct.step hsends hkept hstep
  have htimeout : 0 ≤ s.packets.queue.queueTimeout := by
    rw [hkept.timeout]
    decide
  obtain ⟨k, t, hbehind, htimer, hle⟩ := h.turn
  cases hstep with
  | @deferredRouteOutput now entry calls packets hnow hbefore hentry hdefer =>
    obtain ⟨kept, added, hqueue, hsub, -, hadded, hsame⟩ :=
      deferredRouteOutput_order hkept.bounded htimeout hdefer
    have hstays : e ∈ kept := by
      have hmem : e ∈ kept ++ added := hqueue ▸ he
      exact (List.mem_append.mp hmem).resolve_right fun hnew => hadded e hnew hbehind.mem
    refine ⟨hdistinct, k, t, ?_, (hsame (List.ne_nil_of_mem hstays)).trans htimer, hle⟩
    show Behind e k packets.queue.queue
    rw [hqueue]
    exact (hbehind.sublist h.distinct hsub hstays).append added
  | @checkQueue now send t₀ t₁ calls packets hdue hsend hcheck =>
    cases htimer.symm.trans hdue
    have haddress : e.destination ∈ s.packets.queuedAddresses :=
      hkept.attended.covered e hbehind.mem
    have herase := checkQueue_advances (hsends _ _ hsend) (hadvances _ _ hsend) hfree
      hkept.entries haddress hcheck
    obtain ⟨hpos, hfewer⟩ := hbehind.eraseP h.distinct (herase.subset he)
    -- The timer is set again, as the address stays
    obtain ⟨-, hcovered, hrearmed⟩ := checkQueue_leaves (hsends _ _ hsend) hkept.entries
      hkept.attended.covered hcheck
    have hne := List.ne_nil_of_mem (hcovered e he).1
    have hrearm := (hrearmed.resolve_left fun hnil => hne hnil.1).2
    refine ⟨hdistinct, k - 1, t + checkInterval, ?_, hrearm, ?_⟩
    · exact hfewer.sublist (h.distinct.sublist (List.eraseP_sublist.map _)) herase he
    · have hcast : ((k - 1 : Nat) : Int) = k - 1 := by omega
      rw [hcast, Int.sub_mul]
      omega

/-- A packet that is in the queue behind `k` others for its destination, which is not searched
    for, leaves within `k + 1` periods of the timer. -/
theorem Deferring.served
    (hexpire : ∀ e now exp, entries e → entries (e.setExpireTime now exp))
    (hsends : ∀ now send, sends now send → send.Sound entries held)
    (hadvances : ∀ now send, sends now send → send.Advances entries searched)
    (hkept : s.Kept entries held) (hdistinct : s.Distinct) (hfree : ¬ searched e.destination)
    {k : Nat} (hbehind : Behind e k s.packets.queue.queue)
    (hrun : ReflTransGen (fun a b => DeferringStep entries sends a b ∧
      e ∈ b.packets.queue.queue) s s') :
    s'.now ≤ s.now + (k + 1) * checkInterval := by
  -- The timer is due within the interval, and one packet goes each time
  obtain ⟨t, htimer, -, hle, -⟩ := hkept.attended.due_of_mem hbehind.mem
  have hperiod : (0 : Int) ≤ checkInterval := by decide
  have hstart : s.Awaits e (s.now + (k + 1) * checkInterval) := by
    refine ⟨hdistinct, k, t, hbehind, htimer, ?_⟩
    rw [Int.add_mul, Int.one_mul]
    have hsoon : t ≤ s.now + checkInterval := hle
    omega
  -- In each state of the run the packet is awaited by the same time
  have hend : s'.Kept entries held ∧ s'.Awaits e (s.now + (k + 1) * checkInterval) := by
    induction hrun with
    | refl => exact ⟨hkept, hstart⟩
    | tail _ hstep ih =>
      obtain ⟨hkept', hawaits⟩ := ih
      exact ⟨hkept'.step hexpire hsends hstep.1,
        hawaits.step hsends hadvances hfree hkept' hstep.1 hstep.2⟩
  obtain ⟨hkept', -, k', t', hbehind', htimer', hbound⟩ := hend
  obtain ⟨t'', htimer'', hnow, -⟩ := hkept'.attended.due_of_mem hbehind'.mem
  cases htimer'.symm.trans htimer''
  have hlater : s'.now ≤ t' := hnow
  have hwait : 0 ≤ (k' : Int) * checkInterval := Int.mul_nonneg (by omega) hperiod
  omega

end Runs

end MapRelay.NS3
