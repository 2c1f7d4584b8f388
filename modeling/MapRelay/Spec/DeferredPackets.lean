import MapRelay.ForStd.Deferral
import MapRelay.Spec.RequestQueue

/-!
# No deferred packet is forgotten

`DeferredRouteOutput` and `CheckQueue` keep `m_queuedAddresses` and the timer in step with the
queue: whatever `SendPacketFromQueue` does with the packets, as long as it returns `true` only
for a destination for which none is left.
-/

namespace MapRelay.NS3

open ForStd
open GeoSvr (Callback)

variable {U E ε σ γ : Type}

/-! ## The queue and the addresses -/

namespace RequestQueue

/-- Entries have only been taken out. -/
structure Shrinks (q q' : RequestQueue U E) : Prop where
  maxLen_eq : q'.maxLen = q.maxLen
  queueTimeout_eq : q'.queueTimeout = q.queueTimeout
  sublist : q'.queue.Sublist q.queue

/-- A queue that nothing is done to has not grown. -/
theorem Shrinks.refl (q : RequestQueue U E) : q.Shrinks q := ⟨rfl, rfl, .refl _⟩

/-- Taking out twice is taking out. -/
theorem Shrinks.trans {q q₁ q' : RequestQueue U E} (h : q.Shrinks q₁) (h' : q₁.Shrinks q') :
    q.Shrinks q' where
  maxLen_eq := h'.maxLen_eq.trans h.maxLen_eq
  queueTimeout_eq := h'.queueTimeout_eq.trans h.queueTimeout_eq
  sublist := h'.sublist.trans h.sublist

/-- A queue from which entries are taken out stays within its bound. -/
theorem Shrinks.bounded {q q' : RequestQueue U E} (h : q.Shrinks q') (hq : q.Bounded) :
    q'.Bounded where
  maxLen_pos := h.maxLen_eq ▸ hq.maxLen_pos
  length_le := h.maxLen_eq ▸ h.sublist.length_le.trans hq.length_le

/-- A purge takes entries out. -/
theorem shrinks_purge (now : Int) (q : RequestQueue U E) : q.Shrinks (q.purge now).2 :=
  ⟨rfl, rfl, List.filter_sublist⟩

/-- A packet is taken out after `Purge`. -/
theorem shrinks_take {now : Int} {q : RequestQueue U E} {before after : List (QueuedPacket U E)}
    {e : QueuedPacket U E} (hqueue : (q.purge now).2.queue = before ++ e :: after) :
    q.Shrinks { q with queue := before ++ after } := by
  have hskip : (before ++ after).Sublist (before ++ e :: after) :=
    (List.Sublist.refl before).append (List.sublist_cons_self e after)
  exact (shrinks_purge now q).trans ⟨rfl, rfl, by rw [hqueue]; exact hskip⟩

/-- A round that takes a packet leaves fewer of them, and what holds of all packets holds of the
    one that is taken and of those that are left. -/
theorem round_leaves {P : QueuedPacket U E → Prop} {now : Int} {q : RequestQueue U E}
    {before after : List (QueuedPacket U E)} {e : QueuedPacket U E} {n : Nat}
    (hqueue : (q.purge now).2.queue = before ++ e :: after) (hn : q.queue.length < n + 1)
    (hq : ∀ e ∈ q.queue, P e) :
    P e ∧ (before ++ after).length < n ∧ ∀ i ∈ before ++ after, P i := by
  have hsub := (shrinks_purge now q).sublist
  rw [hqueue] at hsub
  refine ⟨hq e (hsub.subset (by simp)), ?_, fun i hi =>
    hq i ((shrinks_take hqueue).sublist.subset hi)⟩
  have hlen := hsub.length_le
  rw [List.length_append, List.length_cons] at hlen
  rw [List.length_append]
  omega

/-- The drop of the packets for a destination takes entries out. -/
theorem shrinks_dropPacketWithDst (now : Int) (dst : UInt32) (q : RequestQueue U E) :
    q.Shrinks (q.dropPacketWithDst now dst).2 :=
  (shrinks_purge now q).trans ⟨rfl, rfl, List.filter_sublist⟩

/-- It leaves none for that destination. -/
theorem destination_of_mem_dropPacketWithDst {now : Int} {dst : UInt32} {q : RequestQueue U E}
    {e : QueuedPacket U E} (he : e ∈ (q.dropPacketWithDst now dst).2.queue) :
    e.destination ≠ dst := by
  have hother := (List.mem_filter.mp he).2
  intro heq
  simp only [isEqual, GeoSvr.RequestQueue.isEqual, Bool.not_eq_true', beq_eq_false_iff_ne] at hother
  exact hother heq

/-- What is left in the queue by `Enqueue`, and what comes into it. -/
private theorem mem_enqueue {q q' : RequestQueue U E} (hq : q.Bounded) {now : Int}
    {entry : QueuedPacket U E} {calls : List (Callback U E)} {added : Bool}
    (h : q.enqueue now entry = some (calls, added, q')) :
    q'.Bounded ∧ q'.maxLen = q.maxLen ∧ q'.queueTimeout = q.queueTimeout ∧
      ∀ e ∈ q'.queue, e = entry.setExpireTime now q.queueTimeout ∨ e ∈ (q.purge now).2.queue := by
  have hpurged := (shrinks_purge now q).bounded hq
  rcases enqueue_cases hq now entry with
    ⟨-, hrefused⟩ | ⟨-, ⟨front, rest, hqueue, hroom, hfull⟩ | ⟨hroom, hok⟩⟩
  -- Refused as a duplicate
  · rw [hrefused] at h
    cases h
    exact ⟨hpurged, rfl, rfl, fun e he => .inr he⟩
  -- The oldest entry has made room
  · rw [hfull] at h
    cases h
    refine ⟨⟨hq.maxLen_pos, ?_⟩, rfl, rfl, fun e he => ?_⟩
    · show (rest ++ [_]).length ≤ q.maxLen.toNat
      rw [List.length_append, List.length_singleton]
      omega
    · rcases List.mem_append.mp he with he | he
      · exact .inr (hqueue ▸ List.mem_cons_of_mem _ he)
      · exact .inl (List.mem_singleton.mp he)
  -- There was room
  · rw [hok] at h
    cases h
    refine ⟨⟨hq.maxLen_pos, ?_⟩, rfl, rfl, fun e he => ?_⟩
    · show ((q.purge now).2.queue ++ [_]).length ≤ q.maxLen.toNat
      rw [List.length_append, List.length_singleton]
      omega
    · rcases List.mem_append.mp he with he | he
      · exact .inr he
      · exact .inl (List.mem_singleton.mp he)

end RequestQueue

/-- Taking away repetitions leaves the same addresses. -/
private theorem mem_destutter_ne {α : Type} [DecidableEq α] {a b : α} {l : List α} :
    b ∈ (a :: l).destutter (· ≠ ·) ↔ b = a ∨ b ∈ l := by
  rw [List.destutter_cons']
  induction l generalizing a with
  | nil => simp
  | cons c l ih =>
    rw [List.destutter'_cons]
    by_cases hac : a = c
    · subst hac
      simp [ih]
    · rw [if_pos hac, List.mem_cons, ih, List.mem_cons]

/-- The second loop leaves the addresses that are not to be removed. -/
private theorem mem_foldl_remove {toRemove addresses : List UInt32} {a : UInt32} :
    a ∈ toRemove.foldl (fun addresses i => addresses.filter (· != i)) addresses ↔
      a ∈ addresses ∧ a ∉ toRemove := by
  induction toRemove generalizing addresses with
  | nil => simp
  | cons i toRemove ih =>
    rw [List.foldl_cons, ih, List.mem_filter, List.mem_cons, not_or, bne_iff_ne]
    exact and_assoc

/-- What `DeferredRouteOutput` leaves. -/
theorem deferredRouteOutput_leaves {s s' : DeferredPackets U E} (hs : s.queue.Bounded) {now : Int}
    {entry : QueuedPacket U E} {calls : List (Callback U E)}
    (h : deferredRouteOutput now entry s = some (calls, s')) :
    s'.queue.Bounded ∧ s'.queue.queueTimeout = s.queue.queueTimeout ∧
      (∀ e ∈ s'.queue.queue,
        e = entry.setExpireTime now s.queue.queueTimeout ∨ e ∈ (s.queue.purge now).2.queue) ∧
      (∀ a, a ∈ s'.queuedAddresses ↔ a = entry.destination ∨ a ∈ s.queuedAddresses) ∧
      s'.checkQueueTimer = if (s.queue.purge now).2.queue = [] then some (now + checkInterval)
        else s.checkQueueTimer := by
  obtain ⟨⟨calls₁, added, q⟩, henqueue, h⟩ := Option.bind_eq_some_iff.mp h
  cases h
  -- The purge is the first thing `Enqueue` does
  obtain ⟨hbounded, -, htimeout, hmem⟩ := RequestQueue.mem_enqueue
    ((RequestQueue.shrinks_purge now s.queue).bounded hs) henqueue
  refine ⟨hbounded, htimeout, fun e he => ?_, fun a => mem_destutter_ne, ?_⟩
  · rcases hmem e he with he | he
    · exact .inl he
    · exact .inr (List.mem_of_mem_filter he)
  -- The timer is started when the queue was empty
  · simp only [List.length_eq_zero_iff]
    rfl

/-! ## `CheckQueue` -/

/-- For packets as in `entries`, `SendPacketFromQueue` takes some of them out of the queue. If it
    returns `true`, these are all for the destination, and else that one is held. -/
structure SendPacket.Sound (entries : QueuedPacket U E → Prop) (held : UInt32 → Prop)
    (send : SendPacket U E ε σ γ) : Prop where
  shrinks : ∀ {dst t q done t' q' calls}, (∀ e ∈ q.queue, entries e) →
    send dst t q = .ok (done, t', q', calls) → q.Shrinks q'
  empties : ∀ {dst t q t' q' calls}, (∀ e ∈ q.queue, entries e) →
    send dst t q = .ok (true, t', q', calls) → ∀ e ∈ q'.queue, e.destination ≠ dst
  held : ∀ {dst t q t' q' calls}, (∀ e ∈ q.queue, entries e) →
    send dst t q = .ok (false, t', q', calls) → held dst

section CheckQueue

variable {entries : QueuedPacket U E → Prop} {held : UInt32 → Prop}
  {send : SendPacket U E ε σ γ}

/-- What the first loop leaves in the queue. -/
structure LoopLeaves (held : UInt32 → Prop) (addresses toRemove : List UInt32)
    (q : RequestQueue U E) (toRemove' : List UInt32) (q' : RequestQueue U E) : Prop where
  shrinks : q.Shrinks q'
  removed : ∀ i ∈ toRemove', i ∈ toRemove ∨ ∀ e ∈ q'.queue, e.destination ≠ i
  kept : ∀ i ∈ addresses, i ∈ toRemove' ∨ held i
  mono : ∀ i ∈ toRemove, i ∈ toRemove'

/-- What the first loop leaves when it comes to its end. -/
theorem checkLoop_leaves (hsend : send.Sound entries held)
    {addresses toRemove toRemove' : List UInt32} {t t' : σ} {q q' : RequestQueue U E}
    {calls : List γ} (hentries : ∀ e ∈ q.queue, entries e)
    (h : checkLoop send addresses toRemove t q = .ok (toRemove', t', q', calls)) :
    LoopLeaves held addresses toRemove q toRemove' q' := by
  induction addresses generalizing toRemove t q calls with
  | nil =>
    cases h
    exact ⟨.refl _, fun i hi => .inl hi, by simp, fun i hi => hi⟩
  | cons a addresses ih =>
    obtain ⟨⟨done, t₁, q₁, calls₁⟩, hfirst, h⟩ := bind_eq_ok.mp h
    obtain ⟨⟨toRemove₂, t₂, q₂, calls₂⟩, hrest, h⟩ := bind_eq_ok.mp h
    cases h
    have hshrinks := hsend.shrinks hentries hfirst
    have hleaves := ih (fun e he => hentries e (hshrinks.sublist.subset he)) hrest
    cases done with
    | true =>
      -- No packet for `a` is left, and none comes
      have hnone : ∀ e ∈ q'.queue, e.destination ≠ a := fun e he =>
        hsend.empties hentries hfirst e (hleaves.shrinks.sublist.subset he)
      refine ⟨hshrinks.trans hleaves.shrinks, ?_, ?_, fun i hi =>
        hleaves.mono i (List.mem_cons_of_mem _ hi)⟩
      · intro i hi
        rcases hleaves.removed i hi with hi | hi
        · rcases List.mem_cons.mp hi with rfl | hi
          · exact .inr hnone
          · exact .inl hi
        · exact .inr hi
      · intro i hi
        rcases List.mem_cons.mp hi with rfl | hi
        · exact .inl (hleaves.mono i List.mem_cons_self)
        · exact hleaves.kept i hi
    | false =>
      refine ⟨hshrinks.trans hleaves.shrinks, hleaves.removed, ?_, hleaves.mono⟩
      intro i hi
      rcases List.mem_cons.mp hi with rfl | hi
      · exact .inr (hsend.held hentries hfirst)
      · exact hleaves.kept i hi

/-- `CheckQueue` only takes entries out. -/
theorem checkQueue_shrinks (hsend : send.Sound entries held) {now : Int} {t t' : σ}
    {s s' : DeferredPackets U E} {calls : List γ} (hentries : ∀ e ∈ s.queue.queue, entries e)
    (h : checkQueue send now t s = .ok (calls, t', s')) : s.queue.Shrinks s'.queue := by
  obtain ⟨⟨toRemove, t₁, q, calls₁⟩, hloop, h⟩ := bind_eq_ok.mp h
  cases h
  exact (checkLoop_leaves hsend hentries hloop).shrinks

/-- What `CheckQueue` leaves: every packet that is still there has its address, which is held. -/
theorem checkQueue_leaves (hsend : send.Sound entries held) {now : Int} {t t' : σ}
    {s s' : DeferredPackets U E} {calls : List γ} (hentries : ∀ e ∈ s.queue.queue, entries e)
    (hcovered : ∀ e ∈ s.queue.queue, e.destination ∈ s.queuedAddresses)
    (h : checkQueue send now t s = .ok (calls, t', s')) :
    s.queue.Shrinks s'.queue ∧
      (∀ e ∈ s'.queue.queue, e.destination ∈ s'.queuedAddresses ∧ held e.destination) ∧
      (s'.queuedAddresses = [] ∧ s'.checkQueueTimer = none ∨
        s'.queuedAddresses ≠ [] ∧ s'.checkQueueTimer = some (now + checkInterval)) := by
  obtain ⟨⟨toRemove, t₁, q, calls₁⟩, hloop, h⟩ := bind_eq_ok.mp h
  cases h
  have hleaves := checkLoop_leaves hsend hentries hloop
  refine ⟨hleaves.shrinks, fun e he => ?_, ?_⟩
  -- An address leaves the list only when its packets are gone
  · have hmem := hcovered e (hleaves.shrinks.sublist.subset he)
    have hkept : e.destination ∉ toRemove := by
      intro hremoved
      rcases hleaves.removed _ hremoved with hnil | hnone
      · cases hnil
      · exact hnone e he rfl
    exact ⟨mem_foldl_remove.mpr ⟨hmem, hkept⟩, (hleaves.kept _ hmem).resolve_left hkept⟩
  -- The timer goes on as long as an address is left
  · by_cases hnil : toRemove.foldl (fun addresses i => addresses.filter (· != i))
        s.queuedAddresses = []
    · exact .inl ⟨hnil, if_pos hnil⟩
    · exact .inr ⟨hnil, if_neg hnil⟩

/-- Where `SendPacketFromQueue` succeeds, so does `CheckQueue`. -/
theorem checkQueue_ok (hsend : send.Sound entries held)
    (hok : ∀ dst t q, (∀ e ∈ q.queue, entries e) → ∃ r, send dst t q = .ok r) (now : Int) (t : σ)
    {s : DeferredPackets U E} (hentries : ∀ e ∈ s.queue.queue, entries e) :
    ∃ r, checkQueue send now t s = .ok r := by
  have hloop : ∀ (addresses toRemove : List UInt32) (t : σ) (q : RequestQueue U E),
      (∀ e ∈ q.queue, entries e) → ∃ r, checkLoop send addresses toRemove t q = .ok r := by
    -- The induction is on the addresses, the queue shrinks with each of them
    intro addresses
    induction addresses with
    | nil => exact fun toRemove t q _ => ⟨_, rfl⟩
    | cons a addresses ih =>
      intro toRemove t q hq
      obtain ⟨⟨done, t₁, q₁, calls₁⟩, hfirst⟩ := hok a t q hq
      have hq₁ : ∀ e ∈ q₁.queue, entries e := fun e he =>
        hq e ((hsend.shrinks hq hfirst).sublist.subset he)
      obtain ⟨r, hrest⟩ := ih (if done then a :: toRemove else toRemove) t₁ q₁ hq₁
      exact ⟨_, by simp only [checkLoop, hfirst, hrest, bind, Except.bind]; rfl⟩
  obtain ⟨r, hr⟩ := hloop s.queuedAddresses [] t s.queue hentries
  exact ⟨_, by simp only [checkQueue, hr, bind, Except.bind]; rfl⟩

/-- What `SendPacketFromQueue` does to the queue with its calls, `CheckQueue` does as well, if it
    can be done one after the other. -/
theorem checkQueue_induct (rel : RequestQueue U E → RequestQueue U E → List γ → Prop)
    (hsend : send.Sound entries held) (hrefl : ∀ q, rel q q [])
    (htrans : ∀ {q q₁ q' calls calls'}, rel q q₁ calls → rel q₁ q' calls' →
      rel q q' (calls ++ calls'))
    (hrel : ∀ {dst t q done t' q' calls}, (∀ e ∈ q.queue, entries e) →
      send dst t q = .ok (done, t', q', calls) → rel q q' calls)
    {now : Int} {t t' : σ} {s s' : DeferredPackets U E} {calls : List γ}
    (hentries : ∀ e ∈ s.queue.queue, entries e)
    (h : checkQueue send now t s = .ok (calls, t', s')) : rel s.queue s'.queue calls := by
  have hloop : ∀ (addresses toRemove toRemove' : List UInt32) (t t' : σ) (q q' : RequestQueue U E)
      (calls : List γ), (∀ e ∈ q.queue, entries e) →
      checkLoop send addresses toRemove t q = .ok (toRemove', t', q', calls) → rel q q' calls := by
    -- The induction is on the addresses, each round adds its calls
    intro addresses
    induction addresses with
    | nil =>
      intro toRemove toRemove' t t' q q' calls _ h
      cases h
      exact hrefl q
    | cons a addresses ih =>
      intro toRemove toRemove' t t' q q' calls hq h
      obtain ⟨⟨done, t₁, q₁, calls₁⟩, hfirst, h⟩ := bind_eq_ok.mp h
      obtain ⟨⟨toRemove₂, t₂, q₂, calls₂⟩, hrest, h⟩ := bind_eq_ok.mp h
      cases h
      have hq₁ : ∀ e ∈ q₁.queue, entries e := fun e he =>
        hq e ((hsend.shrinks hq hfirst).sublist.subset he)
      exact htrans (hrel hq hfirst) (ih _ _ _ _ _ _ _ hq₁ hrest)
  obtain ⟨⟨toRemove, t₁, q, calls₁⟩, hok, h⟩ := bind_eq_ok.mp h
  cases h
  exact hloop _ _ _ _ _ _ _ _ hentries hok

/-- Where `SendPacketFromQueue` accounts for the packets that it takes, so does `CheckQueue`. -/
theorem checkQueue_settled (hsend : send.Sound entries held) {R : γ → QueuedPacket U E → Prop}
    {p : γ → Bool}
    (hsettled : ∀ {dst t q done t' q' calls}, (∀ e ∈ q.queue, entries e) →
      send dst t q = .ok (done, t', q', calls) → Settled R q.queue q'.queue (calls.filter p))
    {now : Int} {t t' : σ} {s s' : DeferredPackets U E} {calls : List γ}
    (hentries : ∀ e ∈ s.queue.queue, entries e)
    (h : checkQueue send now t s = .ok (calls, t', s')) :
    Settled R s.queue.queue s'.queue.queue (calls.filter p) := by
  apply checkQueue_induct (fun q q' calls => Settled R q.queue q'.queue (calls.filter p)) hsend
    (fun q => .refl q.queue) _ hsettled hentries h
  intro q q₁ q' calls calls' hfirst hrest
  rw [List.filter_append]
  exact hfirst.trans hrest

end CheckQueue

/-! ## Runs -/

section Runs

variable {entries : QueuedPacket U E → Prop} {held : UInt32 → Prop}
  {sends : Int → SendPacket U E ε σ γ → Prop} {s s' : Deferring U E}

/-- The deferred packets as jobs that wait under their destinations. -/
def Deferring.deferral (s : Deferring U E) : Deferral (QueuedPacket U E) UInt32 :=
  ⟨s.now, s.packets.queue.queue, s.packets.queuedAddresses, s.packets.checkQueueTimer⟩

/-- When a packet came into the queue. -/
def QueuedPacket.born (e : QueuedPacket U E) : Int := e.expire - maxQueueTime

/-- Every packet is one of `entries` and is attended to. -/
structure Deferring.Kept (entries : QueuedPacket U E → Prop) (held : UInt32 → Prop)
    (s : Deferring U E) : Prop where
  bounded : s.packets.queue.Bounded
  timeout : s.packets.queue.queueTimeout = maxQueueTime
  entries : ∀ e ∈ s.packets.queue.queue, entries e
  attended : s.deferral.Attended QueuedPacket.destination QueuedPacket.born
    checkInterval held

/-- A new queue has nothing to attend to. -/
theorem Deferring.Kept.new (now : Int) : Kept entries held (⟨now, .new⟩ : Deferring U E) where
  bounded := by
    have hpos : 0 < maxQueueLen.toNat := by decide
    exact ⟨hpos, Nat.zero_le _⟩
  timeout := rfl
  entries _ he := nomatch he
  attended := .empty now

/-- Every step keeps the invariant. -/
theorem Deferring.Kept.step
    (hexpire : ∀ e now exp, entries e → entries (e.setExpireTime now exp))
    (hsends : ∀ now send, sends now send → send.Sound entries held)
    (h : s.Kept entries held) (hstep : DeferringStep entries sends s s') :
    s'.Kept entries held := by
  cases hstep with
  -- A packet is deferred: it is new, or it was there before
  | @deferredRouteOutput now entry calls packets hnow htimer hentry hdefer =>
    have hpurge := RequestQueue.shrinks_purge now s.packets.queue
    obtain ⟨hbounded, htimeout, hmem, haddresses, hdue⟩ :=
      deferredRouteOutput_leaves h.bounded hdefer
    refine ⟨hbounded, htimeout.trans h.timeout, fun e he => ?_, ?_⟩
    · rcases hmem e he with rfl | he
      · exact hexpire _ _ _ hentry
      · exact h.entries e (hpurge.sublist.subset he)
    · apply h.attended.step (by decide)
      apply DeferralStep.defer (j := entry.setExpireTime now s.packets.queue.queueTimeout)
        hnow htimer
      · show now ≤ s.packets.queue.queueTimeout + now - maxQueueTime
        rw [h.timeout]
        omega
      · exact fun i hi => hpurge.sublist.subset hi
      · exact hmem
      · exact haddresses
      -- The timer starts with the first packet
      · by_cases hnil : (s.packets.queue.purge now).2.queue = []
        · exact .inl ⟨hdue.trans (if_pos hnil), hnil⟩
        · exact .inr ⟨hdue.trans (if_neg hnil), hnil⟩
  -- The timer has run off: the addresses that are left start it again
  | @checkQueue now send t t' calls packets htimer hsend hcheck =>
    obtain ⟨hshrinks, hleft, htimer'⟩ := checkQueue_leaves (hsends now send hsend) h.entries
      h.attended.covered hcheck
    refine ⟨hshrinks.bounded h.bounded, hshrinks.queueTimeout_eq.trans h.timeout,
      fun e he => h.entries e (hshrinks.sublist.subset he), ?_⟩
    apply h.attended.step (by decide)
    exact .poll htimer (fun e he => ⟨hshrinks.sublist.subset he, hleft e he⟩) htimer'

/-- `DeferredRouteOutput` always finds room. -/
theorem deferredRouteOutput_ok {s : DeferredPackets U E} (h : s.queue.Bounded) (now : Int)
    (entry : QueuedPacket U E) : ∃ r, deferredRouteOutput now entry s = some r := by
  have hpurged := (RequestQueue.shrinks_purge now s.queue).bounded h
  have henqueue : ∃ r, (s.queue.purge now).2.enqueue now entry = some r := by
    rcases RequestQueue.enqueue_cases hpurged now entry with
      ⟨-, hok⟩ | ⟨-, ⟨front, rest, -, -, hok⟩ | ⟨-, hok⟩⟩
    · exact ⟨_, hok⟩
    · exact ⟨_, hok⟩
    · exact ⟨_, hok⟩
  obtain ⟨r, hr⟩ := henqueue
  exact ⟨_, by
    simp only [deferredRouteOutput, RequestQueue.getSize, hr]
    rfl⟩

/-- A packet that is not in the queue comes into it, and what has to make room for it has its
    error callback called. -/
theorem deferredRouteOutput_settled {R : Callback U E → QueuedPacket U E → Prop}
    (hdrop : ∀ e, R (RequestQueue.drop e) e) {s s' : DeferredPackets U E} (hs : s.queue.Bounded)
    {now : Int} {entry : QueuedPacket U E} {calls : List (Callback U E)}
    (hnew : ∀ e ∈ s.queue.queue, e.uid ≠ entry.uid)
    (h : deferredRouteOutput now entry s = some (calls, s')) :
    Settled R (s.queue.queue ++ [entry.setExpireTime now s.queue.queueTimeout]) s'.queue.queue
      calls := by
  obtain ⟨⟨calls₁, added, q⟩, henqueue, h⟩ := Option.bind_eq_some_iff.mp h
  cases h
  have hpurge : ∀ q : RequestQueue U E, Settled R q.queue (q.purge now).2.queue (q.purge now).1 :=
    fun q => .filter _ _ _ hdrop
  -- The two calls of `Purge`
  have hpurges := (hpurge s.queue).trans (hpurge (s.queue.purge now).2)
  have hsub := (RequestQueue.shrinks_purge now s.queue).trans
    (RequestQueue.shrinks_purge now (s.queue.purge now).2)
  have hcome := hpurges.come [entry.setExpireTime now s.queue.queueTimeout]
  rcases RequestQueue.enqueue_cases ((RequestQueue.shrinks_purge now s.queue).bounded hs) now
      entry with ⟨hmem, -⟩ | ⟨-, ⟨front, rest, hqueue, -, hok⟩ | ⟨-, hok⟩⟩
  · obtain ⟨e, he, hkey⟩ := List.mem_map.mp hmem
    exact absurd (Prod.mk.inj hkey).1 (hnew e (hsub.sublist.subset he))
  · -- The oldest makes room
    cases hok.symm.trans henqueue
    rw [hqueue] at hcome
    rw [← List.append_assoc]
    exact hcome.trans (.of_perm (.refl _) (hdrop front))
  · cases hok.symm.trans henqueue
    exact hcome

/-- The invariant holds in every run. -/
theorem Deferring.Kept.run
    (hexpire : ∀ e now exp, entries e → entries (e.setExpireTime now exp))
    (hsends : ∀ now send, sends now send → send.Sound entries held)
    (h : s.Kept entries held)
    (hrun : Relation.ReflTransGen (DeferringStep entries sends) s s') :
    s'.Kept entries held := by
  induction hrun with
  | refl => exact h
  | tail _ hstep ih => exact ih.step hexpire hsends hstep

/-- A packet in the queue waits under its destination, and the timer runs. For a destination that
    is not held it runs out half a second after the packet has come at the latest, so that the
    packet does not expire before. -/
theorem Deferring.Kept.attended_of_mem (h : s.Kept entries held) {e : QueuedPacket U E}
    (he : e ∈ s.packets.queue.queue) :
    e.destination ∈ s.packets.queuedAddresses ∧
      ∃ t, s.packets.checkQueueTimer = some t ∧ s.now ≤ t ∧ t ≤ s.now + checkInterval ∧
        (¬ held e.destination → t ≤ e.born + checkInterval ∧
          ∀ now ≤ t, RequestQueue.isExpired now e = false) := by
  refine ⟨h.attended.covered e he, ?_⟩
  obtain ⟨t, ht, hnow, hle, hprompt⟩ := h.attended.due_of_mem he
  refine ⟨t, ht, hnow, hle, fun hfree => ⟨hprompt hfree, fun now hlater => ?_⟩⟩
  have hborn : t ≤ e.expire - maxQueueTime + checkInterval := hprompt hfree
  have hshort : checkInterval < maxQueueTime := by decide
  simp only [RequestQueue.isExpired, GeoSvr.RequestQueue.isExpired, decide_eq_false_iff_not]
  omega

end Runs

end MapRelay.NS3
