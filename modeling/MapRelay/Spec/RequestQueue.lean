import MapRelay.ForStd.Ledger
import MapRelay.ForStd.Run
import MapRelay.Native.RequestQueue

/-!
# The request queue over all its calls

The queue never has more packets than it may, none of them twice, and the oldest in front. Every
packet that it has accepted is still in it, or has been dequeued, or has been reported as dropped,
and for each destination the packets are dequeued in the order in which they came.
-/

namespace MapRelay.NS3

open ForStd
open GeoSvr (Callback Ipv4Header QueueEntry)

variable {U E : Type}

/-- A call of the queue, at its time. -/
inductive QueueCall (U E : Type) where
  | enqueue (now : Int) (entry : QueuedPacket U E)
  | dequeue (now : Int) (dst : UInt32)
  | dropPacketWithDst (now : Int) (dst : UInt32)
  | getSize (now : Int)
  deriving DecidableEq, Repr

def QueueCall.time : QueueCall U E → Int
  | .enqueue now _ => now
  | .dequeue now _ => now
  | .dropPacketWithDst now _ => now
  | .getSize now => now

/-- A queue with the entries that it has accepted and those that were dequeued, in their order,
    and the calls of callbacks that it has made. -/
structure QueueHistory (U E : Type) where
  queue : RequestQueue U E
  accepted : List (QueuedPacket U E)
  dequeued : List (QueuedPacket U E)
  calls : List (Callback U E)
  deriving DecidableEq, Repr

namespace QueueHistory

/-- A new queue. -/
def new (maxLen : UInt32) (queueTimeout : Int) : QueueHistory U E :=
  ⟨⟨[], maxLen, queueTimeout⟩, [], [], []⟩

def call (h : QueueHistory U E) : QueueCall U E → Option (QueueHistory U E)
  | .enqueue now entry =>
    (h.queue.enqueue now entry).map fun (calls, added, queue) =>
      { h with
        queue
        accepted := if added then
            h.accepted ++ [entry.setExpireTime now h.queue.queueTimeout]
          else h.accepted
        calls := h.calls ++ calls }
  | .dequeue now dst =>
    let (calls, e, queue) := h.queue.dequeue now dst
    some { h with queue, dequeued := h.dequeued ++ e.toList, calls := h.calls ++ calls }
  | .dropPacketWithDst now dst =>
    let (calls, queue) := h.queue.dropPacketWithDst now dst
    some { h with queue, calls := h.calls ++ calls }
  | .getSize now =>
    let (calls, _, queue) := h.queue.getSize now
    some { h with queue, calls := h.calls ++ calls }

end QueueHistory

/-! ## What holds of a queue -/

/-- What tells packets apart in the queue. -/
def QueuedPacket.key (e : QueuedPacket U E) : UInt64 × UInt32 := (e.uid, e.destination)

/-- The queue may have packets, and has not more of them than it may. -/
structure RequestQueue.Bounded (q : RequestQueue U E) : Prop where
  maxLen_pos : 0 < q.maxLen.toNat
  length_le : q.queue.length ≤ q.maxLen.toNat

/-- No packet is in the queue twice, and the one that expires first is in front. -/
structure RequestQueue.Ordered (q : RequestQueue U E) : Prop extends q.Bounded where
  nodup : (q.queue.map QueuedPacket.key).Nodup
  sorted : q.queue.Pairwise (·.expire ≤ ·.expire)

/-- The queue is in order, nothing in it has been accepted after `now`, and what has been accepted
    is there, dequeued or dropped. -/
structure QueueHistory.Conforms (now : Int) (h : QueueHistory U E) : Prop where
  ordered : h.queue.Ordered
  recent : ∀ e ∈ h.queue.queue, e.expire ≤ h.queue.queueTimeout + now
  fifo : ∃ lost, h.calls = lost.map RequestQueue.drop ∧
    Fifo QueuedPacket.destination h.accepted h.queue.queue h.dequeued lost

namespace RequestQueue

/-- Some of the entries are in order, too. -/
theorem Ordered.sublist {q : RequestQueue U E} {queue : List (QueuedPacket U E)} (h : q.Ordered)
    (hsub : queue.Sublist q.queue) : Ordered { q with queue } where
  maxLen_pos := h.maxLen_pos
  length_le := hsub.length_le.trans h.length_le
  nodup := h.nodup.sublist (hsub.map _)
  sorted := h.sorted.sublist hsub

/-- The queue holds an entry exactly if it has one with its key. -/
private theorem holds_iff (q : RequestQueue U E) (entry : QueuedPacket U E) :
    q.holds entry = true ↔ entry.key ∈ q.queue.map QueuedPacket.key := by
  rw [holds, List.any_eq_true, List.mem_map]
  simp [QueuedPacket.key]

/-- An entry that is not in the queue goes to its end. -/
theorem Ordered.push {q : RequestQueue U E} {entry : QueuedPacket U E} (h : q.Ordered)
    (hroom : q.queue.length < q.maxLen.toNat) (hnew : entry.key ∉ q.queue.map QueuedPacket.key)
    (hlast : ∀ e ∈ q.queue, e.expire ≤ entry.expire) :
    Ordered { q with queue := q.queue ++ [entry] } where
  maxLen_pos := h.maxLen_pos
  -- There was room for one more
  length_le := by
    show (q.queue ++ [entry]).length ≤ q.maxLen.toNat
    rw [List.length_append, List.length_singleton]
    omega
  -- The key is new, so that none occurs twice
  nodup := by
    show ((q.queue ++ [entry]).map QueuedPacket.key).Nodup
    rw [List.map_append, List.map_singleton]
    apply h.nodup.append (List.nodup_singleton _)
    intro k hk hk'
    rw [List.mem_singleton.mp hk'] at hk
    exact hnew hk
  -- The new entry expires last
  sorted := by
    apply List.pairwise_append.mpr ⟨h.sorted, List.pairwise_singleton _ _, ?_⟩
    intro e he e' he'
    rw [List.mem_singleton.mp he']
    exact hlast e he

/-- The entry that `Dequeue` takes is the first for its destination. -/
theorem dequeue_cases (now : Int) (dst : UInt32) (q : RequestQueue U E) :
    (q.dequeue now dst = ((q.purge now).1, none, (q.purge now).2) ∧
        ∀ e ∈ (q.purge now).2.queue, e.destination ≠ dst) ∨
      ∃ before e after, (q.purge now).2.queue = before ++ e :: after ∧ e.destination = dst ∧
        (∀ b ∈ before, b.destination ≠ dst) ∧
        q.dequeue now dst = ((q.purge now).1, some e, { q with queue := before ++ after }) := by
  have heq : ∀ e : QueuedPacket U E, isEqual dst e = true ↔ e.destination = dst := by
    simp [isEqual, GeoSvr.RequestQueue.isEqual, QueuedPacket.destination]
  -- The first live entry for `dst`, if there is one
  cases hfind : (q.purge now).2.queue.find? (isEqual dst) with
  | none =>
    refine .inl ⟨?_, fun e he hdst => ?_⟩
    · simp only [dequeue, hfind]
    · exact List.find?_eq_none.mp hfind e he ((heq e).mpr hdst)
  | some e =>
    obtain ⟨hdst, before, after, hsplit, hbefore⟩ := List.find?_eq_some_iff_append.mp hfind
    refine .inr ⟨before, e, after, hsplit, (heq e).mp hdst, fun b hb hb' => ?_, ?_⟩
    · have hno := hbefore b hb
      rw [(heq b).mpr hb'] at hno
      cases hno
    -- The erased entry is the one that was found
    · have herase : (before ++ e :: after).eraseP (isEqual dst) = before ++ after := by
        rw [List.eraseP_append_right _ (by simpa using hbefore), List.eraseP_cons_of_pos hdst]
      simp only [dequeue, hfind]
      rw [hsplit, herase]
      rfl

/-- `Enqueue` refuses an entry that it has, and else accepts it; if the queue is full, it drops
    the one in front. -/
theorem enqueue_cases {q : RequestQueue U E} (hq : q.Bounded) (now : Int)
    (entry : QueuedPacket U E) :
    (entry.key ∈ (q.purge now).2.queue.map QueuedPacket.key ∧
        q.enqueue now entry = some ((q.purge now).1, false, (q.purge now).2)) ∨
      entry.key ∉ (q.purge now).2.queue.map QueuedPacket.key ∧
        ((∃ front rest, (q.purge now).2.queue = front :: rest ∧ rest.length < q.maxLen.toNat ∧
            q.enqueue now entry = some ((q.purge now).1 ++ [drop front], true,
              { q with queue := rest ++ [entry.setExpireTime now q.queueTimeout] })) ∨
          (q.purge now).2.queue.length < q.maxLen.toNat ∧
            q.enqueue now entry = some ((q.purge now).1, true,
              { q with
                queue := (q.purge now).2.queue ++ [entry.setExpireTime now q.queueTimeout] })) := by
  -- The purge only makes room
  have hlen : (q.purge now).2.queue.length ≤ q.maxLen.toNat :=
    (List.length_filter_le _ _).trans hq.length_le
  -- A duplicate is refused before anything else
  cases hholds : (q.purge now).2.holds entry with
  | true =>
    refine .inl ⟨(holds_iff _ _).mp hholds, ?_⟩
    simp only [enqueue, hholds, if_true]
  | false =>
    refine .inr ⟨fun hmem => ?_, ?_⟩
    · rw [(holds_iff _ _).mpr hmem] at hholds
      cases hholds
    simp only [enqueue, hholds, Bool.false_eq_true, if_false]
    -- A full queue gives up its oldest entry
    by_cases hfull : (q.purge now).2.queue.length = q.maxLen.toNat
    · -- The queue is not made for no packet at all
      left
      cases hqueue : (q.purge now).2.queue with
      | nil =>
        rw [hqueue] at hfull
        exact absurd hfull.symm (Nat.ne_of_gt hq.maxLen_pos)
      | cons front rest =>
        rw [hqueue, List.length_cons] at hfull
        refine ⟨front, rest, rfl, by omega, ?_⟩
        exact if_pos hfull
    · exact .inr ⟨Nat.lt_of_le_of_ne hlen hfull, if_neg hfull⟩

end RequestQueue

namespace QueueHistory.Conforms

variable {now now' : Int} {h : QueueHistory U E}

/-- A new queue conforms. -/
theorem new {maxLen : UInt32} (hmax : maxLen ≠ 0) (now queueTimeout : Int) :
    Conforms now (QueueHistory.new maxLen queueTimeout : QueueHistory U E) where
  ordered := by
    have hpos : 0 < maxLen.toNat := Nat.pos_of_ne_zero fun h => hmax (UInt32.toNat_inj.mp h)
    exact ⟨⟨hpos, Nat.zero_le _⟩, .nil, .nil⟩
  recent := by simp [QueueHistory.new]
  fifo := ⟨[], rfl, .nil⟩

/-- A queue conforms as time goes by. -/
theorem later (h' : h.Conforms now) (hnow : now ≤ now') : h.Conforms now' where
  ordered := h'.ordered
  recent e he := (h'.recent e he).trans (by omega)
  fifo := h'.fifo

/-- Entries may be dropped if their callbacks are called. -/
theorem drop (h' : h.Conforms now) (p : QueuedPacket U E → Bool) :
    Conforms now { h with
      queue := { h.queue with queue := h.queue.queue.filter (!p ·) }
      calls := h.calls ++ (h.queue.queue.filter p).map RequestQueue.drop } where
  ordered := h'.ordered.sublist List.filter_sublist
  recent e he := h'.recent e (List.mem_of_mem_filter he)
  fifo := by
    obtain ⟨lost, hcalls, hfifo⟩ := h'.fifo
    refine ⟨lost ++ h.queue.queue.filter p, ?_, hfifo.lose p⟩
    rw [List.map_append, hcalls]

/-- A purged queue conforms. -/
theorem purge (h' : h.Conforms now) (hnow : now ≤ now') :
    Conforms now' { h with
      queue := (h.queue.purge now').2
      calls := h.calls ++ (h.queue.purge now').1 } :=
  (h'.later hnow).drop (RequestQueue.isExpired now')

/-- The entry in front may be dropped if its callback is called. -/
private theorem drop_head {front : QueuedPacket U E} {rest : List (QueuedPacket U E)}
    (h' : h.Conforms now) (hqueue : h.queue.queue = front :: rest) :
    Conforms now { h with
      queue := { h.queue with queue := rest }
      calls := h.calls ++ [RequestQueue.drop front] } where
  ordered := h'.ordered.sublist (by rw [hqueue]; exact List.sublist_cons_self _ _)
  recent e he := h'.recent e (by rw [hqueue]; exact List.mem_cons_of_mem _ he)
  fifo := by
    obtain ⟨lost, hcalls, hfifo⟩ := h'.fifo
    rw [hqueue] at hfifo
    refine ⟨lost ++ [front], ?_, hfifo.lose_head⟩
    rw [List.map_append, hcalls]
    rfl

/-- An entry may be accepted if there is room for it. -/
theorem push {entry : QueuedPacket U E} (h' : h.Conforms now)
    (hroom : h.queue.queue.length < h.queue.maxLen.toNat)
    (hnew : entry.key ∉ h.queue.queue.map QueuedPacket.key) :
    Conforms now { h with
      queue := { h.queue with
        queue := h.queue.queue ++ [entry.setExpireTime now h.queue.queueTimeout] }
      accepted := h.accepted ++ [entry.setExpireTime now h.queue.queueTimeout] } where
  ordered := h'.ordered.push hroom hnew h'.recent
  -- No entry expires later than one that is enqueued now
  recent e he := by
    rcases List.mem_append.mp he with he | he
    · exact h'.recent e he
    · rw [List.mem_singleton.mp he]
      exact Int.le_refl _
  fifo := by
    obtain ⟨lost, hcalls, hfifo⟩ := h'.fifo
    exact ⟨lost, hcalls, hfifo.come _⟩

/-- The first entry for its destination may be dequeued. -/
theorem take {before after : List (QueuedPacket U E)} {e : QueuedPacket U E}
    (h' : h.Conforms now) (hqueue : h.queue.queue = before ++ e :: after)
    (hbefore : ∀ b ∈ before, b.destination ≠ e.destination) :
    Conforms now { h with
      queue := { h.queue with queue := before ++ after }
      dequeued := h.dequeued ++ [e] } where
  -- What stays keeps its order
  ordered := by
    apply h'.ordered.sublist
    rw [hqueue]
    exact (List.Sublist.refl before).append (List.sublist_cons_self e after)
  recent i hi := by
    apply h'.recent i
    rw [hqueue]
    rcases List.mem_append.mp hi with hi | hi
    · exact List.mem_append_left _ hi
    · exact List.mem_append_right _ (List.mem_cons_of_mem _ hi)
  -- No entry for the same destination stands before the one taken
  fifo := by
    obtain ⟨lost, hcalls, hfifo⟩ := h'.fifo
    rw [hqueue] at hfifo
    exact ⟨lost, hcalls, hfifo.take hbefore⟩

/-- What one call keeps. -/
theorem call (h' : h.Conforms now) (c : QueueCall U E) (hnow : now ≤ c.time) :
    ∃ next, h.call c = some next ∧ next.Conforms c.time := by
  -- One case for each function of the queue, each of them begins with the purge
  cases c with
  | enqueue now' entry =>
    have hpurged := h'.purge hnow
    rcases RequestQueue.enqueue_cases h'.ordered.toBounded now' entry with
      ⟨-, hrefused⟩ | ⟨hnew, ⟨front, rest, hqueue, hroom, hfull⟩ | ⟨hroom, hok⟩⟩
    · refine ⟨_, by rw [QueueHistory.call, hrefused]; rfl, hpurged⟩
    · -- The oldest makes room
      have hnew' : entry.key ∉ rest.map QueuedPacket.key := by
        rw [hqueue] at hnew
        exact fun hmem => hnew (List.mem_cons_of_mem _ hmem)
      refine ⟨_, by rw [QueueHistory.call, hfull]; rfl, ?_⟩
      show Conforms now' { h with
        queue := { h.queue with queue := rest ++ [entry.setExpireTime now' h.queue.queueTimeout] }
        accepted := h.accepted ++ [entry.setExpireTime now' h.queue.queueTimeout]
        calls := h.calls ++ ((h.queue.purge now').1 ++ [RequestQueue.drop front]) }
      rw [← List.append_assoc]
      exact (hpurged.drop_head hqueue).push hroom hnew'
    · exact ⟨_, by rw [QueueHistory.call, hok]; rfl, hpurged.push hroom hnew⟩
  | dequeue now' dst =>
    have hpurged := h'.purge hnow
    rcases RequestQueue.dequeue_cases now' dst h.queue with
      ⟨hdeq, -⟩ | ⟨before, e, after, hqueue, hdst, hbefore, hdeq⟩
    · refine ⟨_, by rw [QueueHistory.call, hdeq], ?_⟩
      rw [Option.toList_none, List.append_nil]
      exact hpurged
    · refine ⟨_, by rw [QueueHistory.call, hdeq], ?_⟩
      exact hpurged.take hqueue fun b hb => hdst ▸ hbefore b hb
  | dropPacketWithDst now' dst =>
    have hdropped := (h'.purge hnow).drop (RequestQueue.isEqual dst)
    simp only [List.append_assoc] at hdropped
    exact ⟨_, rfl, hdropped⟩
  | getSize now' => exact ⟨_, rfl, h'.purge hnow⟩

/-- What the calls of a run keep. -/
theorem run (h' : h.Conforms now) (calls : List (QueueCall U E))
    (hnow : ∀ c ∈ calls, now ≤ c.time) (htimes : calls.Pairwise (·.time ≤ ·.time)) :
    ∃ next now', calls.foldlM QueueHistory.call h = some next ∧ next.Conforms now' := by
  induction calls generalizing h now with
  | nil => exact ⟨h, now, rfl, h'⟩
  | cons c calls ih =>
    obtain ⟨next, hnext, hconforms⟩ := h'.call c (hnow c List.mem_cons_self)
    obtain ⟨hfirst, hrest⟩ := List.pairwise_cons.mp htimes
    obtain ⟨last, now', hlast, hconforms'⟩ := ih hconforms hfirst hrest
    refine ⟨last, now', ?_, hconforms'⟩
    rw [List.foldlM_cons, hnext]
    exact hlast

end QueueHistory.Conforms

/-- Whatever calls a new queue for at least one packet gets at times that do not go back, it can
    answer them all. It has no more packets then than it may, each with another number or
    destination, and the oldest in front. Each packet that it has accepted is in the queue, has
    been dequeued, or has had the call of its error callback, exactly one of these; and for each
    destination the packets have been dequeued in the order of their acceptance. -/
theorem requestQueue_conforms {maxLen : UInt32} (hmax : maxLen ≠ 0) (queueTimeout : Int)
    (calls : List (QueueCall U E)) (htimes : calls.Pairwise (·.time ≤ ·.time)) :
    ∃ h, calls.foldlM QueueHistory.call (.new maxLen queueTimeout) = some h ∧ h.queue.Ordered ∧
      ∃ lost, h.calls = lost.map RequestQueue.drop ∧
        Fifo QueuedPacket.destination h.accepted h.queue.queue h.dequeued lost := by
  cases calls with
  -- The clock of the run starts at the first call
  | nil =>
    have hnew := QueueHistory.Conforms.new (U := U) (E := E) hmax 0 queueTimeout
    exact ⟨_, rfl, hnew.ordered, hnew.fifo⟩
  | cons c calls =>
    have hnew := QueueHistory.Conforms.new (U := U) (E := E) hmax c.time queueTimeout
    obtain ⟨h, now, hrun, hconforms⟩ := hnew.run (c :: calls) (by
      intro c' hc'
      rcases List.mem_cons.mp hc' with rfl | hc'
      · exact Int.le_refl _
      · exact List.rel_of_pairwise_cons htimes hc') htimes
    exact ⟨h, hrun, hconforms.ordered, hconforms.fifo⟩

/-- With room for one packet the second one takes the place of the first, which is dropped. -/
theorem requestQueue_conforms_one :
    ∃ h, [.enqueue 0 ⟨⟨[1], ⟨5, 9⟩, (), (), 0⟩, 1⟩, .enqueue 1 ⟨⟨[2], ⟨5, 9⟩, (), (), 0⟩, 2⟩,
        .dequeue 2 9].foldlM QueueHistory.call
          (QueueHistory.new 1 30 : QueueHistory Unit Unit) = some h ∧ h.queue.Ordered ∧
      ∃ lost, h.calls = lost.map RequestQueue.drop ∧
        Fifo QueuedPacket.destination h.accepted h.queue.queue h.dequeued lost :=
  requestQueue_conforms (by decide) 30 _ (by decide)

end MapRelay.NS3
