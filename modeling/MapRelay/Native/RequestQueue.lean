import Mathlib.Data.List.Destutter
import MapRelay.Native.GeoSvrQueue

/-!
# The packets that are deferred (`gpsr-rqueue.cc`, `geoSVR-rqueue.cc`, `gpsr.cc`, `geoSVR.cc`)

GPSR and GeoSVR have the same request queue and defer packets in the same way: a packet goes into
the queue and its destination into `m_queuedAddresses`, and `CheckQueue` goes over these twice a
second. What the two do differently is `SendPacketFromQueue`, which is an argument here.
-/

namespace MapRelay.NS3

open GeoSvr (Callback QueueEntry)

variable {U E : Type}

/-- An entry of the queue, with the number that `GetUid` gives for its packet. -/
structure QueuedPacket (U E : Type) extends QueueEntry U E where
  uid : UInt64
  deriving DecidableEq, Repr

/-- The destination of an entry. -/
def QueuedPacket.destination (e : QueuedPacket U E) : UInt32 := e.header.destination

/-- `SetExpireTime`. -/
def QueuedPacket.setExpireTime (now exp : Int) (e : QueuedPacket U E) : QueuedPacket U E :=
  { e with expire := exp + now }

/-- `class RequestQueue`. -/
structure RequestQueue (U E : Type) where
  queue : List (QueuedPacket U E)
  maxLen : UInt32
  queueTimeout : Int
  deriving DecidableEq, Repr

namespace RequestQueue

/-- `IsExpired`. -/
def isExpired (now : Int) (e : QueuedPacket U E) : Bool :=
  GeoSvr.RequestQueue.isExpired now e.toQueueEntry

/-- `IsEqual`. -/
def isEqual (dst : UInt32) (e : QueuedPacket U E) : Bool :=
  GeoSvr.RequestQueue.isEqual dst e.toQueueEntry

/-- `Drop`. -/
def drop (e : QueuedPacket U E) : Callback U E := GeoSvr.RequestQueue.drop e.toQueueEntry

/-- `Purge`. -/
def purge (now : Int) (q : RequestQueue U E) : List (Callback U E) × RequestQueue U E :=
  ((q.queue.filter (isExpired now)).map drop,
    { q with queue := q.queue.filter (!isExpired now ·) })

/-- `GetSize`, with the calls of its `Purge`. -/
def getSize (now : Int) (q : RequestQueue U E) : List (Callback U E) × Nat × RequestQueue U E :=
  let (calls, q) := q.purge now
  (calls, q.queue.length, q)

/-- The search of `Enqueue` for the same packet with the same destination. -/
def holds (q : RequestQueue U E) (entry : QueuedPacket U E) : Bool :=
  q.queue.any fun i => i.uid == entry.uid && i.destination == entry.destination

/-- `Enqueue`. Of a queue for no packet at all it would drop the first. -/
def enqueue (now : Int) (entry : QueuedPacket U E) (q : RequestQueue U E) :
    Option (List (Callback U E) × Bool × RequestQueue U E) :=
  let (calls, q) := q.purge now
  if q.holds entry then some (calls, false, q)
  else
    let entry := entry.setExpireTime now q.queueTimeout
    if q.queue.length = q.maxLen.toNat then
      match q.queue with
      | [] => none
      | front :: rest =>
        some (calls ++ [drop front], true, { q with queue := rest ++ [entry] })
    else some (calls, true, { q with queue := q.queue ++ [entry] })

/-- `DropPacketWithDst`. -/
def dropPacketWithDst (now : Int) (dst : UInt32) (q : RequestQueue U E) :
    List (Callback U E) × RequestQueue U E :=
  let (calls, q) := q.purge now
  (calls ++ (q.queue.filter (isEqual dst)).map drop,
    { q with queue := q.queue.filter (!isEqual dst ·) })

/-- `Dequeue`. -/
def dequeue (now : Int) (dst : UInt32) (q : RequestQueue U E) :
    List (Callback U E) × Option (QueuedPacket U E) × RequestQueue U E :=
  let (calls, q) := q.purge now
  match q.queue.find? (isEqual dst) with
  | some e => (calls, some e, { q with queue := q.queue.eraseP (isEqual dst) })
  | none => (calls, none, q)

end RequestQueue

/-! ## Deferring -/

/-- What a routing protocol keeps of the packets that it defers; the timer is given by the time
    when it runs out. -/
structure DeferredPackets (U E : Type) where
  queue : RequestQueue U E
  queuedAddresses : List UInt32
  checkQueueTimer : Option Int

/-- `Time ("500ms")`. -/
def checkInterval : Int := 500000000

/-- `DeferredRouteOutput`. -/
def deferredRouteOutput (now : Int) (entry : QueuedPacket U E) (s : DeferredPackets U E) :
    Option (List (Callback U E) × DeferredPackets U E) := do
  let (calls, size, queue) := s.queue.getSize now
  let checkQueueTimer := if size = 0 then some (now + checkInterval) else s.checkQueueTimer
  let (calls', _, queue) ← queue.enqueue now entry
  -- `unique` takes away what is equal to the element before it
  return (calls ++ calls',
    ⟨queue, (entry.destination :: s.queuedAddresses).destutter (· ≠ ·), checkQueueTimer⟩)

/-- What `SendPacketFromQueue` is called with besides the queue, and what it may make. -/
abbrev SendPacket (U E ε σ γ : Type) : Type :=
  UInt32 → σ → RequestQueue U E → Except ε (Bool × σ × RequestQueue U E × List γ)

section CheckQueue

variable {ε σ γ : Type} (sendPacketFromQueue : SendPacket U E ε σ γ)

/-- The first loop of `CheckQueue`, with `toRemove`. -/
def checkLoop : List UInt32 → List UInt32 → σ → RequestQueue U E →
    Except ε (List UInt32 × σ × RequestQueue U E × List γ)
  | [], toRemove, t, queue => .ok (toRemove, t, queue, [])
  | i :: rest, toRemove, t, queue => do
    let (done, t, queue, calls) ← sendPacketFromQueue i t queue
    let (toRemove, t, queue, calls') ←
      checkLoop rest (if done then i :: toRemove else toRemove) t queue
    return (toRemove, t, queue, calls ++ calls')

/-- `CheckQueue`. -/
def checkQueue (now : Int) (t : σ) (s : DeferredPackets U E) :
    Except ε (List γ × σ × DeferredPackets U E) := do
  let (toRemove, t, queue, calls) ← checkLoop sendPacketFromQueue s.queuedAddresses [] t s.queue
  let queuedAddresses := toRemove.foldl (fun addresses i => addresses.filter (· != i))
    s.queuedAddresses
  return (calls, t, ⟨queue, queuedAddresses,
    if queuedAddresses = [] then none else some (now + checkInterval)⟩)

end CheckQueue

/-! ## A node over time -/

/-- The deferred packets of a node at a time. -/
structure Deferring (U E : Type) where
  now : Int
  packets : DeferredPackets U E

/-- `MaxQueueLen`. -/
def maxQueueLen : UInt32 := 64

/-- `MaxQueueTime`. -/
def maxQueueTime : Int := 30000000000

/-- A routing protocol that has deferred nothing. -/
def DeferredPackets.new : DeferredPackets U E := ⟨⟨[], maxQueueLen, maxQueueTime⟩, [], none⟩

/-- `DeferredRouteOutput` is called for a packet as in `entries`, which cannot be after the timer
    has run out, or the timer runs out and calls `CheckQueue`, with one of `sends`. -/
inductive DeferringStep {ε σ γ : Type} (entries : QueuedPacket U E → Prop)
    (sends : Int → SendPacket U E ε σ γ → Prop) : Deferring U E → Deferring U E → Prop where
  | deferredRouteOutput {s : Deferring U E} {now : Int} {entry : QueuedPacket U E}
      {calls : List (Callback U E)} {packets : DeferredPackets U E} (hnow : s.now ≤ now)
      (htimer : ∀ t, s.packets.checkQueueTimer = some t → now ≤ t) (hentry : entries entry)
      (h : deferredRouteOutput now entry s.packets = some (calls, packets)) :
      DeferringStep entries sends s ⟨now, packets⟩
  | checkQueue {s : Deferring U E} {now : Int} {send : SendPacket U E ε σ γ} {t t' : σ}
      {calls : List γ} {packets : DeferredPackets U E}
      (htimer : s.packets.checkQueueTimer = some now) (hsend : sends now send)
      (h : checkQueue send now t s.packets = .ok (calls, t', packets)) :
      DeferringStep entries sends s ⟨now, packets⟩

end MapRelay.NS3
