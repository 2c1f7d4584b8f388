import MapRelay.Native.GeoSvrHello
import MapRelay.Spec.RoadSearch

/-!
# What a GeoSVR node knows from hellos

An entry of the list of neighbours counts for two seconds, which is longer than three halves of
the usual interval. So a neighbour that stays in reach is not forgotten between its hellos, in
contrast to GPSR.
-/

namespace MapRelay.NS3.GeoSvr

open ForStd Announce
open MsvrMap (getRoadByPos)

variable {V K : Type}

/-! ## Single calls -/

section Headers

variable (env : HelloEnv K)

/-- A coordinate as it comes out of a hello. -/
def HelloEnv.received (x : K) : K := env.ofBits (env.toBits x)

/-- A hello has the announced size. -/
theorem HelloHeader.length_serialize (hdr : HelloHeader K) :
    (hdr.serialize env).length = getSerializedSize := by
  simp [serialize, getSerializedSize]

/-- A hello is read back, with the coordinates as they come out. -/
theorem HelloHeader.run_deserialize (hdr : HelloHeader K) (rest : List UInt8) :
    (deserialize env).run (hdr.serialize env ++ rest) =
      some (⟨env.received hdr.x, env.received hdr.y, env.received hdr.s, env.received hdr.h,
        hdr.dst⟩, rest) := by
  simp only [deserialize, serialize, List.append_assoc, Codec.run_read_write]
  rfl

/-- The type of a hello is read back. -/
private theorem TypeHeader.run_deserialize_hello (h₀ : TypeHeader) (rest : List UInt8) :
    (h₀.deserialize env.buffer).run ((TypeHeader.new .hello).serialize env.buffer ++ rest) =
      some (.new .hello, rest) := by
  simp only [deserialize, serialize, new, Codec.run_read_write]
  rfl

variable [Field K] [LinearOrder K]

/-- What a hello from a position tells, where that is on the road `edgeid`. -/
def HelloEnv.info (p : Point K) (address : UInt32) (edgeid : Int32) : NInfo K :=
  ⟨env.received p.x, env.received p.y, env.received 0, env.received 0, edgeid, address⟩

/-- The road of a position as it comes out of a hello. -/
def HelloEnv.receivedRoad (p : Point K) : Except MapFault Road :=
  getRoadByPos env.fuel env.map (env.received p.x) (env.received p.y)

/-- A hello that arrives tells the position and the address of its sender. -/
private theorem recvHello_sendHello (now : Int) (t : Neighbors K) (p : Point K) (address : UInt32) :
    recvHello env now t (sendHello env p address) =
      (inNeighbors (inMap (env.receivedRoad p))).map fun road =>
        t.update now (env.info p address road.id) := by
  -- Both headers are read back, nothing lies behind them
  have htype := TypeHeader.run_deserialize_hello env (.new .hello)
    (HelloHeader.serialize env ⟨p.x, p.y, 0, 0, address⟩)
  have hhello := HelloHeader.run_deserialize env ⟨p.x, p.y, 0, 0, address⟩ []
  rw [List.append_nil] at hhello
  simp only [recvHello, sendHello, removeHeader, htype, hhello, bind, Except.bind]
  -- The road of the position as it arrives
  cases hroad : env.receivedRoad p with
  | ok road =>
    rw [HelloEnv.receivedRoad] at hroad
    simp only [hroad]
    rfl
  | error fault =>
    rw [HelloEnv.receivedRoad] at hroad
    simp only [hroad]
    rfl

/-- Where a hello is entered, its position has a road. -/
private theorem recvHello_eq_ok {now : Int} {t t' : Neighbors K} {p : Point K} {address : UInt32}
    (h : recvHello env now t (sendHello env p address) = .ok t') :
    ∃ road, env.receivedRoad p = .ok road ∧ t' = t.update now (env.info p address road.id) := by
  rw [recvHello_sendHello] at h
  cases hroad : env.receivedRoad p with
  | ok road =>
    rw [hroad] at h
    cases h
    exact ⟨road, rfl, rfl⟩
  | error fault =>
    rw [hroad] at h
    cases h

end Headers

namespace Neighbors

variable {t : Neighbors K} {now : Int} {ip : NInfo K} {nb : NbEntry K}

/-- `refresh` finds no entry for the address, or renews the first one there is. -/
theorem refresh_cases (now : Int) (ip : NInfo K) (nbl : List (NbEntry K)) :
    (refresh now ip nbl = none ∧ ∀ nb ∈ nbl, nb.ninfo.dst ≠ ip.dst) ∨
      ∃ l₁ nb l₂, nbl = l₁ ++ nb :: l₂ ∧ nb.ninfo.dst = ip.dst ∧
        refresh now ip nbl = some (l₁ ++ ⟨ip, max (entryLifeTime + now) nb.expireTime⟩ :: l₂) := by
  -- The loop stops at the first entry for the sender
  induction nbl with
  | nil => exact .inl ⟨rfl, fun _ h => nomatch h⟩
  | cons i rest ih =>
    rw [refresh]
    by_cases hi : i.ninfo.dst = ip.dst
    · rw [if_pos hi]
      exact .inr ⟨[], i, rest, rfl, hi, rfl⟩
    · rw [if_neg hi]
      rcases ih with ⟨hnone, hrest⟩ | ⟨l₁, nb, l₂, rfl, hnb, hsome⟩
      · rw [hnone]
        exact .inl ⟨rfl, List.forall_mem_cons.mpr ⟨hi, hrest⟩⟩
      · rw [hsome]
        exact .inr ⟨i :: l₁, nb, l₂, rfl, hnb, rfl⟩

/-- If no entry counts for longer than a new one, there is a new one after `Update`, beside those
    for other addresses that have not expired. -/
theorem mem_update (hle : ∀ nb ∈ t.nbl, nb.expireTime ≤ entryLifeTime + now) :
    (⟨ip, entryLifeTime + now⟩ ∈ (t.update now ip).nbl) ∧
      (∀ nb ∈ (t.update now ip).nbl, nb ∈ t.nbl ∨ nb = ⟨ip, entryLifeTime + now⟩) ∧
      ∀ nb ∈ t.nbl, nb.ninfo.dst ≠ ip.dst → now ≤ nb.expireTime → nb ∈ (t.update now ip).nbl := by
  rcases refresh_cases now ip t.nbl with ⟨hnone, -⟩ | ⟨l₁, old, l₂, hnbl, hold, hsome⟩
  -- A new entry goes in front, and the list is purged
  · simp only [update, hnone, purge, List.mem_filter, List.mem_cons, Bool.not_eq_true',
      decide_eq_false_iff_not, not_lt]
    refine ⟨⟨.inl trivial, ?_⟩, fun nb hnb => hnb.1.symm, fun nb hnb _ hlive => ⟨.inr hnb, hlive⟩⟩
    simp only [entryLifeTime]
    omega
  -- The entry of the sender gets the new information and the later expiry
  · rw [max_eq_left (hle old (by simp [hnbl]))] at hsome
    simp only [update, hsome]
    refine ⟨by simp, fun nb hnb => ?_, fun nb hnb hne _ => ?_⟩
    · rw [hnbl]
      simp only [List.mem_append, List.mem_cons] at hnb ⊢
      tauto
    · rw [hnbl] at hnb
      simp only [List.mem_append, List.mem_cons] at hnb ⊢
      rcases hnb with hnb | rfl | hnb
      · exact .inl hnb
      · exact absurd hold hne
      · exact .inr (.inr hnb)

/-- `update` keeps the kind of the table. -/
private theorem nbFromMbr_update (now : Int) (t : Neighbors K) (ip : NInfo K) :
    (t.update now ip).nbFromMbr = t.nbFromMbr := by
  rw [update]
  split <;> rfl

/-- The entries that `purge` leaves. -/
theorem mem_purge : nb ∈ (t.purge now).nbl ↔ nb ∈ t.nbl ∧ now ≤ nb.expireTime := by
  simp only [purge, List.mem_filter, Bool.not_eq_true', decide_eq_false_iff_not, not_lt]

/-- A neighbour is a node with an entry that has not expired. -/
private theorem isNeighbor_iff (ht : t.nbFromMbr = false) {dst : UInt32} :
    (t.isNeighbor now dst).1 = true ↔ ∃ nb ∈ t.nbl, nb.ninfo.dst = dst ∧ now ≤ nb.expireTime := by
  simp only [isNeighbor, ht, Bool.false_eq_true, if_false, List.any_eq_true, beq_iff_eq, mem_purge]
  constructor
  · rintro ⟨nb, ⟨hnb, hlive⟩, hdst⟩
    exact ⟨nb, hnb, hdst, hlive⟩
  · rintro ⟨nb, hnb, hdst, hlive⟩
    exact ⟨nb, ⟨hnb, hlive⟩, hdst⟩

end Neighbors

/-! ## Nodes that hear each other -/

section Network

variable [Field K] [LinearOrder K] {N : HelloNodes V K} {s s' : HelloState V K}

/-- What a neighbour tells is from a hello that `u` sent at `t`. -/
def HelloNodes.Tells (N : HelloNodes V K) (u : V) (t : Int) (ninfo : NInfo K) : Prop :=
  ∃ road, N.env.receivedRoad (N.position u t) = .ok road ∧
    ninfo = N.env.info (N.position u t) (N.address u) road.id

/-- What is told by a hello is about its sender. -/
private theorem HelloNodes.Tells.dst_eq {u : V} {t : Int} {ninfo : NInfo K}
    (h : N.Tells u t ninfo) :
    ninfo.dst = N.address u := by
  obtain ⟨road, -, rfl⟩ := h
  rfl

/-- So it is for a hello in the air. -/
private theorem HelloNodes.dst_eq (N : HelloNodes V K) (b : Announce.Transit V (List UInt8))
    (nb : NbEntry K) (h : N.Tells b.sender b.sentAt nb.ninfo) :
    nb.ninfo.dst = N.address b.sender :=
  h.dst_eq

/-- The neighbours as books of what was heard, one lifetime before an entry expires. -/
def HelloNodes.book (N : HelloNodes V K) :
    Book V (List UInt8) (Neighbors K) (NbEntry K) UInt32 where
  entries t := t.nbl
  about nb := nb.ninfo.dst
  time nb := nb.expireTime - entryLifeTime
  address := N.address
  Tells b nb := N.Tells b.sender b.sentAt nb.ninfo
  Counts now r := now ≤ entryLifeTime + r
  about_eq := N.dst_eq
  counts_mono := counts_mono_le entryLifeTime

/-- What holds in every run: the neighbours are the nodes' own, and tell what was heard. -/
def HelloOk (N : HelloNodes V K) (s : HelloState V K) : Prop :=
  N.book.Held N.net s.net s.neighbors fun t => t.nbFromMbr = false

/-- At the start the tables are empty and the nodes' own. -/
theorem helloOk_initial (N : HelloNodes V K) (now : Int) : HelloOk N (.initial V K now) where
  book := Book.ok_initial now fun _ => rfl
  own _ := rfl

/-- An entry counts as long as it has not expired. -/
private theorem HelloNodes.counts_iff (N : HelloNodes V K) {now : Int} {nb : NbEntry K} :
    N.book.Counts now (N.book.time nb) ↔ now ≤ nb.expireTime := by
  show now ≤ entryLifeTime + (nb.expireTime - entryLifeTime) ↔ _
  rw [add_sub_cancel]

/-- No entry is from a hello that is still to come. -/
private theorem HelloOk.expireTime_le (h : HelloOk N s) (v : V) :
    ∀ nb ∈ (s.neighbors v).nbl, nb.expireTime ≤ entryLifeTime + s.net.now := by
  intro nb hnb
  obtain ⟨b, -, -, -, -, -, hnow⟩ := h.book.entry_sent hnb
  exact sub_le_iff_le_add'.mp hnow

/-- The neighbours with the entry of a hello. -/
theorem HelloOk.enters (h : HelloOk N s) (v : V) (ninfo : NInfo K) :
    N.book.Enters s.net.now (s.neighbors v) ⟨ninfo, entryLifeTime + s.net.now⟩
      ((s.neighbors v).update s.net.now ninfo) := by
  obtain ⟨hnew, hold, hrest⟩ :=
    @Neighbors.mem_update K (s.neighbors v) s.net.now ninfo (h.expireTime_le v)
  constructor
  · exact hnew
  · exact hold
  · intro nb hnb hne hcounts
    exact hrest nb hnb hne (N.counts_iff.mp hcounts)

variable [DecidableEq V]

/-- A hello that is received is entered as heard. -/
theorem HelloOk.receive (h : HelloOk N s) {b : Announce.Transit V (List UInt8)}
    {net : State V (List UInt8)} {t : Neighbors K} (hnet : Step N.net s.net (.receive b) net)
    (hrecv : recvHello N.env s.net.now (s.neighbors b.receiver) b.packet = .ok t) :
    HelloOk N ⟨net, Function.update s.neighbors b.receiver t⟩ := by
  obtain ⟨hsent, -⟩ := h.book.net.transit b hnet.receive_eq.1
  rw [hsent.packet_eq, N.packet_eq] at hrecv
  obtain ⟨road, hroad, rfl⟩ := recvHello_eq_ok N.env hrecv
  apply h.update
  · exact h.book.receive hnet ⟨road, hroad, rfl⟩ (add_sub_cancel_left _ _) (h.enters _ _)
  · exact (Neighbors.nbFromMbr_update _ _ _).trans (h.own _)

/-- A purge drops what does not count any more. -/
theorem HelloOk.purge (h : HelloOk N s) (v : V) :
    HelloOk N { s with
      neighbors := Function.update s.neighbors v ((s.neighbors v).purge s.net.now) } := by
  apply h.update
  · apply h.book.purge
    intro nb
    rw [N.counts_iff]
    exact Neighbors.mem_purge
  · exact h.own v

/-- The invariant holds in every run. -/
theorem helloOk_of_run {now₀ : Int} {events : List (HelloEvent V)}
    (hrun : Run (HelloStep N) (.initial V K now₀) events s) : HelloOk N s := by
  apply hrun.invariant (helloOk_initial N now₀)
  intro s event s' h hstep
  cases hstep with
  | tick hnet => exact h.of_net hnet (by cases hnet; rfl)
  | start hnet => exact h.of_net hnet (by cases hnet; rfl)
  | expire hnet => exact h.of_net hnet (by cases hnet; rfl)
  | receive hnet hrecv => exact h.receive hnet hrecv
  | purge => exact h.purge _

/-- Node `v` takes `u` for a neighbour. -/
def HelloState.Knows (s : HelloState V K) (N : HelloNodes V K) (v u : V) : Prop :=
  ((s.neighbors v).isNeighbor s.net.now (N.address u)).1 = true

/-- What the neighbours of the nodes are in a state. -/
structure NeighborsHeard (N : HelloNodes V K) (s : HelloState V K) : Prop where
  spaced : ∀ v, (s.net.sent v).IsChain N.net.Spaced
  silent : ∀ v l rest, s.net.sent v = l :: rest → 2 * (s.net.now - l) ≤ 3 * N.net.interval
  /-- Each entry is about another node, with the road of the position that it had when it sent. -/
  entry : ∀ v, ∀ nb ∈ (s.neighbors v).nbl, ∃ u t, u ≠ v ∧ t ∈ s.net.sent u ∧
    v ∈ N.net.reach u t ∧ N.Tells u t nb.ninfo ∧ entryLifeTime + t ≤ nb.expireTime ∧
      nb.expireTime ≤ entryLifeTime + t + N.net.latency ∧
        nb.expireTime ≤ entryLifeTime + s.net.now
  /-- A node is known from the arrival of its hello on, for the lifetime of an entry. -/
  heard : ∀ v r b, (r, b) ∈ s.net.heard v → s.net.now ≤ entryLifeTime + r →
    s.Knows N v b.sender
  /-- It has arrived when the latency is over. -/
  known : ∀ u v t, t ∈ s.net.sent u → v ∈ N.net.reach u t → t + N.net.latency < s.net.now →
    s.net.now ≤ entryLifeTime + t → s.Knows N v u
  /-- If the lifetime covers three halves of an interval, and the latencies, then a node that
      stays in reach is not forgotten. -/
  unbroken : 3 * N.net.interval + 2 * N.net.latency ≤ 2 * entryLifeTime →
    ∀ u v, (∀ t ∈ s.net.sent u, v ∈ N.net.reach u t) →
      (∃ t ∈ s.net.sent u, t + N.net.latency < s.net.now) → s.Knows N v u
  forgotten : ∀ u v,
    (∀ t ∈ s.net.sent u, v ∈ N.net.reach u t →
      entryLifeTime + t + N.net.latency < s.net.now) → ¬s.Knows N v u

omit [DecidableEq V] in
/-- Each entry is from a hello of another node, and expires in time. -/
theorem HelloOk.entry_sent (h : HelloOk N s) {v : V} {nb : NbEntry K}
    (hnb : nb ∈ (s.neighbors v).nbl) :
    ∃ u t, u ≠ v ∧ t ∈ s.net.sent u ∧ v ∈ N.net.reach u t ∧ N.Tells u t nb.ninfo ∧
      entryLifeTime + t ≤ nb.expireTime ∧
        nb.expireTime ≤ entryLifeTime + t + N.net.latency ∧
          nb.expireTime ≤ entryLifeTime + s.net.now := by
  obtain ⟨b, htells, rfl, hsent, hle, hle', hnow⟩ := h.book.entry_sent hnb
  refine ⟨b.sender, b.sentAt, hsent.sender_ne, hsent.mem_sent, hsent.reached, htells, ?_⟩
  change b.sentAt ≤ nb.expireTime - entryLifeTime at hle
  change nb.expireTime - entryLifeTime ≤ _ at hle' hnow
  omega

omit [DecidableEq V] in
/-- A node is known from the latest arrival of its hello on, for the lifetime after sending. -/
theorem HelloOk.known (h : HelloOk N s) {u v : V} {t : Int} (ht : t ∈ s.net.sent u)
    (hv : v ∈ N.net.reach u t) (hlate : t + N.net.latency < s.net.now)
    (hlive : s.net.now ≤ entryLifeTime + t) : s.Knows N v u := by
  obtain ⟨nb, hnb, hdst, -, hcounts⟩ := h.book.known ht hv hlate hlive
  exact (Neighbors.isNeighbor_iff (h.own v)).mpr ⟨nb, hnb, hdst, N.counts_iff.mp hcounts⟩

omit [DecidableEq V] in
/-- A node is known for the lifetime after its hello was heard. -/
theorem HelloOk.known_heard (h : HelloOk N s) {v : V} {r : Int}
    {b : Announce.Transit V (List UInt8)} (hb : (r, b) ∈ s.net.heard v)
    (hlive : s.net.now ≤ entryLifeTime + r) : s.Knows N v b.sender := by
  obtain ⟨nb, hnb, hdst, -, hcounts⟩ := h.book.known_heard hb hlive
  exact (Neighbors.isNeighbor_iff (h.own v)).mpr ⟨nb, hnb, hdst, N.counts_iff.mp hcounts⟩

/-- The hellos of a run make the neighbours. -/
theorem hello_neighbors {now₀ : Int} {events : List (HelloEvent V)}
    (hrun : Run (HelloStep N) (.initial V K now₀) events s) : NeighborsHeard N s := by
  have h := helloOk_of_run hrun
  constructor
  · exact h.book.net.spaced
  · intro v l rest hl
    exact h.book.net.silent hl
  · intro v nb hnb
    exact h.entry_sent hnb
  · intro v r b hb hlive
    exact h.known_heard hb hlive
  · intro u v t ht hv hlate hlive
    exact h.known ht hv hlate hlive
  -- Three halves of an interval and the latencies leave no gap
  · intro hlife u v hreach hlate
    obtain ⟨t, ht, hlate, hrecent⟩ := h.book.net.exists_recent hlate
    exact h.known ht (hreach t ht) hlate (by omega)
  -- What is known rests on a hello that has not expired
  · intro u v hold hknows
    obtain ⟨nb, hnb, hdst, hlive⟩ := (Neighbors.isNeighbor_iff (h.own v)).mp hknows
    obtain ⟨u', t, -, ht, hv, htells, -, hexpire, -⟩ := h.entry_sent hnb
    cases N.address_injective _ _ (htells.dst_eq.symm.trans hdst)
    have hexpired := hold t ht hv
    omega

end Network

def streetAddress (v : Bool) : UInt32 := if v then 2 else 1

/-- The nodes of the example have different addresses. -/
private theorem streetAddress_injective : ∀ v w, streetAddress v = streetAddress w → v = w :=
  by decide

def streetPosition (v : Bool) (_ : Int) : Point ℚ := if v then ⟨60, 0⟩ else ⟨10, 0⟩

/-- Their hellos do not arrive before they are sent. -/
private theorem streetLatency_nonneg : 0 ≤ (1000 : Int) := by decide

def streetEnv : HelloEnv ℚ where
  buffer := .network
  toBits x := UInt64.ofNat x.num.toNat
  ofBits w := w.toNat
  map := MsvrMap.street
  fuel := 1

/-- Two nodes on a street that hear each other. -/
def helloStreet : HelloNodes Bool ℚ where
  env := streetEnv
  address := streetAddress
  position := streetPosition
  net := ⟨fun v t => sendHello streetEnv (streetPosition v t) (streetAddress v), fun v _ => [!v],
    1000, 1000000000, not_mem_other, streetLatency_nonneg⟩
  packet_eq _ _ := rfl
  address_injective := streetAddress_injective

/-- The sender is on the only road there is. -/
private theorem receivedRoad_street : streetEnv.receivedRoad ⟨60, 0⟩ = .ok ⟨0, 1, 7, 30⟩ := by
  decide +kernel

/-- The neighbour is known until its next hello, which is due after one and a half intervals. -/
theorem hello_neighbors_street : ∃ events s,
    Run (HelloStep helloStreet) (.initial Bool ℚ 0) events s ∧ s.net.now = 1500000000 ∧
      s.net.timers true = some 1500000000 ∧ s.Knows helloStreet false true ∧
      NeighborsHeard helloStreet s := by
  -- The vehicle `true` starts, sends its first hello, which `false` receives at once
  have hrun : Run (HelloStep helloStreet) (.initial Bool ℚ 0) [] _ := .nil
  have hrun := hrun.snoc (show HelloStep helloStreet _ (.net (.start true 0)) _ from
    .start (.start rfl (by decide)) rfl)
  have hrun := hrun.snoc (show HelloStep helloStreet _ (.net (.send true 500000000)) _ from
    .expire (.send rfl (by decide)) rfl)
  have hrun := hrun.snoc (show HelloStep helloStreet _
      (.net (.receive (helloStreet.net.transit true 0 false))) _ from
    .receive (.receive (show _ = [] ++ _ :: _ from rfl))
      ((recvHello_sendHello _ _ _ _ _).trans (congrArg (fun road =>
        (inNeighbors (inMap road)).map _) receivedRoad_street)))
  -- The clock goes on to the time of the next hello
  have hrun := hrun.snoc (show HelloStep helloStreet _ (.net (.tick 1500000000)) _ from
    .tick (.tick (by decide)
      (fun v e he => by
        cases v with
        | false => cases he
        | true =>
          cases he
          decide)
      (fun b hb => nomatch hb)))
  have hheard := hello_neighbors hrun
  refine ⟨_, _, hrun, rfl, rfl, ?_, hheard⟩
  apply hheard.unbroken (by decide) true false
  · intro t _
    exact List.mem_singleton_self _
  · exact ⟨0, List.mem_singleton_self _, by decide⟩

end MapRelay.NS3.GeoSvr
