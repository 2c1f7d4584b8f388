import MapRelay.ForStd.Announce
import MapRelay.Native.GpsrHello
import MapRelay.Spec.GpsrQueue
import MapRelay.Spec.GpsrRoute
import MapRelay.Spec.RngPlanarize

/-!
# What a node knows from hellos

An entry of a position table tells where a neighbour was when it sent a hello, and counts for a
second. The hellos of a node are up to three halves of an interval apart, so that a neighbour can
be forgotten in between. If the nodes stay where they are, the tables are accurate, as the routing
takes them to be.
-/

namespace MapRelay.NS3.Gpsr

open ForStd Announce
open GeoSvr (removeHeader)

variable {V K : Type} [Field K]

/-! ## Single calls -/

/-- The position as it comes out of a hello. -/
def PacketEnv.receivedPosition (env : PacketEnv K) (p : Vector3D K) : Vector3D K :=
  ⟨env.received p.x, env.received p.y, 0⟩

/-- A hello that arrives tells the position and the address of its sender. -/
private theorem recvGpsr_sendHello (env : PacketEnv K) (now : Int) (t : NeighborTable K)
    (sender : UInt32) (p : Vector3D K) :
    recvGpsr env now t sender (sendHello env p) =
      .ok (t.addEntry now sender (env.receivedPosition p)) := by
  have htype := TypeHeader.run_deserialize env .hello (.new .hello)
    (HelloHeader.serialize env ⟨p.x, p.y⟩)
  have hhello := HelloHeader.run_deserialize env ⟨p.x, p.y⟩ []
  rw [List.append_nil] at hhello
  simp only [recvGpsr, sendHello, removeHeader, htype, hhello, bind, Except.bind]
  rfl

namespace NeighborTable

variable {t : NeighborTable K} {e : PositionEntry K} {now : Int}

omit [Field K] in
/-- The new entry takes the place of that with the same address. -/
private theorem mem_addEntry (ht : t.nbFromMbr = false) {id : UInt32} {position : Vector3D K} :
    e ∈ (t.addEntry now id position).table.entries ↔
      (e ∈ t.table.entries ∧ e.id ≠ id) ∨ e = ⟨id, position, now⟩ := by
  have hmbr : ¬t.nbFromMbr = true := by simp [ht]
  have hrest : ∀ i, i ∈ (t.table.erase id).entries ↔ i ∈ t.table.entries ∧ i.id ≠ id := by
    intro i
    simp [PositionTable.erase]
  rw [addEntry, dif_neg hmbr, PositionTable.mem_insert, hrest]
  apply or_congr Iff.rfl
  exact and_iff_left fun j hj => ((hrest j).mp hj).2

omit [Field K] in
/-- `AddEntry` keeps the kind of the table. -/
private theorem nbFromMbr_addEntry (now : Int) (t : NeighborTable K) (id : UInt32)
    (position : Vector3D K) : (t.addEntry now id position).nbFromMbr = t.nbFromMbr := by
  rw [addEntry]
  split <;> rfl

omit [Field K] in
/-- `Purge` keeps the kind of the table. -/
private theorem nbFromMbr_purge (env : GpsrEnv K) (now : Int) (t : NeighborTable K) :
    (t.purge env now).nbFromMbr = t.nbFromMbr := by
  rw [purge]
  split <;> rfl

omit [Field K] in
/-- The entries that `Purge` leaves, without one for the zero address. -/
theorem mem_purge (env : GpsrEnv K) (ht : t.nbFromMbr = false)
    (hid : ∀ i ∈ t.table.entries, i.id ≠ 0) :
    e ∈ (t.purge env now).table.entries ↔
      e ∈ t.table.entries ∧ now < entryLifeTime + e.updateTime := by
  have hmbr : ¬t.nbFromMbr = true := by simp [ht]
  rw [purge, dif_neg hmbr]
  show e ∈ (t.table.purge env now).entries ↔ _
  rw [PositionTable.entries_purge hid, PositionTable.unexpired, List.mem_filter,
    decide_eq_true_eq]

end NeighborTable

/-! ## Nodes that hear each other -/

section Network

variable {N : HelloNodes V K} {s s' : HelloState V K}

/-- The tables as books of what was heard. -/
def HelloNodes.book (N : HelloNodes V K) :
    Book V (List UInt8) (NeighborTable K) (PositionEntry K) UInt32 where
  entries t := t.table.entries
  about e := e.id
  time e := e.updateTime
  address := N.address
  Tells b e := e.id = N.address b.sender ∧
    e.position = N.env.receivedPosition (N.position b.sender b.sentAt)
  Counts now r := now < entryLifeTime + r
  about_eq _ _ h := h.1
  counts_mono := counts_mono_lt entryLifeTime

/-- What holds in every run: the tables are the nodes' own, and tell what was heard. -/
def HelloOk (N : HelloNodes V K) (s : HelloState V K) : Prop :=
  N.book.Held N.net s.net s.tables fun t => t.nbFromMbr = false

/-- At the start the tables are empty and the nodes' own. -/
theorem helloOk_initial (N : HelloNodes V K) (now : Int) : HelloOk N (.initial V K now) where
  book := Book.ok_initial now fun _ => rfl
  own _ := rfl

/-- No entry is for the zero address. -/
private theorem HelloOk.id_ne_zero (h : HelloOk N s) (v : V) :
    ∀ e ∈ (s.tables v).table.entries, e.id ≠ 0 := by
  intro e he
  obtain ⟨b, -, hid, -⟩ := h.book.entry v e he
  rw [hid]
  exact N.address_ne_zero b.sender

/-- The entries that `Purge` leaves. -/
theorem HelloOk.mem_purge (h : HelloOk N s) {v : V} {e : PositionEntry K} {now : Int} :
    e ∈ ((s.tables v).purge N.env.toGpsrEnv now).table.entries ↔
      e ∈ (s.tables v).table.entries ∧ now < entryLifeTime + e.updateTime :=
  NeighborTable.mem_purge _ (h.own v) (h.id_ne_zero v)

/-- A table with the entry of a hello. -/
theorem HelloNodes.enters (N : HelloNodes V K) {t : NeighborTable K} (ht : t.nbFromMbr = false)
    (now : Int) (id : UInt32) (position : Vector3D K) :
    N.book.Enters now t ⟨id, position, now⟩ (t.addEntry now id position) where
  mem_new := (NeighborTable.mem_addEntry ht).mpr (.inr rfl)
  mem_old _ he := ((NeighborTable.mem_addEntry ht).mp he).imp_left And.left
  mem_rest _ he hne _ := (NeighborTable.mem_addEntry ht).mpr (.inl ⟨he, hne⟩)

variable [DecidableEq V]

/-- A hello that is received is entered as heard. -/
theorem HelloOk.receive (h : HelloOk N s) {b : Announce.Transit V (List UInt8)}
    {net : State V (List UInt8)} {t : NeighborTable K} (hnet : Step N.net s.net (.receive b) net)
    (hrecv : recvGpsr N.env s.net.now (s.tables b.receiver) (N.address b.sender) b.packet =
      .ok t) : HelloOk N ⟨net, Function.update s.tables b.receiver t⟩ := by
  obtain ⟨hsent, -⟩ := h.book.net.transit b hnet.receive_eq.1
  rw [hsent.packet_eq, N.packet_eq, recvGpsr_sendHello] at hrecv
  cases hrecv
  apply h.update
  · exact h.book.receive hnet ⟨rfl, rfl⟩ rfl (N.enters (h.own _) _ _ _)
  · exact (NeighborTable.nbFromMbr_addEntry _ _ _ _).trans (h.own _)

/-- A purge drops what does not count any more. -/
theorem HelloOk.purge (h : HelloOk N s) (v : V) :
    HelloOk N { s with
      tables := Function.update s.tables v
        ((s.tables v).purge N.env.toGpsrEnv s.net.now) } := by
  apply h.update
  · exact h.book.purge fun e => h.mem_purge
  · exact (NeighborTable.nbFromMbr_purge _ _ _).trans (h.own v)

/-- The invariant holds in every run. -/
theorem helloOk_of_run {now₀ : Int} {events : List (HelloEvent V)}
    (hrun : Run (HelloStep N) (.initial V K now₀) events s) : HelloOk N s := by
  apply hrun.invariant (helloOk_initial N now₀)
  intro s event s' h hstep
  cases hstep with
  | tick hnet => exact h.of_net hnet (by cases hnet; rfl)
  | start hnet => exact h.of_net hnet (by cases hnet; rfl)
  | expire hnet => exact h.of_net hnet (by cases hnet; rfl)
  | receive hnet hrecv => exact h.receive hnet hrecv
  | purge => exact h.purge _

/-- What the tables tell in a state. `entry` is about all entries, the rest about those that are
    left when the table is purged, as it is before every choice of a next hop. -/
structure TablesHeard (N : HelloNodes V K) (s : HelloState V K) : Prop where
  spaced : ∀ v, (s.net.sent v).IsChain N.net.Spaced
  silent : ∀ v l rest, s.net.sent v = l :: rest → 2 * (s.net.now - l) ≤ 3 * N.net.interval
  /-- Each entry is about another node, which was at the position when it sent. -/
  entry : ∀ v, ∀ e ∈ (s.tables v).table.entries, ∃ u t, u ≠ v ∧ t ∈ s.net.sent u ∧
    v ∈ N.net.reach u t ∧ e.id = N.address u ∧
      e.position = N.env.receivedPosition (N.position u t) ∧ t ≤ e.updateTime ∧
        e.updateTime ≤ t + N.net.latency ∧ e.updateTime ≤ s.net.now
  counts : ∀ v e, e ∈ ((s.tables v).purge N.env.toGpsrEnv s.net.now).table.entries ↔
    e ∈ (s.tables v).table.entries ∧ s.net.now < entryLifeTime + e.updateTime
  /-- A node is known from the arrival of its hello on, for the lifetime of an entry. -/
  heard : ∀ v r b, (r, b) ∈ s.net.heard v → s.net.now < entryLifeTime + r →
    ∃ e ∈ ((s.tables v).purge N.env.toGpsrEnv s.net.now).table.entries,
      e.id = N.address b.sender ∧ r ≤ e.updateTime
  /-- It has arrived when the latency is over. -/
  known : ∀ u v t, t ∈ s.net.sent u → v ∈ N.net.reach u t → t + N.net.latency < s.net.now →
    s.net.now < entryLifeTime + t →
      ∃ e ∈ ((s.tables v).purge N.env.toGpsrEnv s.net.now).table.entries,
        e.id = N.address u ∧ t ≤ e.updateTime
  /-- It is forgotten after that time, also where its next hello is still to come. -/
  forgotten : ∀ u v,
    (∀ t ∈ s.net.sent u, v ∈ N.net.reach u t →
      t + N.net.latency + entryLifeTime ≤ s.net.now) →
    ∀ e ∈ ((s.tables v).purge N.env.toGpsrEnv s.net.now).table.entries, e.id ≠ N.address u
  /-- Tables of nodes that stay where they are have the property that the routing rests on. -/
  accurate : ∀ pos : UInt32 → Vector3D K,
    (∀ u t, N.env.receivedPosition (N.position u t) = planar (pos (N.address u))) →
      ∀ v t, (s.tables v).Accurate N.env.toRecoveryEnv t pos

omit [DecidableEq V] in
/-- Each entry is from a hello of another node, and has the time of its arrival. -/
theorem HelloOk.entry_sent (h : HelloOk N s) {v : V} {e : PositionEntry K}
    (he : e ∈ (s.tables v).table.entries) :
    ∃ u t, u ≠ v ∧ t ∈ s.net.sent u ∧ v ∈ N.net.reach u t ∧ e.id = N.address u ∧
      e.position = N.env.receivedPosition (N.position u t) ∧ t ≤ e.updateTime ∧
        e.updateTime ≤ t + N.net.latency ∧ e.updateTime ≤ s.net.now := by
  obtain ⟨b, ⟨hid, hposition⟩, rfl, hsent, hrest⟩ := h.book.entry_sent he
  exact ⟨b.sender, b.sentAt, hsent.sender_ne, hsent.mem_sent, hsent.reached, hid, hposition,
    hrest⟩

/-- The hellos of a run make the tables. -/
theorem hello_tables {now₀ : Int} {events : List (HelloEvent V)}
    (hrun : Run (HelloStep N) (.initial V K now₀) events s) : TablesHeard N s := by
  have h := helloOk_of_run hrun
  constructor
  · exact h.book.net.spaced
  · intro v l rest hl
    exact h.book.net.silent hl
  · intro v e he
    exact h.entry_sent he
  · intro v e
    exact h.mem_purge
  · intro v r b hb hlive
    obtain ⟨e, he, hid, hle, hcounts⟩ := h.book.known_heard hb hlive
    exact ⟨e, h.mem_purge.mpr ⟨he, hcounts⟩, hid, hle⟩
  · intro u v t ht hv hlate hlive
    obtain ⟨e, he, hid, hle, hcounts⟩ := h.book.known ht hv hlate hlive
    exact ⟨e, h.mem_purge.mpr ⟨he, hcounts⟩, hid, hle⟩
  · intro u v hold e he hid
    obtain ⟨hmem, hlive⟩ := h.mem_purge.mp he
    obtain ⟨u', t, -, ht, hv, hid', -, -, hupdate, -⟩ := h.entry_sent hmem
    cases N.address_injective _ _ (hid'.symm.trans hid)
    have hexpired := hold t ht hv
    omega
  · intro pos hpos v t e he
    obtain ⟨i, hi, rfl⟩ := (NeighborTable.mem_neighbours_own (h.own v)).mp he
    obtain ⟨u, t', -, -, -, hid, hposition, -⟩ := h.entry_sent hi
    refine ⟨h.id_ne_zero v i hi, ?_⟩
    show i.position = planar (pos i.id)
    rw [hid, hposition, hpos]

end Network

def pairAddress (v : Bool) : UInt32 := if v then 2 else 1

/-- The nodes of the example have different addresses. -/
private theorem pairAddress_injective : ∀ v w, pairAddress v = pairAddress w → v = w := by decide

/-- None of them is zero. -/
private theorem pairAddress_ne_zero : ∀ v, pairAddress v ≠ 0 := by decide

def pairPosition (v : Bool) (_ : Int) : Vector3D ℚ := if v then ⟨30, 40, 0⟩ else ⟨0, 0, 0⟩

/-- Their hellos do not arrive before they are sent. -/
private theorem pairLatency_nonneg : 0 ≤ (1000 : Int) := by decide

/-- Two nodes that hear each other. -/
def helloPair : HelloNodes Bool ℚ where
  env := wireEnv
  address := pairAddress
  position := pairPosition
  net := ⟨fun v t => sendHello wireEnv (pairPosition v t), fun v _ => [!v], 1000, 1000000000,
    not_mem_other, pairLatency_nonneg⟩
  packet_eq _ _ := rfl
  address_injective := pairAddress_injective
  address_ne_zero := pairAddress_ne_zero

/-- The first hello is heard at once, and the next one is due after one and a half intervals. In
    between the neighbour is forgotten, although both stay where they are. -/
theorem hello_tables_pair : ∃ events s,
    Run (HelloStep helloPair) (.initial Bool ℚ 0) events s ∧ s.net.now = 1200000000 ∧
      s.net.timers true = some 1500000000 ∧
      (s.tables false).table.entries = [⟨2, ⟨30, 40, 0⟩, 0⟩] ∧
      (∀ e ∈ ((s.tables false).purge wireEnv.toGpsrEnv s.net.now).table.entries, e.id ≠ 2) ∧
      TablesHeard helloPair s := by
  have hrun : Run (HelloStep helloPair) (.initial Bool ℚ 0) [] _ := .nil
  have hrun := hrun.snoc (show HelloStep helloPair _ (.net (.start true 0)) _ from
    .start (.start rfl (by decide)) rfl)
  have hrun := hrun.snoc (show HelloStep helloPair _ (.net (.send true 500000000)) _ from
    .expire (.send rfl (by decide)) rfl)
  have hrun := hrun.snoc (show HelloStep helloPair _
      (.net (.receive (helloPair.net.transit true 0 false))) _ from
    .receive (.receive (show _ = [] ++ _ :: _ from rfl)) (recvGpsr_sendHello _ _ _ _ _))
  have hrun := hrun.snoc (show HelloStep helloPair _ (.net (.tick 1200000000)) _ from
    .tick (.tick (by decide)
      (fun v e he => by
        cases v with
        | false => cases he
        | true =>
          cases he
          decide)
      (fun b hb => nomatch hb)))
  have htables := hello_tables hrun
  refine ⟨_, _, hrun, rfl, rfl, by decide +kernel, ?_, htables⟩
  apply htables.forgotten true false
  intro t ht _
  cases List.mem_singleton.mp ht
  decide

end MapRelay.NS3.Gpsr
