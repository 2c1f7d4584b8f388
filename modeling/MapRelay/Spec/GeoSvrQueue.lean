import MapRelay.Native.GeoSvrQueue
import MapRelay.Spec.GeoSvrPacket
import Mathlib.Data.List.Forall2
import Mathlib.Data.Nat.Sqrt
import Mathlib.Data.Rat.Floor

/-!
# The queue of GeoSVR loses packets

An entry that leaves the queue should have one of its callbacks called. `Purge` and
`DropPacketWithDst` see to that, and `Forwarding` does when it finds a way. But when it returns
`false`, no callback is called, and the packet that `Dequeue` has taken out is gone. So nothing is
lost exactly if every packet that is taken out can be forwarded.
-/

namespace MapRelay.NS3.GeoSvr

open ForStd Blocks
open MsvrMap (getRoadByPos)

variable {K U E : Type}

/-! ## The blocks of a header -/

namespace DatapacketHeader

variable {mem mem' : Blocks} {h h₀ : DatapacketHeader}

/-- The header has no path, or a block with its length and at least as many ids. -/
def Held (mem : Blocks) (h : DatapacketHeader) : Prop :=
  (h.path = NULL ∧ h.length = 0) ∨
    ∃ block, mem.cell h.path = some block ∧ h.length.toNat + 1 ≤ block.length

/-- A header that holds its block can be read. -/
theorem Held.pathOk (hheld : h.Held mem) : h.PathOk mem := by
  rcases hheld with ⟨hnull, -⟩ | ⟨block, hcell, -⟩
  · exact .inl hnull
  · exact .inr (Heap.live_iff.mpr ⟨block, hcell⟩)

/-- A header that holds its block can be serialized. -/
theorem Held.serialize (hheld : h.Held mem) (i : Buffer) :
    ∃ mem' bytes, h.serialize i mem = .ok (mem', bytes) := by
  rcases hheld with ⟨hnull, hzero⟩ | ⟨block, hcell, hlen⟩
  · refine ⟨mem, h.wire i [], ?_⟩
    simp only [DatapacketHeader.serialize, wire, hzero, UInt32.toNat_zero, bytesFrom, hnull,
      release_null, bind, Except.bind]
    rfl
  · obtain ⟨mem', hrelease, -⟩ := release_of_live (Heap.live_iff.mpr ⟨block, hcell⟩)
    refine ⟨mem', h.wire i ((block.drop 1).take h.length.toNat), ?_⟩
    simp only [DatapacketHeader.serialize, bytesFrom_of_cell hcell 1 h.length.toNat (by omega),
      hrelease, bind, Except.bind]
    rfl

/-- A header that holds its block can be given another path, which it then holds. -/
theorem Held.encodePath (hheld : h.Held mem) (paths : List Int32) :
    ∃ mem' h', h.encodePath mem paths = .ok (mem', h') ∧ h'.Held mem' := by
  obtain ⟨mem', p, hok, -, hcell⟩ := encodePath_ok hheld.pathOk paths
  refine ⟨mem', _, hok, .inr ⟨_, hcell, ?_⟩⟩
  rw [UInt8.toNat_toUInt32, UInt8.toNat_ofNat', pathBlock, List.length_cons, length_pathBytes]
  exact Nat.succ_le_succ (Nat.mod_le _ _)

/-- A header that has been deserialized holds its block. -/
private theorem held_of_run_deserialize {i : Buffer} {n : Nat} {p rest : List UInt8}
    (hrun : (default.deserialize i mem).run p = some ((mem', h, n), rest)) : h.Held mem' := by
  -- One step for each field that is read
  obtain ⟨start, _, -, hrun⟩ := Reader.run_bind_eq_some.mp hrun
  obtain ⟨length, _, -, hrun⟩ := Reader.run_bind_eq_some.mp hrun
  obtain ⟨m, _, -, hrun⟩ := Reader.run_bind_eq_some.mp hrun
  obtain ⟨t, _, -, hrun⟩ := Reader.run_bind_eq_some.mp hrun
  obtain ⟨c, _, -, hrun⟩ := Reader.run_bind_eq_some.mp hrun
  obtain ⟨sx, _, -, hrun⟩ := Reader.run_bind_eq_some.mp hrun
  obtain ⟨sy, _, -, hrun⟩ := Reader.run_bind_eq_some.mp hrun
  obtain ⟨dx, _, -, hrun⟩ := Reader.run_bind_eq_some.mp hrun
  obtain ⟨dy, _, -, hrun⟩ := Reader.run_bind_eq_some.mp hrun
  split at hrun
  · next hzero =>
    -- Without a path the pointer is still `NULL`
    obtain ⟨_, _, hpath, hrun⟩ := Reader.run_bind_eq_some.mp hrun
    cases hpath
    obtain ⟨left, _, -, hrun⟩ := Reader.run_bind_eq_some.mp hrun
    simp only at hrun
    split at hrun
    · cases hrun
      exact .inl ⟨rfl, hzero⟩
    · cases hrun
  · -- The block has the length and as many bytes as it says
    obtain ⟨bytes, _, hbytes, hrun⟩ := Reader.run_bind_eq_some.mp hrun
    obtain ⟨_, _, hpath, hrun⟩ := Reader.run_bind_eq_some.mp hrun
    cases hpath
    obtain ⟨left, _, -, hrun⟩ := Reader.run_bind_eq_some.mp hrun
    simp only at hrun
    split at hrun
    · cases hrun
      refine .inr ⟨length.toUInt8 :: bytes, if_pos rfl, ?_⟩
      rw [List.length_cons, Codec.length_of_run_readN hbytes]
      exact Nat.le_refl _
    · cases hrun

end DatapacketHeader

/-! ## The neighbours -/

namespace Neighbors

variable {now : Int} {t t' : Neighbors K} {dst : UInt32}

/-- The tables after `isNeighbor`, whatever it has been asked. -/
def settle (now : Int) (t : Neighbors K) : Neighbors K :=
  if t.nbFromMbr then { t with nbapp := t.nbapp.map (NS3.purge now) } else t.purge now

/-- `isNeighbor` purges the table it looks at, whatever it finds. -/
theorem isNeighbor_of_fst {near : Bool} (h : (t.isNeighbor now dst).1 = near) :
    t.isNeighbor now dst = (near, t.settle now) := by
  subst h
  obtain ⟨nbl, mbr, nbapp⟩ := t
  cases mbr <;> cases nbapp <;> rfl

/-- Purging twice at one time is purging once. -/
theorem purge_purge (now : Int) (t : Neighbors K) : (t.purge now).purge now = t.purge now := by
  simp only [purge, List.filter_filter, Bool.and_self]

/-- So it is with the table in use. -/
private theorem settle_settle (now : Int) (t : Neighbors K) :
    (t.settle now).settle now = t.settle now := by
  obtain ⟨nbl, mbr, nbapp⟩ := t
  cases mbr with
  | false => exact purge_purge now _
  | true =>
    cases nbapp with
    | none => rfl
    | some nb => simp [settle, NS3.purge, List.filter_filter]

/-- Nothing that `isNeighbor` counts is taken away by settling. -/
private theorem isNeighbor_settle (now : Int) (dst : UInt32) (t : Neighbors K) :
    (t.settle now).isNeighbor now dst = t.isNeighbor now dst := by
  obtain ⟨nbl, mbr, nbapp⟩ := t
  cases mbr with
  | false => simp [settle, isNeighbor, purge, List.filter_filter]
  | true =>
    cases nbapp with
    | none => rfl
    | some nb => simp [settle, isNeighbor, NS3.purge, List.filter_filter]

variable [Field K] [LinearOrder K]

/-- `find_next_hop` leaves the tables as `isNeighbor` does. -/
private theorem findNextHop_settle {env : NeighborsEnv K} {fuel : Nat} {map : MsvrMap K}
    {a : NextHopArgs K} {hop : UInt32}
    (h : findNextHop env fuel map now (t.settle now) a = .ok (hop, t')) : t' = t.settle now := by
  obtain ⟨nbl, mbr, nbapp⟩ := t
  cases mbr with
  | false =>
    cases h
    exact purge_purge now _
  | true =>
    obtain ⟨nb, -, h⟩ := bind_eq_ok.mp h
    obtain ⟨hop', -, h⟩ := bind_eq_ok.mp h
    cases h
    rfl

end Neighbors

/-! ## What can be forwarded -/

section Forwarding

variable [Field K] [LinearOrder K] {env : RoutingEnv K} {fuel : Nat} {now : Int}
  {map : MsvrMap K} {t t' : Neighbors K} {o : Opened K} {packet : List UInt8}

/-- What is done on the heap returns as it is. -/
private theorem onHeap_eq_ok {α : Type} {x : Except Fault α} {a : α} :
    onHeap x = .ok a ↔ x = .ok a := by
  cases x <;> simp [onHeap]

/-- What is done with the tables returns as it is. -/
theorem inNeighbors_eq_ok {α : Type} {x : Except NeighborsFault α} {a : α} :
    inNeighbors x = .ok a ↔ x = .ok a := by
  cases x <;> simp [inNeighbors]

/-- A header is removed exactly if it can be read. -/
private theorem removeHeader_eq_ok {α : Type} {read : Reader α} {p : List UInt8}
    {r : α × List UInt8} :
    removeHeader read p = .ok r ↔ read.run p = some r := by
  rw [removeHeader]
  split <;> simp_all

omit [LinearOrder K] in
/-- The data header of a packet that is opened holds its path. -/
private theorem held_of_openPacket (h : openPacket env packet = .ok (some o)) :
    o.hdr.Held o.mem := by
  obtain ⟨⟨tHeader, p⟩, -, h⟩ := bind_eq_ok.mp h
  simp only at h
  split at h
  · cases h
  · split at h
    · obtain ⟨⟨⟨mem, hdr, n⟩, left⟩, hrun, h⟩ := bind_eq_ok.mp h
      cases h
      exact DatapacketHeader.held_of_run_deserialize (removeHeader_eq_ok.mp hrun)
    · cases h
      exact .inl ⟨rfl, rfl⟩

omit [Field K] [LinearOrder K] in
/-- An opened packet can be closed again. -/
private theorem close_ok (env : RoutingEnv K) (o : Opened K) (h : o.hdr.Held o.mem) :
    ∃ headers, o.close env = .ok (headers ++ o.payload) := by
  obtain ⟨mem', bytes, hok⟩ := h.serialize env.buffer
  refine ⟨o.tHeader.serialize env.buffer ++ bytes, ?_⟩
  simp only [Opened.close, hok, onHeap, bind, Except.bind, List.append_assoc]
  rfl

/-- The path of the packet, without its first point if the node has come past that, has two points
    at least, and `find_next_hop` finds a neighbour on the way to the next one. -/
def HasHop (env : RoutingEnv K) (fuel : Nat) (now : Int) (map : MsvrMap K) (t : Neighbors K)
    (o : Opened K) : Prop :=
  ∃ ids found v0 v1 rest args hop t', o.hdr.decodePath o.mem [] = .ok (ids, found) ∧
    trimPath fuel map o.relayPos (ids.map Int32.toNatClampNeg) = .ok (v0 :: v1 :: rest) ∧
    hopArgs fuel map o.relayPos v0 v1 rest = .ok args ∧
    Neighbors.findNextHop env.toNeighborsEnv fuel env.newMap now t args = .ok (hop, t') ∧ hop ≠ 0

/-- The type of the packet is known, and its destination is a neighbour or has a next hop. -/
def Forwardable (env : RoutingEnv K) (fuel : Nat) (now : Int) (map : MsvrMap K) (t : Neighbors K)
    (e : QueueEntry U E) : Prop :=
  ∃ o, openPacket env e.packet = .ok (some o) ∧
    ((t.isNeighbor now e.header.destination).1 = true ∨
      HasHop env fuel now map (t.settle now) o)

/-- Where there is a hop, the tables stay as they are. -/
private theorem chooseHop_of_hasHop (h : HasHop env fuel now map (t.settle now) o) :
    ∃ hop paths, chooseHop env fuel now map (t.settle now) o =
      .ok (some (hop, paths), t.settle now) := by
  obtain ⟨ids, found, v0, v1, rest, args, hop, t', hids, htrim, hargs, hfind, hhop⟩ := h
  cases Neighbors.findNextHop_settle hfind
  refine ⟨hop, v0 :: v1 :: rest, ?_⟩
  simp only [chooseHop, hids, onHeap, htrim, hargs, hfind, inNeighbors, if_pos hhop, bind,
    Except.bind]
  rfl

/-- A hop that has been chosen is one. -/
private theorem hasHop_of_chooseHop {r : UInt32 × List Nat}
    (h : chooseHop env fuel now map t o = .ok (some r, t')) : HasHop env fuel now map t o := by
  obtain ⟨⟨ids, found⟩, hids, h⟩ := bind_eq_ok.mp h
  obtain ⟨paths, htrim, h⟩ := bind_eq_ok.mp h
  split at h
  · next v0 v1 rest =>
    obtain ⟨args, hargs, h⟩ := bind_eq_ok.mp h
    obtain ⟨⟨hop, t₁⟩, hfind, h⟩ := bind_eq_ok.mp h
    refine ⟨ids, found, v0, v1, rest, args, hop, t₁, onHeap_eq_ok.mp hids, htrim, hargs,
      inNeighbors_eq_ok.mp hfind, fun hzero => ?_⟩
    simp only [hzero, ne_eq, not_true_eq_false, if_false] at h
    cases h
  · cases h

/-- The call is one of a callback of the entry, about its packet; the headers of a packet that is
    forwarded may be others. -/
def AnswersTo (env : RoutingEnv K) : Callback U E → QueueEntry U E → Prop
  | .unicast ucb _ p header, e => ucb = e.ucb ∧ header = e.header ∧
      ∃ o headers, openPacket env e.packet = .ok (some o) ∧ p = headers ++ o.payload
  | .error ecb packet header, e => ecb = e.ecb ∧ packet = e.packet ∧ header = e.header

/-- A packet that can be forwarded is handed to its callback. -/
private theorem forwarding_of_forwardable {e : QueueEntry U E}
    (h : Forwardable env fuel now map t e) :
    ∃ call : Callback U E, forwarding env fuel now map t e.packet e.header e.ucb =
      .ok (true, t.settle now, [call]) ∧ AnswersTo env call e := by
  obtain ⟨o, hopen, h⟩ := h
  have hheld := held_of_openPacket hopen
  cases hnear : (t.isNeighbor now e.header.destination).1 with
  | true =>
    -- The headers go back as they were
    obtain ⟨headers, hp⟩ := close_ok env o hheld
    refine ⟨.unicast e.ucb (routeVia e.header e.header.destination) _ e.header, ?_,
      rfl, rfl, o, headers, hopen, rfl⟩
    simp only [forwarding, hopen, Neighbors.isNeighbor_of_fst hnear, hp, bind, Except.bind]
    rfl
  | false =>
    -- The path that is left goes into the data header
    rw [hnear] at h
    obtain ⟨hop, paths, hchoose⟩ := chooseHop_of_hasHop (h.resolve_left Bool.false_ne_true)
    obtain ⟨mem', hdr', hencode, hheld'⟩ := hheld.encodePath (paths.map fun id => Int32.ofNat id)
    obtain ⟨headers, hp⟩ := close_ok env { o with mem := mem', hdr := hdr' } hheld'
    refine ⟨.unicast e.ucb (routeVia e.header hop) _ e.header, ?_,
      rfl, rfl, o, headers, hopen, rfl⟩
    simp only [forwarding, hopen, Neighbors.isNeighbor_of_fst hnear, hchoose, hencode, onHeap, hp,
      bind, Except.bind, Bool.false_eq_true, if_false]
    rfl

/-- Otherwise no callback is called. -/
private theorem forwarding_of_not {e : QueueEntry U E} {sent : Bool} {calls : List (Callback U E)}
    (h : ¬ Forwardable env fuel now map t e)
    (hok : forwarding env fuel now map t e.packet e.header e.ucb = .ok (sent, t', calls)) :
    sent = false ∧ calls = [] := by
  obtain ⟨opened, hopen, hok⟩ := bind_eq_ok.mp hok
  cases opened with
  | none =>
    -- The type of the packet is unknown
    cases hok
    exact ⟨rfl, rfl⟩
  | some o =>
    cases hnear : (t.isNeighbor now e.header.destination).1 with
    | true => exact absurd ⟨o, hopen, .inl hnear⟩ h
    | false =>
      simp only [Neighbors.isNeighbor_of_fst hnear, Bool.false_eq_true, if_false] at hok
      obtain ⟨⟨hop, t₂⟩, hchoose, hok⟩ := bind_eq_ok.mp hok
      cases hop with
      | none =>
        -- The path is too short, or `find_next_hop` returns zero
        cases hok
        exact ⟨rfl, rfl⟩
      | some r => exact absurd ⟨o, hopen, .inr (hasHop_of_chooseHop hchoose)⟩ h

/-- Purging the tables at the same time changes nothing for a packet. -/
private theorem forwardable_settle {e : QueueEntry U E} :
    Forwardable env fuel now map (t.settle now) e ↔ Forwardable env fuel now map t e := by
  rw [Forwardable, Forwardable, Neighbors.isNeighbor_settle, Neighbors.settle_settle]

end Forwarding

/-! ## What has become of the entries -/

section Queue

variable {now : Int} {dst : UInt32} {q q' q₁ : List (QueueEntry U E)} {e : QueueEntry U E}

/-- The entries that have not expired. -/
def live (now : Int) (q : List (QueueEntry U E)) : List (QueueEntry U E) :=
  q.filter (!RequestQueue.isExpired now ·)

/-- The entries for other destinations. -/
def others (dst : UInt32) (q : List (QueueEntry U E)) : List (QueueEntry U E) :=
  q.filter (!RequestQueue.isEqual dst ·)

/-- An entry stays in the purge as long as its time has not passed. -/
private theorem not_isExpired : (!RequestQueue.isExpired now e) = true ↔ now ≤ e.expire := by
  rw [RequestQueue.isExpired, Bool.not_eq_true', decide_eq_false_iff_not]
  omega

/-- An entry is kept by the removal of a destination if it has another one. -/
private theorem not_isEqual :
    (!RequestQueue.isEqual dst e) = true ↔ e.header.destination ≠ dst := by
  rw [RequestQueue.isEqual, Bool.not_eq_true', beq_eq_false_iff_ne]

/-- The entries that `Purge` leaves. -/
private theorem mem_live : e ∈ live now q ↔ e ∈ q ∧ now ≤ e.expire := by
  rw [live, List.mem_filter, not_isExpired]

/-- Where nothing has expired, `Purge` takes nothing away. -/
private theorem live_eq_self (h : ∀ e ∈ q, now ≤ e.expire) : live now q = q :=
  List.filter_eq_self.mpr fun e he => not_isExpired.mpr (h e he)

/-- Where no entry is for `dst`, all are for others. -/
private theorem others_eq_self (h : ∀ e ∈ q, e.header.destination ≠ dst) : others dst q = q :=
  List.filter_eq_self.mpr fun e he => not_isEqual.mpr (h e he)

/-- Dropping a destination twice is dropping it once. -/
private theorem others_others (dst : UInt32) (q : List (QueueEntry U E)) :
    others dst (others dst q) = others dst q := by
  simp only [others, List.filter_filter, Bool.and_self]

/-- The entries for other destinations all stay exactly if none of them has expired. -/
private theorem others_live_iff :
    others dst (live now q) = others dst q ↔
      ∀ e ∈ q, e.header.destination ≠ dst → now ≤ e.expire := by
  have hcomm : others dst (live now q) =
      (others dst q).filter (!RequestQueue.isExpired now ·) := by
    rw [others, live, others, List.filter_filter, List.filter_filter]
    exact List.filter_congr fun e _ => Bool.and_comm _ _
  rw [hcomm, List.filter_eq_self]
  simp only [others, List.mem_filter, not_isExpired, not_isEqual, and_imp]

/-- What `Dequeue` does after `Purge`. -/
theorem dequeue_cases (now : Int) (dst : UInt32) (q : List (QueueEntry U E)) :
    (RequestQueue.dequeue now dst q = ((RequestQueue.purge now q).1, none, live now q) ∧
        ∀ e ∈ live now q, e.header.destination ≠ dst) ∨
      ∃ e q₁, RequestQueue.dequeue now dst q = ((RequestQueue.purge now q).1, some e, q₁) ∧
        e.header.destination = dst ∧ (live now q).Perm (e :: q₁) ∧
        others dst q₁ = others dst (live now q) := by
  cases hfind : (live now q).find? (RequestQueue.isEqual dst) with
  | none =>
    refine .inl ⟨?_, fun e he => not_isEqual.mp ?_⟩
    · simp only [RequestQueue.dequeue, RequestQueue.purge]
      rw [live] at hfind
      rw [hfind, live]
    · rw [Bool.not_eq_true']
      exact Bool.eq_false_iff.mpr (List.find?_eq_none.mp hfind e he)
  | some e =>
    -- The first entry for `dst` goes, and those around it stay
    obtain ⟨heq, before, after, hsplit, hbefore⟩ := List.find?_eq_some_iff_append.mp hfind
    have herase : (live now q).eraseP (RequestQueue.isEqual dst) = before ++ after := by
      rw [hsplit, List.eraseP_append_right _ (by simpa using hbefore),
        List.eraseP_cons_of_pos heq]
    refine .inr ⟨e, before ++ after, ?_, beq_iff_eq.mp heq, ?_, ?_⟩
    · simp only [RequestQueue.dequeue, RequestQueue.purge]
      rw [live] at hfind herase
      rw [hfind, herase]
    · rw [hsplit]
      exact List.perm_middle
    · rw [hsplit, others, others, List.filter_append, List.filter_append,
        List.filter_cons_of_neg (by simpa using heq)]

end Queue

/-! ## What has become of the entries -/

section Accounted

variable [Field K] {env : RoutingEnv K} {now : Int}
  {q q' q₁ : List (QueueEntry U E)} {e : QueueEntry U E} {calls calls' : List (Callback U E)}

/-- Each entry of `q` is still in `q'`, or has had one of its callbacks called; no entry has had
    two calls. -/
def Accounted (env : RoutingEnv K) (q q' : List (QueueEntry U E))
    (calls : List (Callback U E)) : Prop :=
  ∃ gone, q.Perm (q' ++ gone) ∧ List.Forall₂ (AnswersTo env) calls gone

/-- Where nothing has happened, everything is accounted for. -/
theorem Accounted.refl (env : RoutingEnv K) (q : List (QueueEntry U E)) :
    Accounted env q q [] :=
  ⟨[], by rw [List.append_nil], .nil⟩

/-- The calls of two parts of a run account for the whole. -/
theorem Accounted.trans (h : Accounted env q q₁ calls) (h' : Accounted env q₁ q' calls') :
    Accounted env q q' (calls ++ calls') := by
  obtain ⟨gone, hperm, hcalls⟩ := h
  obtain ⟨gone', hperm', hcalls'⟩ := h'
  refine ⟨gone ++ gone', hperm.trans ?_, List.rel_append hcalls hcalls'⟩
  calc q₁ ++ gone
    _ |>.Perm ((q' ++ gone') ++ gone) := hperm'.append_right gone
    _ |>.Perm (q' ++ (gone ++ gone')) := by
      rw [List.append_assoc]
      exact List.perm_append_comm.append_left q'

/-- There are as many calls as entries gone. -/
theorem Accounted.length (h : Accounted env q q' calls) :
    q.length = q'.length + calls.length := by
  obtain ⟨gone, hperm, hcalls⟩ := h
  rw [hperm.length_eq, List.length_append, hcalls.length_eq]

/-- An entry that is taken out is accounted for by a call of one of its callbacks. -/
theorem Accounted.take {call : Callback U E} (hperm : q.Perm (e :: q₁))
    (hcall : AnswersTo env call e) : Accounted env q q₁ [call] :=
  ⟨[e], hperm.trans (List.perm_append_singleton e q₁).symm, .cons hcall .nil⟩

/-- Entries that are dropped are accounted for. -/
private theorem accounted_drop (env : RoutingEnv K) (p : QueueEntry U E → Bool)
    (q : List (QueueEntry U E)) :
    Accounted env q (q.filter (!p ·)) ((q.filter p).map RequestQueue.drop) := by
  refine ⟨q.filter p, ?_, ?_⟩
  · exact (List.filter_append_perm p q).symm.trans List.perm_append_comm
  · rw [List.forall₂_map_left_iff]
    exact List.forall₂_same.mpr fun e _ => ⟨rfl, rfl, rfl⟩

/-- A purge calls back for each entry that it drops. -/
private theorem accounted_purge (env : RoutingEnv K) (now : Int) (q : List (QueueEntry U E)) :
    Accounted env q (live now q) (RequestQueue.purge now q).1 :=
  accounted_drop env (RequestQueue.isExpired now) q

end Accounted

/-! ## The loop -/

section Loop

variable [Field K] [LinearOrder K] {env : RoutingEnv K} {fuel : Nat} {now : Int} {dst : UInt32}
  {s s' : RoutingProtocol K U E}

/-- Every packet for `dst` that has not expired can be forwarded. -/
def AllForwardable (env : RoutingEnv K) (fuel : Nat) (now : Int) (dst : UInt32)
    (s : RoutingProtocol K U E) : Prop :=
  ∀ e ∈ s.queue, e.header.destination = dst → now ≤ e.expire →
    Forwardable env fuel now s.map s.neighbors e

/-- After a round, what could be forwarded still can, and nothing that is left has expired. -/
private theorem allForwardable_round {e : QueueEntry U E} {q₁ : List (QueueEntry U E)}
    (hperm : (live now s.queue).Perm (e :: q₁)) (hdst : e.header.destination = dst) :
    AllForwardable env fuel now dst s ↔ Forwardable env fuel now s.map s.neighbors e ∧
      AllForwardable env fuel now dst
        { s with queue := q₁, neighbors := s.neighbors.settle now } := by
  have hmem : ∀ e', e' ∈ live now s.queue ↔ e' = e ∨ e' ∈ q₁ := fun e' => by
    rw [hperm.mem_iff, List.mem_cons]
  constructor
  · intro hall
    obtain ⟨he, hexp⟩ := mem_live.mp ((hmem e).mpr (.inl rfl))
    refine ⟨hall e he hdst hexp, fun e' he' hdst' hexp' => forwardable_settle.mpr ?_⟩
    exact hall e' (mem_live.mp ((hmem e').mpr (.inr he'))).1 hdst' hexp'
  · rintro ⟨hfirst, hrest⟩ e' he' hdst' hexp'
    rcases (hmem e').mp (mem_live.mpr ⟨he', hexp'⟩) with rfl | he'
    · exact hfirst
    · exact forwardable_settle.mp (hrest e' he' hdst' hexp')

/-- What is left of a purged queue is purged. -/
private theorem live_round {e : QueueEntry U E} {q q₁ : List (QueueEntry U E)}
    (hperm : (live now q).Perm (e :: q₁)) : live now q₁ = q₁ :=
  live_eq_self fun _ he => (mem_live.mp (hperm.mem_iff.mpr (List.mem_cons_of_mem _ he))).2

/-- If every packet can be forwarded, the loop ends, with a call for each that is gone. -/
private theorem sendLoop_of_all : ∀ (n : Nat) (s : RoutingProtocol K U E), s.queue.length < n →
    AllForwardable env fuel now dst s →
    ∃ s' calls, sendLoop env fuel now dst n s = .ok (true, s', calls) ∧
      s'.queue = others dst (live now s.queue) ∧ Accounted env s.queue s'.queue calls := by
  intro n
  induction n with
  | zero => exact fun s hn => absurd hn (Nat.not_lt_zero _)
  | succ n ih =>
    intro s hn hall
    have hpurge := accounted_purge env now s.queue
    rcases dequeue_cases now dst s.queue with ⟨hdeq, hnone⟩ | ⟨e, q₁, hdeq, hdst, hperm, hothers⟩
    · -- No entry for `dst` is left
      refine ⟨{ s with queue := live now s.queue }, _, ?_, (others_eq_self hnone).symm, hpurge⟩
      rw [sendLoop, hdeq]
    · -- `Purge`, a packet that is forwarded, and the next rounds
      obtain ⟨hfirst, hrest⟩ := (allForwardable_round hperm hdst).mp hall
      obtain ⟨call, hforward, hcall⟩ := forwarding_of_forwardable hfirst
      have hlen : q₁.length < n := by
        have := hpurge.length
        have := hperm.length_eq
        rw [List.length_cons] at this
        omega
      obtain ⟨s', calls', hloop, hqueue, hacc⟩ :=
        ih { s with queue := q₁, neighbors := s.neighbors.settle now } hlen hrest
      refine ⟨s', (RequestQueue.purge now s.queue).1 ++ ([call] ++ calls'), ?_, ?_, ?_⟩
      · simp only [sendLoop, hdeq, hforward, hloop, bind, Except.bind]
        rfl
      · rw [hqueue, live_round hperm, hothers]
      · exact hpurge.trans ((Accounted.take hperm hcall).trans hacc)

/-- The loop keeps the entries for other destinations that have not expired, and loses one packet
    where one cannot be forwarded. -/
private theorem sendLoop_ok : ∀ (n : Nat) (s : RoutingProtocol K U E) {sent : Bool}
    {s' : RoutingProtocol K U E} {calls : List (Callback U E)},
    sendLoop env fuel now dst n s = .ok (sent, s', calls) →
    others dst s'.queue = others dst (live now s.queue) ∧
      (AllForwardable env fuel now dst s ∨
        s.queue.length = s'.queue.length + calls.length + 1) := by
  intro n
  induction n with
  | zero => exact fun s _ _ _ h => nomatch h
  | succ n ih =>
    intro s sent s' calls h
    have hpurge := accounted_purge env now s.queue
    rcases dequeue_cases now dst s.queue with ⟨hdeq, hnone⟩ | ⟨e, q₁, hdeq, hdst, hperm, hothers⟩
    · rw [sendLoop, hdeq] at h
      cases h
      exact ⟨rfl, .inl fun e he hdst hexp => absurd hdst (hnone e (mem_live.mpr ⟨he, hexp⟩))⟩
    · have hlen := hpurge.length
      rw [hperm.length_eq, List.length_cons] at hlen
      simp only [sendLoop, hdeq] at h
      obtain ⟨⟨sent₁, t₁, calls₁⟩, hforward, h⟩ := bind_eq_ok.mp h
      by_cases hfirst : Forwardable env fuel now s.map s.neighbors e
      · obtain ⟨call, hok, -⟩ := forwarding_of_forwardable hfirst
        rw [hok] at hforward
        cases hforward
        obtain ⟨⟨sent₂, s₂, calls₂⟩, hloop, h⟩ := bind_eq_ok.mp h
        cases h
        obtain ⟨hqueue, hrest⟩ := ih _ hloop
        refine ⟨by rw [hqueue, live_round hperm, hothers], hrest.imp ?_ ?_⟩
        · exact fun hrest => (allForwardable_round hperm hdst).mpr ⟨hfirst, hrest⟩
        · simp only [List.length_append, List.length_singleton]
          omega
      · -- The packet is gone, and `Purge` has made all calls
        obtain ⟨rfl, rfl⟩ := forwarding_of_not hfirst hforward
        cases h
        refine ⟨hothers, .inr ?_⟩
        show s.queue.length = q₁.length + ((RequestQueue.purge now s.queue).1 ++ []).length + 1
        rw [List.append_nil]
        omega

end Loop

/-! ## `SendPacketFromQueue` -/

section SendPacketFromQueue

variable [Field K] [LinearOrder K] {env : RoutingEnv K} {fuel : Nat} {now : Int} {dst : UInt32}
  {s : RoutingProtocol K U E}

/-- Each entry is still in the queue or has had one of its callbacks called, and those for other
    destinations are all in the queue as before. -/
def NoSilentLoss (env : RoutingEnv K) (fuel : Nat) (now : Int) (dst : UInt32)
    (s : RoutingProtocol K U E) : Prop :=
  ∃ sent s' calls, sendPacketFromQueue env fuel now dst s = .ok (sent, s', calls) ∧
    Accounted env s.queue s'.queue calls ∧ others dst s'.queue = others dst s.queue

/-- During a search for the destination nothing is sent. -/
private theorem sendPacketFromQueue_of_inSearch (h : env.isInSearch dst = true) :
    sendPacketFromQueue env fuel now dst s = .ok (false, s, []) := if_pos h

/-- Without a position every entry that leaves the queue is dropped. -/
private theorem sendPacketFromQueue_of_noPosition (fuel : Nat) (now : Int)
    (s : RoutingProtocol K U E)
    (hsearch : env.isInSearch dst = false) (hpos : env.hasPosition dst = false) :
    ∃ s' calls, sendPacketFromQueue env fuel now dst s = .ok (true, s', calls) ∧
      s'.queue = others dst (live now s.queue) ∧ Accounted env s.queue s'.queue calls := by
  refine ⟨{ s with queue := others dst (live now s.queue) },
    (RequestQueue.purge now s.queue).1 ++
      ((live now s.queue).filter (RequestQueue.isEqual dst)).map RequestQueue.drop, ?_, rfl, ?_⟩
  · rw [sendPacketFromQueue, hsearch, hpos]
    rfl
  · exact (accounted_purge env now s.queue).trans
      (accounted_drop env (RequestQueue.isEqual dst) (live now s.queue))

/-- With a position the loop runs until the queue has nothing more for `dst`. -/
private theorem sendPacketFromQueue_of_position (hsearch : env.isInSearch dst = false)
    (hpos : env.hasPosition dst = true) :
    sendPacketFromQueue env fuel now dst s = sendLoop env fuel now dst (s.queue.length + 1) s := by
  rw [sendPacketFromQueue, hsearch, hpos]
  rfl

/-- With a position nothing is lost exactly if every packet can be forwarded. -/
private theorem accounted_sendLoop_iff :
    (∃ sent s' calls, sendLoop env fuel now dst (s.queue.length + 1) s = .ok (sent, s', calls) ∧
      Accounted env s.queue s'.queue calls) ↔ AllForwardable env fuel now dst s := by
  constructor
  · rintro ⟨sent, s', calls, hok, hacc⟩
    refine (sendLoop_ok _ s hok).2.resolve_right fun hlost => ?_
    have := hacc.length
    omega
  · intro hall
    obtain ⟨s', calls, hok, -, hacc⟩ := sendLoop_of_all _ s (Nat.lt_succ_self _) hall
    exact ⟨true, s', calls, hok, hacc⟩

/-- Nothing is lost silently while the destination is searched for. Afterwards the entries for
    other destinations must not have expired (or `Purge` drops them), and the location service
    must not have found the destination, or each packet for it must be one that `Forwarding` can
    forward. -/
theorem noSilentLoss_iff (env : RoutingEnv K) (fuel : Nat) (now : Int) (dst : UInt32)
    (s : RoutingProtocol K U E) :
    NoSilentLoss env fuel now dst s ↔ env.isInSearch dst = true ∨
      ((∀ e ∈ s.queue, e.header.destination ≠ dst → now ≤ e.expire) ∧
        (env.hasPosition dst = false ∨ AllForwardable env fuel now dst s)) := by
  cases hsearch : env.isInSearch dst with
  | true =>
    refine iff_of_true ?_ (.inl rfl)
    exact ⟨false, s, [], sendPacketFromQueue_of_inSearch hsearch, .refl env s.queue, rfl⟩
  | false =>
    rw [← others_live_iff]
    cases hpos : env.hasPosition dst with
    | false =>
      -- `DropPacketWithDst` has one outcome
      obtain ⟨s₁, calls₁, hok, hqueue, hacc⟩ :=
        sendPacketFromQueue_of_noPosition fuel now s hsearch hpos
      have hothers : others dst s₁.queue = others dst (live now s.queue) := by
        rw [hqueue, others_others]
      constructor
      · rintro ⟨sent, s', calls, hok', -, hsame⟩
        cases hok.symm.trans hok'
        exact .inr ⟨hothers.symm.trans hsame, .inl rfl⟩
      · rintro (h | ⟨hsame, -⟩)
        · cases h
        · exact ⟨true, s₁, calls₁, hok, hacc, hothers.trans hsame⟩
    | true =>
      rw [NoSilentLoss, sendPacketFromQueue_of_position hsearch hpos, ← accounted_sendLoop_iff]
      constructor
      · rintro ⟨sent, s', calls, hok, hacc, hsame⟩
        exact .inr ⟨(sendLoop_ok _ s hok).1.symm.trans hsame, .inr ⟨sent, s', calls, hok, hacc⟩⟩
      · rintro (h | ⟨hsame, h | ⟨sent, s', calls, hok, hacc⟩⟩)
        · cases h
        · cases h
        · exact ⟨sent, s', calls, hok, hacc, (sendLoop_ok _ s hok).1.trans hsame⟩

end SendPacketFromQueue

/-! ## A packet that is lost -/

/-- A node without neighbours at the origin. -/
def loneEnv : RoutingEnv ℚ where
  sqrt q := (Nat.sqrt q.num.toNat : ℚ)
  dijkstra _ _ := none
  nodes := []
  abs q := max q (-q)
  buffer := .network
  isInSearch _ := false
  hasPosition _ := true
  position := ⟨0, 0⟩
  newMap := ⟨[], [], by decide, by decide⟩

/-- A packet to node 9 with a data header that has no path, as a node sends it back to itself when
    it has found no next hop. -/
def pathless : QueueEntry Unit Unit :=
  ⟨[1, 0, 0, 0, 0, 0, 0, 0, 1, 0, 0, 0, 2, 0, 0, 0, 1] ++ List.replicate 32 0, ⟨1, 9⟩,
    (), (), 30⟩

/-- The packet is taken out of the queue, and none of its callbacks is called. -/
theorem sendPacketFromQueue_loses :
    ¬ NoSilentLoss loneEnv 1 0 9 ⟨[pathless], ⟨[], false, none⟩, loneEnv.newMap⟩ := by
  rintro ⟨sent, s', calls, hok, hacc, -⟩
  have hrun : (sendPacketFromQueue loneEnv 1 0 9
      ⟨[pathless], ⟨[], false, none⟩, loneEnv.newMap⟩).map
        (fun r => (r.2.1.queue.length, r.2.2.length)) = .ok (0, 0) := by decide +kernel
  rw [hok] at hrun
  obtain ⟨hqueue, hcalls⟩ := Prod.mk.inj (Except.ok.inj hrun)
  have hlen := hacc.length
  rw [hqueue, hcalls] at hlen
  cases hlen

end MapRelay.NS3.GeoSvr
