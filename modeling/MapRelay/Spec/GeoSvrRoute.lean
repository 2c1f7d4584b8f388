import MapRelay.Native.GeoSvrRoute
import MapRelay.Spec.GeoSvrQueue

/-!
# A GeoSVR packet keeps its payload and loses its path from the front

Behind the headers a packet carries what the source has sent, and in the data header the path that
is left. `Forwarding` takes at most the first node off the path, never puts one in, and sends the
packet to its destination or along a path with two nodes at least. Nothing it does can go wrong
in the packet or on the heap, so that only the map can stop it.
-/

namespace MapRelay.NS3.GeoSvr

open ForStd Blocks
open Gpsr (Incoming isBoardcast)

variable {K U E : Type}

/-! ## Headers in memory -/

namespace DatapacketHeader

variable {mem mem' : Blocks} {h : DatapacketHeader} {ids behind : List UInt8}

/-- The header has the path `ids`, in a block of the heap unless it is empty. -/
def Holds (mem : Blocks) (h : DatapacketHeader) (ids : List UInt8) : Prop :=
  h.HasLength ids ∧ (h.path = NULL ∧ ids = [] ∨
    ∃ behind, mem.cell h.path = some (pathBlock ids ++ behind))

/-- A header with a path can be read. -/
theorem Holds.pathOk (hholds : h.Holds mem ids) : h.PathOk mem := by
  rcases hholds.2 with ⟨hnull, -⟩ | ⟨behind, hcell⟩
  · exact .inl hnull
  · exact .inr (Heap.live_iff.mpr ⟨_, hcell⟩)

/-- It can be serialized: its path is on the wire. -/
theorem Holds.serialize (hholds : h.Holds mem ids) (i : Buffer) :
    ∃ mem', h.serialize i mem = .ok (mem', h.wire i ids) := by
  obtain ⟨hlen, ⟨hnull, hnil⟩ | ⟨behind, hcell⟩⟩ := hholds
  · have hzero : h.length.toNat = 0 := by rw [hlen.toNat, hnil, List.length_nil]
    refine ⟨mem, ?_⟩
    simp only [DatapacketHeader.serialize, hzero, bytesFrom, hnull, release_null, hnil, wire, bind,
      Except.bind]
    rfl
  · exact serialize_ok i hlen hcell

/-- Its path can be decoded. -/
theorem Holds.decodePath (hholds : h.Holds mem ids) :
    ∃ found, h.decodePath mem [] = .ok (ids.map fun b => b.toUInt32.toInt32, found) := by
  obtain ⟨hlen, ⟨hnull, hnil⟩ | ⟨behind, hcell⟩⟩ := hholds
  · refine ⟨false, ?_⟩
    rw [DatapacketHeader.decodePath, if_pos hnull, hnil, List.map_nil]
  · have hpath : h.path ≠ NULL := (Heap.live_iff.mpr ⟨_, hcell⟩).ne_null
    refine ⟨true, ?_⟩
    simp only [DatapacketHeader.decodePath, if_neg hpath, byteAt_pathBlock hcell,
      toNat_length hlen.2, bytesFrom_pathBlock hcell, bind, Except.bind, List.nil_append]
    rfl

/-- It can be given another path of at most 255 points. -/
theorem Holds.encodePath (hholds : h.Holds mem ids) {paths : List Int32}
    (hlen : paths.length ≤ 255) :
    ∃ mem' h', h.encodePath mem paths = .ok (mem', h') ∧ h'.Holds mem' (pathBytes paths) := by
  obtain ⟨mem', p, hok, -, hcell⟩ := encodePath_ok hholds.pathOk paths
  refine ⟨mem', _, hok, ⟨?_, by rwa [length_pathBytes]⟩, .inr ⟨[], ?_⟩⟩
  · rw [length_pathBytes]
  · rw [List.append_nil]
    exact hcell

/-- A header that has been received has the path that was sent. -/
private theorem holds_receivePath (hlen : h.HasLength ids) (mem : Blocks) :
    ({ h with path := (receivePath mem NULL ids).2 } : DatapacketHeader).Holds
      (receivePath mem NULL ids).1 ids := by
  refine ⟨hlen, ?_⟩
  by_cases hnil : ids = []
  · refine .inl ⟨?_, hnil⟩
    rw [receivePath, if_pos hnil]
  · refine .inr ⟨[], ?_⟩
    rw [receivePath, if_neg hnil, List.append_nil]
    exact (Heap.cell_alloc ..).trans (if_pos rfl)

end DatapacketHeader

/-! ## What a packet carries -/

/-- The packet has a data header with the path `ids`, and the payload behind it. -/
def Carries (i : Buffer) (ids payload p : List UInt8) : Prop :=
  ∃ hdr : DatapacketHeader, hdr.HasLength ids ∧
    p = (TypeHeader.new .datapacket).serialize i ++ (hdr.wire i ids ++ payload)

section Packets

variable {env : RoutingEnv K} {ids payload packet : List UInt8}

/-- The type of a packet is read back. -/
theorem TypeHeader.run_deserialize (i : Buffer) (type : MessageType) (h₀ : TypeHeader)
    (rest : List UInt8) :
    (h₀.deserialize i).run ((TypeHeader.new type).serialize i ++ rest) =
      some (.new type, rest) := by
  cases type with
  | hello =>
    simp only [deserialize, serialize, new, Codec.run_read_write]
    rfl
  | datapacket =>
    simp only [deserialize, serialize, new, Codec.run_read_write]
    rfl

/-- A packet that is taken apart has its path in memory. -/
theorem openPacket_of_carries [Zero K] (h : Carries env.buffer ids payload packet) :
    ∃ mem hdr, hdr.Holds mem ids ∧
      openPacket env packet = .ok (some ⟨.new .datapacket, mem, hdr, payload, env.position⟩) := by
  obtain ⟨hdr, hlen, rfl⟩ := h
  refine ⟨_, _, DatapacketHeader.holds_receivePath hlen Heap.empty, ?_⟩
  have hread := DatapacketHeader.run_deserialize env.buffer hlen Heap.empty .default payload
  have htype := TypeHeader.run_deserialize env.buffer .datapacket (.new .datapacket)
    (hdr.wire env.buffer ids ++ payload)
  simp only [openPacket, removeHeader, htype, hread, bind, Except.bind]
  rfl

/-- And it can be put together again, with any path that its header has then. -/
theorem close_of_holds (env : RoutingEnv K) (pos : Point K) {mem : Blocks}
    {hdr : DatapacketHeader} (h : hdr.Holds mem ids) (payload : List UInt8) :
    ∃ p, Opened.close env ⟨.new .datapacket, mem, hdr, payload, pos⟩ = .ok p ∧
      Carries env.buffer ids payload p := by
  obtain ⟨mem', hok⟩ := h.serialize env.buffer
  refine ⟨_, ?_, hdr, h.1, rfl⟩
  simp only [Opened.close, hok, onHeap, bind, Except.bind]
  rfl

end Packets

/-! ## The path that is sent -/

/-- The path as it stands in the header that is made for it: the length and the ids are bytes. -/
def wirePath (paths : List Nat) : List UInt8 :=
  (paths.take (paths.length % 256)).map UInt8.ofNat

/-- The length of a path on the wire is a byte. -/
theorem length_wirePath (paths : List Nat) : (wirePath paths).length ≤ 255 := by
  rw [wirePath, List.length_map, List.length_take]
  have := Nat.mod_lt paths.length (y := 256) (by omega)
  omega

/-- The bytes of a path of points. -/
private theorem pathBytes_ofNat (paths : List Nat) :
    pathBytes (paths.map fun id => Int32.ofNat id) = paths.map UInt8.ofNat := by
  rw [pathBytes, List.map_map]
  refine List.map_congr_left fun id _ => ?_
  apply UInt8.toNat_inj.mp
  show (Int32.ofNat id).toUInt32.toUInt8.toNat = _
  rw [UInt32.toNat_toUInt8, UInt8.toNat_ofNat']
  show (UInt32.ofNat id).toNat % 2 ^ 8 = id % 2 ^ 8
  rw [UInt32.toNat_ofNat']
  exact Nat.mod_mod_of_dvd id (by decide)

/-- The bytes of the tag for a path. -/
def tagBytes (i : TagBuffer) (ids : List UInt8) : List UInt8 :=
  i.u32.write (UInt8.ofNat ids.length).toUInt32 ++ i.u32.writeAll (ids.map UInt8.toUInt32)

section Sending

variable {env : OutputEnv K} {ids : List UInt8}

/-- A packet without a path gets a tag without ids. -/
private theorem addByteTag_null (env : OutputEnv K) (mem : Blocks) :
    addByteTag env mem NULL = .ok (tagBytes env.tagBuffer []) := by
  simp [addByteTag, Tag.serialize, Tag.setPath, tagBytes, Codec.writeAll, onHeap, bind,
    Except.bind]
  rfl

/-- The tag takes as many ids out of the block as its first byte says. -/
private theorem addByteTag_encodePath (env : OutputEnv K) (paths : List Nat) :
    ∃ mem hdr, DatapacketHeader.default.encodePath Heap.empty
        (paths.map fun id => Int32.ofNat id) = .ok (mem, hdr) ∧
      addByteTag env mem hdr.path = .ok (tagBytes env.tagBuffer (wirePath paths)) := by
  obtain ⟨mem, p, hok, hp, hcell⟩ := encodePath_ok (h := .default) (.inl rfl)
    (paths.map fun id => Int32.ofNat id)
  refine ⟨mem, _, hok, ?_⟩
  rw [pathBytes_ofNat] at hcell
  have hmod : (UInt8.ofNat (wirePath paths).length) = UInt8.ofNat paths.length := by
    apply UInt8.toNat_inj.mp
    rw [toNat_length (length_wirePath paths), UInt8.toNat_ofNat', wirePath, List.length_map,
      List.length_take]
    have := Nat.mod_le paths.length 256
    omega
  -- What is in the block beyond the ids that are counted stays there
  have hcell' : mem.cell p = some (pathBlock (wirePath paths) ++
      (paths.drop (paths.length % 256)).map UInt8.ofNat) := by
    rw [hcell, pathBlock, pathBlock, List.length_map, hmod, wirePath, List.cons_append,
      ← List.map_append, List.take_append_drop]
  obtain ⟨mem', hrelease, -⟩ := release_of_live (Heap.live_iff.mpr ⟨_, hcell⟩)
  simp only [addByteTag, Tag.serialize, Tag.setPath, if_neg hp, byteAt_pathBlock hcell',
    toNat_length (length_wirePath paths), bytesFrom_pathBlock hcell', hrelease, onHeap, bind,
    Except.bind]
  rfl

variable [Zero K]

/-- The header of a packet with a tag has its path. -/
theorem newPacket_some (env : OutputEnv K) (hlen : ids.length ≤ 255) (dst : UInt32)
    (payload : List UInt8) :
    ∃ p, newPacket env (some (tagBytes env.tagBuffer ids)) dst payload = .ok p ∧
      Carries env.buffer ids payload p := by
  have hread := Tag.run_deserialize env.tagBuffer Tag.new hlen []
  rw [List.append_nil, ← tagBytes] at hread
  generalize hsrc : (if isBoardcast dst then ⟨0, 0⟩ else env.position : Point K) = srcPos
  generalize hdst : (if isBoardcast dst then ⟨0, 0, 0⟩ else env.getPosition dst :
    Gpsr.Vector3D K) = dstPos
  obtain ⟨mem, p, hok, hcell⟩ := @addHeaders_ok ids
    ⟨Tag.new.path, (pathBlock ids).map fun b => b.toUInt32.toInt32⟩ rfl Heap.empty 1 2 1
    (env.toBits srcPos.x) (env.toBits srcPos.y) (env.toBits dstPos.x) (env.toBits dstPos.y)
  have hholds : (DatapacketHeader.new (UInt8.ofNat ids.length).toUInt32 1 2 1
      (env.toBits srcPos.x) (env.toBits srcPos.y) (env.toBits dstPos.x) (env.toBits dstPos.y)
      p).Holds mem ids := ⟨⟨rfl, hlen⟩, .inr ⟨_, hcell⟩⟩
  obtain ⟨packet, hclose, hcarries⟩ := close_of_holds env.toRoutingEnv env.position hholds
    payload
  refine ⟨packet, ?_, hcarries⟩
  have htag : findByteTag env (some (tagBytes env.tagBuffer ids)) =
      .ok (some ⟨Tag.new.path, (pathBlock ids).map fun b => b.toUInt32.toInt32⟩) := by
    simp only [findByteTag, removeHeader, hread, bind, Except.bind]
    rfl
  simp only [newPacket, htag, hsrc, hdst, hok, onHeap, bind, Except.bind]
  exact hclose

/-- A packet without a tag gets a header without a path. -/
theorem newPacket_none (env : OutputEnv K) (dst : UInt32) (payload : List UInt8) :
    ∃ p, newPacket env none dst payload = .ok p ∧ Carries env.buffer [] payload p := by
  generalize hsrc : (if isBoardcast dst then ⟨0, 0⟩ else env.position : Point K) = srcPos
  generalize hdst : (if isBoardcast dst then ⟨0, 0, 0⟩ else env.getPosition dst :
    Gpsr.Vector3D K) = dstPos
  have hholds : (DatapacketHeader.new 0 1 2 1 (env.toBits srcPos.x) (env.toBits srcPos.y)
      (env.toBits dstPos.x) (env.toBits dstPos.y) NULL).Holds Heap.empty [] :=
    ⟨⟨rfl, Nat.zero_le _⟩, .inl ⟨rfl, rfl⟩⟩
  obtain ⟨packet, hclose, hcarries⟩ := close_of_holds env.toRoutingEnv env.position hholds
    payload
  refine ⟨packet, ?_, hcarries⟩
  simp only [newPacket, hsrc, hdst]
  exact hclose

end Sending

/-! ## Forwarding -/

section Forwarding

variable [Field K] [LinearOrder K] {env : RoutingEnv K} {fuel : Nat} {now : Int}
  {map : MsvrMap K} {t t' : Neighbors K} {ids payload packet : List UInt8}

/-- The failure is one of the map or the neighbours. -/
def RoutingFault.OnMap : RoutingFault → Prop
  | .packet => False
  | .memory _ => False
  | .neighbors _ => True
  | .outOfRange => True
  | .outOfFuel => True

/-- Failures of a computation with the map only. -/
def FailsOnMap {α : Type} (x : Except RoutingFault α) : Prop :=
  ∀ fault, x = .error fault → fault.OnMap

/-- What returns does not fail. -/
theorem FailsOnMap.ok {α : Type} (a : α) : FailsOnMap (.ok a) := fun _ h => nomatch h

/-- Steps that fail on the map only do so one after the other. -/
theorem FailsOnMap.bind {α β : Type} {x : Except RoutingFault α} {f : α → Except RoutingFault β}
    (hx : FailsOnMap x) (hf : ∀ a, x = .ok a → FailsOnMap (f a)) : FailsOnMap (x >>= f) := by
  cases x with
  | error fault =>
    intro fault' h
    cases h
    exact hx fault rfl
  | ok a => exact hf a rfl

/-- The work with the tables fails on the map only. -/
theorem FailsOnMap.inNeighbors {α : Type} (x : Except NeighborsFault α) :
    FailsOnMap (inNeighbors x) := by
  intro fault h
  cases x with
  | error fault' =>
    cases h
    trivial
  | ok a => cases h

omit [Field K] [LinearOrder K] in
/-- The access to a point fails on the map only. -/
theorem FailsOnMap.pointAt (map : MsvrMap K) (id : Nat) : FailsOnMap (pointAt map id) := by
  intro fault h
  rw [GeoSvr.pointAt] at h
  split at h
  · cases h
  · cases h
    trivial

/-- The search for the road of a position fails on the map only. -/
theorem FailsOnMap.roadIdAt (fuel : Nat) (map : MsvrMap K) (p : Point K) :
    FailsOnMap (roadIdAt fuel map p) :=
  (FailsOnMap.inNeighbors _).bind fun _ _ => .ok _

/-- The trimming of a path fails on the map only. -/
theorem FailsOnMap.trimPath (fuel : Nat) (map : MsvrMap K) (p : Point K) (paths : List Nat) :
    FailsOnMap (trimPath fuel map p paths) := by
  rw [GeoSvr.trimPath.eq_def]
  split
  · exact (FailsOnMap.roadIdAt fuel map p).bind fun _ _ => .ok _
  · exact .ok _

/-- The choice of the arguments for the next hop fails on the map only. -/
theorem FailsOnMap.hopArgs (fuel : Nat) (map : MsvrMap K) (p : Point K) (v0 v1 : Nat)
    (rest : List Nat) : FailsOnMap (hopArgs fuel map p v0 v1 rest) := by
  apply (FailsOnMap.roadIdAt fuel map p).bind
  intro myroad _
  dsimp only
  -- Every branch looks up one point, and then the road of the node again
  split
  · split
    · exact (FailsOnMap.pointAt map _).bind fun _ _ => (FailsOnMap.ok _).bind fun _ _ =>
        (FailsOnMap.roadIdAt fuel map p).bind fun _ _ => .ok _
    · exact (FailsOnMap.pointAt map _).bind fun _ _ => (FailsOnMap.ok _).bind fun _ _ =>
        (FailsOnMap.roadIdAt fuel map p).bind fun _ _ => .ok _
  · exact (FailsOnMap.pointAt map _).bind fun _ _ => (FailsOnMap.ok _).bind fun _ _ =>
      (FailsOnMap.roadIdAt fuel map p).bind fun _ _ => .ok _

/-- A path loses its first node at most, and only if two are left. -/
private theorem trimPath_eq_ok {p : Point K} {paths paths' : List Nat}
    (h : trimPath fuel map p paths = .ok paths') :
    paths' <:+ paths ∧ (2 ≤ paths.length → 2 ≤ paths'.length) := by
  rw [trimPath.eq_def] at h
  split at h
  · next v0 v1 v2 rest =>
    obtain ⟨road, -, h⟩ := bind_eq_ok.mp h
    cases h
    split
    · exact ⟨List.suffix_cons v0 _, fun _ => by simp⟩
    · exact ⟨List.suffix_refl _, fun _ => by simp⟩
  · cases h
    exact ⟨List.suffix_refl _, id⟩

/-- What becomes of the packet when it is forwarded: its payload stays, and its path loses nodes
    at the front only. It goes to its destination, or two nodes at least are left. -/
structure Forwards (i : Buffer) (ids payload : List UInt8) (dst gateway : UInt32)
    (p : List UInt8) (ids' : List UInt8) : Prop where
  carries : Carries i ids' payload p
  suffix : ids' <:+ ids
  direct_or : gateway = dst ∨ 2 ≤ ids'.length

/-- A path that was bytes has these bytes again. -/
private theorem pathBytes_toNat (ids : List UInt8) :
    pathBytes ((ids.map UInt8.toNat).map fun id => Int32.ofNat id) = ids := by
  rw [pathBytes_ofNat, List.map_map]
  exact (List.map_congr_left fun b _ => UInt8.ofNat_toNat).trans (List.map_id _)

/-- The points of a decoded path are its bytes. -/
private theorem toNat_decoded (ids : List UInt8) :
    (ids.map fun b => b.toUInt32.toInt32).map Int32.toNatClampNeg = ids.map UInt8.toNat := by
  rw [List.map_map]
  refine List.map_congr_left fun b _ => ?_
  have hlt := b.toNat_lt
  have hword : b.toUInt32.toNat = b.toNat := UInt8.toNat_toUInt32 b
  show b.toUInt32.toInt32.toInt.toNat = b.toNat
  have hint : b.toUInt32.toInt32.toInt = b.toUInt32.toBitVec.toInt := rfl
  have hnat : b.toUInt32.toBitVec.toNat = b.toUInt32.toNat := rfl
  rw [hint, BitVec.toInt_eq_toNat_cond, hnat, hword, if_pos (by omega)]
  omega

/-- The path that is chosen is what is left of the one in the header. -/
private theorem chooseHop_of_holds (env : RoutingEnv K) (fuel : Nat) (now : Int) (map : MsvrMap K)
    (t : Neighbors K) (tHeader : TypeHeader) (payload : List UInt8) (pos : Point K)
    {mem : Blocks} {hdr : DatapacketHeader} (h : hdr.Holds mem ids) :
    FailsOnMap (chooseHop env fuel now map t ⟨tHeader, mem, hdr, payload, pos⟩) ∧
      ∀ nextHop paths t', chooseHop env fuel now map t ⟨tHeader, mem, hdr, payload, pos⟩ =
        .ok (some (nextHop, paths), t') → paths <:+ ids.map UInt8.toNat ∧ 2 ≤ paths.length := by
  obtain ⟨found, hdecode⟩ := h.decodePath
  simp only [chooseHop, hdecode, onHeap]
  constructor
  · apply (FailsOnMap.ok _).bind
    intro _ _
    apply FailsOnMap.bind (FailsOnMap.trimPath fuel map pos _)
    intro paths _
    split
    · apply FailsOnMap.bind (FailsOnMap.hopArgs fuel map pos _ _ _)
      exact fun _ _ => (FailsOnMap.inNeighbors _).bind fun _ _ => .ok _
    · exact .ok _
  · intro nextHop paths t' hok
    obtain ⟨_, hids, hok⟩ := bind_eq_ok.mp hok
    cases hids
    obtain ⟨trimmed, htrim, hok⟩ := bind_eq_ok.mp hok
    rw [toNat_decoded] at htrim
    split at hok
    · next v0 v1 rest =>
      obtain ⟨args, -, hok⟩ := bind_eq_ok.mp hok
      obtain ⟨⟨hop, t₁⟩, -, hok⟩ := bind_eq_ok.mp hok
      obtain ⟨hhop, -⟩ := Prod.mk.inj (Except.ok.inj hok)
      split at hhop
      · cases hhop
        exact ⟨(trimPath_eq_ok htrim).1, by simp⟩
      · cases hhop
    · cases hok

/-- `Forwarding` of such a packet to a neighbour sends it straight there. The headers go back as
    they were. -/
theorem forwarding_of_near (h : Carries env.buffer ids payload packet) (fuel : Nat) (now : Int)
    (map : MsvrMap K) {t : Neighbors K} {header : Ipv4Header}
    (hnear : (t.isNeighbor now header.destination).1 = true) (ucb : U) :
    ∃ p, forwarding (E := E) env fuel now map t packet header ucb = .ok (true, t.settle now,
        [.unicast ucb (routeVia header header.destination) p header]) ∧
      Carries env.buffer ids payload p := by
  obtain ⟨mem, hdr, hholds, hopen⟩ := openPacket_of_carries h
  obtain ⟨p, hclose, hcarries⟩ := close_of_holds env env.position hholds payload
  refine ⟨p, ?_, hcarries⟩
  simp only [forwarding, hopen, Neighbors.isNeighbor_of_fst hnear, hclose, bind, Except.bind]
  rfl

/-- `Forwarding` of such a packet fails on the map only, and sends it once or not at all. -/
theorem forwarding_of_carries (h : Carries env.buffer ids payload packet) (fuel : Nat) (now : Int)
    (map : MsvrMap K) (t : Neighbors K) (header : Ipv4Header) (ucb : U) :
    FailsOnMap (forwarding (E := E) env fuel now map t packet header ucb) ∧
      ∀ sent t' (calls : List (Callback U E)),
        forwarding env fuel now map t packet header ucb = .ok (sent, t', calls) →
          sent = false ∧ calls = [] ∨ sent = true ∧ ∃ gateway p ids',
            calls = [.unicast ucb (routeVia header gateway) p header] ∧
              Forwards env.buffer ids payload header.destination gateway p ids' := by
  obtain ⟨mem, hdr, hholds, hopen⟩ := openPacket_of_carries h
  cases hnear : (t.isNeighbor now header.destination).1 with
  | true =>
    obtain ⟨p, hok, hcarries⟩ := forwarding_of_near (E := E) h fuel now map hnear ucb
    rw [hok]
    refine ⟨.ok _, fun sent t' calls hcalls => ?_⟩
    cases hcalls
    exact .inr ⟨rfl, _, p, ids, rfl, hcarries, List.suffix_refl _, .inl rfl⟩
  | false =>
    obtain ⟨hfails, hpaths⟩ := chooseHop_of_holds env fuel now map (t.settle now)
      (.new .datapacket) payload env.position hholds
    -- What is left of the path goes into the header
    have hsend : ∀ paths : List Nat, paths <:+ ids.map UInt8.toNat → ∃ mem' hdr' p ids',
        hdr.encodePath mem (paths.map fun id => Int32.ofNat id) = .ok (mem', hdr') ∧
        Opened.close env ⟨.new .datapacket, mem', hdr', payload, env.position⟩ = .ok p ∧
        Carries env.buffer ids' payload p ∧ ids' <:+ ids ∧ ids'.length = paths.length := by
      intro paths hsuffix
      have hlen : (paths.map fun id => Int32.ofNat id).length ≤ 255 := by
        have hle := hsuffix.length_le
        have hids := hholds.1.2
        rw [List.length_map] at hle ⊢
        omega
      obtain ⟨mem', hdr', hencode, hholds'⟩ := hholds.encodePath hlen
      obtain ⟨p, hclose, hcarries⟩ := close_of_holds env env.position hholds' payload
      have hbytes := hsuffix.map fun id : Nat => (Int32.ofNat id).toUInt32.toUInt8
      refine ⟨mem', hdr', p, _, hencode, hclose, hcarries, ?_, by simp⟩
      have hids := pathBytes_toNat ids
      rw [pathBytes, List.map_map] at hids ⊢
      exact hids ▸ hbytes
    cases hchoose : chooseHop env fuel now map (t.settle now)
        ⟨.new .datapacket, mem, hdr, payload, env.position⟩ with
    | error fault =>
      have hfault : forwarding (E := E) env fuel now map t packet header ucb = .error fault := by
        simp only [forwarding, hopen, Neighbors.isNeighbor_of_fst hnear, hchoose, bind,
          Except.bind, Bool.false_eq_true, if_false]
      rw [hfault]
      refine ⟨fun fault' h => ?_, by simp⟩
      cases h
      exact hfails fault hchoose
    | ok chosen =>
      obtain ⟨hop, t₁⟩ := chosen
      cases hop with
      | none =>
        have hok : forwarding (E := E) env fuel now map t packet header ucb =
            .ok (false, t₁, []) := by
          simp only [forwarding, hopen, Neighbors.isNeighbor_of_fst hnear, hchoose, bind,
            Except.bind, Bool.false_eq_true, if_false]
          rfl
        rw [hok]
        refine ⟨.ok _, fun sent t' calls hcalls => ?_⟩
        cases hcalls
        exact .inl ⟨rfl, rfl⟩
      | some r =>
        obtain ⟨hsuffix, htwo⟩ := hpaths _ _ _ hchoose
        obtain ⟨mem', hdr', p, ids', hencode, hclose, hcarries, hsub, hlen⟩ := hsend r.2 hsuffix
        have hok : forwarding (E := E) env fuel now map t packet header ucb =
            .ok (true, t₁, [.unicast ucb (routeVia header r.1) p header]) := by
          simp only [forwarding, hopen, Neighbors.isNeighbor_of_fst hnear, hchoose, hencode, onHeap,
            hclose, bind, Except.bind, Bool.false_eq_true, if_false]
          rfl
        rw [hok]
        refine ⟨.ok _, fun sent t' calls hcalls => ?_⟩
        cases hcalls
        exact .inr ⟨rfl, r.1, p, ids', rfl, hcarries, hsub, .inr (by omega)⟩

end Forwarding

/-! ## The first hop -/

section Output

variable [Field K] [LinearOrder K] {env : OutputEnv K} {fuel : Nat} {now : Int}
  {map : MsvrMap K} {t : Neighbors K} {packet interfaces oifDiffers : Bool}
  {header : Ipv4Header} {r : RouteOutput K}

/-- The path is one of the map to the position of the destination, without its first node
    perhaps. -/
def OnWay (env : OutputEnv K) (fuel : Nat) (map : MsvrMap K) (dst : UInt32) (paths : List Nat) :
    Prop :=
  ∃ found map', map.getPaths env.toMapEnv fuel env.position.x env.position.y
      (env.getPosition dst).x (env.getPosition dst).y = .ok (found, map') ∧
    paths <:+ found ∧ 2 ≤ paths.length

/-- What is done with the map returns as it is. -/
private theorem inMap_eq_ok {α : Type} {x : Except MapFault α} {a : α} :
    inMap x = .ok a ↔ x = .ok a := by
  cases x <;> simp [inMap]

/-- The path of `pathHop` is an end of the one that `getPaths` finds, with two points at least. -/
private theorem onWay_of_pathHop {dst hop : UInt32} {paths : List Nat} {map' : MsvrMap K}
    {t' : Neighbors K} (h : pathHop env fuel now map t dst = .ok (hop, paths, map', t')) :
    OnWay env fuel map dst paths := by
  obtain ⟨⟨found, map₁⟩, hfound, h⟩ := bind_eq_ok.mp h
  obtain ⟨trimmed, htrim, h⟩ := bind_eq_ok.mp h
  split at h
  · next v0 v1 rest =>
    obtain ⟨args, -, h⟩ := bind_eq_ok.mp h
    obtain ⟨⟨nextHop, t₁⟩, -, h⟩ := bind_eq_ok.mp h
    cases h
    exact ⟨found, map', inMap_eq_ok.mp (inNeighbors_eq_ok.mp hfound), (trimPath_eq_ok htrim).1,
      by simp⟩
  · cases h

/-- A packet that gets a route gets a tag with its path: none if it goes straight to its
    destination, and else one on the way there. -/
structure Tagged (env : OutputEnv K) (fuel : Nat) (map : MsvrMap K) (header : Ipv4Header)
    (r : RouteOutput K) (route : Ipv4Route) : Prop where
  destination_eq : route.destination = header.destination
  tag_eq : r.tag = some (tagBytes env.tagBuffer (wirePath r.paths))
  direct_or : route.gateway = header.destination ∧ r.paths = [] ∨
    OnWay env fuel map header.destination r.paths

/-- The outcome once the next hop is known. -/
private theorem tagged_found {hop : UInt32} {paths : List Nat} {map' : MsvrMap K} {t' : Neighbors K}
    (hdirect : hop = header.destination ∧ paths = [] ∨ OnWay env fuel map header.destination paths)
    (h : (⟨if oifDiffers then .noRoute else .route (routeFrom env header hop),
      some (tagBytes env.tagBuffer (wirePath paths)), paths, map', t'⟩ : RouteOutput K) = r) :
    (∀ route, r.routed = .route route → Tagged env fuel map header r route) ∧
      (r.routed = .deferred → r.tag = none) := by
  subst h
  cases oifDiffers with
  | true => exact ⟨by simp, by simp⟩
  | false =>
    refine ⟨fun route hroute => ?_, by simp⟩
    cases hroute
    exact ⟨rfl, rfl, hdirect⟩

/-- What `RouteOutput` leaves in the packet: for a route its tag, and none if it is deferred. -/
theorem routeOutput_cases (h : routeOutput env fuel now map t packet interfaces oifDiffers header =
    .ok r) :
    (∀ route, r.routed = .route route → Tagged env fuel map header r route) ∧
      (r.routed = .deferred → r.tag = none) := by
  simp only [routeOutput] at h
  split at h
  · cases h
    exact ⟨by simp, fun _ => rfl⟩
  split at h
  · cases h
    exact ⟨by simp, fun _ => rfl⟩
  split at h
  · -- A broadcast
    simp only [addByteTag_null, bind, Except.bind] at h
    exact tagged_found (.inl ⟨rfl, rfl⟩) (Except.ok.inj h)
  split at h
  · cases h
    exact ⟨by simp, fun _ => rfl⟩
  generalize t.isNeighbor now header.destination = found at h
  obtain ⟨near, t₁⟩ := found
  cases near with
  | true =>
    obtain ⟨_, hhop, h⟩ := bind_eq_ok.mp h
    cases hhop
    split at h
    · cases h
      exact ⟨by simp, fun _ => rfl⟩
    · simp only [if_true, addByteTag_null, bind, Except.bind] at h
      exact tagged_found (.inl ⟨rfl, rfl⟩) (Except.ok.inj h)
  | false =>
    obtain ⟨⟨hop, paths, map', t'⟩, hhop, h⟩ := bind_eq_ok.mp h
    have hway := onWay_of_pathHop hhop
    split at h
    · cases h
      exact ⟨by simp, fun _ => rfl⟩
    · obtain ⟨mem, hdr, hencode, htag⟩ := addByteTag_encodePath env paths
      simp only [Bool.false_eq_true, if_false, hencode, onHeap, htag, bind, Except.bind] at h
      exact tagged_found (.inr hway) (Except.ok.inj h)

end Output

end MapRelay.NS3.GeoSvr
