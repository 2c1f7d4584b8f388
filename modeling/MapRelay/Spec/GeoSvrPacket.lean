import MapRelay.Native.GeoSvrPacket

/-!
# The path arrives as it was sent

A path is written five times on its way from `RouteOutput` of one node to `Forwarding` of the
next: by `encode_path` into a block, by the tag into words, by `GetPath` into a block again, by
the header into bytes, and by `Deserialize` into a block of the receiver. Each of these keeps the
list of ids and its length, and no block is used after it was freed.
-/

namespace MapRelay.NS3.GeoSvr

open ForStd Blocks

/-- A road node id that fits into a byte. -/
def IsByte (id : Int32) : Prop := 0 ≤ id.toInt ∧ id.toInt ≤ 255

instance (id : Int32) : Decidable (IsByte id) := inferInstanceAs (Decidable (_ ∧ _))

/-- An id that is a byte is read back from it. -/
private theorem toInt32_byte {id : Int32} (h : IsByte id) :
    id.toUInt32.toUInt8.toUInt32.toInt32 = id := by
  obtain ⟨h₀, h₁⟩ := h
  -- A byte is not negative as an `int`, so that the sign bit does not matter
  have hnat : id.toUInt32.toNat ≤ 255 := by
    have hint : id.toInt = id.toBitVec.toInt := rfl
    have hbv : id.toUInt32.toNat = id.toBitVec.toNat := rfl
    rw [hint, BitVec.toInt_eq_toNat_cond] at h₀ h₁
    rw [hbv]
    split at h₀ <;> omega
  -- Cutting to eight bits and widening again gives the byte back
  have hword : id.toUInt32.toUInt8.toUInt32 = id.toUInt32 := by
    apply UInt32.toNat_inj.mp
    rw [UInt8.toNat_toUInt32, UInt32.toNat_toUInt8]
    exact Nat.mod_eq_of_lt (by omega)
  rw [hword]
  simp

/-- The bytes of a path. -/
def pathBytes (paths : List Int32) : List UInt8 := paths.map fun id => id.toUInt32.toUInt8

/-- A path has one byte for each id. -/
@[simp] theorem length_pathBytes (paths : List Int32) :
    (pathBytes paths).length = paths.length := by
  simp [pathBytes]

/-- A path of bytes is read back. -/
private theorem ids_pathBytes {paths : List Int32} (h : ∀ id ∈ paths, IsByte id) :
    ((pathBytes paths).map fun b => b.toUInt32.toInt32) = paths := by
  rw [pathBytes, List.map_map]
  exact (List.map_congr_left fun id hid => toInt32_byte (h id hid)).trans (List.map_id _)

/-- A block with its length in the first byte. -/
def pathBlock (ids : List UInt8) : List UInt8 := .ofNat ids.length :: ids

variable {mem : Blocks} {p : Addr} {ids behind : List UInt8}

/-- The length byte says how many ids follow, as long as they can be counted in a byte. -/
theorem toNat_length (h : ids.length ≤ 255) : (UInt8.ofNat ids.length).toNat = ids.length :=
  UInt8.toNat_ofNat_of_lt' (by simp only [UInt8.size]; omega)

/-- The block of a path begins with its length. -/
theorem byteAt_pathBlock (h : mem.cell p = some (pathBlock ids ++ behind)) :
    byteAt mem p 0 = .ok (.ofNat ids.length) :=
  byteAt_of_cell h rfl

/-- The ids are behind the length. -/
theorem bytesFrom_pathBlock (h : mem.cell p = some (pathBlock ids ++ behind)) :
    bytesFrom mem p 1 ids.length = .ok ids := by
  rw [bytesFrom_of_cell h 1 ids.length (by simp [pathBlock]; omega)]
  simp [pathBlock]

/-! ## The stages -/

/-- The path of a header is `NULL` or a block that has not been freed. -/
def DatapacketHeader.PathOk (mem : Blocks) (h : DatapacketHeader) : Prop :=
  h.path = NULL ∨ mem.Live h.path

/-- `encode_path` makes a block for the path, and frees the one the header had. -/
theorem encodePath_ok {h : DatapacketHeader} (hpath : h.PathOk mem) (paths : List Int32) :
    ∃ mem' p, h.encodePath mem paths =
        .ok (mem', { h with length := (UInt8.ofNat paths.length).toUInt32, path := p }) ∧
      p ≠ NULL ∧ mem'.cell p = some (pathBlock (pathBytes paths)) := by
  -- The new block is not at NULL
  have hnext : mem.next ≠ NULL := Nat.ne_of_gt mem.next_pos
  -- The length and the ids are what the block holds
  have hblock : pathBlock (pathBytes paths) =
      UInt8.ofNat paths.length :: paths.map fun id => id.toUInt32.toUInt8 := by
    rw [pathBlock, length_pathBytes]
    rfl
  rw [hblock]
  generalize hcells : (UInt8.ofNat paths.length :: paths.map fun id => id.toUInt32.toUInt8) = cells
  have hnew : (mem.alloc cells).1.cell mem.next = some cells := by
    rw [Heap.cell_alloc, if_pos rfl]
  rcases hpath with hnull | hlive
  · -- There is no old block to free
    refine ⟨(mem.alloc cells).1, mem.next, ?_, hnext, hnew⟩
    simp only [DatapacketHeader.encodePath, hcells, hnull, release_null, bind, Except.bind]
    rfl
  · -- The old block is another one than the new one
    have hne : h.path ≠ mem.next := Nat.ne_of_lt hlive.lt_next
    have hlive' : (mem.alloc cells).1.Live h.path := Heap.live_alloc.mpr (.inr hlive)
    obtain ⟨mem', hrelease, hcell⟩ := release_of_live hlive'
    refine ⟨mem', mem.next, ?_, hnext, ?_⟩
    · simp only [DatapacketHeader.encodePath, hcells, hrelease, bind, Except.bind]
      rfl
    · rw [hcell, if_neg hne.symm, hnew]

/-- The tag writes the length and the ids as words, into the room it has asked for, and frees
    the block. -/
theorem Tag.serialize_ok (i : TagBuffer) {tag : Tag} (hpath : tag.path ≠ NULL)
    (hcell : mem.cell tag.path = some (pathBlock ids)) (hlen : ids.length ≤ 255) :
    ∃ mem', tag.serialize i mem = .ok (mem',
        i.u32.write (UInt8.ofNat ids.length).toUInt32 ++ i.u32.writeAll (ids.map UInt8.toUInt32)) ∧
      tag.getSerializedSize mem = .ok (4 + ids.length * 4) := by
  have hcell' : mem.cell tag.path = some (pathBlock ids ++ []) := by rw [hcell, List.append_nil]
  -- The first byte is the length, the ids follow
  have hbyte := byteAt_pathBlock hcell'
  have hbytes := bytesFrom_pathBlock hcell'
  obtain ⟨mem', hrelease, -⟩ := release_of_live (Heap.live_iff.mpr ⟨_, hcell⟩)
  refine ⟨mem', ?_, ?_⟩
  · simp only [serialize, if_neg hpath, hbyte, toNat_length hlen, hbytes, hrelease, bind,
      Except.bind]
    rfl
  · simp only [getSerializedSize, if_neg hpath, hbyte, toNat_length hlen, bind, Except.bind]
    rfl

/-- The receiver of the tag has the same words in its vector. -/
theorem Tag.run_deserialize (i : TagBuffer) (tag : Tag) (hlen : ids.length ≤ 255)
    (rest : List UInt8) :
    (tag.deserialize i).run (i.u32.write (UInt8.ofNat ids.length).toUInt32 ++
        i.u32.writeAll (ids.map UInt8.toUInt32) ++ rest) =
      some ({ tag with pathVector := (pathBlock ids).map fun b => b.toUInt32.toInt32 }, rest) := by
  -- The count that is read back is the length of the path
  have hcount : (UInt8.ofNat ids.length).toUInt32.toNat = (ids.map UInt8.toUInt32).length := by
    rw [UInt8.toNat_toUInt32, toNat_length hlen, List.length_map]
  have hids : (ids.map UInt8.toUInt32).map UInt32.toInt32 =
      ids.map fun b => b.toUInt32.toInt32 := by
    rw [List.map_map]
    rfl
  rw [deserialize, List.append_assoc, Codec.run_read_write, hcount, StateT.run_bind,
    Codec.run_readN, pathBlock, List.map_cons, ← hids]
  rfl

/-- `GetPath` makes bytes of the words again. -/
private theorem Tag.getPath_eq {tag : Tag}
    (h : tag.pathVector = (pathBlock ids).map fun b => b.toUInt32.toInt32) (mem : Blocks) :
    tag.getPath mem = mem.alloc (pathBlock ids ++ [0]) := by
  rw [getPath, h, List.map_map]
  -- A byte comes back from the word it was written into
  have hid : ∀ b ∈ pathBlock ids, b.toUInt32.toInt32.toUInt32.toUInt8 = b := by simp
  congr 2
  exact (List.map_congr_left hid).trans (List.map_id _)

/-- The header that `AddHeaders` makes has the length of the path. -/
theorem addHeaders_ok {tag : Tag}
    (h : tag.pathVector = (pathBlock ids).map fun b => b.toUInt32.toInt32) (mem : Blocks)
    (m t c : UInt32) (sx sy dx dy : UInt64) :
    ∃ mem' p, addHeaders mem (some tag) m t c sx sy dx dy =
        .ok (mem', .new (UInt8.ofNat ids.length).toUInt32 m t c sx sy dx dy p) ∧
      mem'.cell p = some (pathBlock ids ++ [0]) := by
  -- The copy of the path is not at NULL
  have hnext : mem.next ≠ NULL := Nat.ne_of_gt mem.next_pos
  have hnew : (mem.alloc (pathBlock ids ++ [0])).1.cell mem.next =
      some (pathBlock ids ++ [0]) := by
    rw [Heap.cell_alloc, if_pos rfl]
  refine ⟨(mem.alloc (pathBlock ids ++ [0])).1, mem.next, ?_, hnew⟩
  simp only [addHeaders, Tag.getPath_eq h, Heap.alloc_snd, if_neg hnext,
    byteAt_pathBlock hnew, bind, Except.bind]
  rfl

/-! ## The header on the wire -/

/-- A bit field survives in a word. -/
theorem ofNat_bitField {w : Nat} (hw : w ≤ 32) (x : BitVec w) :
    BitVec.ofNat w (UInt32.ofNat x.toNat).toNat = x := by
  have hlt : x.toNat < UInt32.size := Nat.lt_of_lt_of_le x.isLt (Nat.pow_le_pow_right (by omega) hw)
  rw [UInt32.toNat_ofNat_of_lt' hlt]
  simp

namespace DatapacketHeader

variable {h : DatapacketHeader}

/-- The bytes that `Serialize` writes for a header with the path `ids`. -/
def wire (i : Buffer) (h : DatapacketHeader) (ids : List UInt8) : List UInt8 :=
  i.htonU32.write h.length ++ (i.htonU32.write (.ofNat h.m.toNat) ++
    (i.htonU32.write (.ofNat h.t.toNat) ++ (i.htonU32.write (.ofNat h.c.toNat) ++
      (i.htonU64.write h.sx ++ (i.htonU64.write h.sy ++ (i.htonU64.write h.dx ++
        (i.htonU64.write h.dy ++ i.u8.writeAll ids)))))))

/-- A header has 48 bytes, and those of its path. -/
private theorem length_wire (i : Buffer) (h : DatapacketHeader) (ids : List UInt8) :
    (h.wire i ids).length = 48 + ids.length := by
  simp [wire, Codec.length_writeAll]
  omega

/-- The header has the length of the path `ids`. -/
def HasLength (h : DatapacketHeader) (ids : List UInt8) : Prop :=
  h.length = (UInt8.ofNat ids.length).toUInt32 ∧ ids.length ≤ 255

/-- The stored length is that of the path. -/
theorem HasLength.toNat (hlen : h.HasLength ids) : h.length.toNat = ids.length := by
  rw [hlen.1, UInt8.toNat_toUInt32, toNat_length hlen.2]

/-- The announced size is that of the bytes. -/
theorem HasLength.size (hlen : h.HasLength ids) :
    h.getSerializedSize.toNat = 48 + ids.length := by
  have hle := hlen.2
  rw [getSerializedSize, UInt32.toNat_add, hlen.toNat]
  exact Nat.mod_eq_of_lt (by show 48 + ids.length < 4294967296; omega)

/-- A header whose path is in its block can be serialized. -/
theorem serialize_ok (i : Buffer) (hlen : h.HasLength ids)
    (hcell : mem.cell h.path = some (pathBlock ids ++ behind)) :
    ∃ mem', h.serialize i mem = .ok (mem', h.wire i ids) := by
  have hbytes := bytesFrom_pathBlock hcell
  obtain ⟨mem', hrelease, -⟩ := release_of_live (Heap.live_iff.mpr ⟨_, hcell⟩)
  refine ⟨mem', ?_⟩
  simp only [serialize, hlen.toNat, hbytes, hrelease, bind, Except.bind]
  rfl

/-- What `Deserialize` does to the heap and to the pointer of the header it reads into. -/
def receivePath (mem : Blocks) (path : Addr) (ids : List UInt8) : Blocks × Addr :=
  if ids = [] then (mem, path) else mem.alloc (pathBlock ids)

/-- All fields are restored, and as many bytes are consumed as were reserved. -/
theorem run_deserialize (i : Buffer) (hlen : h.HasLength ids) (mem : Blocks)
    (h₀ : DatapacketHeader) (rest : List UInt8) :
    (h₀.deserialize i mem).run (h.wire i ids ++ rest) =
      some (((receivePath mem h₀.path ids).1, { h with path := (receivePath mem h₀.path ids).2 },
        h.getSerializedSize.toNat), rest) := by
  -- What `Deserialize` returns is the distance between two places in the buffer
  have hdist : (h.wire i ids ++ rest).length - rest.length = 48 + ids.length := by
    rw [List.length_append, length_wire, Nat.add_sub_cancel]
  have hzero : h.length = 0 ↔ ids = [] := by
    rw [← UInt32.toNat_inj, hlen.toNat, UInt32.toNat_zero, List.length_eq_zero_iff]
  have hnew : ∀ p, new h.length (.ofNat h.m.toNat) (.ofNat h.t.toNat) (.ofNat h.c.toNat) h.sx h.sy
      h.dx h.dy p = { h with path := p } := by
    intro p
    simp only [new, ofNat_bitField (w := 1) (by omega), ofNat_bitField (w := 2) (by omega)]
  have hsize : ∀ p, ({ h with path := p } : DatapacketHeader).getSerializedSize.toNat =
      48 + ids.length := fun _ => hlen.size
  rw [deserialize, StateT.run_bind, StateT.run_get, pure_bind, hlen.size]
  rw [← hdist]
  -- The start of the buffer is needed for the distance only, the fields are read off it
  generalize hstart : (h.wire i ids ++ rest).length = start at hdist ⊢
  simp only [wire, List.append_assoc, Codec.run_read_write]
  by_cases hids : ids = []
  · -- An empty path is not read, and no block is made for it
    have hbytes : i.u8.writeAll ids ++ rest = rest := by simp [hids, Codec.writeAll]
    rw [if_pos (hzero.mpr hids), hbytes, receivePath, if_pos hids]
    simp only [pure_bind, StateT.run_bind, StateT.run_get, hnew, hsize, hdist, if_true]
    rfl
  · have hfirst : h.length.toUInt8 :: ids = pathBlock ids := by rw [hlen.1, pathBlock]; simp
    rw [if_neg fun hlen => hids (hzero.mp hlen), hlen.toNat, receivePath, if_neg hids]
    simp only [StateT.run_bind, Codec.run_readN, Option.bind_eq_bind, Option.bind_some, pure_bind,
      StateT.run_get, hfirst, hnew, hsize, hdist, if_true]
    rfl

/-- The path of the receiver is the one that was sent. -/
private theorem decodePath_receivePath (h : DatapacketHeader) (mem : Blocks)
    (hlen : ids.length ≤ 255) :
    ({ h with path := (receivePath mem NULL ids).2 } : DatapacketHeader).decodePath
      (receivePath mem NULL ids).1 [] =
        .ok (ids.map fun b => b.toUInt32.toInt32, decide (ids ≠ [])) := by
  by_cases hids : ids = []
  -- Without a path there is no block, and `DecodePath` refuses
  · simp [receivePath, hids, decodePath]
  · have hnext : mem.next ≠ NULL := Nat.ne_of_gt mem.next_pos
    have hcell : (mem.alloc (pathBlock ids)).1.cell mem.next = some (pathBlock ids ++ []) := by
      rw [Heap.cell_alloc, if_pos rfl, List.append_nil]
    have hpath : receivePath mem NULL ids = ((mem.alloc (pathBlock ids)).1, mem.next) := by
      rw [receivePath, if_neg hids]
      rfl
    simp only [hpath, decodePath, if_neg hnext, byteAt_pathBlock hcell, toNat_length hlen,
      bytesFrom_pathBlock hcell, bind, Except.bind, List.nil_append, ne_eq, hids, not_false_eq_true,
      decide_true]
    rfl

end DatapacketHeader

/-! ## The whole way -/

/-- What happened to a path between two nodes. -/
structure Delivery where
  tagSize : Nat
  tagBytes : List UInt8
  sent : DatapacketHeader
  bytes : List UInt8
  received : DatapacketHeader
  consumed : Nat
  left : List UInt8
  paths : List Int32

/-- A read that has to succeed. -/
def orFault {α : Type} : Option α → Except Fault α
  | some a => .ok a
  | none => .error .assertFailed

/-- The path `paths` goes through `encode_path` of the header `h₀`, a tag, `AddHeaders`, and a
    header in front of the packet `packet`, to a new header of the receiver. -/
def deliver (tb : TagBuffer) (i : Buffer) (mem : Blocks) (h₀ : DatapacketHeader)
    (paths : List Int32) (m t c : UInt32) (sx sy dx dy : UInt64) (packet : List UInt8) :
    Except Fault Delivery := do
  let (mem, h) ← h₀.encodePath mem paths
  let tagSize ← (Tag.new.setPath h.path).getSerializedSize mem
  let (mem, tagBytes) ← (Tag.new.setPath h.path).serialize tb mem
  let (tag, _) ← orFault ((Tag.new.deserialize tb).run tagBytes)
  let (mem, sent) ← addHeaders mem (some tag) m t c sx sy dx dy
  let (mem, bytes) ← sent.serialize i mem
  let ((mem, received, consumed), left) ←
    orFault ((DatapacketHeader.default.deserialize i mem).run (bytes ++ packet))
  let (paths, _) ← received.decodePath mem []
  return { tagSize, tagBytes, sent, bytes, received, consumed, left, paths }

/-- The ids arrive in their order, the other fields of the header are restored, and tag and
    header take the space that they ask for. -/
theorem path_survives (tb : TagBuffer) (i : Buffer) {mem : Blocks} {h₀ : DatapacketHeader}
    (hpath : h₀.PathOk mem) {paths : List Int32} (hlen : paths.length ≤ 255)
    (hids : ∀ id ∈ paths, IsByte id) (m t c : UInt32) (sx sy dx dy : UInt64)
    (packet : List UInt8) :
    ∃ d, deliver tb i mem h₀ paths m t c sx sy dx dy packet = .ok d ∧ d.paths = paths ∧
      d.sent = DatapacketHeader.new (.ofNat paths.length) m t c sx sy dx dy d.sent.path ∧
      d.received = { d.sent with path := d.received.path } ∧
      d.consumed = d.sent.getSerializedSize.toNat ∧ d.bytes.length = d.consumed ∧
      d.left = packet ∧ d.tagBytes.length = d.tagSize := by
  have hlen' : (pathBytes paths).length ≤ 255 := by rwa [length_pathBytes]
  -- The sender: the header's path, the tag with its words
  obtain ⟨mem₁, p₁, hencode, hp₁, hcell₁⟩ := encodePath_ok hpath paths
  obtain ⟨mem₂, htag, hsize⟩ := @Tag.serialize_ok _ _ tb (Tag.new.setPath p₁) hp₁ hcell₁ hlen'
  have hread := Tag.run_deserialize tb Tag.new hlen' []
  rw [List.append_nil] at hread
  generalize htagBytes : tb.u32.write (UInt8.ofNat (pathBytes paths).length).toUInt32 ++
    tb.u32.writeAll ((pathBytes paths).map UInt8.toUInt32) = tagBytes at htag hread
  -- The header that is made from the tag
  obtain ⟨mem₃, p₃, hheader, hcell₃⟩ := @addHeaders_ok (pathBytes paths)
    ⟨Tag.new.path, (pathBlock (pathBytes paths)).map fun b => b.toUInt32.toInt32⟩
    rfl mem₂ m t c sx sy dx dy
  generalize hsent : DatapacketHeader.new (UInt8.ofNat (pathBytes paths).length).toUInt32 m t c
    sx sy dx dy p₃ = sent at hheader
  have hpathsent : sent.path = p₃ := by rw [← hsent]; rfl
  have hlensent : sent.HasLength (pathBytes paths) := ⟨by rw [← hsent]; rfl, hlen'⟩
  -- The header on the wire and at the receiver
  obtain ⟨mem₄, hserialize⟩ := DatapacketHeader.serialize_ok i hlensent (hpathsent ▸ hcell₃)
  have hdeserialize := DatapacketHeader.run_deserialize i hlensent mem₄ .default packet
  have hdecode := DatapacketHeader.decodePath_receivePath sent mem₄ hlen'
  rw [ids_pathBytes hids] at hdecode
  have hlength : (UInt8.ofNat paths.length).toUInt32 = .ofNat paths.length := by
    apply UInt32.toNat_inj.mp
    rw [UInt8.toNat_toUInt32, UInt8.toNat_ofNat_of_lt' (by simp only [UInt8.size]; omega),
      UInt32.toNat_ofNat_of_lt' (by simp only [UInt32.size]; omega)]
  refine ⟨⟨4 + (pathBytes paths).length * 4, tagBytes, sent, sent.wire i (pathBytes paths),
    { sent with path := (DatapacketHeader.receivePath mem₄ NULL (pathBytes paths)).2 },
    sent.getSerializedSize.toNat, packet, paths⟩, ?_, rfl, ?_, rfl, rfl, ?_, rfl, ?_⟩
  · simp only [deliver, hencode, hsize, htag, hread, orFault, bind, Except.bind]
    rw [hheader]
    dsimp only
    rw [hserialize]
    dsimp only
    rw [hdeserialize]
    dsimp only
    rw [show DatapacketHeader.default.path = NULL from rfl, hdecode]
    rfl
  · show sent = DatapacketHeader.new (.ofNat paths.length) m t c sx sy dx dy sent.path
    rw [hpathsent, ← hlength, ← hsent, length_pathBytes]
  · show (sent.wire i (pathBytes paths)).length = sent.getSerializedSize.toNat
    rw [DatapacketHeader.length_wire, hlensent.size]
  · show tagBytes.length = 4 + (pathBytes paths).length * 4
    rw [← htagBytes]
    simp [Codec.length_writeAll]

/-- Three road nodes, on the way from `RouteOutput` with a new header. -/
theorem path_survives_three :
    ∃ d, deliver .ns3 .network Heap.empty .default [3, 0, 255] 1 2 1 5 6 7 8 [1] = .ok d ∧
      d.paths = [3, 0, 255] ∧ d.sent = DatapacketHeader.new 3 1 2 1 5 6 7 8 d.sent.path ∧
      d.received = { d.sent with path := d.received.path } ∧
      d.consumed = d.sent.getSerializedSize.toNat ∧ d.bytes.length = d.consumed ∧
      d.left = [1] ∧ d.tagBytes.length = d.tagSize :=
  path_survives .ns3 .network (.inl rfl) (by decide) (by simp [IsByte]) 1 2 1 5 6 7 8 [1]

end MapRelay.NS3.GeoSvr
