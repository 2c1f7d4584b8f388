import MapRelay.Spec.GeoSvrPacket
import MapRelay.Spec.MbrHeader

/-!
# Equality of headers and their bytes

Two headers with the same bytes are the same to any receiver, so that `==` should tell headers
apart just when their bytes differ. The `==` of `MbrHeader` leaves out the fields behind the
lifetime, and that of `DatapacketHeader` looks at the coordinates only, with those of the
destination crossed.
-/

namespace MapRelay.NS3

open ForStd Blocks

namespace MbrHeader

variable {a b : MbrHeader}

/-- The headers agree in the fields that `==` compares. -/
def SameReply (a b : MbrHeader) : Prop :=
  a.flags = b.flags ∧ a.prefixSize = b.prefixSize ∧ a.hopCount = b.hopCount ∧ a.dst = b.dst ∧
    a.dstSeqNo = b.dstSeqNo ∧ a.origin = b.origin ∧ a.lifeTime = b.lifeTime

/-- The headers agree in the other fields that are written. -/
def SamePlace (a b : MbrHeader) : Prop :=
  a.geohash = b.geohash ∧ a.mac = b.mac ∧ a.latitude = b.latitude ∧ a.longitude = b.longitude

instance (a b : MbrHeader) : Decidable (SamePlace a b) := inferInstanceAs (Decidable (_ ∧ _))

/-- What the comparison of the headers compares. -/
theorem operatorEq_iff : a.operatorEq b = true ↔ SameReply a b := by
  simp only [operatorEq, Bool.and_eq_true, beq_iff_eq, and_assoc]
  rfl

/-- Headers have the same bytes exactly if their fields are the same, the ones with the place
included. -/
theorem serialize_eq_iff (i : Buffer) :
    a.serialize i = b.serialize i ↔ SameReply a b ∧ SamePlace a b := by
  simp only [serialize, Codec.write_append_inj, Codec.write_inj, SameReply, SamePlace, and_assoc]

/-- `==` is right unless it overlooks a difference. -/
private theorem operatorEq_iff_serialize_iff (i : Buffer) :
    (a.operatorEq b = true ↔ a.serialize i = b.serialize i) ↔
      ¬ (SameReply a b ∧ ¬ SamePlace a b) := by
  rw [operatorEq_iff, serialize_eq_iff, iff_self_and, not_and, Decidable.not_not]

/-- A header that was read from the bytes of `a` agrees with it in the fields that count. -/
private theorem sameReply_of_run_deserialize {i : Buffer} {h₀ c : MbrHeader} {n : Nat}
    {rest left : List UInt8}
    (h : (h₀.deserialize i).run (a.serialize i ++ rest) = some ((c, n), left)) :
    SameReply c a := by
  rw [run_deserialize] at h
  simp only [Option.some.injEq, Prod.mk.injEq] at h
  obtain ⟨⟨rfl, -⟩, -⟩ := h
  exact ⟨rfl, rfl, rfl, rfl, rfl, rfl, rfl⟩

end MbrHeader

namespace GeoSvr.DatapacketHeader

open Float.Model

/-! ## Doubles -/

/-- A finite number equals itself. -/
private theorem compare_finite_self (s : UnpackedFloat.Sign) (m : Nat) (e : Int) (hm : 0 < m) :
    (UnpackedFloat.finite s m e hm).compare (.finite s m e hm) = some .eq := by
  cases s with
  | positive =>
    show some ((compare e e).then (compare m m)) = some .eq
    rw [Std.compare_self, Std.compare_self]
    rfl
  | negative =>
    show some ((compare e e).then (compare m m)).swap = some .eq
    rw [Std.compare_self, Std.compare_self]
    rfl

/-- A `double` is equal to itself unless it is not a number. -/
private theorem eqDouble_self (x : UInt64) : eqDouble x x = !(Float.ofBits x).isNaN := by
  show (Float.ofBits x).toModel.unpack.beq (Float.ofBits x).toModel.unpack =
    !(Float.ofBits x).toModel.unpack.isNaN
  generalize (Float.ofBits x).toModel.unpack = f
  cases f with
  | infinity s => cases s <;> rfl
  | notANumber => rfl
  | zero s => rfl
  | finite s m e hm =>
    show ((UnpackedFloat.finite s m e hm).compare (.finite s m e hm) == some .eq) = true
    rw [compare_finite_self]
    rfl

/-- Nothing is equal to what is not a number. -/
private theorem not_isNaN_of_eqDouble {x y : UInt64} (h : eqDouble x y = true) :
    (Float.ofBits y).isNaN = false := by
  change (Float.ofBits x).toModel.unpack.beq (Float.ofBits y).toModel.unpack = true at h
  show (Float.ofBits y).toModel.unpack.isNaN = false
  generalize (Float.ofBits x).toModel.unpack = f at h
  generalize (Float.ofBits y).toModel.unpack = f' at h
  cases f' with
  -- `compare` gives no order to it, whatever the other one is
  | notANumber => cases f <;> cases h
  | _ => rfl

/-! ## The header on the wire -/

variable {mem : Blocks} {h o : DatapacketHeader}

/-- The headers agree in all fields that are written, and in the ids of their paths. -/
def SameWritten (h : DatapacketHeader) (mem : Blocks) (o : DatapacketHeader) : Prop :=
  h.length = o.length ∧ h.m = o.m ∧ h.t = o.t ∧ h.c = o.c ∧ h.sx = o.sx ∧ h.sy = o.sy ∧
    h.dx = o.dx ∧ h.dy = o.dy ∧
      bytesFrom mem h.path 1 h.length.toNat = bytesFrom mem o.path 1 o.length.toNat

/-- The coordinates that `==` compares are equal. -/
def SamePosition (h o : DatapacketHeader) : Prop :=
  eqDouble h.sx o.sx ∧ eqDouble h.sy o.sy ∧ eqDouble h.dx o.dy ∧ eqDouble h.dy o.dy

/-- The coordinates are numbers, and the two of the destination are equal. -/
def OnDiagonal (h : DatapacketHeader) : Prop :=
  (Float.ofBits h.sx).isNaN = false ∧ (Float.ofBits h.sy).isNaN = false ∧ eqDouble h.dx h.dy

/-- `==` compares the coordinates and nothing else. -/
theorem operatorEq_iff : h.operatorEq o = true ↔ SamePosition h o := by
  simp only [operatorEq, Bool.and_eq_true, and_assoc]
  rfl

/-- A header equals itself exactly on the diagonal. -/
theorem operatorEq_self : h.operatorEq h = true ↔ h.OnDiagonal := by
  rw [operatorEq_iff, SamePosition, OnDiagonal, eqDouble_self, eqDouble_self, eqDouble_self,
    Bool.not_eq_true', Bool.not_eq_true', Bool.not_eq_true']
  constructor
  · exact fun ⟨hsx, hsy, hd, _⟩ => ⟨hsx, hsy, hd⟩
  · exact fun ⟨hsx, hsy, hd⟩ => ⟨hsx, hsy, hd, not_isNaN_of_eqDouble hd⟩

/-- What `Serialize` writes, whatever the length of the path. -/
theorem wire_of_serialize {i : Buffer} {mem' : Blocks} {bytes : List UInt8}
    (hok : h.serialize i mem = .ok (mem', bytes)) :
    ∃ ids, bytesFrom mem h.path 1 h.length.toNat = .ok ids ∧ bytes = h.wire i ids := by
  obtain ⟨ids, hids, hok⟩ := bind_eq_ok.mp hok
  obtain ⟨mem'', -, hok⟩ := bind_eq_ok.mp hok
  cases hok
  exact ⟨ids, hids, rfl⟩

/-- Different bits are different numbers. -/
private theorem ofNat_bitField_inj {w : Nat} (hw : w ≤ 32) {x y : BitVec w} :
    UInt32.ofNat x.toNat = UInt32.ofNat y.toNat ↔ x = y := by
  constructor
  · intro heq
    rw [← ofNat_bitField hw x, heq, ofNat_bitField hw y]
  · intro heq
    rw [heq]

/-- Headers have the same bytes exactly if the fields that are written are the same. -/
private theorem bytes_eq_iff {i : Buffer} {memh memo : Blocks} {bytesh byteso : List UInt8}
    (hh : h.serialize i mem = .ok (memh, bytesh)) (ho : o.serialize i mem = .ok (memo, byteso)) :
    bytesh = byteso ↔ h.SameWritten mem o := by
  obtain ⟨ids, hids, rfl⟩ := wire_of_serialize hh
  obtain ⟨ids', hids', rfl⟩ := wire_of_serialize ho
  simp only [wire, Codec.write_append_inj, ofNat_bitField_inj (w := 1) (by omega),
    ofNat_bitField_inj (w := 2) (by omega), SameWritten, hids, hids', Except.ok.injEq]
  -- Headers of the same length have paths of the same length
  refine and_congr_right fun hlen => ?_
  have hlen' : ids.length = ids'.length := by
    rw [length_of_bytesFrom hids, length_of_bytesFrom hids', hlen]
  rw [Codec.writeAll_inj i.u8 hlen']

/-- A header that was read from the bytes of `h` has its coordinates. -/
theorem coordinates_of_run_deserialize {i : Buffer} {ids rest left : List UInt8}
    {mem₀ mem' : Blocks} {h₀ c : DatapacketHeader} {n : Nat}
    (hrun : (h₀.deserialize i mem₀).run (h.wire i ids ++ rest) = some ((mem', c, n), left)) :
    c.sx = h.sx ∧ c.sy = h.sy ∧ c.dx = h.dx ∧ c.dy = h.dy := by
  rw [deserialize, StateT.run_bind, StateT.run_get, pure_bind] at hrun
  generalize (h.wire i ids ++ rest).length = start at hrun
  simp only [wire, List.append_assoc, Codec.run_read_write] at hrun
  -- The assertion at the end comes after either of the two ways to the path
  split at hrun
  · simp only [pure_bind, StateT.run_bind, StateT.run_get, Option.pure_def, Option.bind_eq_bind,
      Option.bind_some] at hrun
    split at hrun
    · cases hrun
      exact ⟨rfl, rfl, rfl, rfl⟩
    · cases hrun
  · rw [StateT.run_bind] at hrun
    obtain ⟨⟨path, left'⟩, -, hrun⟩ := Option.bind_eq_some_iff.mp hrun
    simp only [pure_bind, StateT.run_bind, StateT.run_get, Option.pure_def, Option.bind_eq_bind,
      Option.bind_some] at hrun
    split at hrun
    · cases hrun
      exact ⟨rfl, rfl, rfl, rfl⟩
    · cases hrun

/-- `==` is right on headers with the same bytes if they are on the diagonal, and on others if
    their positions differ. -/
theorem operatorEq_iff_bytes_iff {i : Buffer} {memh memo : Blocks}
    {bytesh byteso : List UInt8}
    (hh : h.serialize i mem = .ok (memh, bytesh)) (ho : o.serialize i mem = .ok (memo, byteso)) :
    (h.operatorEq o = true ↔ bytesh = byteso) ↔
      (h.SameWritten mem o → h.OnDiagonal) ∧ (¬ h.SameWritten mem o → ¬ h.SamePosition o) := by
  rw [operatorEq_iff, bytes_eq_iff hh ho]
  by_cases hsame : h.SameWritten mem o
  · -- `==` does here what it does on `h` alone
    obtain ⟨-, -, -, -, hsx, hsy, hdx, hdy, -⟩ := id hsame
    have hself : h.SamePosition o ↔ h.OnDiagonal := by
      rw [← operatorEq_self, operatorEq_iff, SamePosition, SamePosition, hsx, hsy, hdy]
    simp [hsame, hself]
  · simp [hsame]

/-- A copy of a header has its coordinates. -/
theorem copy_operatorEq_iff {c : DatapacketHeader}
    (hc : c.sx = h.sx ∧ c.sy = h.sy ∧ c.dx = h.dx ∧ c.dy = h.dy) :
    c.operatorEq h = true ↔ h.OnDiagonal := by
  obtain ⟨hsx, hsy, hdx, hdy⟩ := hc
  rw [← operatorEq_self, operatorEq, operatorEq, hsx, hsy, hdx, hdy]

end GeoSvr.DatapacketHeader

open GeoSvr (DatapacketHeader)

/-- When `==` says what the bytes say: of two hello packets, unless they differ in the fields only
    that it leaves out; of two data headers with the same bytes, if the coordinates are numbers and
    the destination is on the diagonal, and of two others, unless they seem to be at one position.
    A hello packet is equal to itself and to its copies, a data header only on the diagonal. -/
theorem operatorEq_iff_bytes (i : Buffer) (a b : MbrHeader) {mem memh memo : Blocks}
    {h o : DatapacketHeader} {bytesh byteso : List UInt8}
    (hh : h.serialize i mem = .ok (memh, bytesh)) (ho : o.serialize i mem = .ok (memo, byteso)) :
    (((a.operatorEq b = true ↔ a.serialize i = b.serialize i) ↔
        ¬ (a.SameReply b ∧ ¬ a.SamePlace b)) ∧
      a.operatorEq a = true ∧
      ∀ h₀ c n rest left,
        (MbrHeader.deserialize i h₀).run (a.serialize i ++ rest) = some ((c, n), left) →
          c.operatorEq a = true) ∧
    ((h.operatorEq o = true ↔ bytesh = byteso) ↔
        (h.SameWritten mem o → h.OnDiagonal) ∧ (¬ h.SameWritten mem o → ¬ h.SamePosition o)) ∧
      (h.operatorEq h = true ↔ h.OnDiagonal) ∧
      ∀ mem₀ h₀ mem' c n rest left,
        (DatapacketHeader.deserialize i mem₀ h₀).run (bytesh ++ rest) = some ((mem', c, n), left) →
          (c.operatorEq h = true ↔ h.OnDiagonal) := by
  refine ⟨⟨MbrHeader.operatorEq_iff_serialize_iff i, ?_, ?_⟩,
    DatapacketHeader.operatorEq_iff_bytes_iff hh ho, DatapacketHeader.operatorEq_self, ?_⟩
  · exact MbrHeader.operatorEq_iff.mpr ⟨rfl, rfl, rfl, rfl, rfl, rfl, rfl⟩
  · intro h₀ c n rest left hrun
    exact MbrHeader.operatorEq_iff.mpr (MbrHeader.sameReply_of_run_deserialize hrun)
  · intro mem₀ h₀ mem' c n rest left hrun
    obtain ⟨ids, -, rfl⟩ := DatapacketHeader.wire_of_serialize hh
    exact DatapacketHeader.copy_operatorEq_iff
      (DatapacketHeader.coordinates_of_run_deserialize hrun)

/-- The packet of `MbrHeader.hello` from another cell. -/
def MbrHeader.elsewhere : MbrHeader := { hello with geohash := 0xe5f5b2a5 }

/-- A data header without a path, to the destination (1, 2). -/
def GeoSvr.DatapacketHeader.direct : DatapacketHeader :=
  .new 0 1 2 1 0 0 0x3ff0000000000000 0x4000000000000000 NULL

/-- The condition at a hello and at headers that have arrived. -/
theorem operatorEq_iff_bytes_direct :
    (((MbrHeader.hello.operatorEq .elsewhere = true ↔
          MbrHeader.hello.serialize .network = MbrHeader.elsewhere.serialize .network) ↔
        ¬ (MbrHeader.hello.SameReply .elsewhere ∧ ¬ MbrHeader.hello.SamePlace .elsewhere)) ∧
      MbrHeader.hello.operatorEq .hello = true ∧
      ∀ h₀ c n rest left,
        (MbrHeader.deserialize .network h₀).run
            (MbrHeader.hello.serialize .network ++ rest) = some ((c, n), left) →
          c.operatorEq .hello = true) ∧
    ((DatapacketHeader.direct.operatorEq .direct = true ↔
          DatapacketHeader.direct.wire .network [] = DatapacketHeader.direct.wire .network []) ↔
        (DatapacketHeader.direct.SameWritten Heap.empty .direct →
          DatapacketHeader.direct.OnDiagonal) ∧
        (¬ DatapacketHeader.direct.SameWritten Heap.empty .direct →
          ¬ DatapacketHeader.direct.SamePosition .direct)) ∧
      (DatapacketHeader.direct.operatorEq .direct = true ↔ DatapacketHeader.direct.OnDiagonal) ∧
      ∀ mem₀ h₀ mem' c n rest left,
        (DatapacketHeader.deserialize .network mem₀ h₀).run
            (DatapacketHeader.direct.wire .network [] ++ rest) = some ((mem', c, n), left) →
          (c.operatorEq .direct = true ↔ DatapacketHeader.direct.OnDiagonal) :=
  have hbytes : DatapacketHeader.direct.serialize .network Heap.empty =
      .ok (Heap.empty, DatapacketHeader.direct.wire .network []) := rfl
  operatorEq_iff_bytes .network .hello .elsewhere hbytes hbytes

/-- The two hello packets have other bytes and are equal, and the data header is not equal to
    itself. -/
theorem operatorEq_not_bytes :
    (MbrHeader.hello.operatorEq .elsewhere = true ∧
      MbrHeader.hello.serialize .network ≠ MbrHeader.elsewhere.serialize .network) ∧
    DatapacketHeader.direct.serialize .network Heap.empty =
        .ok (Heap.empty, DatapacketHeader.direct.wire .network []) ∧
      DatapacketHeader.direct.operatorEq .direct = false := by
  refine ⟨⟨by decide, ?_⟩, rfl, by decide⟩
  rw [ne_eq, MbrHeader.serialize_eq_iff]
  exact fun hsame => absurd hsame.2.1 (by decide)

end MapRelay.NS3
