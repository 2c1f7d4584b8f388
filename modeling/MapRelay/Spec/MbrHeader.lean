import MapRelay.Native.MbrHeader

/-!
# Which fields of the hello packet survive the wire

`Serialize` and `Deserialize` agree on all fields they mention. Neither mentions the
direction, for which the packet layout reserves the two bytes behind the MAC address, so
the receiver keeps the direction its header object had before.
-/

namespace MapRelay.NS3

open ForStd

namespace MbrHeader

variable (i : Buffer) (h h₀ : MbrHeader)

/-- The header fills the space that is reserved for it. -/
theorem length_serialize : (h.serialize i).length = getSerializedSize := by
  simp [serialize, getSerializedSize]

/-- What was written is read back into the header, all but the direction. -/
theorem run_deserialize (rest : List UInt8) :
    (h₀.deserialize i).run (h.serialize i ++ rest) =
      some (({ h with direction := h₀.direction }, getSerializedSize), rest) := by
  have hlen := h.length_serialize i
  have hdist : (h.serialize i ++ rest).length - rest.length = getSerializedSize := by
    rw [List.length_append, hlen, Nat.add_sub_cancel]
  rw [deserialize, StateT.run_bind, StateT.run_get, pure_bind]
  -- The start of the buffer is needed for the distance only, the fields are read off it
  rw [← hdist]
  generalize (h.serialize i ++ rest).length = start
  simp only [serialize, List.append_assoc, Codec.run_read_write]
  rfl

/-- The round trip restores the header and consumes its size exactly when the header read
    into already had the direction of the one that was written. -/
theorem deserialize_serialize_iff (rest : List UInt8) :
    (h₀.deserialize i).run (h.serialize i ++ rest) = some ((h, getSerializedSize), rest) ↔
      h₀.direction = h.direction := by
  rw [run_deserialize]
  constructor
  · -- The two headers can differ in this field only
    intro heq
    simp only [Option.some.injEq, Prod.mk.injEq, and_true] at heq
    exact congrArg (·.direction) heq
  · intro heq
    rw [heq]

/-- The hello packet of a vehicle that drives in direction 90. -/
def hello : MbrHeader where
  flags := 0
  prefixSize := 0
  hopCount := 0
  dst := 0x0a000001
  dstSeqNo := 7
  origin := 0x0a000001
  geohash := 0xe5f5b2a4
  mac := .ofBytes 2 0 0 0 0 1
  direction := 90
  latitude := 0x421ccccd
  longitude := 0x42f40000
  lifeTime := 1000

/-- Read into a new header object, it has direction 0. -/
theorem direction_lost :
    ((default hello).deserialize .network).run (hello.serialize .network) ≠
      some ((hello, getSerializedSize), []) := by
  have hread := run_deserialize .network hello (default hello) []
  rw [List.append_nil] at hread
  rw [hread]
  decide

end MbrHeader

end MapRelay.NS3
