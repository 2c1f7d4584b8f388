import MapRelay.ForStd.Codec
import MapRelay.ForStd.Heap

/-!
# Typed access to a piece of memory

A piece of memory is a byte string of fixed length. Values are stored in it and loaded from it
at an offset, in the format of a `Codec`. An access that does not lie in the piece is a `Fault`.
What was stored is loaded again, until something is stored over it.
-/

namespace ForStd

/-- A piece of memory. -/
abbrev Memory := List UInt8

namespace Memory

/-! ## Bytes -/

/-- The `n` bytes at `offset`. -/
def bytesAt (mem : Memory) (offset n : Nat) : List UInt8 := (mem.drop offset).take n

/-- Write bytes. -/
def poke (mem : Memory) (offset : Nat) (bytes : List UInt8) : Memory :=
  mem.take offset ++ bytes ++ mem.drop (offset + bytes.length)

variable {mem : Memory} {bytes : List UInt8} {offset offset' n : Nat}

/-- Writing keeps the size of the memory. -/
theorem length_poke (h : offset + bytes.length ≤ mem.length) :
    (mem.poke offset bytes).length = mem.length := by
  simp only [poke, List.length_append, List.length_take, List.length_drop]
  omega

/-- A byte after a write is the written one, or as before. -/
theorem getElem?_poke (h : offset + bytes.length ≤ mem.length) (i : Nat) :
    (mem.poke offset bytes)[i]? =
      if offset ≤ i ∧ i < offset + bytes.length then bytes[i - offset]? else mem[i]? := by
  have htake : (mem.take offset).length = offset := List.length_take_of_le (by omega)
  have hlen : (mem.take offset ++ bytes).length = offset + bytes.length := by
    rw [List.length_append, htake]
  rw [poke]
  by_cases hlow : i < offset
  · rw [if_neg (by omega), List.append_assoc, List.getElem?_append_left (by omega),
      List.getElem?_take_of_lt hlow]
  · by_cases hhigh : i < offset + bytes.length
    · rw [if_pos (by omega), List.getElem?_append_left (by omega),
        List.getElem?_append_right (by omega), htake]
    · rw [if_neg (by omega), List.getElem?_append_right (by omega), hlen, List.getElem?_drop]
      congr 1
      omega

/-- A byte of what is read. -/
theorem getElem?_bytesAt (mem : Memory) (offset n i : Nat) :
    (mem.bytesAt offset n)[i]? = if i < n then mem[offset + i]? else none := by
  rw [bytesAt]
  split
  case isTrue hi => rw [List.getElem?_take_of_lt hi, List.getElem?_drop]
  case isFalse hi => rw [List.getElem?_take_eq_none (by omega)]

/-- The bytes written are there afterwards. -/
theorem bytesAt_poke_self (h : offset + bytes.length ≤ mem.length) :
    (mem.poke offset bytes).bytesAt offset bytes.length = bytes := by
  apply List.ext_getElem?
  intro i
  rw [getElem?_bytesAt, getElem?_poke h]
  split
  case isTrue hi => rw [if_pos (by omega), Nat.add_sub_cancel_left]
  case isFalse hi => rw [List.getElem?_eq_none (by omega)]

/-- Bytes elsewhere stay. -/
theorem bytesAt_poke_of_disjoint (h : offset + bytes.length ≤ mem.length)
    (hdisjoint : offset' + n ≤ offset ∨ offset + bytes.length ≤ offset') :
    (mem.poke offset bytes).bytesAt offset' n = mem.bytesAt offset' n := by
  apply List.ext_getElem?
  intro i
  rw [getElem?_bytesAt, getElem?_bytesAt, getElem?_poke h]
  split
  case isTrue hi => rw [if_neg (by omega)]
  case isFalse => rfl

/-! ## Values -/

variable {α β : Type}

/-- Read a value. The bytes have to be those of one. -/
def load (c : Codec α) (mem : Memory) (offset : Nat) : Except Fault α :=
  if offset + c.width ≤ mem.length then
    match c.read.run ((mem.drop offset).take c.width) with
    | some (a, _) => .ok a
    | none => .error .danglingDeref
  else .error .danglingDeref

/-- Write a value. -/
def store (c : Codec α) (mem : Memory) (offset : Nat) (a : α) : Except Fault Memory :=
  if offset + c.width ≤ mem.length then
    .ok (mem.take offset ++ c.write a ++ mem.drop (offset + c.width))
  else .error .danglingDeref

/-- The value `a` lies at `offset`. -/
def Holds (c : Codec α) (mem : Memory) (offset : Nat) (a : α) : Prop :=
  offset + c.width ≤ mem.length ∧ (mem.drop offset).take c.width = c.write a

variable {c : Codec α} {c' : Codec β} {mem' : Memory} {a : α} {b : β}

/-- A value that lies in memory is loaded. -/
theorem load_of_holds (h : Holds c mem offset a) : load c mem offset = .ok a := by
  have hread : c.read.run (c.write a) = some (a, []) := by simpa using c.run_read a []
  rw [load, if_pos h.1, h.2, hread]

/-- A store succeeds exactly in the memory. -/
theorem store_ok (h : offset + c.width ≤ mem.length) (a : α) :
    ∃ mem', store c mem offset a = .ok mem' :=
  ⟨_, if_pos h⟩

/-- It writes the bytes of the value. -/
theorem store_eq_ok (h : store c mem offset a = .ok mem') :
    offset + (c.write a).length ≤ mem.length ∧ mem' = mem.poke offset (c.write a) := by
  rw [store] at h
  rw [poke, c.length_write]
  split at h
  · exact ⟨‹_›, (Except.ok.inj h).symm⟩
  · cases h

/-- Storing keeps the size of the memory. -/
theorem length_of_store (h : store c mem offset a = .ok mem') : mem'.length = mem.length := by
  obtain ⟨hle, rfl⟩ := store_eq_ok h
  exact length_poke hle

/-- The value stored is there afterwards. -/
theorem holds_of_store (h : store c mem offset a = .ok mem') : Holds c mem' offset a := by
  have hlength := length_of_store h
  obtain ⟨hle, rfl⟩ := store_eq_ok h
  have hbytes := bytesAt_poke_self hle
  rw [c.length_write] at hle hbytes
  exact ⟨hlength ▸ hle, hbytes⟩

/-- A value stays where nothing is stored over it. -/
theorem Holds.of_store (hb : Holds c' mem offset' b) (h : store c mem offset a = .ok mem')
    (hdisjoint : offset' + c'.width ≤ offset ∨ offset + c.width ≤ offset') :
    Holds c' mem' offset' b := by
  refine ⟨(length_of_store h).symm ▸ hb.1, ?_⟩
  obtain ⟨hle, rfl⟩ := store_eq_ok h
  exact (bytesAt_poke_of_disjoint hle (by rwa [c.length_write])).trans hb.2

end Memory

end ForStd
