import Mathlib.Data.List.TakeWhile

/-!
# A buffer with memory behind it

A C function that is given a pointer into a buffer can read on where the buffer ends. What it
finds there is the memory behind it, which the buffer's owner knows nothing of. A read stays in
the buffer exactly if its range does, and a string exactly if its end is found in it.
-/

namespace ForStd

/-- A buffer, and the memory behind it. Zero bytes follow. -/
structure Region where
  own : List UInt8
  behind : List UInt8
  deriving DecidableEq, Repr

namespace Region

variable {m : Region} {offset n : Nat}

/-- The `n` bytes from `offset` on. -/
def read (m : Region) (offset n : Nat) : List UInt8 :=
  ((m.own ++ m.behind).drop offset ++ List.replicate n 0).take n

/-- The bytes from `offset` up to the first that is zero. -/
def cString (m : Region) (offset : Nat) : List UInt8 :=
  ((m.own ++ m.behind).drop offset).takeWhile (· ≠ 0)

/-- A zero byte is among the `n` bytes of the buffer from `offset` on. -/
def Terminated (m : Region) (offset n : Nat) : Prop := 0 ∈ (m.own.drop offset).take n

instance : Decidable (m.Terminated offset n) := inferInstanceAs (Decidable (_ ∈ _))

/-- As many bytes are read as asked for. -/
@[simp] theorem length_read : (m.read offset n).length = n := by simp [read]

/-- Within the region its own bytes are read. -/
theorem read_of_le (h : offset + n ≤ m.own.length) :
    m.read offset n = (m.own.drop offset).take n := by
  have hown : n ≤ (m.own.drop offset).length := by
    rw [List.length_drop]
    omega
  rw [read, List.drop_append_of_le_length (by omega), List.append_assoc,
    List.take_append_of_le_length hown]

/-- The bytes read are bytes of the buffer exactly if there are so many. -/
theorem read_isPrefix_iff (h : offset ≤ m.own.length) :
    m.read offset n <+: m.own.drop offset ↔ offset + n ≤ m.own.length := by
  constructor
  · intro hpre
    have hle := hpre.length_le
    rw [length_read, List.length_drop] at hle
    omega
  · intro hle
    rw [read_of_le hle]
    exact List.take_prefix _ _

/-- The string in a field that has an end in it depends on nothing behind the field. -/
theorem cString_of_terminated (h : m.Terminated offset n) :
    m.cString offset = ((m.own.drop offset).take n).takeWhile (· ≠ 0) ∧
      (m.cString offset).length < n := by
  have hshort : (((m.own.drop offset).take n).takeWhile (· ≠ 0)).length ≠
      ((m.own.drop offset).take n).length := by
    intro hlen
    have hself := (List.takeWhile_prefix (· ≠ (0 : UInt8))).eq_of_length hlen
    simpa using List.takeWhile_eq_self_iff.mp hself 0 h
  have hsplit : (m.own ++ m.behind).drop offset = (m.own.drop offset).take n ++
      ((m.own.drop offset).drop n ++ m.behind.drop (offset - m.own.length)) := by
    rw [← List.append_assoc, List.take_append_drop, List.drop_append]
  have heq : m.cString offset = ((m.own.drop offset).take n).takeWhile (· ≠ 0) := by
    rw [cString, hsplit, List.takeWhile_append, if_neg hshort]
  refine ⟨heq, ?_⟩
  have hle := (List.takeWhile_prefix (l := (m.own.drop offset).take n) (· ≠ 0)).length_le
  have hfield := List.length_take_le n (m.own.drop offset)
  rw [heq]
  omega

end Region

end ForStd
