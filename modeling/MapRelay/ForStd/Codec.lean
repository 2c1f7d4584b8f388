import Mathlib.Algebra.Group.Nat.Defs

/-!
# Fixed-width binary formats

A `Codec α` writes a value as a fixed number of bytes and reads it back from the front of
a byte string. A message format is a sequence of codecs: its writer appends what they
write, its reader runs their readers one after the other, and `run_read_write` consumes
one field of the round trip at a time.
-/

namespace ForStd

/-- Read from the front of a byte string; `none` past its end. -/
abbrev Reader := StateT (List UInt8) Option

/-- A sequence of two readers succeeds when the first one does and the second one does behind it. -/
theorem Reader.run_bind_eq_some {α β : Type} {x : Reader α} {f : α → Reader β} {s : List UInt8}
    {r : β × List UInt8} :
    (x >>= f).run s = some r ↔ ∃ a s', x.run s = some (a, s') ∧ (f a).run s' = some r := by
  rw [StateT.run_bind, Option.bind_eq_bind, Option.bind_eq_some_iff, Prod.exists]

/-- A fixed-width format with a reader for it. -/
structure Codec (α : Type) where
  width : Nat
  write : α → List UInt8
  read : Reader α
  length_write : ∀ a, (write a).length = width
  run_read : ∀ a rest, read.run (write a ++ rest) = some (a, rest)

namespace Codec

variable {α β : Type}

attribute [simp] length_write run_read

/-- A field that was written is read back, and the reader goes on behind it. -/
@[simp] theorem run_read_write (c : Codec α) (k : α → Reader β) (a : α) (rest : List UInt8) :
    (c.read >>= k).run (c.write a ++ rest) = (k a).run rest := by
  simp [StateT.run_bind]

/-- The same at the end of the byte string. -/
@[simp] theorem run_read_write_nil (c : Codec α) (k : α → Reader β) (a : α) :
    (c.read >>= k).run (c.write a) = (k a).run [] := by
  simpa using c.run_read_write k a []

/-- Where a field ends can be told from the bytes. -/
theorem write_append_inj (c : Codec α) {a b : α} {xs ys : List UInt8} :
    c.write a ++ xs = c.write b ++ ys ↔ a = b ∧ xs = ys := by
  constructor
  · intro h
    have hread := congrArg c.read.run h
    rw [c.run_read, c.run_read] at hread
    simpa using hread
  · rintro ⟨rfl, rfl⟩
    rfl

/-- Different values have different bytes. -/
theorem write_inj (c : Codec α) {a b : α} : c.write a = c.write b ↔ a = b := by
  have h : c.write a ++ [] = c.write b ++ [] ↔ a = b ∧ [] = [] := c.write_append_inj
  simpa using h

/-! ## Arrays -/

/-- Write the elements of an array one after the other. -/
def writeAll (c : Codec α) (as : List α) : List UInt8 := as.flatMap c.write

/-- Read `n` values in a loop. -/
def readN (c : Codec α) : Nat → Reader (List α)
  | 0 => pure []
  | n + 1 => do
    let a ← c.read
    let as ← readN c n
    return a :: as

/-- The values of a list have the same number of bytes each. -/
theorem length_writeAll (c : Codec α) (as : List α) :
    (c.writeAll as).length = as.length * c.width := by
  induction as with
  | nil => simp [writeAll]
  | cons a as ih =>
    simp only [writeAll, List.flatMap_cons, List.length_append, length_write,
      List.length_cons] at ih ⊢
    rw [ih, Nat.succ_mul, Nat.add_comm]

/-- A list of values is read back. -/
theorem run_readN (c : Codec α) (as : List α) (rest : List UInt8) :
    (c.readN as.length).run (c.writeAll as ++ rest) = some (as, rest) := by
  induction as with
  | nil => rfl
  | cons a as ih =>
    -- The bytes of the first element stand in front, where the loop reads next
    have hsplit : c.writeAll (a :: as) ++ rest = c.write a ++ (c.writeAll as ++ rest) := by
      simp [writeAll]
    rw [hsplit, List.length_cons, readN, run_read_write, StateT.run_bind, ih]
    rfl

/-- As many values are read as asked for. -/
theorem length_of_run_readN {c : Codec α} {n : Nat} {as : List α} {s rest : List UInt8}
    (h : (c.readN n).run s = some (as, rest)) : as.length = n := by
  induction n generalizing as s rest with
  | zero =>
    cases h
    rfl
  | succ n ih =>
    obtain ⟨a, s₁, -, h⟩ := Reader.run_bind_eq_some.mp h
    obtain ⟨bs, s₂, hbs, h⟩ := Reader.run_bind_eq_some.mp h
    cases h
    rw [List.length_cons, ih hbs]

/-- Different lists of one length have different bytes. -/
theorem writeAll_inj (c : Codec α) {as bs : List α} (hlen : as.length = bs.length) :
    c.writeAll as = c.writeAll bs ↔ as = bs := by
  constructor
  · intro h
    have has := c.run_readN as []
    have hbs := c.run_readN bs []
    rw [h, hlen, hbs] at has
    simpa using has.symm
  · intro h
    rw [h]

/-- An array of `n` values. -/
def array (c : Codec α) (n : Nat) : Codec { as : List α // as.length = n } where
  width := n * c.width
  write as := c.writeAll as.1
  read := do
    let as ← c.readN n
    if h : as.length = n then pure ⟨as, h⟩ else failure
  length_write as := by rw [length_writeAll, as.2]
  run_read := by
    -- The loop reads as many elements as the array has, so that the test passes
    rintro ⟨as, rfl⟩ rest
    rw [StateT.run_bind, run_readN]
    simp

/-- An array has the bytes of its elements. -/
@[simp] theorem width_array (c : Codec α) (n : Nat) : (c.array n).width = n * c.width := rfl

/-! ## Words in the other byte order -/

/-- The same bytes, last one first. -/
def reversed (c : Codec α) : Codec α where
  width := c.width
  write a := (c.write a).reverse
  read := do
    let bs ← get
    if bs.length < c.width then failure
    set (bs.drop c.width)
    match c.read.run (bs.take c.width).reverse with
    | some (a, _) => return a
    | none => failure
  length_write a := by rw [List.length_reverse, c.length_write]
  run_read a rest := by
    have hlen : (c.write a).reverse.length = c.width := by rw [List.length_reverse, c.length_write]
    have hlong : ¬ ((c.write a).reverse ++ rest).length < c.width := by simp
    have htake : ((c.write a).reverse ++ rest).take c.width = (c.write a).reverse := by
      rw [← hlen, List.take_left]
    have hdrop : ((c.write a).reverse ++ rest).drop c.width = rest := by
      rw [← hlen, List.drop_left]
    have hread : c.read.run (c.write a) = some (a, []) := by
      simpa using c.run_read a []
    simp only [StateT.run_bind, StateT.run_get, pure_bind, hlong, if_false, htake, hdrop,
      List.reverse_reverse, hread]
    rfl

/-- The other byte order has as many bytes. -/
@[simp] theorem width_reversed (c : Codec α) : c.reversed.width = c.width := rfl

end Codec

/-! ## Words in network byte order -/

/-- The `k` low bytes of `n`, most significant first. -/
def networkBytes : Nat → Nat → List UInt8
  | 0, _ => []
  | k + 1, n => UInt8.ofNat (n / 256 ^ k) :: networkBytes k n

/-- The number a byte string denotes, most significant byte first, behind the digits `acc`. -/
def networkValue (acc : Nat) : List UInt8 → Nat
  | [] => acc
  | b :: bs => networkValue (acc * 256 + b.toNat) bs

/-- A number in network byte order has the given width. -/
@[simp] theorem length_networkBytes (k n : Nat) : (networkBytes k n).length = k := by
  induction k with
  | zero => rfl
  | succ k ih => simp [networkBytes, ih]

/-- It is read back as far as it fits. -/
theorem networkValue_networkBytes (k n acc : Nat) :
    networkValue acc (networkBytes k n) = acc * 256 ^ k + n % 256 ^ k := by
  induction k generalizing acc with
  | zero => simp [networkBytes, networkValue, Nat.mod_one]
  | succ k ih =>
    -- The leading byte is the `k`-th digit of `n`
    have hdigit : n % 256 ^ (k + 1) = n % 256 ^ k + 256 ^ k * (n / 256 ^ k % 256) :=
      Nat.mod_pow_succ
    have hbyte : (UInt8.ofNat (n / 256 ^ k)).toNat = n / 256 ^ k % 256 := UInt8.toNat_ofNat'
    rw [networkBytes, networkValue, ih, hdigit, hbyte, Nat.pow_succ, Nat.add_mul, Nat.mul_assoc acc,
      Nat.mul_comm 256, Nat.mul_comm (n / 256 ^ k % 256)]
    omega

/-- A `k`-byte word in network byte order. -/
def Codec.word {α : Type} (k : Nat) (toNat : α → Nat) (ofNat : Nat → α)
    (hlt : ∀ a, toNat a < 256 ^ k) (hinv : ∀ a, ofNat (toNat a) = a) : Codec α where
  width := k
  write a := networkBytes k (toNat a)
  read := do
    let bs ← get
    if bs.length < k then failure
    set (bs.drop k)
    return ofNat (networkValue 0 (bs.take k))
  length_write a := length_networkBytes k _
  run_read a rest := by
    have hlen := length_networkBytes k (toNat a)
    -- What follows the word is neither read nor lost
    have hlong : ¬ (networkBytes k (toNat a) ++ rest).length < k := by simp
    have htake : (networkBytes k (toNat a) ++ rest).take k = networkBytes k (toNat a) := by
      rw [List.take_append_of_le_length (Nat.le_of_eq hlen.symm), List.take_of_length_le
        (Nat.le_of_eq hlen)]
    have hdrop : (networkBytes k (toNat a) ++ rest).drop k = rest := by
      rw [List.drop_append_of_le_length (Nat.le_of_eq hlen.symm), List.drop_of_length_le
        (Nat.le_of_eq hlen), List.nil_append]
    have hvalue : ofNat (networkValue 0 (networkBytes k (toNat a))) = a := by
      -- The value fits into `k` bytes, so that nothing was cut off in writing
      rw [networkValue_networkBytes, Nat.zero_mul, Nat.zero_add, Nat.mod_eq_of_lt (hlt a), hinv]
    simp only [StateT.run_bind, StateT.run_get, pure_bind, hlong, if_false]
    simp [htake, hdrop, hvalue]

end ForStd
