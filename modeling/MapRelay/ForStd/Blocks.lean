import MapRelay.ForStd.Heap

/-!
# Blocks of bytes on the C heap

`malloc` hands out blocks of bytes. A program reads them byte by byte through the pointer to
their start, and a read behind the end of a block is a `Fault` like one through a dangling
pointer. `free` takes `NULL` as well.
-/

namespace ForStd

/-- A heap of `malloc`ed blocks. -/
abbrev Blocks := Heap (List UInt8)

namespace Blocks

/-- `p[j]`. -/
def byteAt (mem : Blocks) (p : Addr) (j : Nat) : Except Fault UInt8 := do
  let block ← mem.deref p
  match block[j]? with
  | some b => return b
  | none => throw .danglingDeref

/-- A loop that reads `n` bytes from `p[j]` on. -/
def bytesFrom (mem : Blocks) (p : Addr) : Nat → Nat → Except Fault (List UInt8)
  | _, 0 => .ok []
  | j, n + 1 => do
    let b ← byteAt mem p j
    let bs ← bytesFrom mem p (j + 1) n
    return b :: bs

/-- `free`, which does nothing with `NULL`. -/
def release (mem : Blocks) (p : Addr) : Except Fault Blocks :=
  if p = NULL then .ok mem else mem.free p

variable {mem : Blocks} {p : Addr} {block : List UInt8}

/-- A byte of a block is read. -/
theorem byteAt_of_cell (h : mem.cell p = some block) {j : Nat} {b : UInt8}
    (hj : block[j]? = some b) : byteAt mem p j = .ok b := by
  simp only [byteAt, Heap.deref_eq_ok.mpr h, bind, Except.bind, hj]
  rfl

/-- A loop that stays in its block reads a part of it. -/
theorem bytesFrom_of_cell (h : mem.cell p = some block) (j n : Nat) (hle : j + n ≤ block.length) :
    bytesFrom mem p j n = .ok ((block.drop j).take n) := by
  induction n generalizing j with
  | zero => simp [bytesFrom]
  | succ n ih =>
    have hj : j < block.length := by omega
    have hbyte := byteAt_of_cell h (List.getElem?_eq_getElem hj)
    rw [List.drop_eq_getElem_cons hj, List.take_succ_cons]
    simp only [bytesFrom, hbyte, ih (j + 1) (by omega), bind, Except.bind]
    rfl

/-- As many bytes are read as asked for. -/
theorem length_of_bytesFrom {j n : Nat} {bs : List UInt8} (h : bytesFrom mem p j n = .ok bs) :
    bs.length = n := by
  induction n generalizing j bs with
  | zero =>
    cases h
    rfl
  | succ n ih =>
    obtain ⟨b, -, h⟩ := bind_eq_ok.mp h
    obtain ⟨bs', hrest, h⟩ := bind_eq_ok.mp h
    cases h
    rw [List.length_cons, ih hrest]

/-- Releasing `NULL` does nothing. -/
@[simp] theorem release_null : release mem NULL = .ok mem := rfl

/-- A block that is released leaves the others as they are. -/
theorem release_of_live (h : mem.Live p) :
    ∃ mem', release mem p = .ok mem' ∧ ∀ q, mem'.cell q = if q = p then none else mem.cell q := by
  rw [release, if_neg h.ne_null]
  exact Heap.free_of_live h

end Blocks

end ForStd
