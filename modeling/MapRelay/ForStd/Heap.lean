/-!
# Heaps of C objects

A heap hands out addresses that were never handed out before and never `0`,
which is `NULL`. Reading through an address that holds no object is a `Fault`
and not a default value, so a program model that dereferences a pointer it
should not have dereferenced says so in its result.

The freshness of the next address and the emptiness of `NULL` are proof fields
of `Heap`, so that no operation has to re-establish them for its callers.
-/

namespace ForStd

/-- How a C program leaves the behaviour its author had in mind. `timeout` is
    not an event of the program: it marks a loop model that ran out of fuel. -/
inductive Fault where
  | nullDeref
  | danglingDeref
  | assertFailed
  | timeout
  deriving DecidableEq, Repr

/-- A sequence of fallible steps succeeds when its first step does and the rest does. -/
theorem bind_eq_ok {ε α β : Type} {x : Except ε α} {f : α → Except ε β} {b : β} :
    (x >>= f) = .ok b ↔ ∃ a, x = .ok a ∧ f a = .ok b := by
  cases x <;> simp [bind, Except.bind]

/-- An object address. `0` is the null pointer. -/
abbrev Addr := Nat

/-- The null pointer. -/
abbrev NULL : Addr := 0

/-- A heap of objects of type `α`: live cells, and the next address to hand out. -/
structure Heap (α : Type) where
  cell : Addr → Option α
  next : Addr
  next_pos : 0 < next
  null_empty : cell NULL = none
  fresh : ∀ p, next ≤ p → cell p = none

namespace Heap

variable {α : Type}

/-- The heap with no objects. -/
def empty : Heap α := ⟨fun _ => none, 1, Nat.one_pos, rfl, fun _ _ => rfl⟩

/-- The address `p` holds an object. -/
def Live (h : Heap α) (p : Addr) : Prop := (h.cell p).isSome

instance (h : Heap α) (p : Addr) : Decidable (h.Live p) :=
  inferInstanceAs (Decidable ((h.cell p).isSome = true))

/-- Read the object at `p`. -/
def deref (h : Heap α) (p : Addr) : Except Fault α :=
  if p = NULL then .error .nullDeref
  else match h.cell p with
    | none => .error .danglingDeref
    | some v => .ok v

/-- Allocate an object holding `v`; the address is the second component. -/
def alloc (h : Heap α) (v : α) : Heap α × Addr :=
  (⟨fun p => if p = h.next then some v else h.cell p, h.next + 1, Nat.succ_pos _,
    by rw [if_neg (Nat.ne_of_lt h.next_pos), h.null_empty],
    fun p hp => by
      rw [if_neg (Nat.ne_of_gt hp)]
      exact h.fresh p (Nat.le_of_succ_le hp)⟩, h.next)

/-- Apply `f p` to the object at every live address `p`. -/
def mapCells (h : Heap α) (f : Addr → α → α) : Heap α :=
  ⟨fun p => (h.cell p).map (f p), h.next, h.next_pos,
    by rw [h.null_empty, Option.map_none],
    fun p hp => by rw [h.fresh p hp, Option.map_none]⟩

/-- Update the object at `p`, which has to be live. -/
def modify (h : Heap α) (p : Addr) (f : α → α) : Except Fault (Heap α) := do
  let _ ← h.deref p
  return h.mapCells fun q v => if q = p then f v else v

/-- Release the object at `p`, which has to be live. -/
def free (h : Heap α) (p : Addr) : Except Fault (Heap α) := do
  let _ ← h.deref p
  return ⟨fun q => if q = p then none else h.cell q, h.next, h.next_pos,
    by split <;> simp [h.null_empty],
    fun q hq => by split <;> simp [h.fresh q hq]⟩

/-! ## Liveness -/

/-- A live cell has a value. -/
theorem live_iff {h : Heap α} {p : Addr} : h.Live p ↔ ∃ v, h.cell p = some v :=
  Option.isSome_iff_exists

/-- `NULL` is not live. -/
theorem not_live_null (h : Heap α) : ¬ h.Live NULL := by
  simp [Live, h.null_empty]

/-- A pointer to a live cell is not `NULL`. -/
theorem Live.ne_null {h : Heap α} {p : Addr} (hp : h.Live p) : p ≠ NULL := by
  rintro rfl
  exact h.not_live_null hp

/-- A live cell has been allocated. -/
theorem Live.lt_next {h : Heap α} {p : Addr} (hp : h.Live p) : p < h.next := by
  apply Nat.lt_of_not_le
  intro hle
  simp [Live, h.fresh p hle] at hp

/-- Dereferencing succeeds exactly on live addresses. -/
theorem deref_eq_ok {h : Heap α} {p : Addr} {v : α} :
    h.deref p = .ok v ↔ h.cell p = some v := by
  unfold deref
  by_cases hp : p = NULL
  · -- `NULL` is no address of an object, whatever its cell says
    subst hp
    simp [h.null_empty]
  · rw [if_neg hp]
    cases hc : h.cell p <;> simp

/-- A pointer to a live cell can be followed. -/
theorem deref_of_live {h : Heap α} {p : Addr} (hp : h.Live p) :
    ∃ v, h.cell p = some v ∧ h.deref p = .ok v := by
  obtain ⟨v, hv⟩ := live_iff.mp hp
  exact ⟨v, hv, deref_eq_ok.mpr hv⟩

/-- Following `NULL` faults. -/
@[simp] theorem deref_null (h : Heap α) : h.deref NULL = .error .nullDeref := by
  simp [deref]

/-! ## The updates, cell by cell -/

/-- Each cell has its new value. -/
@[simp] theorem cell_mapCells (h : Heap α) (f : Addr → α → α) (p : Addr) :
    (h.mapCells f).cell p = (h.cell p).map (f p) := rfl

/-- A change of the values allocates nothing. -/
@[simp] theorem next_mapCells (h : Heap α) (f : Addr → α → α) :
    (h.mapCells f).next = h.next := rfl

/-- A change of the values frees nothing. -/
@[simp] theorem live_mapCells {h : Heap α} {f : Addr → α → α} {p : Addr} :
    (h.mapCells f).Live p ↔ h.Live p := by
  simp [Live]

/-- Two passes over the cells are one pass of the composite. -/
theorem mapCells_mapCells (h : Heap α) (f g : Addr → α → α) :
    (h.mapCells f).mapCells g = h.mapCells fun p v => g p (f p v) := by
  simp only [mapCells, Option.map_map]
  rfl

/-- A write that succeeds went through a live address. -/
theorem live_of_modify {h h' : Heap α} {p : Addr} {f : α → α} (hm : h.modify p f = .ok h') :
    h.Live p := by
  obtain ⟨v, hv, -⟩ := bind_eq_ok.mp hm
  exact live_iff.mpr ⟨v, deref_eq_ok.mp hv⟩

/-- Writing to a live cell changes it alone. -/
theorem modify_of_live {h : Heap α} {p : Addr} (hp : h.Live p) (f : α → α) :
    h.modify p f = .ok (h.mapCells fun q v => if q = p then f v else v) := by
  obtain ⟨v, -, hd⟩ := deref_of_live hp
  simp only [modify, hd]
  rfl

/-- A live cell can be freed, which leaves the others. -/
theorem free_of_live {h : Heap α} {p : Addr} (hp : h.Live p) :
    ∃ h', h.free p = .ok h' ∧ ∀ q, h'.cell q = if q = p then none else h.cell q := by
  obtain ⟨v, -, hd⟩ := deref_of_live hp
  simp only [free, hd]
  exact ⟨_, rfl, fun _ => rfl⟩

/-- Freeing `NULL` faults. -/
@[simp] theorem free_null (h : Heap α) : h.free NULL = .error .nullDeref := by
  simp [free, bind, Except.bind]

/-- A new cell has its value, and the others are as before. -/
theorem cell_alloc (h : Heap α) (v : α) (p : Addr) :
    (h.alloc v).1.cell p = if p = h.next then some v else h.cell p := rfl

/-- The new cell has the next address. -/
@[simp] theorem alloc_snd (h : Heap α) (v : α) : (h.alloc v).2 = h.next := rfl

/-- No address is given twice. -/
@[simp] theorem next_alloc (h : Heap α) (v : α) : (h.alloc v).1.next = h.next + 1 := rfl

/-- The new cell is live, and the others as before. -/
theorem live_alloc {h : Heap α} {v : α} {p : Addr} :
    (h.alloc v).1.Live p ↔ p = h.next ∨ h.Live p := by
  simp only [Live, cell_alloc]
  split <;> simp_all

/-- The next address is not live. -/
theorem not_live_next (h : Heap α) : ¬ h.Live h.next := by
  simp [Live, h.fresh h.next (Nat.le_refl _)]

end Heap

end ForStd
