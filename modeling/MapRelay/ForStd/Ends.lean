import MapRelay.ForStd.Heap

/-!
# Programs whose loops end

A fault that no part of a program has is not one of the program. A loop model that runs out of
fuel reports `timeout`. `Ends` says of a result that it is not that; what is put together from
results that end, ends.
-/

namespace ForStd

variable {α β : Type}

/-- A fault that no step has is not one of the steps together. -/
theorem bind_ne_error {fault : Fault} {x : Except Fault α} {f : α → Except Fault β}
    (hx : x ≠ .error fault) (hf : ∀ a, x = .ok a → f a ≠ .error fault) :
    (x >>= f) ≠ .error fault := by
  cases x with
  | error e =>
    intro heq
    exact hx (by simpa [Bind.bind, Except.bind] using heq)
  | ok a => exact hf a rfl

/-- A fault that the body of a loop does not have is not one of the loop. -/
theorem foldlM_ne_error {fault : Fault} {f : β → α → Except Fault β}
    (hf : ∀ b a, f b a ≠ .error fault) (l : List α) (b : β) : l.foldlM f b ≠ .error fault := by
  induction l generalizing b with
  | nil => exact fun h => nomatch h
  | cons a l ih => exact bind_ne_error (hf b a) fun b' _ => ih b'

/-- The program has come to an end, with a value or with a fault of its own. -/
def Ends (r : Except Fault α) : Prop := r ≠ .error .timeout

/-- What returns ends. -/
theorem Ends.ok (a : α) : Ends (.ok a : Except Fault α) := by
  simp [Ends]

/-- A fault other than the timeout is an end. -/
theorem Ends.error {fault : Fault} (h : fault ≠ .timeout) :
    Ends (.error fault : Except Fault α) := by
  simpa [Ends] using h

/-- Steps that end do so one after the other. -/
theorem Ends.bind {x : Except Fault α} {f : α → Except Fault β} (hx : Ends x)
    (hf : ∀ a, x = .ok a → Ends (f a)) : Ends (x >>= f) :=
  bind_ne_error hx hf

/-- A choice between computations that end ends. -/
theorem Ends.ite {c : Prop} [Decidable c] {x y : Except Fault α} (hx : c → Ends x)
    (hy : ¬ c → Ends y) : Ends (if c then x else y) := by
  split
  case isTrue h => exact hx h
  case isFalse h => exact hy h

/-- A loop over a list ends if its body does. -/
theorem Ends.foldlM {f : β → α → Except Fault β} (hf : ∀ b a, Ends (f b a)) (l : List α) (b : β) :
    Ends (l.foldlM f b) :=
  foldlM_ne_error hf l b

/-- A program that runs out of fuel does not get past the place. -/
theorem bind_of_timeout {x : Except Fault α} {f : α → Except Fault β}
    (h : x = .error .timeout) : (x >>= f) = .error .timeout := by
  rw [h]
  rfl

namespace Heap

/-- Following a pointer ends. -/
theorem ends_deref (h : Heap α) (p : Addr) : Ends (h.deref p) := by
  refine .ite (fun _ => .error (by decide)) fun _ => ?_
  cases h.cell p with
  | none => exact .error (by decide)
  | some v => exact .ok v

/-- Writing through a pointer ends. -/
theorem ends_modify (h : Heap α) (p : Addr) (f : α → α) : Ends (h.modify p f) :=
  (h.ends_deref p).bind fun _ _ => .ok _

end Heap

end ForStd
