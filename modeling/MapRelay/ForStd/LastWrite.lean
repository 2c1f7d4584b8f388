import Mathlib.Data.List.Basic

/-!
# The last write to a cell

A list of writes is carried out from the front, and some of them hit a cell. What the cell holds
at the end is the value of the last write that hits it, or what it held before.
-/

namespace ForStd

/-- No element of a list has the property, or there is a last one that has it. -/
theorem exists_last {α : Type} (P : α → Prop) [DecidablePred P] (l : List α) :
    (∀ a ∈ l, ¬ P a) ∨ ∃ before a after, l = before ++ a :: after ∧ P a ∧ ∀ b ∈ after, ¬ P b := by
  induction l with
  | nil => exact .inl (by simp)
  | cons a l ih =>
    rcases ih with hnone | ⟨before, b, after, rfl, hb, hafter⟩
    · by_cases ha : P a
      · exact .inr ⟨[], a, l, rfl, ha, hnone⟩
      · exact .inl (by simpa [ha] using hnone)
    · exact .inr ⟨a :: before, b, after, rfl, hb, hafter⟩

variable {ω β : Type} (hit : ω → Prop) [DecidablePred hit] (value : ω → β)

/-- What a cell with the value `b` holds after the writes. -/
def lastWrite (b : β) (writes : List ω) : β :=
  writes.foldl (fun b w => if hit w then value w else b) b

/-- Without writes the value stays. -/
@[simp] theorem lastWrite_nil (b : β) : lastWrite hit value b [] = b := rfl

/-- The first write comes before the others. -/
@[simp] theorem lastWrite_cons (b : β) (w : ω) (writes : List ω) :
    lastWrite hit value b (w :: writes) =
      lastWrite hit value (if hit w then value w else b) writes := rfl

/-- Two lists of writes, one after the other. -/
theorem lastWrite_append (b : β) (writes writes' : List ω) :
    lastWrite hit value b (writes ++ writes') =
      lastWrite hit value (lastWrite hit value b writes) writes' :=
  List.foldl_append

variable {hit value}

/-- Writes that miss leave the value. -/
theorem lastWrite_of_forall_not {writes : List ω} (h : ∀ w ∈ writes, ¬ hit w) (b : β) :
    lastWrite hit value b writes = b := by
  induction writes with
  | nil => rfl
  | cons w writes ih =>
    rw [lastWrite_cons, if_neg (h w List.mem_cons_self)]
    exact ih fun w' hw' => h w' (List.mem_cons_of_mem w hw')

/-- The write at a place behind which none hits the cell. -/
theorem lastWrite_of_getElem? {writes : List ω} {i : Nat} {w : ω} (hw : writes[i]? = some w)
    (hhit : hit w) (hlater : ∀ j w', i < j → writes[j]? = some w' → ¬ hit w') (b : β) :
    lastWrite hit value b writes = value w := by
  induction writes generalizing i b with
  | nil => simp at hw
  | cons w' writes ih =>
    cases i with
    | zero =>
      obtain rfl : w' = w := by simpa using hw
      rw [lastWrite_cons, if_pos hhit]
      refine lastWrite_of_forall_not (fun x hx => ?_) _
      obtain ⟨j, hj⟩ := List.mem_iff_getElem?.mp hx
      exact hlater (j + 1) x (by omega) (by simpa using hj)
    | succ i =>
      rw [lastWrite_cons]
      refine ih (by simpa using hw) (fun j x hj hx => ?_) _
      exact hlater (j + 1) x (by omega) (by simpa using hx)

end ForStd
