import Mathlib.Data.List.Basic

/-!
# List nodes that are read after they have been freed

A loop over a linked list that frees the nodes it takes off, and goes on with their `next`, reads
freed memory. `FreedNext` is what it finds there, and `reached` are the nodes that it comes to.
-/

namespace ForStd

/-- What the `next` of a list node that has been freed holds: what was there before, `NULL`, or a
    word that does not lead to a list node. -/
inductive FreedNext where
  | same
  | null
  | other
  deriving DecidableEq, Repr

namespace FreedNext

variable {α : Type} [DecidableEq α]

/-- The nodes that the loop comes to if it frees those with `a` in them. `next` is what it finds
    in the freed node in front of some nodes. -/
def reached (next : List α → FreedNext) (a : α) : List α → List α
  | [] => []
  | n :: rest =>
    if n = a then
      match next rest with
      | .same => n :: reached next a rest
      | .null | .other => [n]
    else n :: reached next a rest

/-- Each freed node that it comes to leads on or ends the loop. -/
def Followed (next : List α → FreedNext) (a : α) : List α → Prop
  | [] => True
  | n :: rest =>
    if n = a then
      match next rest with
      | .same => Followed next a rest
      | .null => True
      | .other => False
    else Followed next a rest

variable {next : List α → FreedNext} {a : α}

/-- The loop goes on over a node that is not freed. -/
theorem followed_cons_of_ne {n : α} {rest : List α} (h : n ≠ a) :
    Followed next a (n :: rest) ↔ Followed next a rest := by
  rw [Followed, if_neg h]

/-- Behind the freed node the loop needs what it reads there. -/
theorem followed_cons_self {rest : List α} :
    Followed next a (a :: rest) ↔
      next rest ≠ .other ∧ (next rest = .same → Followed next a rest) := by
  rw [Followed, if_pos rfl]
  cases next rest <;> simp

/-- The loop goes on behind a node that it leaves in the list. -/
theorem reached_cons_of_ne {n : α} {rest : List α} (h : n ≠ a) :
    reached next a (n :: rest) = n :: reached next a rest := by
  rw [reached, if_neg h]

/-- The loop only comes to nodes of the list. -/
theorem mem_of_mem_reached {n : α} {ns : List α} (h : n ∈ reached next a ns) : n ∈ ns := by
  induction ns with
  | nil => cases h
  | cons m rest ih =>
    by_cases hm : m = a
    · rw [reached, if_pos hm] at h
      split at h
      · rcases List.mem_cons.mp h with rfl | h
        · exact List.mem_cons_self
        · exact List.mem_cons_of_mem _ (ih h)
      · exact List.mem_cons.mpr (.inl (List.mem_singleton.mp h))
      · exact List.mem_cons.mpr (.inl (List.mem_singleton.mp h))
    · rw [reached_cons_of_ne hm] at h
      rcases List.mem_cons.mp h with rfl | h
      · exact List.mem_cons_self
      · exact List.mem_cons_of_mem _ (ih h)

/-- With the old `next` in every freed node it comes to all of them. -/
theorem reached_same (a : α) (ns : List α) : reached (fun _ => .same) a ns = ns := by
  induction ns with
  | nil => rfl
  | cons n rest ih =>
    rw [reached, ih]
    exact ite_self _

end FreedNext

end ForStd
