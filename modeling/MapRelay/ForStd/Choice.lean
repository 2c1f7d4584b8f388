import Mathlib.Data.List.Forall2
import Mathlib.Data.Option.Defs
import Mathlib.Order.Defs.LinearOrder
import Mathlib.Order.Lattice

/-!
# The first best element of a list

`firstBest score l` is the element of `l` with the greatest score, the first one if there are
several. It is defined from the back of the list. Programs find the same element from the
front, in a loop that replaces its candidate by a strictly better one:
`firstBest_cons_cons` is the step of such a loop.
-/

namespace ForStd

variable {α β : Type} [LinearOrder β]

/-- The first of the elements with the greatest score. -/
def firstBest (score : α → β) : List α → Option α
  | [] => none
  | a :: l =>
    match firstBest score l with
    | none => some a
    | some b => if score a < score b then some b else some a

variable {score : α → β} {l : List α} {a b : α}

/-- Of nothing there is no best. -/
@[simp] theorem firstBest_nil (score : α → β) : firstBest score [] = none := rfl

/-- A single element is the best. -/
@[simp] theorem firstBest_singleton (score : α → β) (a : α) : firstBest score [a] = some a := rfl

/-- A first element that is worse is passed over. -/
theorem firstBest_cons_of_lt (h : firstBest score l = some b) (hlt : score a < score b) :
    firstBest score (a :: l) = some b := by
  simp only [firstBest, h, if_pos hlt]

/-- A first element that is as good is kept. -/
theorem firstBest_cons_of_le (h : firstBest score l = some b) (hle : score b ≤ score a) :
    firstBest score (a :: l) = some a := by
  simp only [firstBest, h, if_neg (not_lt_of_ge hle)]

/-- Only an empty list has no best element. -/
theorem firstBest_eq_none : firstBest score l = none ↔ l = [] := by
  cases l with
  | nil => simp
  | cons a l =>
    rw [firstBest]
    split
    · simp
    · split <;> simp

/-- Either the head of the list is no worse than the rest, or the rest decides. -/
theorem firstBest_cons_cases (score : α → β) (a : α) (l : List α) :
    (firstBest score (a :: l) = some a ∧ ∀ b, firstBest score l = some b → score b ≤ score a) ∨
      ∃ b, firstBest score l = some b ∧ firstBest score (a :: l) = some b ∧
        score a < score b := by
  -- With the best of the rest, or without one
  cases h : firstBest score l with
  | none =>
    rw [firstBest_eq_none.mp h]
    exact .inl ⟨rfl, by simp⟩
  | some b =>
    by_cases hlt : score a < score b
    · exact .inr ⟨b, rfl, firstBest_cons_of_lt h hlt, hlt⟩
    · have hle := le_of_not_gt hlt
      refine .inl ⟨firstBest_cons_of_le h hle, fun c hc => ?_⟩
      cases hc
      exact hle

/-- The best element is in the list. -/
theorem mem_of_firstBest (h : firstBest score l = some a) : a ∈ l := by
  induction l with
  | nil => cases h
  | cons c l ih =>
    rcases firstBest_cons_cases score c l with ⟨heq, -⟩ | ⟨b, hb, heq, -⟩
    · rw [heq] at h
      cases h
      exact List.mem_cons_self
    · rw [heq, ← hb] at h
      exact List.mem_cons_of_mem c (ih h)

/-- No element is better. -/
theorem le_of_firstBest (h : firstBest score l = some a) (hb : b ∈ l) : score b ≤ score a := by
  induction l generalizing a with
  | nil => cases hb
  | cons c l ih =>
    -- The head stays the best, or the best of the rest is better
    rcases firstBest_cons_cases score c l with ⟨heq, hle⟩ | ⟨d, hd, heq, hlt⟩
    · rw [heq] at h
      cases h
      rcases List.mem_cons.mp hb with rfl | hb
      · exact le_refl _
      · -- The best element of the rest lies between the two
        cases hrest : firstBest score l with
        | none =>
          rw [firstBest_eq_none.mp hrest] at hb
          cases hb
        | some d => exact le_trans (ih hrest hb) (hle d hrest)
    · rw [heq] at h
      cases h
      rcases List.mem_cons.mp hb with rfl | hb
      · exact le_of_lt hlt
      · exact ih hd hb

/-- The elements in front are worse, those behind are no better. -/
theorem append_of_firstBest (h : firstBest score l = some a) :
    ∃ before after, l = before ++ a :: after ∧ (∀ b ∈ before, score b < score a) ∧
      ∀ b ∈ after, score b ≤ score a := by
  induction l with
  | nil => cases h
  | cons c l ih =>
    -- The head is the first best one, nothing comes before it
    rcases firstBest_cons_cases score c l with ⟨heq, -⟩ | ⟨b, hb, heq, hlt⟩
    · obtain rfl : c = a := Option.some.inj (heq.symm.trans h)
      exact ⟨[], l, rfl, fun b hb => by simp at hb,
        fun b hb => le_of_firstBest heq (List.mem_cons_of_mem c hb)⟩
    -- The head is worse, so that it comes before the best one
    · obtain rfl : b = a := Option.some.inj (heq.symm.trans h)
      obtain ⟨before, after, rfl, hbefore, hafter⟩ := ih hb
      refine ⟨c :: before, after, rfl, fun x hx => ?_, hafter⟩
      rcases List.mem_cons.mp hx with rfl | hx
      · exact hlt
      · exact hbefore x hx

/-- An element with worse ones in front and no better ones behind is the first best. -/
theorem firstBest_append {before after : List α} (hbefore : ∀ b ∈ before, score b < score a)
    (hafter : ∀ b ∈ after, score b ≤ score a) :
    firstBest score (before ++ a :: after) = some a := by
  induction before with
  | nil =>
    rcases firstBest_cons_cases score a after with ⟨heq, -⟩ | ⟨b, hb, -, hlt⟩
    · exact heq
    · exact absurd hlt (not_lt_of_ge (hafter b (mem_of_firstBest hb)))
  | cons c before ih =>
    have hrest := ih fun b hb => hbefore b (List.mem_cons_of_mem c hb)
    exact firstBest_cons_of_lt hrest (hbefore c List.mem_cons_self)

/-- Two lists that agree in the scores agree in the choice. -/
theorem firstBest_rel {γ : Type} {score' : γ → β} {R : α → γ → Prop} {l' : List γ}
    (hscore : ∀ a c, R a c → score a = score' c) (h : List.Forall₂ R l l') :
    Option.Rel R (firstBest score l) (firstBest score' l') := by
  -- Both lists are gone through in step
  induction h with
  | nil => exact .none
  | @cons a c l l' hac _ ih =>
    rw [firstBest, firstBest]
    generalize firstBest score l = x at ih ⊢
    generalize firstBest score' l' = y at ih ⊢
    cases ih with
    | none => exact .some hac
    | @some b d hbd =>
      dsimp only
      rw [hscore a c hac, hscore b d hbd]
      split
      · exact .some hbd
      · exact .some hac

/-- The candidate `a` meets the next element `b`. -/
theorem firstBest_cons_cons (score : α → β) (a b : α) (l : List α) :
    firstBest score (a :: b :: l) =
      if score a < score b then firstBest score (b :: l) else firstBest score (a :: l) := by
  rcases firstBest_cons_cases score b l with ⟨hb, hle⟩ | ⟨c, hc, hb, hlt⟩
  · by_cases hab : score a < score b
    · rw [if_pos hab, hb, firstBest_cons_of_lt hb hab]
    · have hba := le_of_not_gt hab
      rw [if_neg hab, firstBest_cons_of_le hb hba]
      -- The rest is no better than `b`, and `b` no better than `a`
      rcases firstBest_cons_cases score a l with ⟨ha, -⟩ | ⟨c, hc, -, hlt⟩
      · rw [ha]
      · exact absurd (lt_of_lt_of_le hlt (le_trans (hle c hc) hba)) (lt_irrefl _)
  · by_cases hab : score a < score b
    · rw [if_pos hab, hb, firstBest_cons_of_lt hb (lt_trans hab hlt)]
    · rw [if_neg hab]
      by_cases hac : score a < score c
      · rw [firstBest_cons_of_lt hb hac, firstBest_cons_of_lt hc hac]
      · have hca := le_of_not_gt hac
        rw [firstBest_cons_of_le hb hca, firstBest_cons_of_le hc hca]

/-- An element that nothing exceeds is the first best one in front of any list. -/
theorem firstBest_cons_of_max (h : ∀ b ∈ l, score b ≤ score a) :
    firstBest score (a :: l) = some a :=
  @firstBest_append _ _ _ score a [] l (fun _ hb => nomatch hb) h

/-- What a loop over `l` ends with that starts with the candidate `a` and the score `s`, which
    need not be the score of `a`. -/
def bestFrom (score : α → β) (s : β) (a : α) (l : List α) : β × α :=
  match firstBest score l with
  | none => (s, a)
  | some b => if s < score b then (score b, b) else (s, a)

/-- Without more elements the one so far stays. -/
@[simp] theorem bestFrom_nil (score : α → β) (s : β) (a : α) : bestFrom score s a [] = (s, a) := rfl

/-- A better element takes the place. -/
theorem bestFrom_cons_of_lt {s : β} (h : s < score b) :
    bestFrom score s a (b :: l) = bestFrom score (score b) b l := by
  unfold bestFrom
  rcases firstBest_cons_cases score b l with ⟨heq, hle⟩ | ⟨c, hc, heq, hlt⟩
  · rw [heq]
    dsimp only
    rw [if_pos h]
    cases hrest : firstBest score l with
    | none => rfl
    | some c => exact (if_neg (not_lt_of_ge (hle c hrest))).symm
  · rw [heq, hc]
    dsimp only
    rw [if_pos (lt_trans h hlt), if_pos hlt]

/-- An element that is not better is passed over. -/
theorem bestFrom_cons_of_le {s : β} (h : score b ≤ s) :
    bestFrom score s a (b :: l) = bestFrom score s a l := by
  unfold bestFrom
  rcases firstBest_cons_cases score b l with ⟨heq, hle⟩ | ⟨c, hc, heq, -⟩
  · rw [heq]
    dsimp only
    rw [if_neg (not_lt_of_ge h)]
    cases hrest : firstBest score l with
    | none => rfl
    | some c => exact (if_neg (not_lt_of_ge (le_trans (hle c hrest) h))).symm
  · rw [heq, hc]

end ForStd
