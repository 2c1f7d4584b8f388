import Mathlib.Data.List.Basic

/-!
# Elements that nothing speaks against

`against v w` says that `w` speaks against `v`. A search that goes on from each element of a
list keeps its `survivors`: the elements against which no *later* one speaks. These are the
elements against which none at all speaks only if the list is in the right order.
-/

namespace ForStd

variable {α : Type} (against : α → α → Prop) [DecidableRel against]

/-- The elements against which no later one speaks. -/
def survivors : List α → List α
  | [] => []
  | v :: rest => if ∃ w ∈ rest, against v w then survivors rest else v :: survivors rest

/-- Whatever is spoken against at all is spoken against by something behind it. -/
def Backed (l : List α) : Prop :=
  ∀ pre v post, l = pre ++ v :: post → (∃ w ∈ l, against v w) → ∃ w ∈ post, against v w

variable {against} {l : List α} {v : α}

/-- The survivors are some of the elements, in their order. -/
theorem survivors_sublist (l : List α) : (survivors against l).Sublist l := by
  induction l with
  | nil => exact List.Sublist.refl []
  | cons v rest ih =>
    rw [survivors]
    split
    · exact ih.cons v
    · exact ih.cons_cons v

/-- An element survives exactly if no later one is against it. -/
theorem mem_survivors : v ∈ survivors against l ↔
    ∃ pre post, l = pre ++ v :: post ∧ ∀ w ∈ post, ¬ against v w := by
  induction l with
  | nil => simp [survivors]
  | cons a rest ih =>
    rw [survivors]
    constructor
    · intro hv
      -- `v` is the head, or it has survived in the rest
      have hcase : (v = a ∧ ¬ ∃ w ∈ rest, against a w) ∨ v ∈ survivors against rest := by
        split at hv
        case isTrue => exact .inr hv
        case isFalse hno =>
          rcases List.mem_cons.mp hv with rfl | hv
          · exact .inl ⟨rfl, hno⟩
          · exact .inr hv
      rcases hcase with ⟨rfl, hno⟩ | hv
      · exact ⟨[], rest, rfl, fun w hw hagainst => hno ⟨w, hw, hagainst⟩⟩
      · obtain ⟨pre, post, rfl, hpost⟩ := ih.mp hv
        exact ⟨a :: pre, post, rfl, hpost⟩
    · rintro ⟨pre, post, heq, hpost⟩
      cases pre with
      | nil =>
        cases heq
        rw [if_neg fun ⟨w, hw, hagainst⟩ => hpost w hw hagainst]
        exact List.mem_cons_self
      | cons b pre =>
        cases heq
        have hv := ih.mpr ⟨pre, post, rfl, hpost⟩
        split
        · exact hv
        · exact List.mem_cons_of_mem _ hv

/-- The survivors are right exactly for the lists in that order. -/
theorem survivors_iff_backed :
    (∀ v, v ∈ survivors against l ↔ v ∈ l ∧ ∀ w ∈ l, ¬ against v w) ↔ Backed against l := by
  constructor
  · rintro h pre v post hl ⟨w, hw, hagainst⟩
    by_contra hno
    -- `v` survives, although `w` speaks against it
    have hv : v ∈ survivors against l :=
      mem_survivors.mpr ⟨pre, post, hl, fun u hu hagainst => hno ⟨u, hu, hagainst⟩⟩
    exact ((h v).mp hv).2 w hw hagainst
  · intro h v
    constructor
    · intro hv
      obtain ⟨pre, post, hl, hpost⟩ := mem_survivors.mp hv
      refine ⟨(survivors_sublist l).mem hv, fun w hw hagainst => ?_⟩
      obtain ⟨u, hu, hagainst⟩ := h pre v post hl ⟨w, hw, hagainst⟩
      exact hpost u hu hagainst
    · rintro ⟨hv, hno⟩
      obtain ⟨pre, post, rfl⟩ := List.append_of_mem hv
      refine mem_survivors.mpr ⟨pre, post, rfl, fun w hw => hno w ?_⟩
      exact List.mem_append_right _ (List.mem_cons_of_mem _ hw)

end ForStd
