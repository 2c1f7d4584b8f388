import Mathlib.Order.Basic

/-!
# Families of values that only grow

`Drift S grown f f'` says that on `S` a step takes the values `f` to values `f'` that are not
smaller, and that some value has become greater iff `grown`. Steps put one after the other
grow a value iff one of them does, because no later step takes it back.
-/

namespace ForStd

variable {ι α : Type} [PartialOrder α]

/-- On `S` no value gets smaller, and one gets greater iff `grown`. -/
structure Drift (S : ι → Prop) (grown : Prop) (f f' : ι → α) : Prop where
  le : ∀ i, S i → f i ≤ f' i
  lt_iff : (∃ i, S i ∧ f i < f' i) ↔ grown

namespace Drift

variable {S : ι → Prop} {grown grown' : Prop} {f f' f'' : ι → α}

/-- Where nothing changes, nothing drifts. -/
theorem of_eq (h : ∀ i, S i → f' i = f i) : Drift S False f f' where
  le i hi := (h i hi).ge
  lt_iff := iff_false_intro fun ⟨i, hi, hlt⟩ => hlt.ne (h i hi).symm

/-- A function does not drift from itself. -/
theorem refl (S : ι → Prop) (f : ι → α) : Drift S False f f := of_eq fun _ _ => rfl

/-- The condition for the growth may be replaced by an equivalent one. -/
theorem congr (h : Drift S grown f f') (hiff : grown ↔ grown') : Drift S grown' f f' :=
  ⟨h.le, h.lt_iff.trans hiff⟩

/-- Two steps grow if one of them does. -/
theorem trans (h : Drift S grown f f') (h' : Drift S grown' f' f'') :
    Drift S (grown ∨ grown') f f'' where
  le i hi := (h.le i hi).trans (h'.le i hi)
  lt_iff := by
    rw [← h.lt_iff, ← h'.lt_iff]
    constructor
    · rintro ⟨i, hi, hlt⟩
      by_cases hfirst : f i < f' i
      · exact .inl ⟨i, hi, hfirst⟩
      · -- What the first step has not grown the second has
        have hsame : f i = f' i := (h.le i hi).eq_of_not_lt hfirst
        exact .inr ⟨i, hi, hsame ▸ hlt⟩
    · rintro (⟨i, hi, hlt⟩ | ⟨i, hi, hlt⟩)
      · exact ⟨i, hi, hlt.trans_le (h'.le i hi)⟩
      · exact ⟨i, hi, (h.le i hi).trans_lt hlt⟩

/-- What a step grows no later one takes back. -/
theorem trans_of_grown (h : Drift S True f f') (h' : Drift S grown f' f'') :
    Drift S True f f'' :=
  (h.trans h').congr (iff_of_true (.inl trivial) trivial)

/-- From values that are all `a` the step leads to such values iff it grows none. -/
theorem const_iff {a : α} (h : Drift S grown f f') (hf : ∀ i, S i → f i = a) :
    (∀ i, S i → f' i = a) ↔ ¬ grown := by
  rw [← h.lt_iff]
  constructor
  · rintro hf' ⟨i, hi, hlt⟩
    exact hlt.ne ((hf i hi).trans (hf' i hi).symm)
  · intro hnone i hi
    have hsame : f i = f' i := (h.le i hi).eq_of_not_lt fun hlt => hnone ⟨i, hi, hlt⟩
    exact hsame.symm.trans (hf i hi)

end Drift

end ForStd
