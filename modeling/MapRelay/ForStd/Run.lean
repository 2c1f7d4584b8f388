/-!
# Runs of a transition relation

`Run step s₀ is s` says that the inputs `is`, taken one after the other from the
state `s₀`, lead to the state `s`. A restriction on the steps (a precondition of
each input) is put into `step`, so that a run whose steps all meet a condition
`C` is a `Run (fun s i s' => C s i ∧ step s i s')`.
-/

namespace ForStd

variable {σ ι : Type}

/-- The inputs of the list lead from `s₀` to the state at the end. -/
inductive Run (step : σ → ι → σ → Prop) (s₀ : σ) : List ι → σ → Prop where
  | nil : Run step s₀ [] s₀
  | snoc {is : List ι} {i : ι} {s s' : σ} :
      Run step s₀ is s → step s i s' → Run step s₀ (is ++ [i]) s'

namespace Run

variable {step step' : σ → ι → σ → Prop} {s₀ s : σ} {is : List ι}

/-- What holds at the start and is kept by every step holds at the end. -/
theorem invariant {I : σ → Prop} (hrun : Run step s₀ is s) (h₀ : I s₀)
    (hstep : ∀ s i s', I s → step s i s' → I s') : I s := by
  induction hrun with
  | nil => exact h₀
  | snoc _ hs ih => exact hstep _ _ _ ih hs

/-- The same for a property of the inputs taken so far and the state reached. -/
theorem invariant_inputs {I : List ι → σ → Prop} (hrun : Run step s₀ is s) (h₀ : I [] s₀)
    (hstep : ∀ is s i s', I is s → step s i s' → I (is ++ [i]) s') : I is s := by
  induction hrun with
  | nil => exact h₀
  | snoc _ hs ih => exact hstep _ _ _ _ ih hs

/-- Dropping a condition on the steps keeps the run. -/
theorem mono (hrun : Run step s₀ is s) (hstep : ∀ s i s', step s i s' → step' s i s') :
    Run step' s₀ is s := by
  induction hrun with
  | nil => exact .nil
  | snoc _ hs ih => exact .snoc ih (hstep _ _ _ hs)

/-- Runs can be put one after the other. -/
theorem append {js : List ι} {s' : σ} (hrun : Run step s₀ is s) (hrun' : Run step s js s') :
    Run step s₀ (is ++ js) s' := by
  induction hrun' with
  | nil => rwa [List.append_nil]
  | snoc _ hs ih =>
    rw [← List.append_assoc]
    exact ih.snoc hs

/-- Folding a fallible function over the inputs is a run. -/
theorem of_foldlM {ε : Type} {f : σ → ι → Except ε σ} (h : is.foldlM f s₀ = .ok s) :
    Run (fun s i s' => f s i = .ok s') s₀ is s := by
  -- The fold takes the first input first, a run the last one last
  induction is generalizing s₀ with
  | nil =>
    cases h
    exact .nil
  | cons i is ih =>
    rw [List.foldlM_cons] at h
    cases hi : f s₀ i with
    | error e =>
      rw [hi] at h
      cases h
    | ok s₁ =>
      rw [hi] at h
      exact (nil.snoc hi).append (ih h)

/-- A run is simulated by the run of another relation if each of its steps is, in states
    with the invariant `I`. -/
theorem simulate {τ κ : Type} {stepA : τ → κ → τ → Prop} {abs : σ → τ} {label : ι → κ}
    {I : σ → Prop} (hrun : Run step s₀ is s) (h₀ : I s₀)
    (hstep : ∀ s i s', I s → step s i s' → I s' ∧ stepA (abs s) (label i) (abs s')) :
    I s ∧ Run stepA (abs s₀) (is.map label) (abs s) := by
  induction hrun with
  | nil => exact ⟨h₀, .nil⟩
  | snoc _ hs ih =>
    -- The step is matched from a state that has the invariant already
    obtain ⟨hI, habs⟩ := ih
    obtain ⟨hI', hs'⟩ := hstep _ _ _ hI hs
    rw [List.map_append]
    exact ⟨hI', habs.snoc hs'⟩

/-- The same for a relation between runs, where a step is matched by some steps. -/
theorem refine {τ κ : Type} {stepA : τ → κ → τ → Prop} {R : List ι → σ → List κ → τ → Prop}
    {t₀ : τ} (hrun : Run step s₀ is s) (h₀ : R [] s₀ [] t₀)
    (hstep : ∀ is s i s' js t, R is s js t → step s i s' →
      ∃ js' t', Run stepA t js' t' ∧ R (is ++ [i]) s' (js ++ js') t') :
    ∃ js t, Run stepA t₀ js t ∧ R is s js t := by
  induction hrun with
  | nil => exact ⟨[], t₀, .nil, h₀⟩
  | snoc _ hs ih =>
    obtain ⟨js, t, hrunA, hR⟩ := ih
    obtain ⟨js', t', hrunA', hR'⟩ := hstep _ _ _ _ _ _ hR hs
    exact ⟨js ++ js', t', hrunA.append hrunA', hR'⟩

end Run

end ForStd
