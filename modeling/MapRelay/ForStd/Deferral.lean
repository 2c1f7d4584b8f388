import Mathlib.Logic.Relation

/-!
# Work that is put off

Jobs wait under keys. The keys are looked at when a timer runs out, and then the timer is set
again as long as keys are left. The timer is also set for the first job that comes in. What has
to be shown is that no job is forgotten: it waits under a key that is looked at, and the timer
runs.
-/

namespace ForStd

open Relation (ReflTransGen)

/-- The time, the jobs that wait, the keys to look at, and when that is done. -/
structure Deferral (J κ : Type) where
  now : Int
  jobs : List J
  keys : List κ
  due : Option Int

variable {J κ : Type} (key : J → κ) (born : J → Int) (period : Int) (held : κ → Prop)

/-- A job comes in, before the timer has run out, and jobs that wait may be given up. If none is
    left, the timer is set, and else it may not be changed. Or the timer has run out: some of the
    jobs and of the keys are left, but no job without its key, and only jobs that are held. -/
inductive DeferralStep : Deferral J κ → Deferral J κ → Prop where
  | defer {s : Deferral J κ} {now : Int} {j : J} {jobs kept : List J} {keys : List κ}
      {due : Option Int} (hnow : s.now ≤ now) (hbefore : ∀ t, s.due = some t → now ≤ t)
      (hborn : now ≤ born j) (hkept : ∀ i ∈ kept, i ∈ s.jobs)
      (hjobs : ∀ i ∈ jobs, i = j ∨ i ∈ kept) (hkeys : ∀ k, k ∈ keys ↔ k = key j ∨ k ∈ s.keys)
      (hdue : due = some (now + period) ∧ kept = [] ∨ due = s.due ∧ kept ≠ []) :
      DeferralStep s ⟨now, jobs, keys, due⟩
  | poll {s : Deferral J κ} {now : Int} {jobs : List J} {keys : List κ} {due : Option Int}
      (hnow : s.due = some now) (hjobs : ∀ i ∈ jobs, i ∈ s.jobs ∧ key i ∈ keys ∧ held (key i))
      (hdue : keys = [] ∧ due = none ∨ keys ≠ [] ∧ due = some (now + period)) :
      DeferralStep s ⟨now, jobs, keys, due⟩

/-- Every job waits under a key that is looked at. While there are keys, the timer runs and runs
    out within the period, and by then for every job that is not held its period is not over. -/
structure Deferral.Attended (s : Deferral J κ) : Prop where
  covered : ∀ j ∈ s.jobs, key j ∈ s.keys
  idle : s.keys = [] → s.due = none
  armed : s.keys ≠ [] → ∃ t, s.due = some t ∧ s.now ≤ t ∧ t ≤ s.now + period
  prompt : ∀ j ∈ s.jobs, ¬ held (key j) → ∀ t, s.due = some t → t ≤ born j + period

namespace Deferral.Attended

variable {key born period held} {s s' : Deferral J κ}

/-- Where nothing waits, all is attended to. -/
theorem empty (now : Int) : Attended key born period held ⟨now, [], [], none⟩ where
  covered := by simp
  idle _ := rfl
  armed h := absurd rfl h
  prompt := by simp

/-- Every step keeps what waits attended to. -/
theorem step (hperiod : 0 ≤ period) (h : s.Attended key born period held)
    (hstep : DeferralStep key born period held s s') : s'.Attended key born period held := by
  cases hstep with
  | @defer now j jobs kept keys due hnow hbefore hborn hkept hjobs hkeys hdue =>
    -- The timer runs, and runs out neither late nor in the past
    have hrun : ∃ t, due = some t ∧ now ≤ t ∧ t ≤ now + period := by
      rcases hdue with ⟨hdue, -⟩ | ⟨hdue, hne⟩
      · exact ⟨now + period, hdue, by omega, Int.le_refl _⟩
      · obtain ⟨i, hi⟩ := List.exists_mem_of_ne_nil kept hne
        obtain ⟨t, ht, -, hle⟩ := h.armed (List.ne_nil_of_mem (h.covered i (hkept i hi)))
        exact ⟨t, hdue.trans ht, hbefore t ht, by omega⟩
    constructor
    · intro i hi
      show key i ∈ keys
      rcases hjobs i hi with rfl | hi
      · exact (hkeys _).mpr (.inl rfl)
      · exact (hkeys _).mpr (.inr (h.covered i (hkept i hi)))
    · intro hnil
      have hmem : key j ∈ keys := (hkeys _).mpr (.inl rfl)
      exact absurd hnil (List.ne_nil_of_mem hmem)
    · exact fun _ => hrun
    · intro i hi hfree t ht
      obtain ⟨t', ht', -, hle⟩ := hrun
      cases ht.symm.trans ht'
      rcases hjobs i hi with rfl | hi
      · omega
      · -- The timer is that of before, since a job has been left
        rcases hdue with ⟨-, hnil⟩ | ⟨hdue, -⟩
        · rw [hnil] at hi
          cases hi
        · exact h.prompt i (hkept i hi) hfree _ (hdue.symm.trans ht)
  | @poll now jobs keys due hnow hjobs hdue =>
    constructor
    · exact fun i hi => (hjobs i hi).2.1
    · intro hnil
      rcases hdue with ⟨-, hdue⟩ | ⟨hne, -⟩
      · exact hdue
      · exact absurd hnil hne
    · intro hne
      rcases hdue with ⟨hnil, -⟩ | ⟨-, hdue⟩
      · exact absurd hnil hne
      · exact ⟨now + period, hdue, by show now ≤ now + period; omega, Int.le_refl _⟩
    · exact fun i hi hfree => absurd (hjobs i hi).2.2 hfree

/-- In every run, what waits is attended to. -/
theorem run (hperiod : 0 ≤ period) (h : s.Attended key born period held)
    (hrun : ReflTransGen (DeferralStep key born period held) s s') :
    s'.Attended key born period held := by
  induction hrun with
  | refl => exact h
  | tail _ hstep ih => exact ih.step hperiod hstep

/-- A job that is not held is looked at before its period is over. -/
theorem due_of_mem (h : s.Attended key born period held) {j : J} (hj : j ∈ s.jobs) :
    ∃ t, s.due = some t ∧ s.now ≤ t ∧ t ≤ s.now + period ∧
      (¬ held (key j) → t ≤ born j + period) := by
  obtain ⟨t, ht, hnow, hle⟩ := h.armed (List.ne_nil_of_mem (h.covered j hj))
  exact ⟨t, ht, hnow, hle, fun hfree => h.prompt j hj hfree t ht⟩

end Deferral.Attended

end ForStd
