/-!
# Periodic events with jitter

A source does something once in every interval, each time with a delay of its own. Where the
next time is computed from the last one, the old delay has to be taken off again, or the delays
add up. `OnSchedule` says that they do not. `Covers` is what a listener has of it: whenever it
looks, something has happened not long ago.
-/

namespace ForStd

/-- Time `k` is late for `base + k * interval`, by at most `jitter`. -/
def OnSchedule (base interval jitter : Int) (times : List Int) : Prop :=
  ∀ (k : Nat) t, times[k]? = some t → base + k * interval ≤ t ∧ t ≤ base + k * interval + jitter

/-- Nothing is on any schedule. -/
theorem OnSchedule.nil (base interval jitter : Int) : OnSchedule base interval jitter [] := by
  intro k t h
  cases h

/-- One more time that is late by at most `jitter`. -/
theorem OnSchedule.concat {base interval jitter delay : Int} {times : List Int}
    (h : OnSchedule base interval jitter times) (hmin : 0 ≤ delay) (hmax : delay ≤ jitter) :
    OnSchedule base interval jitter (times ++ [base + times.length * interval + delay]) := by
  intro k t hk
  rcases Nat.lt_or_ge k times.length with hlt | hge
  · rw [List.getElem?_append_left hlt] at hk
    exact h k t hk
  · -- The new time is the last one
    rw [List.getElem?_append_right hge, List.getElem?_singleton] at hk
    split at hk
    · next hsub =>
      obtain rfl : k = times.length := by omega
      cases hk
      omega
    · cases hk

/-- At any time between `start` and `stop`, something has happened less than `gap` ago. -/
def Covers (gap : Int) (happened : Int → Prop) (start stop : Int) : Prop :=
  ∀ t, start ≤ t → t < stop → ∃ f, start ≤ f ∧ t - gap < f ∧ f ≤ t ∧ happened f

namespace Covers

variable {gap start stop next : Int} {happened happened' : Int → Prop}

/-- No time is covered by nothing. -/
theorem nil (gap start : Int) (happened : Int → Prop) : Covers gap happened start start := by
  intro t hle hlt
  omega

/-- More that happens covers as well. -/
theorem mono (h : Covers gap happened start stop)
    (himp : ∀ f, start ≤ f → happened f → happened' f) : Covers gap happened' start stop := by
  intro t hle hlt
  obtain ⟨f, hf, hgap, hft, hhappened⟩ := h t hle hlt
  exact ⟨f, hf, hgap, hft, himp f hf hhappened⟩

/-- It happens again, and that will do until `next`. -/
theorem extend (h : Covers gap happened start stop) (hstart : start ≤ stop)
    (hhappened : happened stop) (hnext : next ≤ stop + gap) : Covers gap happened start next := by
  intro t hle hlt
  rcases Int.lt_or_le t stop with hbefore | hafter
  · exact h t hle hbefore
  · exact ⟨stop, hstart, by omega, hafter, hhappened⟩

end Covers

end ForStd
