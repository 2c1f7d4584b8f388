import Mathlib.Algebra.GroupWithZero.Nat
import Mathlib.Tactic.SplitIfs
import MapRelay.ForStd.Run

/-!
# Messages that hop through a network

Every message that is put into a network is one frame, which is handed from station to
station until one of them takes it out. If each hand-over uses up one of the hops that the
frame has left, then whatever the order of events no message is lost or doubled, none is
forwarded more often than its hops allow, and all frames come to rest. A concrete network
has these properties as soon as each of its steps is a `Hop`.
-/

namespace ForStd

variable {F D : Type}

/-- The number of a frame and the hops it has left, and the number of a message taken out. -/
structure FrameView (F D : Type) where
  id : F → Nat
  hops : F → Nat
  doneId : D → Nat

/-- The frames in flight, what was taken out of the network, the numbers of the messages that
    were forwarded, and how many messages have entered. -/
structure Traffic (F D : Type) where
  inFlight : List F
  done : List D
  forwarded : List Nat
  entered : Nat

namespace Traffic

/-- The network without messages. -/
def empty : Traffic F D := ⟨[], [], [], 0⟩

/-- A message enters, a frame is forwarded, or a message is taken out. The label says whether
    a frame was received. -/
inductive Hop (V : FrameView F D) (bound : Nat) : Traffic F D → Bool → Traffic F D → Prop where
  | enter {fs : List F} {ds : List D} {ks : List Nat} {n : Nat} {f : F}
      (hid : V.id f = n) (hhops : V.hops f ≤ bound) :
      Hop V bound ⟨fs, ds, ks, n⟩ false ⟨fs ++ [f], ds, ks, n + 1⟩
  | forward {l₁ l₂ : List F} {ds : List D} {ks : List Nat} {n : Nat} {f f' : F}
      (hid : V.id f' = V.id f) (hhops : V.hops f' < V.hops f) :
      Hop V bound ⟨l₁ ++ f :: l₂, ds, ks, n⟩ true ⟨l₁ ++ l₂ ++ [f'], ds, ks ++ [V.id f], n⟩
  | take {l₁ l₂ : List F} {ds : List D} {ks : List Nat} {n : Nat} {f : F} {d : D}
      (hid : V.doneId d = V.id f) :
      Hop V bound ⟨l₁ ++ f :: l₂, ds, ks, n⟩ true ⟨l₁ ++ l₂, ds ++ [d], ks, n⟩

/-- How often message `k` is in the network or has been taken out of it. -/
def copies (V : FrameView F D) (t : Traffic F D) (k : Nat) : Nat :=
  t.done.countP (V.doneId · == k) + t.inFlight.countP (V.id · == k)

/-- The hops that message `k` has used or can still use. -/
def hopsOf (V : FrameView F D) (t : Traffic F D) (k : Nat) : Nat :=
  t.forwarded.count k + (t.inFlight.map fun f => if V.id f = k then V.hops f else 0).sum

/-- The receptions that the frames in flight can still cause. -/
def budget (V : FrameView F D) (t : Traffic F D) : Nat :=
  (t.inFlight.map fun f => V.hops f + 1).sum

variable {V : FrameView F D} {bound : Nat} {t t' : Traffic F D} {received : Bool}

/-- In every run each message that has entered is in one place, and no other is anywhere. -/
theorem copies_of_run {steps : List Bool} (hrun : Run (Hop V bound) empty steps t) (k : Nat) :
    copies V t k = if k < t.entered then 1 else 0 := by
  refine hrun.invariant (I := fun t => copies V t k = if k < t.entered then 1 else 0) rfl ?_
  intro t received t' hk h
  -- A hop takes a frame away and puts one with the same number in its place
  cases h with
  | enter hid hhops =>
    simp only [copies, List.countP_append, List.countP_singleton, beq_iff_eq] at hk ⊢
    split_ifs at hk ⊢ <;> omega
  | forward hid hhops =>
    simp only [copies, List.countP_append, List.countP_cons, List.countP_nil, hid] at hk ⊢
    omega
  | take hid =>
    simp only [copies, List.countP_append, List.countP_cons, List.countP_nil, hid] at hk ⊢
    omega

/-- In every run a message is forwarded no more often than its hops allow. -/
theorem hopsOf_of_run {steps : List Bool} (hrun : Run (Hop V bound) empty steps t) (k : Nat) :
    hopsOf V t k ≤ if k < t.entered then bound else 0 := by
  refine hrun.invariant (I := fun t => hopsOf V t k ≤ if k < t.entered then bound else 0)
    (Nat.le_refl 0) ?_
  intro t received t' hk h
  -- What a forwarded frame loses in hops, the count of its forwardings gains
  cases h with
  | enter hid hhops =>
    simp only [hopsOf, List.map_append, List.sum_append, List.map_cons, List.map_nil,
      List.sum_cons, List.sum_nil] at hk ⊢
    split_ifs at hk ⊢ <;> omega
  | forward hid hhops =>
    simp only [hopsOf, List.map_append, List.sum_append, List.map_cons, List.map_nil,
      List.sum_cons, List.sum_nil, List.count_append, List.count_singleton, hid,
      beq_iff_eq] at hk ⊢
    split_ifs at hk ⊢ <;> omega
  | take hid =>
    simp only [hopsOf, List.map_append, List.sum_append, List.map_cons, List.sum_cons] at hk ⊢
    split_ifs at hk ⊢ <;> omega

/-- In every run the frames received are no more than the hops of the messages allow. -/
theorem received_of_run {steps : List Bool} (hrun : Run (Hop V bound) empty steps t) :
    steps.count true + budget V t ≤ t.entered * (bound + 1) := by
  refine hrun.invariant_inputs
    (I := fun steps t => steps.count true + budget V t ≤ t.entered * (bound + 1))
    (by simp [budget, empty]) ?_
  intro steps t received t' hle h
  -- A message brings `bound + 1` with it, and a reception uses up at least one
  cases h with
  | enter hid hhops =>
    simp only [budget, List.count_append, List.map_append, List.sum_append, List.map_cons,
      List.map_nil, List.sum_cons, List.sum_nil, show [false].count true = 0 from rfl,
      Nat.add_mul] at hle ⊢
    omega
  | forward hid hhops =>
    simp only [budget, List.count_append, List.map_append, List.sum_append, List.map_cons,
      List.map_nil, List.sum_cons, List.sum_nil, List.count_singleton_self] at hle ⊢
    omega
  | take hid =>
    simp only [budget, List.count_append, List.map_append, List.sum_append, List.map_cons,
      List.sum_cons, List.count_singleton_self] at hle ⊢
    omega

/-- Every reception uses up some of the budget. -/
theorem Hop.budget_lt (h : Hop V bound t true t') : budget V t' < budget V t := by
  cases h with
  | forward hid hhops =>
    simp only [budget, List.map_append, List.sum_append, List.map_cons, List.map_nil,
      List.sum_cons, List.sum_nil]
    omega
  | take hid =>
    simp only [budget, List.map_append, List.sum_append, List.map_cons, List.sum_cons]
    omega

end Traffic

end ForStd
