import Mathlib.Data.List.Nodup

/-!
# Repeated elements

`repeats counted` has each of the elements as many times as it is counted. When it is laid beside
the elements themselves, each of them once, the two agree as far as `repeats counted` goes exactly
if it is an initial part. For different elements this leaves one possibility only.
-/

namespace ForStd

variable {α : Type}

/-- Each element as many times as it has a number of. -/
def repeats (counted : List (α × Nat)) : List α :=
  counted.flatMap fun c => List.replicate c.2 c.1

/-- The first element is repeated first. -/
theorem repeats_cons (a : α) (n : Nat) (counted : List (α × Nat)) :
    repeats ((a, n) :: counted) = List.replicate n a ++ repeats counted := rfl

/-- Only the counted elements are repeated. -/
theorem mem_of_mem_repeats {a : α} {counted : List (α × Nat)} (h : a ∈ repeats counted) :
    a ∈ counted.map Prod.fst := by
  obtain ⟨c, hc, ha⟩ := List.mem_flatMap.mp h
  rw [(List.mem_replicate.mp ha).2]
  exact List.mem_map_of_mem hc

/-- Nothing is repeated exactly if all counts are zero. -/
theorem repeats_eq_nil {counted : List (α × Nat)} :
    repeats counted = [] ↔ ∀ c ∈ counted, c.2 = 0 := by
  simp only [repeats, List.flatMap_eq_nil_iff, List.replicate_eq_nil_iff]

/-- A list with a beginning of one kind and an end of another one. -/
theorem exists_take_drop_cons {p q : α → Prop} {a : α} {l : List α} :
    (∃ m, (∀ c ∈ (a :: l).take m, p c) ∧ ∀ c ∈ (a :: l).drop m, q c) ↔
      (∀ c ∈ a :: l, q c) ∨ p a ∧ ∃ m, (∀ c ∈ l.take m, p c) ∧ ∀ c ∈ l.drop m, q c := by
  constructor
  · rintro ⟨m, hp, hq⟩
    cases m with
    | zero => exact .inl hq
    | succ m =>
      exact .inr ⟨hp a List.mem_cons_self, m, fun c hc => hp c (List.mem_cons_of_mem _ hc), hq⟩
  · rintro (hq | ⟨ha, m, hp, hq⟩)
    · exact ⟨0, by simp, hq⟩
    · exact ⟨m + 1, List.forall_mem_cons.mpr ⟨ha, hp⟩, hq⟩

/-- Different elements, each repeated, begin like the elements themselves exactly if the ones that
    are there come first, each of them once. -/
theorem repeats_prefix_iff {counted : List (α × Nat)} (hnodup : (counted.map Prod.fst).Nodup) :
    repeats counted <+: counted.map Prod.fst ↔
      ∃ m, (∀ c ∈ counted.take m, c.2 = 1) ∧ ∀ c ∈ counted.drop m, c.2 = 0 := by
  induction counted with
  | nil => simp [repeats]
  | cons c counted ih =>
    obtain ⟨a, n⟩ := c
    obtain ⟨ha, htail⟩ := List.nodup_cons.mp hnodup
    rw [repeats_cons, List.map_cons, exists_take_drop_cons, ← ih htail, List.forall_mem_cons]
    match n with
    | 0 =>
      -- Nothing behind `a` may be there, as it would have to be `a`
      have hnil : List.replicate 0 a ++ repeats counted <+: a :: counted.map Prod.fst ↔
          repeats counted = [] := by
        rw [List.replicate_zero, List.nil_append, List.prefix_cons_iff]
        refine or_iff_left ?_
        rintro ⟨rest, hrest, -⟩
        exact ha (mem_of_mem_repeats (hrest ▸ List.mem_cons_self))
      rw [hnil, repeats_eq_nil]
      simp
    | 1 =>
      rw [List.replicate_one, List.singleton_append, List.cons_prefix_cons]
      simp
    | n + 2 =>
      refine iff_of_false (fun hinitial => ?_) (by simp)
      rw [List.replicate_succ, List.replicate_succ, List.cons_append, List.cons_append,
        List.cons_prefix_cons] at hinitial
      exact ha (hinitial.2.subset List.mem_cons_self)

end ForStd
