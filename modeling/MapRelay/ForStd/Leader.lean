import Mathlib.Order.Defs.LinearOrder
import Mathlib.Order.Lattice

/-!
# The leader of a list

A loop goes through a list and remembers one of its elements together with its key. An element
takes the lead if it is admitted and its key wins against the key of the leader, or against a
bound before there is one. `W` may be `<` or `≥`: it is transitive, and of two different keys
exactly one wins. If no two candidates have the same key, the loop ends with the candidate that
wins against all others, whatever the order of the list, and the loops over two lists end alike
exactly if every candidate in only one of them is beaten by one in both.
-/

namespace ForStd

variable {α κ : Type}

/-- What the comparison of the keys has to be. -/
structure Winning (W : κ → κ → Prop) : Prop where
  trans : ∀ k l m, W k l → W l m → W k m
  antisymm : ∀ k l, W k l → W l k → k = l
  total : ∀ k l, k ≠ l → W k l ∨ W l k

section Leader

variable (P : α → Prop) [DecidablePred P] (W : κ → κ → Prop) [DecidableRel W] (key : α → κ)

/-- The body of the loop. -/
def leadStep (s : Option α × κ) (a : α) : Option α × κ :=
  if P a ∧ W (key a) s.2 then (some a, key a) else s

/-- The element that the loop ends with, from the bound `k` on. -/
def leader (k : κ) (l : List α) : Option α := (l.foldl (leadStep P W key) (none, k)).1

/-- The elements that can take the lead. -/
def Candidate (k : κ) (a : α) : Prop := P a ∧ W (key a) k

/-- No two candidates have the same key. -/
def NoTies (k : κ) (l : List α) : Prop :=
  l.Pairwise fun a b => Candidate P W key k a → Candidate P W key k b → key a ≠ key b

/-- `a` is a candidate and wins against all others. -/
structure Leads (k : κ) (l : List α) (a : α) : Prop where
  mem : a ∈ l
  candidate : Candidate P W key k a
  wins : ∀ b ∈ l, Candidate P W key k b → b = a ∨ W (key a) (key b)

variable {P W key} {k : κ} {l l' : List α} {a b : α} {s : Option α × κ}

omit [DecidablePred P] [DecidableRel W] in
/-- Some of the elements have no ties, either. -/
theorem NoTies.sublist (hsub : l'.Sublist l) (h : NoTies P W key k l) :
    NoTies P W key k l' := List.Pairwise.sublist hsub h

omit [DecidablePred P] [DecidableRel W] in
/-- In a list without ties a candidate is told by its key. -/
theorem NoTies.eq_of_key (h : NoTies P W key k l) (ha : a ∈ l) (hb : b ∈ l)
    (hacand : Candidate P W key k a) (hbcand : Candidate P W key k b) (hkey : key a = key b) :
    a = b := by
  induction l with
  | nil => cases ha
  | cons c l ih =>
    obtain ⟨hhead, htail⟩ := List.pairwise_cons.mp h
    rcases List.mem_cons.mp ha with hac | hal <;> rcases List.mem_cons.mp hb with hbc | hbl
    · exact hac.trans hbc.symm
    · subst hac
      exact absurd hkey (hhead b hbl hacand hbcand)
    · subst hbc
      exact absurd hkey.symm (hhead a hal hbcand hacand)
    · exact ih htail hal hbl

omit [DecidablePred P] [DecidableRel W] in
/-- The leaders of two lists are the same if each of them is in the other list. -/
theorem Leads.eq_of_mem (hW : Winning W) (hties : NoTies P W key k l) (ha : Leads P W key k l a)
    (hb : Leads P W key k l' b) (hbl : b ∈ l) (hal' : a ∈ l') : a = b := by
  rcases ha.wins b hbl hb.candidate with hba | hab
  · exact hba.symm
  · rcases hb.wins a hal' ha.candidate with hab' | hba
    · exact hab'
    · exact hties.eq_of_key ha.mem hbl ha.candidate hb.candidate (hW.antisymm _ _ hab hba)

omit [DecidablePred P] [DecidableRel W] in
/-- A leader is in each list with an element that would win against it otherwise. -/
theorem Leads.mem_of_beaten (hW : Winning W) (hties : NoTies P W key k l)
    (ha : Leads P W key k l a)
    (hbeaten : a ∉ l' → ∃ b ∈ l, b ∈ l' ∧ Candidate P W key k b ∧ W (key b) (key a)) :
    a ∈ l' := by
  by_contra hnot
  obtain ⟨b, hbl, hbl', hcand, hba⟩ := hbeaten hnot
  rcases ha.wins b hbl hcand with rfl | hab
  · exact hnot hbl'
  · have heq := hties.eq_of_key ha.mem hbl ha.candidate hcand (hW.antisymm _ _ hab hba)
    exact hnot (heq ▸ hbl')

/-- What the loop has found in the elements `l`. -/
def Leading (P : α → Prop) (W : κ → κ → Prop) (key : α → κ) (k : κ) (l : List α)
    (s : Option α × κ) : Prop :=
  match s.1 with
  | none => s.2 = k ∧ ∀ b ∈ l, ¬ Candidate P W key k b
  | some a => s.2 = key a ∧ Leads P W key k l a

/-- One more element, and the leader of all is known again. -/
theorem Leading.step (hW : Winning W) (hties : NoTies P W key k (l ++ [a]))
    (h : Leading P W key k l s) : Leading P W key k (l ++ [a]) (leadStep P W key s a) := by
  have hties' := (List.pairwise_append.mp hties).2.2
  obtain ⟨o, k'⟩ := s
  cases o with
  | none =>
    obtain ⟨rfl, hnone⟩ := h
    rw [leadStep]
    split
    · next htakes =>
      refine ⟨rfl, List.mem_append_right _ List.mem_cons_self, htakes, fun b hb hcand => ?_⟩
      rcases List.mem_append.mp hb with hb | hb
      · exact absurd hcand (hnone b hb)
      · exact .inl (List.mem_singleton.mp hb)
    · next htakes =>
      refine ⟨rfl, fun b hb hcand => ?_⟩
      rcases List.mem_append.mp hb with hb | hb
      · exact hnone b hb hcand
      · cases List.mem_singleton.mp hb
        exact htakes hcand
  | some c =>
    obtain ⟨rfl, hmem, hc, hwins⟩ := h
    rw [leadStep]
    split
    · next htakes =>
      -- The new leader wins against the old one, and so against the others
      have hcand : Candidate P W key k a := ⟨htakes.1, hW.trans _ _ _ htakes.2 hc.2⟩
      refine ⟨rfl, List.mem_append_right _ List.mem_cons_self, hcand, fun b hb hb' => ?_⟩
      rcases List.mem_append.mp hb with hb | hb
      · rcases hwins b hb hb' with rfl | hcb
        · exact .inr htakes.2
        · exact .inr (hW.trans _ _ _ htakes.2 hcb)
      · exact .inl (List.mem_singleton.mp hb)
    · next htakes =>
      refine ⟨rfl, List.mem_append_left _ hmem, hc, fun b hb hb' => ?_⟩
      rcases List.mem_append.mp hb with hb | hb
      · exact hwins b hb hb'
      · cases List.mem_singleton.mp hb
        have hne := hties' c hmem a List.mem_cons_self hc hb'
        exact .inr ((hW.total _ _ hne).resolve_right fun hac => htakes ⟨hb'.1, hac⟩)

/-- The loop finds the leader of all elements. -/
theorem Leading.foldl (hW : Winning W) {rest : List α} (hties : NoTies P W key k (l ++ rest))
    (h : Leading P W key k l s) :
    Leading P W key k (l ++ rest) (rest.foldl (leadStep P W key) s) := by
  induction rest generalizing l s with
  | nil => rwa [List.append_nil]
  | cons a rest ih =>
    rw [← List.singleton_append, ← List.append_assoc] at hties ⊢
    rw [List.singleton_append, List.foldl_cons]
    exact ih hties (h.step hW (List.pairwise_append.mp hties).1)

/-- The loop ends with the candidate that wins against all others, or there is none. -/
theorem leader_cases (hW : Winning W) (hties : NoTies P W key k l) :
    (leader P W key k l = none ∧ ∀ b ∈ l, ¬ Candidate P W key k b) ∨
      ∃ a, leader P W key k l = some a ∧ Leads P W key k l a := by
  have hstart : Leading P W key k [] (none, k) := ⟨rfl, fun b hb => by cases hb⟩
  have h : Leading P W key k l (l.foldl (leadStep P W key) (none, k)) := hstart.foldl hW hties
  rw [leader]
  cases hs : (l.foldl (leadStep P W key) (none, k)).1 with
  | none =>
    rw [Leading, hs] at h
    exact .inl ⟨rfl, h.2⟩
  | some a =>
    rw [Leading, hs] at h
    exact .inr ⟨a, rfl, h.2⟩

/-- The loop returns the leader. -/
theorem leader_eq_some (hW : Winning W) (hties : NoTies P W key k l) :
    leader P W key k l = some a ↔ Leads P W key k l a := by
  rcases leader_cases hW hties with ⟨hl, hnone⟩ | ⟨c, hl, hc⟩ <;> rw [hl]
  · exact iff_of_false (by simp) fun ha => hnone a ha.mem ha.candidate
  · rw [Option.some.injEq]
    constructor
    · rintro rfl
      exact hc
    · exact fun ha => hc.eq_of_mem hW hties ha ha.mem hc.mem

/-- It returns nothing exactly if there is no candidate. -/
theorem leader_eq_none (hW : Winning W) (hties : NoTies P W key k l) :
    leader P W key k l = none ↔ ∀ b ∈ l, ¬ Candidate P W key k b := by
  rcases leader_cases hW hties with ⟨hl, hnone⟩ | ⟨c, hl, hc⟩ <;> rw [hl]
  · exact iff_of_true rfl hnone
  · exact iff_of_false (by simp) fun hnone => hnone c hc.mem hc.candidate

/-- The loops over two lists end alike exactly if every candidate in only one of them is beaten by
    one in both. -/
theorem leader_eq_iff (hW : Winning W) (hties : NoTies P W key k l)
    (hties' : NoTies P W key k l') :
    leader P W key k l = leader P W key k l' ↔
      ∀ a, Candidate P W key k a → (a ∈ l ∧ a ∉ l' ∨ a ∈ l' ∧ a ∉ l) →
        ∃ b ∈ l, b ∈ l' ∧ Candidate P W key k b ∧ W (key b) (key a) := by
  rcases leader_cases hW hties with ⟨hl, hnone⟩ | ⟨c, hl, hc⟩ <;>
    rcases leader_cases hW hties' with ⟨hl', hnone'⟩ | ⟨d, hl', hd⟩ <;> rw [hl, hl']
  · refine iff_of_true rfl fun a ha honly => ?_
    rcases honly with ⟨hmem, -⟩ | ⟨hmem, -⟩
    · exact absurd ha (hnone a hmem)
    · exact absurd ha (hnone' a hmem)
  · refine iff_of_false (by simp) fun hall => ?_
    obtain ⟨b, hb, -, hcand, -⟩ :=
      hall d hd.candidate (.inr ⟨hd.mem, fun hmem => hnone d hmem hd.candidate⟩)
    exact hnone b hb hcand
  · refine iff_of_false (by simp) fun hall => ?_
    obtain ⟨b, -, hb, hcand, -⟩ :=
      hall c hc.candidate (.inl ⟨hc.mem, fun hmem => hnone' c hmem hc.candidate⟩)
    exact hnone' b hb hcand
  · constructor
    · intro heq a ha honly
      cases heq
      refine ⟨c, hc.mem, hd.mem, hc.candidate, ?_⟩
      rcases honly with ⟨hmem, hnot⟩ | ⟨hmem, hnot⟩
      · exact (hc.wins a hmem ha).resolve_left fun h => hnot (h ▸ hd.mem)
      · exact (hd.wins a hmem ha).resolve_left fun h => hnot (h ▸ hc.mem)
    · intro hall
      -- Each of the two is in the other list, where it would be beaten otherwise
      have hcl' : c ∈ l' := hc.mem_of_beaten hW hties fun hnot =>
        hall c hc.candidate (.inl ⟨hc.mem, hnot⟩)
      have hdl : d ∈ l := hd.mem_of_beaten hW hties' fun hnot =>
        have ⟨b, hbl, hbl', hb⟩ := hall d hd.candidate (.inr ⟨hd.mem, hnot⟩)
        ⟨b, hbl', hbl, hb⟩
      exact congrArg some (hc.eq_of_mem hW hties hd hdl hcl')

end Leader

/-! ## Comparisons of numbers -/

/-- The less may win. -/
theorem winning_lt [LinearOrder κ] : Winning (· < · : κ → κ → Prop) where
  trans _ _ _ := lt_trans
  antisymm _ _ hlt hgt := absurd hgt (lt_asymm hlt)
  total _ _ := lt_or_gt_of_ne

/-- The greater or equal may win. -/
theorem winning_ge [LinearOrder κ] : Winning (· ≥ · : κ → κ → Prop) where
  trans _ _ _ hge hge' := le_trans hge' hge
  antisymm _ _ hge hge' := le_antisymm hge' hge
  total _ _ _ := le_total _ _

end ForStd
