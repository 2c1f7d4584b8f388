import Mathlib.Data.List.Forall2
import Mathlib.Data.List.Perm.Basic

/-!
# Keeping account of a queue

What has come into a queue is still there or has gone, each thing in one way only. `Settled` says
that everything that is gone has had its answer. `Fifo` says that under each key things were taken
in the order in which they came, though some may have been lost.
-/

namespace ForStd

variable {α β κ : Type}

/-- What comes in joins what is here. -/
theorem perm_come {came here gone : List α} (h : came.Perm (here ++ gone)) (as : List α) :
    (came ++ as).Perm (here ++ as ++ gone) := by
  have hback : (here ++ gone ++ as).Perm (here ++ as ++ gone) := by
    rw [List.append_assoc, List.append_assoc]
    exact List.perm_append_comm.append_left here
  exact (h.append_right as).trans hback

/-! ## Answers -/

section Settled

variable (R : β → α → Prop) {came here here' : List α} {answers answers' : List β}

/-- Each thing that has come is still here, or is one of those that have gone with an answer
    each. -/
def Settled (came here : List α) (answers : List β) : Prop :=
  ∃ gone, came.Perm (here ++ gone) ∧ List.Forall₂ R answers gone

variable {R}

/-- Where nothing has gone, nothing needs an answer. -/
theorem Settled.refl (came : List α) : Settled R came came [] :=
  ⟨[], by rw [List.append_nil], .nil⟩

/-- The answers of two parts of a run settle the whole. -/
theorem Settled.trans (h : Settled R came here answers) (h' : Settled R here here' answers') :
    Settled R came here' (answers ++ answers') := by
  obtain ⟨gone, hperm, hgone⟩ := h
  obtain ⟨gone', hperm', hgone'⟩ := h'
  refine ⟨gone ++ gone', ?_, List.rel_append hgone hgone'⟩
  have hhere : (here ++ gone).Perm (here' ++ gone' ++ gone) := hperm'.append_right gone
  have hgone : (here' ++ gone' ++ gone).Perm (here' ++ (gone ++ gone')) := by
    rw [List.append_assoc]
    exact List.perm_append_comm.append_left here'
  exact (hperm.trans hhere).trans hgone

/-- What comes is here. -/
theorem Settled.come (h : Settled R came here answers) (as : List α) :
    Settled R (came ++ as) (here ++ as) answers := by
  obtain ⟨gone, hperm, hgone⟩ := h
  exact ⟨gone, perm_come hperm as, hgone⟩

/-- One thing goes with its answer. -/
theorem Settled.of_perm {a : α} {b : β} (hperm : here.Perm (a :: here')) (hanswer : R b a) :
    Settled R here here' [b] :=
  ⟨[a], hperm.trans (List.perm_append_singleton a here').symm, .cons hanswer .nil⟩

/-- Some things go, each with the answer that is made for it. -/
theorem Settled.filter (p : α → Bool) (f : α → β) (here : List α) (hanswer : ∀ a, R (f a) a) :
    Settled R here (here.filter (!p ·)) ((here.filter p).map f) := by
  refine ⟨here.filter p, ?_, ?_⟩
  · exact (List.filter_append_perm p here).symm.trans List.perm_append_comm
  · exact List.forall₂_map_left_iff.mpr (List.forall₂_same.mpr fun a _ => hanswer a)

/-- What is somewhere else does not matter. -/
theorem Settled.frame (h : Settled R here here' answers) (rest : List α) :
    Settled R (rest ++ here) (rest ++ here') answers := by
  obtain ⟨gone, hperm, hgone⟩ := h
  refine ⟨gone, ?_, hgone⟩
  rw [List.append_assoc]
  exact hperm.append_left rest

/-- The order of what is here does not matter. -/
theorem Settled.perm (h : Settled R came here answers) (hhere : here.Perm here') :
    Settled R came here' answers := by
  obtain ⟨gone, hperm, hgone⟩ := h
  exact ⟨gone, hperm.trans (hhere.append_right gone), hgone⟩

/-- Some of the things that are here move or go. -/
theorem Settled.move {old new : List α} (rest : List α) (h : Settled R came here answers)
    (hold : here.Perm (rest ++ old)) (hmove : Settled R old new answers')
    (hnew : (rest ++ new).Perm here') : Settled R came here' (answers ++ answers') :=
  ((h.perm hold).trans (hmove.frame rest)).perm hnew

/-- Each answer is for something that has come. -/
theorem Settled.answered (h : Settled R came here answers) {b : β} (hb : b ∈ answers) :
    ∃ a ∈ came, R b a := by
  obtain ⟨gone, hperm, hgone⟩ := h
  obtain ⟨i, hi, rfl⟩ := List.mem_iff_getElem.mp hb
  have hi' : i < gone.length := hgone.length_eq ▸ hi
  refine ⟨gone[i], hperm.mem_iff.mpr (List.mem_append_right _ (List.getElem_mem hi')), ?_⟩
  exact hgone.get hi hi'

/-- Answers of one kind are answers of a weaker one. -/
theorem Settled.imp {R' : β → α → Prop} (h : Settled R came here answers)
    (himp : ∀ b a, a ∈ came → R b a → R' b a) : Settled R' came here answers := by
  obtain ⟨gone, hperm, hgone⟩ := h
  have hmem : ∀ a ∈ gone, a ∈ came := fun a ha =>
    hperm.mem_iff.mpr (List.mem_append_right here ha)
  refine ⟨gone, hperm, ?_⟩
  clear hperm
  induction hgone with
  | nil => exact .nil
  | @cons b a _ _ hanswer _ ih =>
    exact .cons (himp b a (hmem a List.mem_cons_self) hanswer)
      (ih fun a ha => hmem a (List.mem_cons_of_mem _ ha))

/-- Each answer may be given in another form. -/
theorem Settled.map {β' : Type} {R' : β' → α → Prop} {f : β → β'}
    (h : Settled (fun b a => R' (f b) a) came here answers) :
    Settled R' came here (answers.map f) := by
  obtain ⟨gone, hperm, hgone⟩ := h
  exact ⟨gone, hperm, List.forall₂_map_left_iff.mpr hgone⟩

/-- Some answers say where the thing is now, as `place` tells, and the others that it has gone. -/
theorem Settled.place {μ τ : Type} {R' : β → μ → Prop} {f : α → μ} {place : β → Option τ}
    {g : τ → μ} (h : Settled R came here answers)
    (hplace : ∀ b a x, R b a → place b = some x → g x = f a)
    (hgone : ∀ b a, R b a → place b = none → R' b (f a)) :
    Settled R' (came.map f) (here.map f ++ (answers.filterMap place).map g)
      (answers.filter fun b => (place b).isNone) := by
  obtain ⟨gone, hperm, hanswers⟩ := h
  -- The answers are gone through in their order
  have hsplit : ∃ gone', (gone.map f).Perm ((answers.filterMap place).map g ++ gone') ∧
      List.Forall₂ R' (answers.filter fun b => (place b).isNone) gone' := by
    clear hperm
    induction hanswers with
    | nil => exact ⟨[], .nil, .nil⟩
    | @cons b a answers gone hanswer _ ih =>
      obtain ⟨gone', hperm, hrest⟩ := ih
      cases hb : place b with
      | some x =>
        refine ⟨gone', ?_, ?_⟩
        · rw [List.filterMap_cons_some hb, List.map_cons, List.map_cons,
            hplace b a x hanswer hb]
          exact hperm.cons _
        · rw [List.filter_cons_of_neg (by simp [hb])]
          exact hrest
      | none =>
        refine ⟨f a :: gone', ?_, ?_⟩
        · rw [List.filterMap_cons_none hb, List.map_cons]
          exact (hperm.cons _).trans List.perm_middle.symm
        · rw [List.filter_cons_of_pos (by simp [hb])]
          exact .cons (hgone b a hanswer hb) hrest
  obtain ⟨gone', hperm', hgone'⟩ := hsplit
  refine ⟨gone', ?_, hgone'⟩
  have hmap : (came.map f).Perm (here.map f ++ gone.map f) := by
    rw [← List.map_append]
    exact hperm.map f
  rw [List.append_assoc]
  exact hmap.trans (hperm'.append_left _)

/-- There are as many answers as things gone. -/
theorem Settled.length (h : Settled R came here answers) :
    came.length = here.length + answers.length := by
  obtain ⟨gone, hperm, hgone⟩ := h
  rw [hperm.length_eq, List.length_append, hgone.length_eq]

/-- The same, but that some things may have gone without an answer. -/
def SettledBut (R : β → α → Prop) (came here : List α) (answers : List β) : Prop :=
  ∃ lost, Settled R came (here ++ lost) answers

/-- Where everything is settled, nothing is lost. -/
theorem Settled.but (h : Settled R came here answers) : SettledBut R came here answers :=
  ⟨[], by rwa [List.append_nil]⟩

/-- What is lost in two parts of a run is lost in the whole. -/
theorem SettledBut.trans (h : SettledBut R came here answers)
    (h' : SettledBut R here here' answers') : SettledBut R came here' (answers ++ answers') := by
  obtain ⟨lost, hsettled⟩ := h
  obtain ⟨lost', hsettled'⟩ := h'
  refine ⟨lost' ++ lost, ?_⟩
  rw [← List.append_assoc]
  exact hsettled.trans (hsettled'.come lost)

/-- One thing is lost. -/
theorem SettledBut.of_perm {a : α} (hperm : here.Perm (a :: here')) :
    SettledBut R here here' [] :=
  ⟨[a], (Settled.refl here).perm (hperm.trans (List.perm_append_singleton a here').symm)⟩

end Settled

/-! ## Order -/

section Fifo

variable [DecidableEq κ] (key : α → κ)

/-- The things under a key. -/
def under (k : κ) (l : List α) : List α := l.filter (key · = k)

/-- What has come is here, taken or lost. What is here has the order in which it came, and under
    each key what was taken came before what is here, in the order in which it was taken. -/
structure Fifo (came here taken lost : List α) : Prop where
  perm : came.Perm (here ++ (taken ++ lost))
  sublist : here.Sublist came
  order : ∀ k, (under key k taken ++ under key k here).Sublist (under key k came)

variable {key} {came here taken lost : List α}

/-- The things under a key, of two lists one after the other. -/
theorem under_append (k : κ) (l l' : List α) :
    under key k (l ++ l') = under key k l ++ under key k l' := List.filter_append ..

/-- At the start nothing has come. -/
theorem Fifo.nil : Fifo key ([] : List α) [] [] [] := ⟨.nil, .refl _, fun _ => .refl _⟩

/-- What comes is put at the end. -/
theorem Fifo.come (h : Fifo key came here taken lost) (a : α) :
    Fifo key (came ++ [a]) (here ++ [a]) taken lost where
  perm := perm_come h.perm [a]
  sublist := h.sublist.append (.refl _)
  order k := by
    rw [under_append, under_append, ← List.append_assoc]
    exact (h.order k).append (.refl _)

/-- The first thing under its key is taken. -/
theorem Fifo.take {before after : List α} {a : α}
    (h : Fifo key came (before ++ a :: after) taken lost)
    (hbefore : ∀ b ∈ before, key b ≠ key a) :
    Fifo key came (before ++ after) (taken ++ [a]) lost where
  perm := by
    have hfront : (before ++ a :: after ++ (taken ++ lost)).Perm
        (a :: (before ++ after ++ taken ++ lost)) := by simp
    have hmiddle : (before ++ after ++ taken ++ a :: lost).Perm
        (a :: (before ++ after ++ taken ++ lost)) := List.perm_middle
    have hback : (before ++ after ++ (taken ++ [a] ++ lost)).Perm
        (a :: (before ++ after ++ taken ++ lost)) := by simpa using hmiddle
    exact h.perm.trans (hfront.trans hback.symm)
  sublist := by
    have hskip : (before ++ after).Sublist (before ++ a :: after) :=
      (List.Sublist.refl before).append (List.sublist_cons_self a after)
    exact hskip.trans h.sublist
  order k := by
    by_cases hk : key a = k
    · -- Nothing before `a` is under its key, so that it is the next one
      have hnone : under key k before = [] := by
        apply List.filter_eq_nil_iff.mpr
        intro b hb
        simp only [decide_eq_true_eq]
        exact fun hb' => hbefore b hb (hb'.trans hk.symm)
      have horder := h.order k
      simp only [under_append, hnone, List.nil_append, List.append_assoc] at horder ⊢
      simpa [under, hk] using horder
    · have hskip : under key k [a] = [] := by simp [under, hk]
      have hsame : under key k (a :: after) = under key k after := by simp [under, hk]
      have horder := h.order k
      simp only [under_append, hsame, hskip, List.append_nil] at horder ⊢
      exact horder

/-- Some things are lost, and the others stay in their order. -/
theorem Fifo.lose_perm {here' gone : List α} (h : Fifo key came here taken lost)
    (hsub : here'.Sublist here) (hperm : here.Perm (here' ++ gone)) :
    Fifo key came here' taken (lost ++ gone) where
  perm := by
    have hback : (here' ++ gone ++ (taken ++ lost)).Perm (here' ++ (taken ++ (lost ++ gone))) := by
      rw [List.append_assoc, ← List.append_assoc taken]
      exact List.perm_append_comm.append_left _
    exact (h.perm.trans (hperm.append_right _)).trans hback
  sublist := hsub.trans h.sublist
  order k :=
    ((List.Sublist.refl (under key k taken)).append (hsub.filter _)).trans (h.order k)

/-- Losing things keeps the order of the others. -/
theorem Fifo.lose (h : Fifo key came here taken lost) (p : α → Bool) :
    Fifo key came (here.filter (!p ·)) taken (lost ++ here.filter p) :=
  h.lose_perm List.filter_sublist
    ((List.filter_append_perm p here).symm.trans List.perm_append_comm)

/-- The first of the things may be lost. -/
theorem Fifo.lose_head {a : α} (h : Fifo key came (a :: here) taken lost) :
    Fifo key came here taken (lost ++ [a]) :=
  h.lose_perm (List.sublist_cons_self a here) (List.perm_append_singleton a here).symm

end Fifo

end ForStd
