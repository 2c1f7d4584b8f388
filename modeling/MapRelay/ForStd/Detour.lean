import Mathlib.Data.List.Nodup
import Mathlib.Logic.Relation
import Mathlib.Order.Basic

/-!
# Walks that descend, with detours

A walk goes down in rank from place to place. Where no lower place is at hand it begins a
detour, which may lead anywhere, and which is over at a place that is lower than the one where
it began. The places where the walk was free to descend go down in rank all the same, so that
it begins a detour at most once at each place.
-/

namespace ForStd

open Relation (ReflTransGen)

/-- A walk: its place, where its detour began, if it is on one, and the places where it was free
    to descend, the last one first. -/
structure Walk (ν : Type) where
  place : ν
  detour : Option ν
  free : List ν

variable {ν κ : Type} [Preorder κ] (rank : ν → κ) (goal : ν)

/-- The walk is on no detour, or its detour is over. -/
def Walk.Free (w : Walk ν) : Prop := ∀ s, w.detour = some s → rank w.place < rank s

/-- Short of the goal a free walk descends, goes to the goal or begins a detour, and one on a
    detour goes anywhere. -/
inductive DetourStep : Walk ν → Walk ν → Prop where
  | descend {w : Walk ν} {y : ν} (hplace : w.place ≠ goal) (hfree : w.Free rank)
      (hy : y = goal ∨ rank y < rank w.place) : DetourStep w ⟨y, none, w.place :: w.free⟩
  | begin {w : Walk ν} {y : ν} (hplace : w.place ≠ goal) (hfree : w.Free rank) :
      DetourStep w ⟨y, some w.place, w.place :: w.free⟩
  | stray {w : Walk ν} {y s : ν} (hplace : w.place ≠ goal) (hdetour : w.detour = some s) :
      DetourStep w ⟨y, some s, w.free⟩

/-- The places where the walk was free descend; a detour began at the last of them, and a walk on
    no detour is below them or at the goal. -/
structure Walk.Descends (w : Walk ν) : Prop where
  pairwise : w.free.Pairwise fun newer older => rank newer < rank older
  detour : ∀ s, w.detour = some s → ∃ rest, w.free = s :: rest
  below : w.place ≠ goal → w.detour = none → ∀ s ∈ w.free, rank w.place < rank s

namespace Walk.Descends

variable {rank goal} {w w' : Walk ν}

/-- A walk starts freely. -/
theorem start (x : ν) : Walk.Descends rank goal ⟨x, none, []⟩ where
  pairwise := .nil
  detour _ h := nomatch h
  below _ _ _ h := nomatch h

/-- A free walk is below all places where it has been free before. -/
theorem below_of_free (h : w.Descends rank goal) (hplace : w.place ≠ goal) (hfree : w.Free rank) :
    ∀ s ∈ w.free, rank w.place < rank s := by
  cases hdetour : w.detour with
  | none => exact h.below hplace hdetour
  | some s =>
    obtain ⟨rest, hrest⟩ := h.detour s hdetour
    have hlt : rank w.place < rank s := hfree s hdetour
    have hpairwise := h.pairwise
    rw [hrest] at hpairwise ⊢
    intro s' hs'
    rcases List.mem_cons.mp hs' with rfl | hs'
    · exact hlt
    · exact hlt.trans (List.rel_of_pairwise_cons hpairwise hs')

/-- Every step keeps the walk descending. -/
theorem step (h : w.Descends rank goal) (hstep : DetourStep rank goal w w') :
    w'.Descends rank goal := by
  cases hstep with
  | descend hplace hfree hy =>
    have hbelow := h.below_of_free hplace hfree
    refine ⟨List.pairwise_cons.mpr ⟨hbelow, h.pairwise⟩, by simp, ?_⟩
    intro hgoal _ s hs
    have hlt := hy.resolve_left hgoal
    rcases List.mem_cons.mp hs with rfl | hs
    · exact hlt
    · exact hlt.trans (hbelow s hs)
  | begin hplace hfree =>
    have hbelow := h.below_of_free hplace hfree
    refine ⟨List.pairwise_cons.mpr ⟨hbelow, h.pairwise⟩, ?_, by simp⟩
    intro s hs
    cases hs
    exact ⟨w.free, rfl⟩
  | stray _ hdetour =>
    refine ⟨h.pairwise, ?_, by simp⟩
    intro s' hs'
    cases hs'
    exact h.detour _ hdetour

/-- In every run the walk descends. -/
theorem run (h : w.Descends rank goal) (hrun : ReflTransGen (DetourStep rank goal) w w') :
    w'.Descends rank goal := by
  induction hrun with
  | refl => exact h
  | tail _ hstep ih => exact ih.step hstep

/-- No place is free twice. -/
theorem nodup (h : w.Descends rank goal) : w.free.Nodup :=
  h.pairwise.imp fun hlt heq => hlt.ne (congrArg rank heq)

end Walk.Descends

end ForStd
