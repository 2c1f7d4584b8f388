/-!
# Labelled links between pairs of vertices

`Links V R` gives, for every ordered pair of vertices, the labels of the parallel
links from the first to the second, newest first. This is what an adjacency-list
graph is for its users once the interleaving of the lists is forgotten: adding an
edge pushes a label, unlinking the first matching edge pops one.

An undirected graph kept as two directed halves is symmetric in the strong sense
`Symm`: both halves list the same labels in the same order. Equality of the label
counts alone would not survive `pop`.
-/

namespace ForStd

/-- Labels of the links from one vertex to another, newest first. -/
def Links (V R : Type) := V → V → List R

namespace Links

variable {V R : Type} [DecidableEq V]

/-- Both directions carry the same labels in the same order. -/
def Symm (l : Links V R) : Prop := ∀ a b, l a b = l b a

/-- Add a link from `u` to `v`. -/
def push (l : Links V R) (u v : V) (r : R) : Links V R :=
  fun a b => if a = u ∧ b = v then r :: l a b else l a b

/-- Drop the newest link from `u` to `v`. -/
def pop (l : Links V R) (u v : V) : Links V R :=
  fun a b => if a = u ∧ b = v then (l a b).tail else l a b

/-- Add a link in both directions. -/
def link (l : Links V R) (u v : V) (r : R) : Links V R := (l.push u v r).push v u r

/-- Drop the newest link in both directions. -/
def unlink (l : Links V R) (u v : V) : Links V R := (l.pop u v).pop v u

/-- `{a, b} = {u, v}` as unordered pairs. -/
def SamePair (a b u v : V) : Prop := (a = u ∧ b = v) ∨ (a = v ∧ b = u)

instance (a b u v : V) : Decidable (SamePair a b u v) :=
  inferInstanceAs (Decidable (_ ∨ _))

omit [DecidableEq V] in
/-- The order of the first pair does not matter. -/
theorem SamePair.comm {a b u v : V} : SamePair a b u v ↔ SamePair b a u v := by
  unfold SamePair
  constructor <;> rintro (⟨h, h'⟩ | ⟨h, h'⟩) <;> simp [h, h']

variable {l : Links V R}

/-- A new link goes both ways. -/
theorem Symm.link (h : l.Symm) (u v : V) (r : R) : (l.link u v r).Symm := by
  intro a b
  simp only [Links.link, push, h b a]
  by_cases h₁ : a = u <;> by_cases h₂ : b = v <;> by_cases h₃ : a = v <;>
    by_cases h₄ : b = u <;> simp_all

/-- A link is taken out both ways. -/
theorem Symm.unlink (h : l.Symm) (u v : V) : (l.unlink u v).Symm := by
  intro a b
  simp only [Links.unlink, pop, h b a]
  by_cases h₁ : a = u <;> by_cases h₂ : b = v <;> by_cases h₃ : a = v <;>
    by_cases h₄ : b = u <;> simp_all

/-- A new link changes nothing between other vertices. -/
theorem link_of_not_samePair {u v a b : V} {r : R} (h : ¬ SamePair a b u v) :
    l.link u v r a b = l a b := by
  simp only [SamePair, not_or] at h
  simp [link, push, h.1, h.2]

/-- Taking a link out changes nothing between other vertices. -/
theorem unlink_of_not_samePair {u v a b : V} (h : ¬ SamePair a b u v) :
    l.unlink u v a b = l a b := by
  simp only [SamePair, not_or] at h
  simp [unlink, pop, h.1, h.2]

/-- Between two different vertices, unlinking drops exactly the newest link. -/
theorem unlink_of_samePair {u v a b : V} (huv : u ≠ v) (h : SamePair a b u v) :
    l.unlink u v a b = (l a b).tail := by
  rcases h with ⟨rfl, rfl⟩ | ⟨rfl, rfl⟩
  · simp [unlink, pop, huv]
  · simp [unlink, pop, huv.symm]

/-- Between two different vertices, a new link is one label in front of the others. -/
theorem link_of_samePair {u v a b : V} {r : R} (huv : u ≠ v) (h : SamePair a b u v) :
    l.link u v r a b = r :: l a b := by
  rcases h with ⟨rfl, rfl⟩ | ⟨rfl, rfl⟩
  · simp [link, push, huv]
  · simp [link, push, huv.symm]

/-- Replace the newest link between `u` and `v`. -/
def relink (l : Links V R) (u v : V) (r : R) : Links V R := (l.unlink u v).link u v r

end Links

end ForStd
