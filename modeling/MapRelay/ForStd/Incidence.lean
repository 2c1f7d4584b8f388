import Mathlib.Data.List.Basic

/-!
# Undirected multigraphs by their edges

A list of labelled edges, newest first, says for each vertex what is incident with it: the other
end and the label of each edge that it is an end of. A loop is incident with its vertex twice.
Both ends of an edge tell the same, so that the labels between two vertices are in the same order
from either side.
-/

namespace ForStd.Incidence

variable {V R : Type} [DecidableEq V] {edges : List (V × V × R)} {p q v : V}

/-- What an edge is for `p`: the other end, with the label. -/
def ends (e : V × V × R) (p : V) : List (V × R) :=
  (if p = e.2.1 then [(e.1, e.2.2)] else []) ++ if p = e.1 then [(e.2.1, e.2.2)] else []

/-- What is incident with `p`, newest first. -/
def incident (edges : List (V × V × R)) (p : V) : List (V × R) := edges.flatMap (ends · p)

/-- Without edges nothing is incident. -/
@[simp] theorem incident_nil (p : V) : incident ([] : List (V × V × R)) p = [] := rfl

/-- What is incident to the first edge comes first. -/
theorem incident_cons (e : V × V × R) (edges : List (V × V × R)) (p : V) :
    incident (e :: edges) p = ends e p ++ incident edges p := rfl

/-- The ends of an edge, seen from its vertices. -/
theorem mem_ends {e : V × V × R} {x : V × R} :
    x ∈ ends e p ↔ (p = e.2.1 ∧ x = (e.1, e.2.2)) ∨ p = e.1 ∧ x = (e.2.1, e.2.2) := by
  rw [ends, List.mem_append]
  apply or_congr
  · split <;> simp_all
  · split <;> simp_all

/-- The labels of the edges between two vertices, newest first. -/
def labels (edges : List (V × V × R)) (p q : V) : List R :=
  ((incident edges p).filter (·.1 = q)).map (·.2)

/-- The labels of the first edge come first. -/
theorem labels_cons (e : V × V × R) (edges : List (V × V × R)) (p q : V) :
    labels (e :: edges) p q = ((ends e p).filter (·.1 = q)).map (·.2) ++ labels edges p q := by
  rw [labels, incident_cons, List.filter_append, List.map_append, labels]

/-- The labels between two vertices do not depend on their order. -/
theorem labels_comm (edges : List (V × V × R)) (p q : V) : labels edges p q = labels edges q p := by
  induction edges with
  | nil => rfl
  | cons e edges ih =>
    rw [labels_cons, labels_cons, ih]
    congr 1
    obtain ⟨u, w, r⟩ := e
    -- The edge is between the two vertices from either side, or from none
    by_cases hpu : p = u <;> by_cases hpw : p = w <;> by_cases hqu : q = u <;>
      by_cases hqw : q = w <;> simp_all [ends, eq_comm]

/-! ## Taking out a vertex -/

/-- The edges that are not at `v`. -/
def without (edges : List (V × V × R)) (v : V) : List (V × V × R) :=
  edges.filter fun e => e.1 ≠ v ∧ e.2.1 ≠ v

/-- A vertex without its edges has none. -/
theorem incident_without_self (edges : List (V × V × R)) (v : V) :
    incident (without edges v) v = [] := by
  rw [incident, List.flatMap_eq_nil_iff]
  intro e he
  have hends : e.1 ≠ v ∧ e.2.1 ≠ v := by simpa using List.of_mem_filter he
  simp [ends, Ne.symm hends.1, Ne.symm hends.2]

/-- For another vertex an edge leads to `v` in all of its ends or in none. -/
theorem filter_ends {e : V × V × R} (hp : p ≠ v) :
    (ends e p).filter (·.1 ≠ v) = if e.1 ≠ v ∧ e.2.1 ≠ v then ends e p else [] := by
  split
  case isTrue h =>
    rw [List.filter_eq_self]
    intro x hx
    rcases mem_ends.mp hx with ⟨-, rfl⟩ | ⟨-, rfl⟩
    · simpa using h.1
    · simpa using h.2
  case isFalse h =>
    rw [List.filter_eq_nil_iff]
    intro x hx
    -- The other end of an edge at `p` is `v`
    have hother : e.1 = v ∨ e.2.1 = v := by
      by_contra hno
      exact h (not_or.mp hno)
    rcases mem_ends.mp hx with ⟨hpe, rfl⟩ | ⟨hpe, rfl⟩
    · simpa using hother.resolve_right fun hv => hp (hpe.trans hv)
    · simpa using hother.resolve_left fun hv => hp (hpe.trans hv)

/-- The others keep what does not lead to `v`. -/
theorem incident_without (hp : p ≠ v) :
    incident (without edges v) p = (incident edges p).filter (·.1 ≠ v) := by
  induction edges with
  | nil => rfl
  | cons e edges ih =>
    rw [incident_cons, List.filter_append, ← ih, filter_ends hp, without, List.filter_cons]
    by_cases he : e.1 ≠ v ∧ e.2.1 ≠ v
    · rw [if_pos (decide_eq_true he), if_pos he, incident_cons]
      rfl
    · rw [if_neg (by simpa using he), if_neg he]
      rfl

/-- Where at most one element passes, erasing the first one takes out all. -/
theorem eraseP_eq_filter {α : Type} {pass : α → Bool} {l : List α}
    (h : (l.filter pass).length ≤ 1) : l.eraseP pass = l.filter fun x => !pass x := by
  induction l with
  | nil => rfl
  | cons x l ih =>
    by_cases hx : pass x = true
    · -- None of the rest passes
      have hrest : l.filter pass = [] := by
        rw [List.filter_cons, if_pos hx, List.length_cons] at h
        exact List.eq_nil_of_length_eq_zero (by omega)
      have hkeep : l.filter (fun x => !pass x) = l := by
        rw [List.filter_eq_self]
        intro y hy
        simpa using List.filter_eq_nil_iff.mp hrest y hy
      rw [List.eraseP_cons_of_pos hx, List.filter_cons, if_neg (by simp [hx]), hkeep]
    · rw [List.filter_cons, if_neg hx] at h
      rw [List.eraseP_cons_of_neg hx, ih h, List.filter_cons, if_pos (by simpa using hx)]

end ForStd.Incidence
