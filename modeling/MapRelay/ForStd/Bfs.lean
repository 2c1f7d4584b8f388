import Mathlib.Data.List.Nodup

/-!
# The order of a breadth-first search

The vertices that a breadth-first search finds, in the order in which it finds them, each
with the edge by which it was found. The order and these edges do not depend on what the
search does with the parents of the vertices, so that they can serve to say something about
searches that keep such books.
-/

namespace ForStd.Bfs

variable {V E : Type} [DecidableEq V]

/-- The vertices found after the edges `es` have been looked at: those that are new are added,
    with their edge. -/
def scan (dst : E → V) : List E → List (V × Option E) → List (V × Option E)
  | [], q => q
  | e :: es, q =>
    scan dst es (if dst e ∈ q.map Prod.fst then q else q ++ [(dst e, some e)])

/-- The search goes on from position `i`, until it comes to `stop` or to the end. -/
def order (out : V → List E) (dst : E → V) (stop : V) :
    Nat → Nat → List (V × Option E) → List (V × Option E)
  | 0, _, q => q
  | fuel + 1, i, q =>
    match q[i]? with
    | none => q
    | some (v, _) =>
      if v = stop then q else order out dst stop fuel (i + 1) (scan dst (out v) q)

omit [DecidableEq V] in
/-- Every position of a prefix is one of the whole list. -/
theorem getElem?_of_prefix {α : Type} {l l' : List α} (h : l <+: l') {i : Nat} {a : α}
    (hi : l[i]? = some a) : l'[i]? = some a := by
  obtain ⟨hlt, rfl⟩ := List.getElem?_eq_some_iff.mp hi
  exact List.prefix_iff_getElem?.mp h i hlt

omit [DecidableEq V] in
/-- An element of a longer list is one of the list, or the new one. -/
theorem getElem?_concat_cases {α : Type} {l : List α} {a x : α} {i : Nat}
    (h : (l ++ [a])[i]? = some x) : l[i]? = some x ∨ i = l.length ∧ x = a := by
  obtain ⟨hi, -⟩ := List.getElem?_eq_some_iff.mp h
  rw [List.length_append, List.length_singleton] at hi
  by_cases hlt : i < l.length
  · rw [List.getElem?_append_left hlt] at h
    exact .inl h
  · obtain rfl : i = l.length := by omega
    rw [List.getElem?_concat_length] at h
    exact .inr ⟨rfl, (Option.some.inj h).symm⟩

omit [DecidableEq V] in
/-- A queue that holds each vertex once is no longer than the list of vertices. -/
theorem length_le_of_nodup {α : Type} {l : List α} {k : α → V} {vs : List V}
    (hnodup : (l.map k).Nodup) (h : ∀ a ∈ l, k a ∈ vs) : l.length ≤ vs.length := by
  rw [← List.length_map (f := k)]
  refine hnodup.length_le_of_subset fun v hv => ?_
  obtain ⟨a, ha, rfl⟩ := List.mem_map.mp hv
  exact h a ha

variable {out : V → List E} {dst : E → V} {stop : V} {q : List (V × Option E)}

/-- An edge to a vertex that has been found is passed over. -/
theorem scan_cons_old {e : E} {es : List E} (h : dst e ∈ q.map Prod.fst) :
    scan dst (e :: es) q = scan dst es q := by
  rw [scan, if_pos h]

/-- An edge to a new vertex appends it. -/
theorem scan_cons_new {e : E} {es : List E} (h : dst e ∉ q.map Prod.fst) :
    scan dst (e :: es) q = scan dst es (q ++ [(dst e, some e)]) := by
  rw [scan, if_neg h]

/-- What has been found stays where it is. -/
theorem prefix_scan (es : List E) (q : List (V × Option E)) : q <+: scan dst es q := by
  induction es generalizing q with
  | nil => exact List.prefix_refl q
  | cons e es ih =>
    -- A vertex that was found before is skipped, a new one goes to the end
    by_cases h : dst e ∈ q.map Prod.fst
    · rw [scan_cons_old h]
      exact ih q
    · rw [scan_cons_new h]
      exact (List.prefix_append q _).trans (ih _)

/-- The order begins with what has been found. -/
theorem prefix_order (fuel i : Nat) (q : List (V × Option E)) :
    q <+: order out dst stop fuel i q := by
  induction fuel generalizing i q with
  | zero => exact List.prefix_refl q
  | succ fuel ih =>
    unfold order
    split
    · exact List.prefix_refl q
    · split
      · exact List.prefix_refl q
      · exact (prefix_scan _ q).trans (ih _ _)

/-- What has been found after a scan was found before, or by one of its edges. -/
theorem mem_scan {es : List E} {x : V × Option E} (h : x ∈ scan dst es q) :
    x ∈ q ∨ ∃ e ∈ es, x = (dst e, some e) := by
  induction es generalizing q with
  | nil => exact .inl h
  | cons e es ih =>
    have hrest : ∀ {q'}, x ∈ scan dst es q' → x ∈ q' ∨ ∃ e' ∈ e :: es, x = (dst e', some e') := by
      intro q' hx
      refine (ih hx).imp_right ?_
      rintro ⟨e', he', rfl⟩
      exact ⟨e', List.mem_cons_of_mem _ he', rfl⟩
    by_cases hold : dst e ∈ q.map Prod.fst
    · rw [scan_cons_old hold] at h
      exact hrest h
    · rw [scan_cons_new hold] at h
      rcases hrest h with hx | hx
      · rcases List.mem_append.mp hx with hx | hx
        · exact .inl hx
        · exact .inr ⟨e, List.mem_cons_self, List.mem_singleton.mp hx⟩
      · exact .inr hx

/-- A scan finds the ends of all its edges. -/
theorem dst_mem_scan {es : List E} {e : E} (he : e ∈ es) :
    dst e ∈ (scan dst es q).map Prod.fst := by
  induction es generalizing q with
  | nil => cases he
  | cons e' es ih =>
    rcases List.mem_cons.mp he with rfl | he
    · -- Found by now, and it stays
      by_cases hold : dst e ∈ q.map Prod.fst
      · rw [scan_cons_old hold]
        exact ((prefix_scan es q).map Prod.fst).subset hold
      · rw [scan_cons_new hold]
        refine ((prefix_scan es _).map Prod.fst).subset ?_
        rw [List.map_append]
        exact List.mem_append_right _ List.mem_cons_self
    · exact ih he

/-- No vertex is found twice. -/
theorem nodup_scan (es : List E) (h : (q.map Prod.fst).Nodup) :
    ((scan dst es q).map Prod.fst).Nodup := by
  induction es generalizing q with
  | nil => exact h
  | cons e es ih =>
    by_cases hold : dst e ∈ q.map Prod.fst
    · rw [scan_cons_old hold]
      exact ih h
    · rw [scan_cons_new hold]
      apply ih
      rw [List.map_append, List.map_singleton, ← List.concat_eq_append]
      exact .concat hold h

/-- The search finds each vertex once. -/
theorem nodup_order (fuel i : Nat) (h : (q.map Prod.fst).Nodup) :
    ((order out dst stop fuel i q).map Prod.fst).Nodup := by
  induction fuel generalizing i q with
  | zero => exact h
  | succ fuel ih =>
    unfold order
    split
    · exact h
    · split
      · exact h
      · exact ih _ (nodup_scan _ h)

end ForStd.Bfs
