import Mathlib.Algebra.Order.Field.Basic
import Mathlib.Data.List.Nodup
import Mathlib.Tactic.Ring
import MapRelay.ForStd.Links

/-!
# Subdividing the edges of a graph

The edges of an undirected graph are cut again and again by putting a new vertex on them.
`Subdivided` says how the graph that is reached lies over the one at the start: each of the
old edges is a path, the paths have only old vertices in common, and the edges of the new
graph are the steps of the paths. Cutting an edge is `insertBetween` on all paths at once.
-/

namespace ForStd

open Links

/-! ## Neighbours in a list -/

section Neighbours

variable {V : Type}

/-- Two neighbours at the head of a list or further down. -/
theorem pair_infix_cons_cons {p q x y : V} {l : List V} :
    [p, q] <:+: x :: y :: l ↔ (p = x ∧ q = y) ∨ [p, q] <:+: y :: l := by
  rw [List.infix_cons_iff, List.cons_prefix_cons, List.cons_prefix_cons]
  simp

/-- A path of one vertex has no edges. -/
theorem not_pair_infix_singleton {p q x : V} : ¬ [p, q] <:+: [x] := by
  intro h
  have hle := h.length_le
  simp at hle

/-- A path of two vertices has one edge. -/
theorem pair_infix_pair {p q x y : V} : [p, q] <:+: [x, y] ↔ p = x ∧ q = y := by
  rw [pair_infix_cons_cons]
  exact or_iff_left not_pair_infix_singleton

/-- The edges of a path, gone backwards. -/
theorem pair_infix_reverse {p q : V} {l : List V} :
    [p, q] <:+: l.reverse ↔ [q, p] <:+: l := by
  rw [← List.reverse_infix, List.reverse_reverse]
  rfl

/-- Both ends of an edge of the path are on it. -/
theorem mem_of_neighbours {p q : V} {l : List V} (h : [p, q] <:+: l) : p ∈ l ∧ q ∈ l :=
  ⟨h.subset List.mem_cons_self, h.subset (List.mem_cons_of_mem _ List.mem_cons_self)⟩

end Neighbours

/-! ## Inserting a vertex -/

section Insert

variable {V : Type} [DecidableEq V]

/-- Put `t` between any two neighbours `a` and `b` of the list, in either order. -/
def insertBetween (a b t : V) : List V → List V
  | [] => []
  | [x] => [x]
  | x :: y :: l =>
    if SamePair x y a b then x :: t :: insertBetween a b t (y :: l)
    else x :: insertBetween a b t (y :: l)

variable {a b t : V}

/-- Between the ends of the edge, the new vertex is put in. -/
theorem insertBetween_cut {x y : V} (h : SamePair x y a b) (l : List V) :
    insertBetween a b t (x :: y :: l) = x :: t :: insertBetween a b t (y :: l) := by
  rw [insertBetween, if_pos h]

/-- Elsewhere nothing is put in. -/
theorem insertBetween_keep {x y : V} (h : ¬ SamePair x y a b) (l : List V) :
    insertBetween a b t (x :: y :: l) = x :: insertBetween a b t (y :: l) := by
  rw [insertBetween, if_neg h]

/-- The list keeps its head. -/
theorem exists_insertBetween_cons (a b t x : V) (l : List V) :
    ∃ l', insertBetween a b t (x :: l) = x :: l' := by
  cases l with
  | nil => exact ⟨[], rfl⟩
  | cons y l =>
    by_cases h : SamePair x y a b
    · exact ⟨_, insertBetween_cut h l⟩
    · exact ⟨_, insertBetween_keep h l⟩

/-- The neighbours after the insertion. -/
theorem pair_infix_insertBetween {p q : V} {l : List V} :
    [p, q] <:+: insertBetween a b t l ↔ ([p, q] <:+: l ∧ ¬ SamePair p q a b) ∨
      ∃ x y, [x, y] <:+: l ∧ SamePair x y a b ∧ ((p = x ∧ q = t) ∨ (p = t ∧ q = y)) := by
  -- Along the list, two elements at a time as `insertBetween` looks at them
  induction l with
  | nil => simp [insertBetween]
  | cons x l ih =>
    cases l with
    | nil => simp [insertBetween, not_pair_infix_singleton]
    | cons y l =>
      obtain ⟨l', hl'⟩ := exists_insertBetween_cons a b t y l
      simp only [pair_infix_cons_cons (x := x) (y := y) (l := l)]
      by_cases h : SamePair x y a b
      · -- `x` and `y` are neighbours no longer, `t` is one of either
        rw [insertBetween_cut h, pair_infix_cons_cons, hl', pair_infix_cons_cons, ← hl', ih]
        constructor
        -- A pair of the new list: `x t`, `t y`, or one of the rest
        · rintro (⟨rfl, rfl⟩ | ⟨rfl, rfl⟩ | ⟨hpq, hne⟩ | ⟨x', y', hxy, hsame, hat⟩)
          · exact .inr ⟨p, y, .inl ⟨rfl, rfl⟩, h, .inl ⟨rfl, rfl⟩⟩
          · exact .inr ⟨x, q, .inl ⟨rfl, rfl⟩, h, .inr ⟨rfl, rfl⟩⟩
          · exact .inl ⟨.inr hpq, hne⟩
          · exact .inr ⟨x', y', .inr hxy, hsame, hat⟩
        -- Conversely, the pair `x y` itself is gone, and a cut pair gives two
        · rintro (⟨⟨rfl, rfl⟩ | hpq, hne⟩ | ⟨x', y', ⟨rfl, rfl⟩ | hxy, hsame, hat⟩)
          · exact absurd h hne
          · exact .inr (.inr (.inl ⟨hpq, hne⟩))
          · rcases hat with hat | hat
            · exact .inl hat
            · exact .inr (.inl hat)
          · exact .inr (.inr (.inr ⟨x', y', hxy, hsame, hat⟩))
      -- `x` and `y` stay neighbours
      · rw [insertBetween_keep h, hl', pair_infix_cons_cons, ← hl', ih]
        constructor
        · rintro (⟨rfl, rfl⟩ | ⟨hpq, hne⟩ | ⟨x', y', hxy, hsame, hat⟩)
          · exact .inl ⟨.inl ⟨rfl, rfl⟩, h⟩
          · exact .inl ⟨.inr hpq, hne⟩
          · exact .inr ⟨x', y', .inr hxy, hsame, hat⟩
        · rintro (⟨⟨rfl, rfl⟩ | hpq, hne⟩ | ⟨x', y', ⟨rfl, rfl⟩ | hxy, hsame, hat⟩)
          · exact .inl ⟨rfl, rfl⟩
          · exact .inr (.inl ⟨hpq, hne⟩)
          · exact absurd hsame h
          · exact .inr (.inr ⟨x', y', hxy, hsame, hat⟩)

/-- The vertices are the old ones, and the new one if the edge is on the path. -/
theorem mem_insertBetween {z : V} {l : List V} :
    z ∈ insertBetween a b t l ↔
      z ∈ l ∨ (z = t ∧ ∃ x y, [x, y] <:+: l ∧ SamePair x y a b) := by
  induction l with
  | nil => simp [insertBetween]
  | cons x l ih =>
    cases l with
    | nil => simp [insertBetween, not_pair_infix_singleton]
    | cons y l =>
      simp only [pair_infix_cons_cons (x := x) (y := y) (l := l)]
      by_cases h : SamePair x y a b
      · -- `t` comes between `x` and `y`
        rw [insertBetween_cut h, List.mem_cons, List.mem_cons, ih, List.mem_cons (a := z) (b := x)]
        constructor
        · rintro (hz | rfl | hz | ⟨rfl, -⟩)
          · exact .inl (.inl hz)
          · exact .inr ⟨rfl, x, y, .inl ⟨rfl, rfl⟩, h⟩
          · exact .inl (.inr hz)
          · exact .inr ⟨rfl, x, y, .inl ⟨rfl, rfl⟩, h⟩
        · rintro ((hz | hz) | ⟨hz, -⟩)
          · exact .inl hz
          · exact .inr (.inr (.inl hz))
          · exact .inr (.inl hz)
      -- Nothing comes between `x` and `y`
      · rw [insertBetween_keep h, List.mem_cons, ih, List.mem_cons (a := z) (b := x)]
        constructor
        · rintro (hz | hz | ⟨rfl, x', y', hxy, hsame⟩)
          · exact .inl (.inl hz)
          · exact .inl (.inr hz)
          · exact .inr ⟨rfl, x', y', .inr hxy, hsame⟩
        · rintro ((hz | hz) | ⟨rfl, x', y', ⟨rfl, rfl⟩ | hxy, hsame⟩)
          · exact .inl hz
          · exact .inr (.inl hz)
          · exact absurd hsame h
          · exact .inr (.inr ⟨rfl, x', y', hxy, hsame⟩)

/-- What is put in at the end of a path. -/
theorem insertBetween_snoc {x y : V} (l : List V) :
    insertBetween a b t (l ++ [x, y]) =
      insertBetween a b t (l ++ [x]) ++ if SamePair x y a b then [t, y] else [y] := by
  induction l with
  | nil =>
    by_cases h : SamePair x y a b
    · rw [List.nil_append, insertBetween_cut h, if_pos h]
      rfl
    · rw [List.nil_append, insertBetween_keep h, if_neg h]
      rfl
  | cons z l ih =>
    -- The head of the rest is the same on either side
    obtain ⟨w, l', hw⟩ : ∃ w l', l ++ [x] = w :: l' := List.exists_cons_of_ne_nil (by simp)
    have hw' : l ++ [x, y] = w :: (l' ++ [y]) := by
      rw [← List.singleton_append, ← List.append_assoc, hw, List.cons_append]
    rw [hw, hw'] at ih
    rw [List.cons_append, List.cons_append, hw, hw']
    by_cases h : SamePair z w a b
    · rw [insertBetween_cut h, insertBetween_cut h, ih]
      rfl
    · rw [insertBetween_keep h, insertBetween_keep h, ih]
      rfl

/-- It does not matter from which end the path is gone through. -/
theorem insertBetween_reverse (a b t : V) (l : List V) :
    insertBetween a b t l.reverse = (insertBetween a b t l).reverse := by
  -- The reversed list is read from its end, where `insertBetween_snoc` speaks
  induction l with
  | nil => rfl
  | cons x l ih =>
    cases l with
    | nil => rfl
    | cons y l =>
      have hreverse : (x :: y :: l).reverse = l.reverse ++ [y, x] := by simp
      rw [List.reverse_cons] at ih
      rw [hreverse, insertBetween_snoc, ih]
      by_cases h : SamePair x y a b
      · rw [insertBetween_cut h, if_pos (SamePair.comm.mp h)]
        simp
      · rw [insertBetween_keep h, if_neg (mt SamePair.comm.mp h)]
        simp

/-- A path that visits no vertex twice still does not. -/
theorem nodup_insertBetween {l : List V} (hl : l.Nodup) (ht : t ∉ l) :
    (insertBetween a b t l).Nodup := by
  induction l with
  | nil => exact hl
  | cons x l ih =>
    cases l with
    | nil => exact hl
    | cons y l =>
      obtain ⟨hx, hl'⟩ := List.nodup_cons.mp hl
      -- `t` is new, so that it differs from `x` and is not met again
      have hxt : x ≠ t := fun heq => ht (heq ▸ List.mem_cons_self)
      have hrest := ih hl' fun hmem => ht (List.mem_cons_of_mem _ hmem)
      have hx' : x ∉ insertBetween a b t (y :: l) := by
        rw [mem_insertBetween]
        rintro (hmem | ⟨heq, -⟩)
        · exact hx hmem
        · exact hxt heq
      by_cases h : SamePair x y a b
      · rw [insertBetween_cut h]
        refine List.nodup_cons.mpr ⟨?_, List.nodup_cons.mpr ⟨?_, hrest⟩⟩
        · rw [List.mem_cons]
          exact fun hmem => hmem.elim hxt hx'
        · -- `x` is one of `a` and `b`, which are not neighbours again
          rw [mem_insertBetween]
          rintro (hmem | ⟨-, p, q, hpq, hsame⟩)
          · exact ht (List.mem_cons_of_mem _ hmem)
          · obtain ⟨hp, hq⟩ := mem_of_neighbours hpq
            rcases h with ⟨rfl, rfl⟩ | ⟨rfl, rfl⟩ <;> rcases hsame with ⟨rfl, rfl⟩ | ⟨rfl, rfl⟩
            · exact hx hp
            · exact hx hq
            · exact hx hq
            · exact hx hp
      · rw [insertBetween_keep h]
        exact List.nodup_cons.mpr ⟨hx', hrest⟩

/-- The ends stay, and only `t` is new between them. -/
theorem insertBetween_ends (a b t u v : V) (c : List V) :
    ∃ c', insertBetween a b t (u :: (c ++ [v])) = u :: (c' ++ [v]) ∧ ∀ x ∈ c', x ∈ c ∨ x = t := by
  induction c generalizing u with
  -- A single edge: it is cut in two or kept
  | nil =>
    by_cases h : SamePair u v a b
    · exact ⟨[t], insertBetween_cut h [], fun x hx => .inr (List.mem_singleton.mp hx)⟩
    · exact ⟨[], insertBetween_keep h [], fun x hx => nomatch hx⟩
  | cons w c ih =>
    obtain ⟨c', hc', hmem⟩ := ih w
    have hkept : ∀ x ∈ w :: c', x ∈ w :: c ∨ x = t := by
      intro x hx
      rcases List.mem_cons.mp hx with rfl | hx
      · exact .inl List.mem_cons_self
      · exact (hmem x hx).imp_left (List.mem_cons_of_mem _)
    -- A longer chain: the first edge here, the others by induction
    by_cases h : SamePair u w a b
    · -- The first edge is cut
      refine ⟨t :: w :: c', ?_, fun x hx => ?_⟩
      · rw [List.cons_append, insertBetween_cut h, hc']
        rfl
      · rcases List.mem_cons.mp hx with rfl | hx
        · exact .inr rfl
        · exact hkept x hx
    · refine ⟨w :: c', ?_, hkept⟩
      rw [List.cons_append, insertBetween_keep h, hc']
      rfl

/-! ## Lengths -/

variable {K : Type}

/-- The length of a path. -/
def pathLength [Zero K] [Add K] (len : V → V → K) : List V → K
  | [] => 0
  | [_] => 0
  | x :: y :: l => len x y + pathLength len (y :: l)

/-- The length of a path stays if the two parts of the edge that is cut are as long as the
    edge. -/
theorem pathLength_insertBetween [AddCommMonoid K] {len len' : V → V → K} {l : List V}
    (hkeep : ∀ x y, [x, y] <:+: l → ¬ SamePair x y a b → len' x y = len x y)
    (hcut : ∀ x y, [x, y] <:+: l → SamePair x y a b → len' x t + len' t y = len x y) :
    pathLength len' (insertBetween a b t l) = pathLength len l := by
  induction l with
  | nil => rfl
  | cons x l ih =>
    cases l with
    | nil => rfl
    -- The first edge is counted here, the others by induction
    | cons y l =>
      have hrest := ih (fun p q hpq => hkeep p q (pair_infix_cons_cons.mpr (.inr hpq)))
        fun p q hpq => hcut p q (pair_infix_cons_cons.mpr (.inr hpq))
      have hhead : [x, y] <:+: x :: y :: l := pair_infix_cons_cons.mpr (.inl ⟨rfl, rfl⟩)
      obtain ⟨l', hl'⟩ := exists_insertBetween_cons a b t y l
      rw [hl'] at hrest
      by_cases h : SamePair x y a b
      · rw [insertBetween_cut h, hl', pathLength, pathLength, pathLength, hrest, ← add_assoc,
          hcut x y hhead h]
      · rw [insertBetween_keep h, hl', pathLength, pathLength, hrest, hkeep x y hhead h]

omit [DecidableEq V] in
/-- A path whose edges all have at least length `c` has at most `pathLength / c` edges. -/
theorem length_mul_le_pathLength [Field K] [LinearOrder K] [IsStrictOrderedRing K]
    {len : V → V → K} {c : K} {x : V} {l : List V}
    (h : ∀ p q, [p, q] <:+: x :: l → c ≤ len p q) :
    (l.length : K) * c ≤ pathLength len (x :: l) := by
  induction l generalizing x with
  | nil => simp [pathLength]
  | cons y l ih =>
    have hrest := ih fun p q hpq => h p q (pair_infix_cons_cons.mpr (.inr hpq))
    have hhead := h x y (pair_infix_cons_cons.mpr (.inl ⟨rfl, rfl⟩))
    calc ((y :: l).length : K) * c = c + (l.length : K) * c := by
          rw [List.length_cons, Nat.cast_add, Nat.cast_one]
          ring
      _ ≤ len x y + pathLength len (y :: l) := add_le_add hhead hrest

end Insert

/-! ## Simple graphs -/

section Links

variable {V R : Type} [DecidableEq V]

/-- An undirected graph without parallel edges and loops. -/
structure Links.Simple (l : Links V R) : Prop where
  symm : l.Symm
  one : ∀ x y, (l x y).length ≤ 1
  loopless : ∀ x, l x x = []

/-- Cut the newest link between `a` and `b` at `t`. -/
def Links.cut (l : Links V R) (a b t : V) (r : R) : Links V R :=
  ((l.link a t r).link t b r).unlink a b

variable {l : Links V R} {a b t : V} {r : R}

omit [DecidableEq V] in
/-- The ends of a link are different. -/
theorem Links.Simple.ne (h : l.Simple) {x y : V} (hr : r ∈ l x y) : x ≠ y := by
  rintro rfl
  rw [h.loopless] at hr
  cases hr

omit [DecidableEq V] in
/-- In a simple graph there is no other link between two vertices. -/
theorem Links.Simple.eq_singleton (h : l.Simple) {x y : V} (hr : r ∈ l x y) : l x y = [r] := by
  have hone := h.one x y
  match l x y, hr, hone with
  | [r'], hr, _ => rw [List.mem_singleton.mp hr]

omit [DecidableEq V] in
/-- A graph without links is simple. -/
theorem Links.Simple.empty : Links.Simple (V := V) (R := R) fun _ _ => [] where
  symm _ _ := rfl
  one _ _ := Nat.zero_le 1
  loopless _ := rfl

/-- Replacing the link between two different vertices keeps a graph simple. -/
theorem Links.Simple.relink (h : l.Simple) {u v : V} (huv : u ≠ v) (r : R) :
    (l.relink u v r).Simple where
  symm := (h.symm.unlink u v).link u v r
  -- Only the edges between `u` and `v` change
  one x y := by
    by_cases hpair : SamePair x y u v
    · have hone := h.one x y
      rw [Links.relink, link_of_samePair huv hpair, unlink_of_samePair huv hpair,
        List.length_cons, List.length_tail]
      omega
    · rw [Links.relink, link_of_not_samePair hpair, unlink_of_not_samePair hpair]
      exact h.one x y
  -- `u` and `v` differ, so that no loop is made
  loopless x := by
    have hpair : ¬ SamePair x x u v := by
      rintro (⟨rfl, heq⟩ | ⟨rfl, heq⟩)
      · exact huv heq
      · exact huv heq.symm
    rw [Links.relink, link_of_not_samePair hpair, unlink_of_not_samePair hpair]
    exact h.loopless x

/-- The two ends of a link that is cut get linked to `t` and are no longer linked to each
    other. -/
theorem Links.Simple.cut_apply (h : l.Simple) (hab : r ∈ l a b) (ht : ∀ x, l t x = []) (x y : V) :
    l.cut a b t r x y =
      if SamePair x y a b then [] else
      if SamePair x y a t ∨ SamePair x y t b then [r] else l x y := by
  have hne := h.ne hab
  have hta : t ≠ a := by
    rintro rfl
    rw [ht] at hab
    cases hab
  have htb : t ≠ b := by
    rintro rfl
    rw [h.symm, ht] at hab
    cases hab
  -- Nothing leads from `t` or to it before the cut
  have hnil : ∀ {z w : V}, z = t ∨ w = t → l z w = [] := by
    rintro z w (rfl | rfl)
    · exact ht w
    · rw [h.symm, ht]
  unfold Links.cut
  by_cases hpair : SamePair x y a b
  · -- The only link goes, and the new ones are elsewhere
    rw [if_pos hpair, unlink_of_samePair hne hpair]
    have hxy : l x y = [r] := by
      apply h.eq_singleton
      rcases hpair with ⟨rfl, rfl⟩ | ⟨rfl, rfl⟩
      · exact hab
      · rw [h.symm]
        exact hab
    have htb' : ¬ SamePair x y t b := by
      rcases hpair with ⟨rfl, rfl⟩ | ⟨rfl, rfl⟩ <;> simp [SamePair, hta.symm, htb.symm]
    have hat' : ¬ SamePair x y a t := by
      rcases hpair with ⟨rfl, rfl⟩ | ⟨rfl, rfl⟩ <;> simp [SamePair, hta.symm, htb.symm]
    rw [link_of_not_samePair htb', link_of_not_samePair hat', hxy]
    rfl
  · rw [if_neg hpair, unlink_of_not_samePair hpair]
    by_cases htb' : SamePair x y t b
    · have hat' : ¬ SamePair x y a t := by
        rcases htb' with ⟨rfl, rfl⟩ | ⟨rfl, rfl⟩ <;> simp [SamePair, hta, hne.symm]
      rw [if_pos (.inr htb'), link_of_samePair htb htb', link_of_not_samePair hat',
        hnil (htb'.imp And.left And.right)]
    · rw [link_of_not_samePair htb']
      by_cases hat' : SamePair x y a t
      · rw [if_pos (.inl hat'), link_of_samePair hta.symm hat',
          hnil (hat'.symm.imp And.left And.right)]
      · rw [if_neg (not_or_intro hat' htb'), link_of_not_samePair hat']

/-- A cut replaces the link by its two parts. -/
theorem Links.Simple.mem_cut (h : l.Simple) (hab : r ∈ l a b) (ht : ∀ x, l t x = [])
    {x y : V} {r' : R} : r' ∈ l.cut a b t r x y ↔
      (r' ∈ l x y ∧ ¬ SamePair x y a b) ∨ ((SamePair x y a t ∨ SamePair x y t b) ∧ r' = r) := by
  -- There was nothing between `t` and the ends, nor is `t` one of them
  have hnil : ∀ {z w : V}, z = t ∨ w = t → r' ∉ l z w ∧ ¬ SamePair z w a b := by
    have hta : t ≠ a := by
      rintro rfl
      rw [ht] at hab
      cases hab
    have htb : t ≠ b := by
      rintro rfl
      rw [h.symm, ht] at hab
      cases hab
    rintro z w (rfl | rfl)
    · simp [ht, SamePair, hta, htb]
    · simp [h.symm z, ht, SamePair, hta, htb]
  have hnew : SamePair x y a t ∨ SamePair x y t b → r' ∉ l x y ∧ ¬ SamePair x y a b := by
    rintro ((⟨-, hy⟩ | ⟨hx, -⟩) | (⟨hx, -⟩ | ⟨-, hy⟩))
    · exact hnil (.inr hy)
    · exact hnil (.inl hx)
    · exact hnil (.inl hx)
    · exact hnil (.inr hy)
  rw [h.cut_apply hab ht]
  split
  case isTrue hpair =>
    have hold : ¬ (SamePair x y a t ∨ SamePair x y t b) := fun hat => (hnew hat).2 hpair
    simp [hpair, hold]
  case isFalse hpair =>
    split
    case isTrue hat => simp [hat, (hnew hat).1]
    case isFalse hat => simp [hat, hpair]

/-- A cut at a new vertex leaves the graph simple. -/
theorem Links.Simple.cut (h : l.Simple) (hab : r ∈ l a b) (ht : ∀ x, l t x = []) :
    (l.cut a b t r).Simple where
  symm := ((h.symm.link a t r).link t b r).unlink a b
  -- Two vertices of the cut map: `a` and `b`, one of them and `t`, or two others
  one x y := by
    rw [h.cut_apply hab ht]
    split
    · exact Nat.zero_le 1
    · split
      · exact Nat.le_refl 1
      · exact h.one x y
  loopless x := by
    apply List.eq_nil_iff_forall_not_mem.mpr
    intro r' hr'
    -- A loop would be an old one, or `t` would be `a` or `b`
    rcases (h.mem_cut hab ht).mp hr' with ⟨hold, -⟩ | ⟨hat, -⟩
    · rw [h.loopless] at hold
      cases hold
    -- But `t` has no edges
    · rcases hat with (⟨rfl, heq⟩ | ⟨rfl, heq⟩) | (⟨rfl, heq⟩ | ⟨rfl, heq⟩)
      all_goals subst heq
      · rw [ht] at hab
        cases hab
      · rw [ht] at hab
        cases hab
      · rw [h.symm, ht] at hab
        cases hab
      · rw [h.symm, ht] at hab
        cases hab

/-! ## Subdivisions -/

/-- The graph `E` subdivides `E₀`, whose vertices are `old`: `path u v` is what has become of
    an edge from `u` to `v`. -/
structure Subdivided (old : V → Prop) (E₀ E : Links V R) (path : V → V → List V) : Prop where
  ends : ∀ {u v}, E₀ u v ≠ [] → ∃ c, path u v = u :: (c ++ [v]) ∧ ∀ x ∈ c, ¬ old x
  nodup : ∀ {u v}, E₀ u v ≠ [] → (path u v).Nodup
  reverse : ∀ u v, path v u = (path u v).reverse
  disjoint : ∀ {u v u' v' x}, E₀ u v ≠ [] → E₀ u' v' ≠ [] → x ∈ path u v → x ∈ path u' v' →
    ¬ old x → SamePair u v u' v'
  links : ∀ {x y r}, r ∈ E x y ↔ ∃ u v, r ∈ E₀ u v ∧ [x, y] <:+: path u v

omit [DecidableEq V] in
/-- Before the first cut every edge is a path of its own. -/
theorem Subdivided.start {old : V → Prop} {E₀ : Links V R} (h : E₀.Simple)
    (hold : ∀ {u v}, E₀ u v ≠ [] → old u ∧ old v) :
    Subdivided old E₀ E₀ fun u v => [u, v] where
  -- In the beginning each path is its own edge
  ends _ := ⟨[], rfl, fun x hx => nomatch hx⟩
  nodup := by
    intro u v huv
    obtain ⟨r, hr⟩ := List.exists_mem_of_ne_nil _ huv
    have hne := h.ne hr
    simp [hne]
  reverse _ _ := rfl
  disjoint := by
    intro u v u' v' x huv _ hx _ hnot
    obtain ⟨hu, hv⟩ := hold huv
    -- The vertices of `[u, v]` are old, hence no new vertex is shared
    simp only [List.mem_cons, List.not_mem_nil, or_false] at hx
    rcases hx with rfl | rfl
    · exact absurd hu hnot
    · exact absurd hv hnot
  links := by
    intro x y r
    constructor
    · exact fun hr => ⟨x, y, hr, List.infix_rfl⟩
    · intro ⟨u, v, hr, hxy⟩
      obtain ⟨rfl, rfl⟩ := pair_infix_pair.mp hxy
      exact hr

section Cut

variable {old : V → Prop} {E₀ E : Links V R} {path : V → V → List V}

omit [DecidableEq V] in
/-- Two old neighbours are the ends of their path. -/
theorem Subdivided.eq_ends (h : Subdivided old E₀ E path) {u v x y : V} (huv : E₀ u v ≠ [])
    (hxy : [x, y] <:+: path u v) (hx : old x) (hy : old y) : x = u ∧ y = v := by
  obtain ⟨c, hc, hnew⟩ := h.ends huv
  rw [hc] at hxy
  cases c with
  | nil => exact pair_infix_pair.mp hxy
  | cons w c =>
    exfalso
    rw [List.cons_append, pair_infix_cons_cons] at hxy
    rcases hxy with ⟨-, rfl⟩ | hxy
    · exact hnew y List.mem_cons_self hy
    · -- Seen from the other end `x` follows `v` or comes later
      have hrev := pair_infix_reverse.mpr hxy
      rw [← List.cons_append, List.reverse_append, List.reverse_singleton] at hrev
      have hmem : x ∈ (w :: c).reverse := by
        obtain ⟨z, l, hl⟩ : ∃ z l, (w :: c).reverse = z :: l :=
          List.exists_cons_of_ne_nil (by simp)
        rw [hl, List.singleton_append, pair_infix_cons_cons] at hrev
        rcases hrev with ⟨-, rfl⟩ | hrev
        · rw [hl]
          exact List.mem_cons_self
        · rw [hl]
          exact (mem_of_neighbours hrev).2
      exact hnew x (List.mem_reverse.mp hmem) hx

omit [DecidableEq V] in
/-- A vertex that is on no path has no links. -/
theorem Subdivided.eq_nil (h : Subdivided old E₀ E path)
    (ht : ∀ u v, E₀ u v ≠ [] → t ∉ path u v) (x : V) : E t x = [] := by
  apply List.eq_nil_iff_forall_not_mem.mpr
  intro r hr
  obtain ⟨u, v, huv, hinfix⟩ := h.links.mp hr
  exact ht u v (List.ne_nil_of_mem huv) (mem_of_neighbours hinfix).1

omit [DecidableEq V] in
/-- The paths through a link are those of one edge. -/
theorem Subdivided.unique (h : Subdivided old E₀ E path) {u v u' v' p q p' q' : V}
    (huv : E₀ u v ≠ []) (huv' : E₀ u' v' ≠ []) (hpq : [p, q] <:+: path u v)
    (hpq' : [p', q'] <:+: path u' v') (hsame : SamePair p q a b)
    (hsame' : SamePair p' q' a b) : SamePair u v u' v' := by
  have hmem : ∀ {z}, z = a ∨ z = b → z ∈ path u v ∧ z ∈ path u' v' := by
    obtain ⟨hp, hq⟩ := mem_of_neighbours hpq
    obtain ⟨hp', hq'⟩ := mem_of_neighbours hpq'
    rcases hsame with ⟨rfl, rfl⟩ | ⟨rfl, rfl⟩ <;>
      rcases hsame' with ⟨rfl, rfl⟩ | ⟨rfl, rfl⟩ <;>
      rintro z (rfl | rfl) <;> constructor <;> assumption
  -- A new end is on one path only; with two old ends both paths are that link
  by_cases ha : old a
  · by_cases hb : old b
    · have hold : ∀ {z w}, SamePair z w a b → old z ∧ old w := by
        rintro z w (⟨rfl, rfl⟩ | ⟨rfl, rfl⟩)
        · exact ⟨ha, hb⟩
        · exact ⟨hb, ha⟩
      obtain ⟨rfl, rfl⟩ := h.eq_ends huv hpq (hold hsame).1 (hold hsame).2
      obtain ⟨rfl, rfl⟩ := h.eq_ends huv' hpq' (hold hsame').1 (hold hsame').2
      rcases hsame with ⟨rfl, rfl⟩ | ⟨rfl, rfl⟩ <;>
        rcases hsame' with ⟨rfl, rfl⟩ | ⟨rfl, rfl⟩ <;> simp [SamePair]
    · exact h.disjoint huv huv' (hmem (.inr rfl)).1 (hmem (.inr rfl)).2 hb
  · exact h.disjoint huv huv' (hmem (.inl rfl)).1 (hmem (.inl rfl)).2 ha

/-- The two halves of a link that is cut are on its path, in either direction. -/
theorem Subdivided.halves (h : Subdivided old E₀ E path) (hE₀ : E₀.Symm) (hab : r ∈ E a b)
    {x y : V} (hat : SamePair x y a t ∨ SamePair x y t b) :
    ∃ u v, r ∈ E₀ u v ∧ [x, y] <:+: insertBetween a b t (path u v) := by
  obtain ⟨u, v, huv, hinfix⟩ := h.links.mp hab
  have hvu : r ∈ E₀ v u := hE₀ u v ▸ huv
  have hinfix' : [b, a] <:+: path v u := by
    rw [h.reverse u v]
    exact pair_infix_reverse.mpr hinfix
  rcases hat with (⟨rfl, rfl⟩ | ⟨rfl, rfl⟩) | (⟨rfl, rfl⟩ | ⟨rfl, rfl⟩)
  · exact ⟨u, v, huv, pair_infix_insertBetween.mpr
      (.inr ⟨x, b, hinfix, .inl ⟨rfl, rfl⟩, .inl ⟨rfl, rfl⟩⟩)⟩
  · exact ⟨v, u, hvu, pair_infix_insertBetween.mpr
      (.inr ⟨b, y, hinfix', .inr ⟨rfl, rfl⟩, .inr ⟨rfl, rfl⟩⟩)⟩
  · exact ⟨u, v, huv, pair_infix_insertBetween.mpr
      (.inr ⟨a, y, hinfix, .inl ⟨rfl, rfl⟩, .inr ⟨rfl, rfl⟩⟩)⟩
  · exact ⟨v, u, hvu, pair_infix_insertBetween.mpr
      (.inr ⟨x, a, hinfix', .inr ⟨rfl, rfl⟩, .inl ⟨rfl, rfl⟩⟩)⟩

/-- Cutting a link of the subdivision at a vertex that is not in use yet. -/
theorem Subdivided.cut (h : Subdivided old E₀ E path) (hE₀ : E₀.Symm) (hE : E.Simple)
    (hab : r ∈ E a b) (hnew : ¬ old t) (ht : ∀ u v, E₀ u v ≠ [] → t ∉ path u v) :
    Subdivided old E₀ (E.cut a b t r) fun u v => insertBetween a b t (path u v) where
  ends := by
    intro u v huv
    obtain ⟨c, hc, hc'⟩ := h.ends huv
    obtain ⟨c', hcut, hkept⟩ := insertBetween_ends a b t u v c
    -- Between the ends there is only `t` besides what was there before
    refine ⟨c', by rw [hc, hcut], fun x hx => ?_⟩
    rcases hkept x hx with hx | rfl
    · exact hc' x hx
    · exact hnew
  nodup huv := nodup_insertBetween (h.nodup huv) (ht _ _ huv)
  reverse u v := by
    show insertBetween a b t (path v u) = _
    rw [h.reverse u v, insertBetween_reverse]
  disjoint := by
    intro u v u' v' x huv huv' hx hx' hxnew
    rcases mem_insertBetween.mp hx with hold | ⟨rfl, p, q, hpq, hsame⟩ <;>
      rcases mem_insertBetween.mp hx' with hold' | ⟨heq, p', q', hpq', hsame'⟩
    · exact h.disjoint huv huv' hold hold' hxnew
    · exact absurd (heq ▸ hold) (ht _ _ huv)
    · exact absurd hold' (ht _ _ huv')
    · exact h.unique huv huv' hpq hpq' hsame hsame'
  links := by
    intro x y r'
    rw [hE.mem_cut hab (h.eq_nil ht)]
    constructor
    · rintro (⟨hr, hne⟩ | ⟨hat, rfl⟩)
      · obtain ⟨u, v, huv, hxy⟩ := h.links.mp hr
        exact ⟨u, v, huv, pair_infix_insertBetween.mpr (.inl ⟨hxy, hne⟩)⟩
      · exact h.halves hE₀ hab hat
    · intro ⟨u, v, huv, hxy⟩
      rcases pair_infix_insertBetween.mp hxy with ⟨hxy, hne⟩ | ⟨p, q, hpq, hsame, hat⟩
      · exact .inl ⟨h.links.mpr ⟨u, v, huv, hxy⟩, hne⟩
      · have hr : r' ∈ E p q := h.links.mpr ⟨u, v, huv, hpq⟩
        refine .inr ⟨?_, ?_⟩
        · rcases hsame with ⟨rfl, rfl⟩ | ⟨rfl, rfl⟩ <;> rcases hat with hat | hat <;>
            simp [SamePair, hat]
        · rcases hsame with ⟨rfl, rfl⟩ | ⟨rfl, rfl⟩
          · rw [hE.eq_singleton hab] at hr
            exact List.mem_singleton.mp hr
          · rw [hE.symm, hE.eq_singleton hab] at hr
            exact List.mem_singleton.mp hr

end Cut

end Links

end ForStd
