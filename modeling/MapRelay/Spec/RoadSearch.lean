import Mathlib.Algebra.Order.Archimedean.Basic
import MapRelay.Spec.PathSearch

/-!
# The roads at a position, and the ends of a way

The boxes grow until one holds the position. On a map with a road this comes to an end, and what is
found does not depend on the fuel. The ends that `getSrcAndDst` chooses are ends of the roads at the
two positions, and they differ if no road is a loop.
-/

namespace MapRelay.NS3.GeoSvr

open ForStd

variable {K : Type}

namespace Road

/-- The point is an end of the road. -/
def IsEnd (r : Road) (v : Nat) : Prop := v = r.source ∨ v = r.target

instance (r : Road) (v : Nat) : Decidable (r.IsEnd v) := inferInstanceAs (Decidable (_ ∨ _))

/-- The ends of a road are points of the map. -/
theorem IsEnd.lt {m : MsvrMap K} {r : Road} {v : Nat} (h : r.IsEnd v) (hr : r ∈ m.roads) :
    v < m.points.length := by
  rcases h with rfl | rfl
  · exact (m.ends_lt r hr).1
  · exact (m.ends_lt r hr).2

/-- A road joins its two ends. -/
theorem joins_iff {r : Road} {u v : Nat} (hu : r.IsEnd u) (hne : u ≠ v) :
    r.Joins u v ↔ r.IsEnd v := by
  unfold Joins IsEnd at *
  omega

end Road

namespace MsvrMap

/-! ## The growing boxes -/

section Boxes

variable [Field K] {α : Type} {look : K → Option α}

/-- `look` finds `a` when the boxes have grown far enough from `pad` on, and nothing before. -/
inductive Finds (look : K → Option α) : K → α → Prop where
  | here {pad : K} {a : α} (h : look pad = some a) : Finds look pad a
  | later {pad : K} {a : α} (h : look pad = none) (rest : Finds look (pad + 5) a) :
      Finds look pad a

/-- The growing boxes find one thing at most. -/
theorem Finds.unique {pad : K} {a b : α} (h : Finds look pad a) (h' : Finds look pad b) :
    a = b := by
  induction h with
  | here h =>
    cases h' with
    | here h' => exact Option.some.inj (h.symm.trans h')
    | later h' _ => simp [h] at h'
  | later h _ ih =>
    cases h' with
    | here h' => simp [h] at h'
    | later _ rest' => exact ih rest'

/-- What is found has what every result of `look` has. -/
theorem Finds.of_look {P : α → Prop} (hlook : ∀ pad a, look pad = some a → P a) {pad : K} {a : α}
    (h : Finds look pad a) : P a := by
  induction h with
  | here h => exact hlook _ _ h
  | later _ _ ih => exact ih

/-- What the loop returns is found. -/
theorem finds_of_padLoop {fuel : Nat} {pad : K} {a : α} (h : padLoop look fuel pad = .ok a) :
    Finds look pad a := by
  induction fuel generalizing pad with
  | zero => simp [padLoop] at h
  | succ fuel ih =>
    rw [padLoop] at h
    split at h
    next b hlook => exact .here (hlook.trans (congrArg some (Except.ok.inj h)))
    next hlook => exact .later hlook (ih h)

/-- What is found is returned by a loop with enough fuel. -/
theorem Finds.padLoop {pad : K} {a : α} (h : Finds look pad a) :
    ∃ enough, ∀ fuel ≥ enough, padLoop look fuel pad = .ok a := by
  induction h with
  | @here pad a h =>
    refine ⟨1, fun fuel hfuel => ?_⟩
    obtain ⟨fuel, rfl⟩ := Nat.exists_eq_succ_of_ne_zero (Nat.ne_of_gt hfuel)
    simp only [MsvrMap.padLoop, h]
  | @later pad a h _ ih =>
    obtain ⟨enough, henough⟩ := ih
    refine ⟨enough + 1, fun fuel hfuel => ?_⟩
    obtain ⟨fuel, rfl⟩ := Nat.exists_eq_succ_of_ne_zero (by omega : fuel ≠ 0)
    simp only [MsvrMap.padLoop, h]
    exact henough fuel (by omega)

/-- The number of times the boxes have grown when `a` is found. -/
private theorem Finds.exists_growth {pad : K} {a : α} (h : Finds look pad a) :
    ∃ n : Nat, (∀ k < n, look (pad + k * 5) = none) ∧ look (pad + n * 5) = some a := by
  induction h with
  | here h => exact ⟨0, by simp, by simpa using h⟩
  | @later pad a h _ ih =>
    obtain ⟨n, hbefore, hfound⟩ := ih
    have hshift (k : Nat) : pad + ((k + 1 : Nat) : K) * 5 = pad + 5 + k * 5 := by push_cast; ring
    refine ⟨n + 1, fun k hk => ?_, ?_⟩
    · cases k with
      | zero => simpa using h
      | succ k =>
        rw [hshift]
        exact hbefore k (Nat.lt_of_succ_lt_succ hk)
    · rw [hshift]
      exact hfound

/-- What is found at some size is found, there or before. -/
theorem exists_finds {n : Nat} {pad : K} (h : (look (pad + n * 5)).isSome) :
    ∃ a, Finds look pad a := by
  induction n generalizing pad with
  | zero =>
    obtain ⟨a, ha⟩ := Option.isSome_iff_exists.mp h
    exact ⟨a, .here (by simpa using ha)⟩
  | succ n ih =>
    cases hlook : look pad with
    | some a => exact ⟨a, .here hlook⟩
    | none =>
      rw [show pad + ((n + 1 : Nat) : K) * 5 = pad + 5 + n * 5 by push_cast; ring] at h
      obtain ⟨a, ha⟩ := ih h
      exact ⟨a, .later hlook ha⟩

end Boxes

/-! ## What is found on a map -/

section Found

variable {m : MsvrMap K}

/-- The adjacent points are those with a road. -/
@[simp] theorem mem_adjacentVertices {v a : Nat} :
    a ∈ m.adjacentVertices v ↔ m.HasRoad v a := by
  simp only [adjacentVertices, HasRoad, Road.Joins, List.mem_flatMap, List.mem_append]
  refine exists_congr fun r => and_congr_right fun _ => ?_
  constructor
  · rintro (h | h)
    · split at h
      · exact .inl ⟨‹_›, (List.mem_singleton.mp h).symm⟩
      · cases h
    · split at h
      · exact .inr ⟨(List.mem_singleton.mp h).symm, ‹_›⟩
      · cases h
  · rintro (⟨hsource, htarget⟩ | ⟨hsource, htarget⟩)
    · exact .inl (by simp [hsource, htarget])
    · exact .inr (by simp [hsource, htarget])

variable [Field K] [LinearOrder K] {x y pad : K}

/-- The road in a box is a road of the map. -/
theorem mem_of_roadInBox {r : Road} (h : m.roadInBox x y pad = some r) : r ∈ m.roads := by
  obtain ⟨vi, -, h⟩ := List.exists_of_findSome?_eq_some h
  obtain ⟨ai, -, h⟩ := List.exists_of_findSome?_eq_some h
  split at h
  · exact List.mem_of_find?_eq_some h
  · cases h

/-- A box is met from the source of its road. -/
private theorem inBox_of_roadInBox {r : Road} (h : m.roadInBox x y pad = some r) :
    m.InBox x y pad r.source r.target := by
  obtain ⟨vi, -, h⟩ := List.exists_of_findSome?_eq_some h
  obtain ⟨ai, -, h⟩ := List.exists_of_findSome?_eq_some h
  split at h
  next hbox =>
    have hends : r.source = vi ∧ r.target = ai := by simpa using List.find?_some h
    rwa [hends.1, hends.2]
  next => cases h

/-- The pair of points in a box has a road. -/
theorem hasRoad_of_pairInBox {v a : Nat} (h : m.pairInBox x y pad = some (v, a)) :
    m.HasRoad v a := by
  obtain ⟨vi, -, h⟩ := List.exists_of_findSome?_eq_some h
  obtain ⟨ai, hai, h⟩ := List.exists_of_findSome?_eq_some h
  split at h
  · cases h
    exact mem_adjacentVertices.mp hai
  · cases h

/-- If the ends of some road have the position in their box, a road is found. -/
theorem roadInBox_isSome {r : Road} (hr : r ∈ m.roads)
    (hbox : m.InBox x y pad r.source r.target) : (m.roadInBox x y pad).isSome := by
  refine List.findSome?_isSome_iff.mpr ⟨r.source, List.mem_range.mpr (m.ends_lt r hr).1, ?_⟩
  refine List.findSome?_isSome_iff.mpr
    ⟨r.target, mem_adjacentVertices.mpr ⟨r, hr, .inl ⟨rfl, rfl⟩⟩, ?_⟩
  rw [if_pos hbox]
  exact List.find?_isSome.mpr ⟨r, hr, by simp⟩

/-- If the ends of some road have the position in their box, a pair is found. -/
theorem pairInBox_isSome {r : Road} (hr : r ∈ m.roads)
    (hbox : m.InBox x y pad r.source r.target) : (m.pairInBox x y pad).isSome := by
  refine List.findSome?_isSome_iff.mpr ⟨r.source, List.mem_range.mpr (m.ends_lt r hr).1, ?_⟩
  refine List.findSome?_isSome_iff.mpr
    ⟨r.target, mem_adjacentVertices.mpr ⟨r, hr, .inl ⟨rfl, rfl⟩⟩, ?_⟩
  rw [if_pos hbox]
  rfl

/-- Every box reaches the position at some time. -/
theorem exists_inBox [IsStrictOrderedRing K] [Archimedean K] (m : MsvrMap K) (x y : K) (v a : Nat) :
    ∃ n : Nat, m.InBox x y (15 + n * 5) v a := by
  obtain ⟨n, hn⟩ := exists_nat_ge (max (max (min (m.pos v).x (m.pos a).x - x)
    (x - max (m.pos v).x (m.pos a).x)) (max (min (m.pos v).y (m.pos a).y - y)
    (y - max (m.pos v).y (m.pos a).y)))
  obtain ⟨hx, hy⟩ := max_le_iff.mp hn
  obtain ⟨hxmin, hxmax⟩ := max_le_iff.mp hx
  obtain ⟨hymin, hymax⟩ := max_le_iff.mp hy
  have hpos : (0 : K) ≤ n := n.cast_nonneg
  exact ⟨n, by linarith, by linarith, by linarith, by linarith⟩

/-- The loop of `getRoadByPos` ends with `r` after the boxes have grown `n` times. -/
def FoundAt (m : MsvrMap K) (x y : K) (n : Nat) (r : Road) : Prop :=
  (∀ k < n, m.roadInBox x y (15 + k * 5) = none) ∧ m.roadInBox x y (15 + n * 5) = some r

/-- `getRoadByPos` comes to an end. The box of its road holds the position then, and no box did
    when the boxes were smaller. -/
theorem getRoadByPos_tightest [IsStrictOrderedRing K] [Archimedean K] (m : MsvrMap K)
    (hroads : m.roads ≠ []) (x y : K) :
    ∃ n : Nat, ∃ r ∈ m.roads,
      (∃ enough, ∀ fuel ≥ enough, getRoadByPos fuel m x y = .ok r) ∧ m.FoundAt x y n r ∧
      m.InBox x y (15 + n * 5) r.source r.target ∧
      ∀ k < n, ∀ s ∈ m.roads, ¬ m.InBox x y (15 + k * 5) s.source s.target := by
  -- The box of any road reaches the position at last
  obtain ⟨s, hs⟩ := List.exists_mem_of_ne_nil m.roads hroads
  obtain ⟨big, hbig⟩ := m.exists_inBox x y s.source s.target
  obtain ⟨r, hfinds⟩ := exists_finds (roadInBox_isSome hs hbig)
  obtain ⟨n, hbefore, hfound⟩ := hfinds.exists_growth
  refine ⟨n, r, mem_of_roadInBox hfound, hfinds.padLoop, ⟨hbefore, hfound⟩,
    inBox_of_roadInBox hfound, fun k hk s hs hbox => ?_⟩
  have hsome := roadInBox_isSome hs hbox
  rw [hbefore k hk] at hsome
  cases hsome

/-- A street along the `x` axis. -/
def street : MsvrMap ℚ where
  points := [⟨0, 0⟩, ⟨300, 0⟩]
  roads := [⟨0, 1, 7, 30⟩]
  ends_lt := by decide
  id_ne := by decide

/-- A position 40 beside the street. -/
theorem getRoadByPos_tightest_street :
    ∃ n : Nat, ∃ r ∈ street.roads,
      (∃ enough, ∀ fuel ≥ enough, getRoadByPos fuel street 50 40 = .ok r) ∧
      street.FoundAt 50 40 n r ∧ street.InBox 50 40 (15 + n * 5) r.source r.target ∧
      ∀ k < n, ∀ s ∈ street.roads, ¬ street.InBox 50 40 (15 + k * 5) s.source s.target :=
  street.getRoadByPos_tightest (by decide) 50 40

end Found

/-! ## The ends of the way -/

section Ends

variable [Field K] [LinearOrder K] {m : MsvrMap K} {S D s d : Road}

omit [Field K] [LinearOrder K] in
/-- The id of a road leads to a road. -/
theorem exists_roadById {r : Road} (hr : r ∈ m.roads) :
    ∃ d ∈ m.roads, m.roadById r.id = some d := by
  obtain ⟨d, hd⟩ := Option.isSome_iff_exists.mp
    (List.find?_isSome (p := fun r' : Road => r'.id = r.id).mpr ⟨r, hr, by simp⟩)
  exact ⟨d, List.mem_of_find?_eq_some hd, hd⟩

omit [Field K] [LinearOrder K] in
/-- A road that is found by an id has it. -/
theorem id_of_roadById {r : Road} {id : Int32} (h : m.roadById id = some r) : r.id = id := by
  simpa using List.find?_some h

/-- The nearer end of a road is one of its ends. -/
private theorem isEnd_nearerEnd (env : MapEnv K) (m : MsvrMap K) (r : Road) (x y : K) :
    r.IsEnd (nearerEnd env m r x y) := by
  unfold nearerEnd
  split
  · exact .inl rfl
  · exact .inr rfl

/-- `getSrcAndDst` chooses ends of the roads at the two positions, and they differ. -/
theorem chooseEnds_spec (env : MapEnv K) (x1 y1 x2 y2 : K) (hs : m.roadById S.id = some s)
    (hd : m.roadById D.id = some d) (hsloop : s.source ≠ s.target) (hdloop : d.source ≠ d.target) :
    s.IsEnd (chooseEnds env m x1 y1 x2 y2 S D).1 ∧ d.IsEnd (chooseEnds env m x1 y1 x2 y2 S D).2 ∧
      (chooseEnds env m x1 y1 x2 y2 S D).1 ≠ (chooseEnds env m x1 y1 x2 y2 S D).2 := by
  unfold chooseEnds
  by_cases hid : S.id = D.id
  · obtain rfl : s = d := Option.some.inj (hs.symm.trans (hid ▸ hd))
    rw [if_pos hid, hs]
    dsimp only
    split
    · exact ⟨.inl rfl, .inr rfl, hsloop⟩
    · exact ⟨.inr rfl, .inl rfl, hsloop.symm⟩
  · rw [if_neg hid, hs, hd]
    dsimp only
    refine ⟨isEnd_nearerEnd env m s x2 y2, ?_⟩
    have hend := isEnd_nearerEnd env m d x1 y1
    generalize nearerEnd env m s x2 y2 = first at *
    generalize nearerEnd env m d x1 y1 = second at *
    unfold Road.IsEnd at *
    -- If the nearer end is taken already, it is the other one
    split
    · split
      · exact ⟨.inr rfl, by omega⟩
      · exact ⟨.inl rfl, by omega⟩
    · exact ⟨hend, by omega⟩

end Ends

end MsvrMap

end MapRelay.NS3.GeoSvr
