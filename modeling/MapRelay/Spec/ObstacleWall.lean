import MapRelay.ForStd.Frame
import MapRelay.Native.ObstacleLoss

/-!
# A wall between two points

Between any two different points there is room for a building that takes something away from what
is sent from either of them to the other, and the same in both directions. Where the points are
the same, no building does.
-/

namespace MapRelay.NS3

open ForStd

variable {K : Type} [Field K] [LinearOrder K]

/-- What is relied on of CGAL and of the C library: `CGAL::intersection` is a point if the
    segments have one point in common and no other, the range tree finds what is in the window,
    and `sqrt` grows. -/
structure TopologyEnv.Regular (env : TopologyEnv K) : Prop where
  intersection : ∀ a b p q x,
    env.intersection (a, b) (p, q) = some x ↔ segment K a b ∩ segment K p q = {x}
  inWindow : ∀ low high x : Point K, low.1 < x.1 → x.1 < high.1 → low.2 < x.2 → x.2 < high.2 →
    env.inWindow low high x = true
  sqrt : ∀ a b, 0 ≤ a → a < b → env.sqrt a < env.sqrt b

namespace TopologyEnv.Regular

variable {env : TopologyEnv K} (henv : env.Regular) {a b p q x : Point K}
include henv

/-- The order of the ends does not matter. -/
private theorem intersection_swap (s : Point K × Point K) (p q : Point K) :
    env.intersection s (q, p) = env.intersection s (p, q) := by
  obtain ⟨a, b⟩ := s
  refine Option.ext fun x => ?_
  rw [henv.intersection, henv.intersection, segment_symm K q p]

/-- Where the segments do not meet, no point is found. -/
private theorem intersection_eq_none (h : segment K a b ∩ segment K p q = ∅) :
    env.intersection (a, b) (p, q) = none := by
  cases hx : env.intersection (a, b) (p, q) with
  | none => rfl
  | some x =>
    rw [henv.intersection, h] at hx
    exact absurd hx.symm (Set.singleton_ne_empty x)

end TopologyEnv.Regular

variable [IsStrictOrderedRing K]

/-! ## The loop over the edges -/

section Edges

variable {env : TopologyEnv K} {p1 p2 ipoint : Point K} {s : Point K × Point K}

omit [IsStrictOrderedRing K]

/-- An edge that is not met has no say. -/
private theorem intersectEdges_cons_of_none (hnone : env.intersection s (p1, p2) = none)
    (rest : List (Point K × Point K)) (found : K × K × Int) :
    intersectEdges env p1 p2 (s :: rest) found = intersectEdges env p1 p2 rest found := by
  rw [intersectEdges, hnone]

/-- An edge that is met changes the least and the greatest distance. -/
private theorem intersectEdges_cons_of_some (hsome : env.intersection s (p1, p2) = some ipoint)
    {d : K} (hd : (ipoint.1 - p1.1) * (ipoint.1 - p1.1) + (ipoint.2 - p1.2) * (ipoint.2 - p1.2) = d)
    (rest : List (Point K × Point K)) (dMin dMax : K) (intersections : Int) :
    intersectEdges env p1 p2 (s :: rest) (dMin, dMax, intersections) =
      intersectEdges env p1 p2 rest (min d dMin, max dMax d, intersections + 1) := by
  rw [intersectEdges, hsome]
  simp only [hd, min_def_lt, max_def_lt, gt_iff_lt]

end Edges

/-! ## No way at all -/

/-- The loop finds no distance other than zero between two points that are the same. -/
private theorem intersectEdges_same {env : TopologyEnv K} (henv : env.Regular) (p : Point K)
    (edges : List (Point K × Point K)) {found : K × K × Int} (h : found.2.1 ≤ 0) :
    (intersectEdges env p p edges found).2.1 ≤ 0 := by
  induction edges generalizing found with
  | nil => exact h
  | cons s edges ih =>
    obtain ⟨a, b⟩ := s
    obtain ⟨dMin, dMax, intersections⟩ := found
    rw [intersectEdges]
    cases hx : env.intersection (a, b) (p, p) with
    | none => exact ih h
    | some x =>
      -- The point of intersection is the one at which the segment begins and ends
      have hmem : x ∈ segment K p p := by
        have hinter := (henv.intersection a b p p x).mp hx
        exact (hinter ▸ Set.mem_singleton x : x ∈ segment K a b ∩ segment K p p).2
      obtain rfl : x = p := by rwa [segment_same] at hmem
      refine ih ?_
      dsimp only
      split
      · simp
      · exact h

/-- Between a point and itself nothing is obstructed. -/
private theorem getObstructedDistance_same {env : TopologyEnv K} (henv : env.Regular) (p : Point K)
    (o : Obstacle K) : (getObstructedDistance env p p o).1 = 0 := by
  have hstart : (-999999999 : K) ≤ 0 := by norm_num
  have hle := intersectEdges_same henv p o.edges
    (show ((999999999 : K), (-999999999 : K), (0 : Int)).2.1 ≤ 0 from hstart)
  rw [getObstructedDistance]
  generalize intersectEdges env p p o.edges (999999999, -999999999, 0) = found at hle
  obtain ⟨dMin, dMax, intersections⟩ := found
  exact congrArg Prod.fst (if_neg fun h => absurd h.2 (not_lt_of_ge hle))

/-- Between a point and itself no obstacle causes a loss. -/
private theorem obstacleLoss_same {env : TopologyEnv K} (henv : env.Regular) {c : LossCall K}
    (hsame : c.p1 = c.p2) (o : Obstacle K) : obstacleLoss env c o = 0 := by
  have hzero := getObstructedDistance_same henv c.p1 o
  rw [obstacleLoss, ← hsame]
  exact if_neg fun h => absurd h.1 (not_lt_of_ge hzero.le)

omit [IsStrictOrderedRing K] in
/-- The losses of the obstacles are added up. -/
private theorem foldl_obstacleLoss (env : TopologyEnv K) (c : LossCall K) (os : List (Obstacle K)) :
    os.foldl (fun loss o => loss + obstacleLoss env c o) 0 = (os.map (obstacleLoss env c)).sum := by
  rw [List.sum_eq_foldl, List.foldl_map]

/-- Between a point and itself there is no loss within the range. -/
theorem computeLoss_same {env : TopologyEnv K} (henv : env.Regular) (topology : Topology K)
    {c : LossCall K} (hsame : c.p1 = c.p2) :
    computeLoss env topology c = if inLossRange c then 0 else 9999 := by
  rw [computeLoss]
  cases inLossRange c with
  | false => rfl
  | true =>
    dsimp only
    rw [if_pos rfl, if_pos rfl, foldl_obstacleLoss]
    refine List.sum_eq_zero fun loss hloss => ?_
    obtain ⟨o, -, rfl⟩ := List.mem_map.mp hloss
    exact obstacleLoss_same henv hsame o

/-! ## The wall -/

/-- How far the wall is from the points, as a part of the way, and half its length. -/
def wallWidth (p q : Point K) : K := 1 / (4 * (1 + (|q.1 - p.1| + |q.2 - p.2|)))

/-- A rectangle across the way from `p` to `q`, with the losses of the constructor. -/
def wallBetween (p q : Point K) : Obstacle K where
  polygon :=
    let t := wallWidth p q
    [frame p q (t, t), frame p q (1 - t, t), frame p q (1 - t, -t), frame p q (t, -t)]
  beta := 9
  gamma := 2 / 5

/-- The wall is thin, whatever the points are. -/
private theorem wallWidth_bounds (p q : Point K) : 0 < wallWidth p q ∧ wallWidth p q ≤ 1 / 4 ∧
    wallWidth p q * |q.1 - p.1| < 1 ∧ wallWidth p q * |q.2 - p.2| < 1 ∧
      wallWidth p q * (|q.1 - p.1| + |q.2 - p.2|) < 1 := by
  have hx := abs_nonneg (q.1 - p.1)
  have hy := abs_nonneg (q.2 - p.2)
  have hpos : 0 < 4 * (1 + (|q.1 - p.1| + |q.2 - p.2|)) := by linarith
  refine ⟨one_div_pos.mpr hpos, one_div_le_one_div_of_le (by norm_num) (by linarith), ?_, ?_, ?_⟩
  all_goals
    rw [wallWidth, one_div_mul_eq_div, div_lt_one hpos]
    linarith

/-- The square of the way from `p` to the nearer side of the wall. -/
def nearSq (p q : Point K) : K :=
  wallWidth p q ^ 2 * ((q.1 - p.1) ^ 2 + (q.2 - p.2) ^ 2)

/-- The square of the way from `p` to the farther side. -/
def farSq (p q : Point K) : K :=
  (1 - wallWidth p q) ^ 2 * ((q.1 - p.1) ^ 2 + (q.2 - p.2) ^ 2)

/-- The wall is nearer than the value that the minimum starts with, and it is not flat. -/
private theorem nearSq_bounds {p q : Point K} (h : p ≠ q) :
    0 < nearSq p q ∧ nearSq p q < 999999999 ∧ nearSq p q < farSq p q := by
  obtain ⟨hpos, hle, -, -, hsum⟩ := wallWidth_bounds p q
  have hdist := distSq_pos h
  -- The square of the distance is at most that of the sum of the coordinates
  have hsq : (q.1 - p.1) ^ 2 + (q.2 - p.2) ^ 2 ≤ (|q.1 - p.1| + |q.2 - p.2|) ^ 2 := by
    rw [← sq_abs (q.1 - p.1), ← sq_abs (q.2 - p.2)]
    have := mul_nonneg (abs_nonneg (q.1 - p.1)) (abs_nonneg (q.2 - p.2))
    linarith [add_sq |q.1 - p.1| |q.2 - p.2|]
  refine ⟨mul_pos (pow_pos hpos 2) hdist, ?_, mul_lt_mul_of_pos_right ?_ hdist⟩
  -- The wall is as narrow as the distance is long, so the square stays below 1
  · have hone : (wallWidth p q * (|q.1 - p.1| + |q.2 - p.2|)) ^ 2 ≤ 1 := by
      have hnonneg : 0 ≤ wallWidth p q * (|q.1 - p.1| + |q.2 - p.2|) :=
        mul_nonneg hpos.le (add_nonneg (abs_nonneg _) (abs_nonneg _))
      exact pow_le_one₀ hnonneg hsum.le
    have hnear : nearSq p q ≤ (wallWidth p q * (|q.1 - p.1| + |q.2 - p.2|)) ^ 2 := by
      rw [nearSq, mul_pow]
      exact mul_le_mul_of_nonneg_left hsq (sq_nonneg _)
    linarith
  · exact pow_lt_pow_left₀ (by linarith) hpos.le two_ne_zero

section Wall

variable {env : TopologyEnv K} (henv : env.Regular) {p q : Point K} (h : p ≠ q)
include henv h

/-- The sides across the way meet it, and the sides along it do not. -/
private theorem intersection_wallBetween :
    let t := wallWidth p q
    env.intersection (frame p q (t, t), frame p q (1 - t, t)) (p, q) = none ∧
      env.intersection (frame p q (1 - t, t), frame p q (1 - t, -t)) (p, q) =
        some (frame p q (1 - t, 0)) ∧
      env.intersection (frame p q (1 - t, -t), frame p q (t, -t)) (p, q) = none ∧
      env.intersection (frame p q (t, -t), frame p q (t, t)) (p, q) = some (frame p q (t, 0)) := by
  obtain ⟨hpos, hle, -⟩ := wallWidth_bounds p q
  -- The long sides run beside the line of sight
  refine ⟨henv.intersection_eq_none (inter_frame_along h hpos.ne' _ _), ?_,
    henv.intersection_eq_none (inter_frame_along h (neg_ne_zero.mpr hpos.ne') _ _), ?_⟩
  -- The short sides cross it, near the end and near the start
  · exact (henv.intersection ..).mpr (inter_frame_across h (by linarith) (by linarith) _)
  · have hacross := inter_frame_across h hpos.le (by linarith) (-wallWidth p q)
    rw [neg_neg] at hacross
    exact (henv.intersection ..).mpr hacross

omit henv h [IsStrictOrderedRing K] in
/-- The four edges of the wall. -/
private theorem edges_wallBetween (p q : Point K) :
    let t := wallWidth p q
    (wallBetween p q).edges =
      [(frame p q (t, t), frame p q (1 - t, t)), (frame p q (1 - t, t), frame p q (1 - t, -t)),
        (frame p q (1 - t, -t), frame p q (t, -t)), (frame p q (t, -t), frame p q (t, t))] := rfl

/-- From `p` the farther side is met first. -/
private theorem intersectEdges_wallBetween :
    intersectEdges env p q (wallBetween p q).edges (999999999, -999999999, 0) =
      (nearSq p q, farSq p q, 2) := by
  obtain ⟨hside, hfar, hside', hnear⟩ := intersection_wallBetween henv h
  obtain ⟨hpos, hbound, hlt⟩ := nearSq_bounds h
  -- The squared distances from `p` are those along the line of sight
  have hsq : ∀ x, ((frame p q (x, 0)).1 - p.1) * ((frame p q (x, 0)).1 - p.1) +
      ((frame p q (x, 0)).2 - p.2) * ((frame p q (x, 0)).2 - p.2) =
        x ^ 2 * ((q.1 - p.1) ^ 2 + (q.2 - p.2) ^ 2) := fun x => by
    rw [frame_apply]
    ring
  rw [edges_wallBetween, intersectEdges_cons_of_none hside,
    intersectEdges_cons_of_some hfar (hsq _), intersectEdges_cons_of_none hside',
    intersectEdges_cons_of_some hnear (hsq _), intersectEdges]
  -- The nearer crossing is the least, the farther one the greatest
  have hmin : min (nearSq p q) (min (farSq p q) 999999999) = nearSq p q :=
    min_eq_left (le_min hlt.le hbound.le)
  have hmax : max (max (-999999999) (farSq p q)) (nearSq p q) = farSq p q := by
    rw [max_eq_right (by linarith : -999999999 ≤ farSq p q), max_eq_left hlt.le]
  exact Prod.ext hmin (Prod.ext hmax rfl)

/-- From `q` the sides are met the other way round, at the same distances. -/
private theorem intersectEdges_wallBetween_swap :
    intersectEdges env q p (wallBetween p q).edges (999999999, -999999999, 0) =
      (nearSq p q, farSq p q, 2) := by
  obtain ⟨hside, hfar, hside', hnear⟩ := intersection_wallBetween henv h
  obtain ⟨hpos, hbound, hlt⟩ := nearSq_bounds h
  -- Seen from `q` the distances count from the other end
  have hsq : ∀ x, ((frame p q (x, 0)).1 - q.1) * ((frame p q (x, 0)).1 - q.1) +
      ((frame p q (x, 0)).2 - q.2) * ((frame p q (x, 0)).2 - q.2) =
        (1 - x) ^ 2 * ((q.1 - p.1) ^ 2 + (q.2 - p.2) ^ 2) := fun x => by
    rw [frame_apply]
    ring
  have hsqFar := hsq (1 - wallWidth p q)
  rw [sub_sub_cancel] at hsqFar
  -- Exchanging the ends of the line of sight changes no crossing
  rw [← henv.intersection_swap] at hside hfar hside' hnear
  rw [edges_wallBetween, intersectEdges_cons_of_none hside,
    intersectEdges_cons_of_some hfar hsqFar, intersectEdges_cons_of_none hside',
    intersectEdges_cons_of_some hnear (hsq _), intersectEdges]
  -- From `q` the far side is the nearer one
  have hmin : min (farSq p q) (min (nearSq p q) 999999999) = nearSq p q := by
    rw [min_eq_left hbound.le, min_eq_right hlt.le]
  have hmax : max (max (-999999999) (nearSq p q)) (farSq p q) = farSq p q :=
    max_eq_right (max_le (by linarith) hlt.le)
  exact Prod.ext hmin (Prod.ext hmax rfl)

/-- The way through the wall is the same in both directions. -/
private theorem getObstructedDistance_wallBetween :
    let d := env.sqrt (farSq p q) - env.sqrt (nearSq p q)
    0 < d ∧ getObstructedDistance env p q (wallBetween p q) = (d, 2) ∧
      getObstructedDistance env q p (wallBetween p q) = (d, 2) := by
  obtain ⟨hpos, hbound, hlt⟩ := nearSq_bounds h
  refine ⟨sub_pos.mpr (henv.sqrt _ _ hpos.le hlt), ?_, ?_⟩
  · rw [getObstructedDistance, intersectEdges_wallBetween henv h]
    simp only [gt_iff_lt, hbound, hpos.trans hlt, and_self, if_true, hlt.ne, if_false]
  · rw [getObstructedDistance, intersectEdges_wallBetween_swap henv h]
    simp only [gt_iff_lt, hbound, hpos.trans hlt, and_self, if_true, hlt.ne, if_false]

end Wall

/-! ## The wall is found -/

/-- A point between `a` and `b`. -/
private theorem between_bounds {a b x : K} (hx : 0 ≤ x) (hx' : x ≤ 1) :
    min a b ≤ a + x * (b - a) ∧ a + x * (b - a) ≤ max a b := by
  have hleft := mul_nonneg (sub_nonneg.mpr hx') (sub_nonneg.mpr (min_le_left a b))
  have hright := mul_nonneg hx (sub_nonneg.mpr (min_le_right a b))
  have hleft' := mul_nonneg (sub_nonneg.mpr hx') (sub_nonneg.mpr (le_max_left a b))
  have hright' := mul_nonneg hx (sub_nonneg.mpr (le_max_right a b))
  constructor
  · linarith
  · linarith

/-- A point near the way is in the box around its ends, or a metre away from it at most. -/
private theorem frame_bounds (p q : Point K) {x y : K} (hx : 0 ≤ x) (hx' : x ≤ 1)
    (hy : |y| = wallWidth p q) :
    (min p.1 q.1 - 1000 < (frame p q (x, y)).1 ∧ (frame p q (x, y)).1 < max p.1 q.1 + 1000) ∧
      min p.2 q.2 - 1000 < (frame p q (x, y)).2 ∧ (frame p q (x, y)).2 < max p.2 q.2 + 1000 := by
  obtain ⟨-, -, hone, htwo, -⟩ := wallWidth_bounds p q
  rw [← hy, ← abs_mul, abs_lt] at hone htwo
  obtain ⟨hmin, hmax⟩ := between_bounds (a := p.1) (b := q.1) hx hx'
  obtain ⟨hmin', hmax'⟩ := between_bounds (a := p.2) (b := q.2) hx hx'
  simp only [frame_apply]
  refine ⟨⟨?_, ?_⟩, ?_, ?_⟩ <;> linarith

/-- The corner that `Locate` takes for the centre is in every window around the points. -/
private theorem getCenter_wallBetween (p q : Point K) :
    (min p.1 q.1 - 1000 < (wallBetween p q).getCenter.1 ∧
        (wallBetween p q).getCenter.1 < max p.1 q.1 + 1000) ∧
      min p.2 q.2 - 1000 < (wallBetween p q).getCenter.2 ∧
        (wallBetween p q).getCenter.2 < max p.2 q.2 + 1000 := by
  obtain ⟨hpos, hle, -⟩ := wallWidth_bounds p q
  -- Each corner of the wall is within 1000 m of the ends
  have habs : |wallWidth p q| = wallWidth p q := abs_of_pos hpos
  have habs' : |-wallWidth p q| = wallWidth p q := by rw [abs_neg, habs]
  obtain ⟨⟨h1, h1'⟩, h2, h2'⟩ := frame_bounds p q hpos.le (by linarith) habs
  obtain ⟨⟨h3, h3'⟩, h4, h4'⟩ :=
    frame_bounds p q (by linarith : 0 ≤ 1 - wallWidth p q) (by linarith) habs
  obtain ⟨⟨h5, h5'⟩, h6, h6'⟩ :=
    frame_bounds p q (by linarith : 0 ≤ 1 - wallWidth p q) (by linarith) habs'
  obtain ⟨⟨h7, h7'⟩, h8, h8'⟩ := frame_bounds p q hpos.le (by linarith) habs'
  simp only [Obstacle.getCenter, wallBetween, List.foldl_cons, List.foldl_nil,
    add_sub_cancel]
  -- The centre is made of the greatest coordinates of the corners
  exact ⟨⟨lt_max_of_lt_right h7, max_lt (max_lt (max_lt h1' h3') h5') h7'⟩,
    lt_max_of_lt_right h8, max_lt (max_lt (max_lt h2' h4') h6') h8'⟩

/-! ## What the wall takes away -/

/-- The loss behind the wall on the data channel. -/
def wallLoss (env : TopologyEnv K) (p q : Point K) : K :=
  let d := env.sqrt (farSq p q) - env.sqrt (nearSq p q)
  9 * ((if d < 2 then 1 else 2 : Int) : K) + 2 / 5 * d

/-- The call is for these points, in either order. -/
def LossCall.Between (c : LossCall K) (p q : Point K) : Prop :=
  (c.p1 = p ∧ c.p2 = q) ∨ (c.p1 = q ∧ c.p2 = p)

variable {env : TopologyEnv K} (henv : env.Regular) {p q : Point K} (h : p ≠ q)
include henv h

/-- The wall causes a loss. -/
theorem wallLoss_pos : 0 < wallLoss env p q := by
  obtain ⟨hd, -⟩ := getObstructedDistance_wallBetween henv h
  have hwalls : (0 : K) < ((if env.sqrt (farSq p q) - env.sqrt (nearSq p q) < 2 then 1 else 2 :
      Int) : K) := by
    split <;> norm_num
  exact add_pos (mul_pos (by norm_num) hwalls) (mul_pos (by norm_num) hd)

/-- The loss that the wall causes, on either channel. -/
private theorem obstacleLoss_wallBetween {c : LossCall K} (hc : c.Between p q) :
    obstacleLoss env c (wallBetween p q) =
      if c.forbeacon then 3 / 4 * wallLoss env p q else wallLoss env p q := by
  obtain ⟨hd, hforth, hback⟩ := getObstructedDistance_wallBetween henv h
  -- Both directions give the same distance through the wall
  have hdist : getObstructedDistance env c.p1 c.p2 (wallBetween p q) =
      (env.sqrt (farSq p q) - env.sqrt (nearSq p q), 2) := by
    rcases hc with ⟨rfl, rfl⟩ | ⟨rfl, rfl⟩
    · exact hforth
    · exact hback
  rw [obstacleLoss, hdist]
  -- A beacon loses three quarters
  dsimp only
  rw [if_pos ⟨hd, by decide⟩, wallLoss]
  cases c.forbeacon with
  | false => rfl
  | true =>
    simp only [if_true, wallBetween]
    ring

/-- The losses behind several such walls are added up. -/
theorem computeLoss_walls {c : LossCall K} (hc : c.Between p q) (k : Nat) :
    computeLoss env (List.replicate k (wallBetween p q)) c =
      if inLossRange c then
        k * (if c.forbeacon then 3 / 4 * wallLoss env p q else wallLoss env p q)
      else 9999 := by
  have hcentre := getCenter_wallBetween p q
  -- The wall is in the window of the query, from whichever end it is asked
  have hwindow : env.inWindow (min c.p1.1 c.p2.1 - 1000, min c.p1.2 c.p2.2 - 1000)
      (max c.p1.1 c.p2.1 + 1000, max c.p1.2 c.p2.2 + 1000) (wallBetween p q).getCenter = true := by
    rcases hc with ⟨rfl, rfl⟩ | ⟨rfl, rfl⟩
    · exact henv.inWindow _ _ _ hcentre.1.1 hcentre.1.2 hcentre.2.1 hcentre.2.2
    · simp only [min_comm c.p2.1, max_comm c.p2.1, min_comm c.p2.2, max_comm c.p2.2] at hcentre
      exact henv.inWindow _ _ _ hcentre.1.1 hcentre.1.2 hcentre.2.1 hcentre.2.2
  have hfound : windowQuery env (List.replicate k (wallBetween p q))
      (min c.p1.1 c.p2.1 - 1000, min c.p1.2 c.p2.2 - 1000)
      (max c.p1.1 c.p2.1 + 1000, max c.p1.2 c.p2.2 + 1000) =
        List.replicate k (wallBetween p q) := List.filter_replicate_of_pos hwindow
  rw [computeLoss]
  -- Out of range nothing is looked for
  cases inLossRange c with
  | false => rfl
  | true =>
    dsimp only
    rw [if_pos rfl, if_pos rfl, hfound, foldl_obstacleLoss, List.map_replicate, List.sum_replicate,
      obstacleLoss_wallBetween henv h hc, nsmul_eq_mul]

end MapRelay.NS3
