import MapRelay.ForStd.Choice
import MapRelay.Spec.PathRestore

/-!
# The choice of `findMeanMin`

The first loop finds the least sum and notes whether it came once or more often. If it came more
often, the second loop takes the least deviation, not of the paths with that sum but of all. Both
work with sums in an `int`, which a path over a road that is used up can exceed.
-/

namespace MapRelay.NS3.GeoSvr

open ForStd MsvrMap

/-! ## Sums of types -/

/-- The sum of the types as a number. -/
def total (types : List Int32) : Int := (types.map Int32.toInt).sum

/-- No types sum up to zero. -/
@[simp] theorem total_nil : total [] = 0 := rfl

/-- The sum begins with the first type. -/
@[simp] theorem total_cons (type : Int32) (types : List Int32) :
    total (type :: types) = type.toInt + total types := rfl

/-- No sum on the way over the types leaves the range of an `int`. -/
def NoOverflow (types : List Int32) : Prop :=
  ∀ front, front <+: types → -2147483648 ≤ total front ∧ total front ≤ 2147483647

/-- Where no sum on the way overflows, the loop adds up as numbers do. -/
private theorem toInt_foldl_add {types : List Int32} {a : Int32}
    (h : ∀ front, front <+: types →
      -2147483648 ≤ a.toInt + total front ∧ a.toInt + total front ≤ 2147483647) :
    (types.foldl (· + ·) a).toInt = a.toInt + total types := by
  induction types generalizing a with
  | nil => simp
  | cons type types ih =>
    -- The first addition is exact
    have hstep : (a + type).toInt = a.toInt + type.toInt := by
      have hfirst := h [type] (by simp)
      simp only [total_cons, total_nil, add_zero] at hfirst
      rw [Int32.toInt_add]
      exact Int.bmod_eq_of_le (by omega) (by omega)
    rw [List.foldl_cons, ih, hstep, total_cons, add_assoc]
    intro front hfront
    have hlonger := h (type :: front) (List.cons_prefix_cons.mpr ⟨rfl, hfront⟩)
    rw [total_cons] at hlonger
    rw [hstep]
    omega

/-- Where no sum overflows, `typeSum` is the sum. -/
private theorem toInt_typeSum {types : List Int32} (h : NoOverflow types) :
    (typeSum types).toInt = total types := by
  have hsum : (types.foldl (· + ·) 0).toInt = (0 : Int32).toInt + total types :=
    toInt_foldl_add (by simpa [NoOverflow] using h)
  simpa [typeSum] using hsum

/-! ## The two loops -/

section Loops

variable {i index cnt : Nat} {imax : Int32} {cands before after : List (List Int32)}
  {types : List Int32}

/-- Sums above the least one so far change nothing. -/
private theorem sumLoop_of_lt (h : ∀ other ∈ cands, imax < typeSum other) :
    sumLoop cands i (index, cnt, imax) = (index, cnt, imax) := by
  induction cands generalizing i with
  | nil => rfl
  | cons other cands ih =>
    have hother := h other List.mem_cons_self
    rw [sumLoop, if_neg (fun hlt => Int32.lt_irrefl (Int32.lt_trans hlt hother)),
      if_neg (Int32.ne_of_lt hother).symm]
    exact ih fun u hu => h u (List.mem_cons_of_mem other hu)

/-- A sum below all others is found, and counted once. -/
private theorem sumLoop_of_only (hmax : typeSum types < imax)
    (hbefore : ∀ other ∈ before, typeSum types < typeSum other)
    (hafter : ∀ other ∈ after, typeSum types < typeSum other) :
    sumLoop (before ++ types :: after) i (index, cnt, imax) =
      (i + before.length, 1, typeSum types) := by
  -- Up to the least element the loop changes nothing for good
  induction before generalizing i index cnt imax with
  | nil =>
    rw [List.nil_append, sumLoop, if_pos hmax]
    exact sumLoop_of_lt hafter
  | cons other before ih =>
    have hother := hbefore other List.mem_cons_self
    have hrest : ∀ u ∈ before, typeSum types < typeSum u := fun u hu =>
      hbefore u (List.mem_cons_of_mem other hu)
    rw [List.cons_append, sumLoop, List.length_cons, show i + (before.length + 1) =
      i + 1 + before.length by omega]
    -- Whatever the other element does to the counter, the least one is still to come
    split
    · exact ih hother hrest
    · split
      · exact ih hmax hrest
      · exact ih hmax hrest

/-- If the least sum was counted once, then it is one sum below all others. -/
private theorem only_of_sumLoop (h : (sumLoop cands i (index, cnt, imax)).2.1 = 1) :
    (cnt = 1 ∧ ∀ other ∈ cands, imax < typeSum other) ∨
      ∃ before types after, cands = before ++ types :: after ∧ typeSum types < imax ∧
        ∀ other ∈ before ++ after, typeSum types < typeSum other := by
  induction cands generalizing i index cnt imax with
  | nil => exact .inl ⟨h, by simp⟩
  | cons other cands ih =>
    rw [sumLoop] at h
    split at h
    -- A new least sum sets the count to one, an equal one raises it
    case isTrue hlt =>
      rcases ih h with ⟨-, habove⟩ | ⟨before, types, after, rfl, htypes, habove⟩
      · exact .inr ⟨[], other, cands, rfl, hlt, habove⟩
      · exact .inr ⟨other :: before, types, after, rfl, Int32.lt_trans htypes hlt,
          List.forall_mem_cons.mpr ⟨htypes, habove⟩⟩
    case isFalse hge =>
      split at h
      case isTrue heq =>
        rcases ih h with ⟨htwo, -⟩ | ⟨before, types, after, rfl, htypes, habove⟩
        · exact absurd htwo (by decide)
        · exact .inr ⟨other :: before, types, after, rfl, htypes,
            List.forall_mem_cons.mpr ⟨heq ▸ htypes, habove⟩⟩
      case isFalse hne =>
        have hlt : imax < typeSum other := by
          rw [Int32.lt_iff_toInt_lt] at hge ⊢
          rw [← Int32.toInt_inj] at hne
          omega
        rcases ih h with ⟨hone, habove⟩ | ⟨before, types, after, rfl, htypes, habove⟩
        · exact .inl ⟨hone, List.forall_mem_cons.mpr ⟨hlt, habove⟩⟩
        · exact .inr ⟨other :: before, types, after, rfl, htypes,
            List.forall_mem_cons.mpr ⟨Int32.lt_trans htypes hlt, habove⟩⟩

variable {K : Type} [LinearOrder K] {mean : K} {means front back : List K} {max : Option K}

/-- The loop over the deviations keeps a choice that nothing undercuts. -/
private theorem meanLoop_of_le (h : ∀ other ∈ means, mean ≤ other) :
    meanLoop means i index (some mean) = index := by
  induction means generalizing i with
  | nil => rfl
  | cons other means ih =>
    have hother := h other List.mem_cons_self
    rw [meanLoop, if_neg (by simpa using hother)]
    exact ih fun u hu => h u (List.mem_cons_of_mem other hu)

/-- The loop over the sums chooses one of the candidates. -/
private theorem sumLoop_lt {n : Nat} (h : index < n) (hn : i + cands.length ≤ n) :
    (sumLoop cands i (index, cnt, imax)).1 < n := by
  induction cands generalizing i index cnt imax with
  | nil => exact h
  | cons other cands ih =>
    rw [List.length_cons] at hn
    rw [sumLoop]
    split
    · exact ih (by omega) (by omega)
    · split
      · exact ih h (by omega)
      · exact ih h (by omega)

/-- So does the loop over the deviations. -/
private theorem meanLoop_lt {n : Nat} (h : index < n) (hn : i + means.length ≤ n) :
    meanLoop means i index max < n := by
  induction means generalizing i index max with
  | nil => exact h
  | cons other means ih =>
    rw [List.length_cons] at hn
    rw [meanLoop]
    split
    · exact ih (by omega) (by omega)
    · exact ih h (by omega)

/-- The second loop finds the first of the least means. -/
private theorem meanLoop_of_first (hmax : ∀ d ∈ max, mean < d)
    (hfront : ∀ other ∈ front, mean < other) (hback : ∀ other ∈ back, mean ≤ other) :
    meanLoop (front ++ mean :: back) i index max = i + front.length := by
  -- The mean of the first element may become the best so far, `mean` is smaller
  induction front generalizing i index max with
  | nil =>
    rw [List.nil_append, meanLoop, if_pos hmax]
    exact meanLoop_of_le hback
  | cons other front ih =>
    have hrest : ∀ u ∈ front, mean < u := fun u hu => hfront u (List.mem_cons_of_mem other hu)
    rw [List.cons_append, meanLoop, List.length_cons, show i + (front.length + 1) =
      i + 1 + front.length by omega]
    split
    · refine ih ?_ hrest
      rintro d ⟨rfl⟩
      exact hfront other List.mem_cons_self
    · exact ih hmax hrest

end Loops

/-! ## The candidate that is chosen -/

section Choice

variable {K : Type} [Field K] [LinearOrder K] {env : MapEnv K} {cands : List (List Int32)}

/-- The sums are exact, and the candidate in the place `index` has the least sum, and of those with
    that sum the least deviation. -/
structure RightChoice (env : MapEnv K) (cands : List (List Int32)) (index : Nat) : Prop where
  noOverflow : ∀ types ∈ cands, NoOverflow types
  least : ∃ types, cands[index]? = some types ∧ (∀ other ∈ cands, total types ≤ total other) ∧
    ∀ other ∈ cands, total other = total types → deviation env types ≤ deviation env other

/-- One candidate has a smaller sum than all the others. -/
def OneLeast (cands : List (List Int32)) : Prop :=
  ∃ before types after, cands = before ++ types :: after ∧
    ∀ other ∈ before ++ after, total types < total other

/-- The first of the candidates with the least deviation has the least sum. -/
def SteadiestLeast (env : MapEnv K) (cands : List (List Int32)) : Prop :=
  ∃ before types after, cands = before ++ types :: after ∧
    (∀ other ∈ before, deviation env types < deviation env other) ∧
    (∀ other ∈ after, deviation env types ≤ deviation env other) ∧
    ∀ other ∈ cands, total types ≤ total other

/-- Some candidate is the first with the least deviation. -/
private theorem exists_steadiest (env : MapEnv K) (hne : cands ≠ []) :
    ∃ before types after, cands = before ++ types :: after ∧
      (∀ other ∈ before, deviation env types < deviation env other) ∧
      ∀ other ∈ after, deviation env types ≤ deviation env other := by
  cases h : firstBest (fun types => OrderDual.toDual (deviation env types)) cands with
  | none => exact absurd (firstBest_eq_none.mp h) hne
  | some types =>
    obtain ⟨before, after, rfl, hbefore, hafter⟩ := append_of_firstBest h
    exact ⟨before, types, after, rfl, hbefore, hafter⟩

/-- The second loop stops at the first of the least deviations. -/
private theorem meanLoop_deviations {before after : List (List Int32)} {types : List Int32}
    (index : Nat) (hbefore : ∀ other ∈ before, deviation env types < deviation env other)
    (hafter : ∀ other ∈ after, deviation env types ≤ deviation env other) :
    meanLoop ((before ++ types :: after).map (deviation env)) 0 index none = before.length := by
  rw [List.map_append, List.map_cons, meanLoop_of_first (by simp) (by simpa using hbefore)
    (by simpa using hafter), List.length_map, Nat.zero_add]

/-- Where no sum overflows, the sums compare as numbers do. -/
private theorem typeSum_lt_iff {types other : List Int32} (h : NoOverflow types)
    (h' : NoOverflow other) :
    typeSum types < typeSum other ↔ total types < total other := by
  rw [Int32.lt_iff_toInt_lt, toInt_typeSum h, toInt_typeSum h']

/-- Of sums that do not overflow, those in an `int` compare like the numbers. -/
private theorem forall_typeSum_lt_iff {before after : List (List Int32)} {types : List Int32}
    (hfit : ∀ other ∈ before ++ types :: after, NoOverflow other) :
    (∀ other ∈ before ++ after, typeSum types < typeSum other) ↔
      ∀ other ∈ before ++ after, total types < total other := by
  refine forall₂_congr fun other hother => typeSum_lt_iff (hfit types (by simp)) (hfit other ?_)
  rcases List.mem_append.mp hother with hother | hother
  · simp [hother]
  · simp [hother]

/-- If the first loop does not find one least sum although there is one, then there is only one
    candidate, and its sum is that with which the loop starts. -/
private theorem OneLeast.steadiest (h : OneLeast cands) (hfit : ∀ types ∈ cands, NoOverflow types)
    (hcount : (sumLoop cands 0 (0, 0, intMax)).2.1 ≠ 1) : SteadiestLeast env cands := by
  obtain ⟨before, types, after, rfl, habove⟩ := h
  have hsum := (forall_typeSum_lt_iff hfit).mpr habove
  have hmax : ¬ typeSum types < intMax := by
    intro hlt
    rw [sumLoop_of_only hlt (fun u hu => hsum u (by simp [hu]))
      (fun u hu => hsum u (by simp [hu]))] at hcount
    exact hcount rfl
  -- No sum is above that of the candidate
  have hnone : before ++ after = [] := by
    refine List.eq_nil_iff_forall_not_mem.mpr fun other hother => ?_
    have hlt := hsum other hother
    have hle := Int32.toInt_le (typeSum other)
    rw [Int32.lt_iff_toInt_lt] at hlt hmax
    have heq : intMax.toInt = Int32.maxValue.toInt := by decide
    omega
  obtain ⟨rfl, rfl⟩ := List.append_eq_nil_iff.mp hnone
  exact ⟨[], types, [], rfl, by simp, by simp, by simp⟩

omit [Field K] in
/-- With one least sum, its candidate is chosen. -/
private theorem findMeanMin_of_count (means : List K)
    (h : (sumLoop cands 0 (0, 0, intMax)).2.1 = 1) :
    findMeanMin cands means = (sumLoop cands 0 (0, 0, intMax)).1 := if_pos h

omit [Field K] in
/-- Otherwise the least deviation decides, of all the candidates. -/
private theorem findMeanMin_of_count_ne (means : List K)
    (h : (sumLoop cands 0 (0, 0, intMax)).2.1 ≠ 1) :
    findMeanMin cands means = meanLoop means 0 (sumLoop cands 0 (0, 0, intMax)).1 none := if_neg h

omit [Field K] in
/-- The choice is one of the candidates. -/
theorem findMeanMin_lt {means : List K} (hne : cands ≠ []) (hlen : means.length = cands.length) :
    findMeanMin cands means < cands.length := by
  have hpos : 0 < cands.length := List.length_pos_iff.mpr hne
  have hsum : (sumLoop cands 0 (0, 0, intMax)).1 < cands.length := sumLoop_lt hpos (by omega)
  by_cases hcount : (sumLoop cands 0 (0, 0, intMax)).2.1 = 1
  · rwa [findMeanMin_of_count means hcount]
  · rw [findMeanMin_of_count_ne means hcount]
    exact meanLoop_lt hsum (by omega)

/-- One least sum is found. -/
private theorem rightChoice_of_count (hfit : ∀ types ∈ cands, NoOverflow types) (means : List K)
    (h : (sumLoop cands 0 (0, 0, intMax)).2.1 = 1) :
    OneLeast cands ∧ RightChoice env cands (findMeanMin cands means) := by
  rw [findMeanMin_of_count means h]
  rcases only_of_sumLoop h with ⟨hzero, -⟩ | ⟨before, types, after, rfl, hmax, hsum⟩
  · exact absurd hzero (by decide)
  -- The only least element is found, and it is strictly below the others
  · have habove := (forall_typeSum_lt_iff hfit).mp hsum
    rw [sumLoop_of_only hmax (fun u hu => hsum u (by simp [hu]))
      (fun u hu => hsum u (by simp [hu]))]
    have hcases : ∀ other ∈ before ++ types :: after,
        other = types ∨ total types < total other := by
      intro other hother
      simp only [List.mem_append, List.mem_cons] at hother
      rcases hother with hother | rfl | hother
      · exact .inr (habove other (by simp [hother]))
      · exact .inl rfl
      · exact .inr (habove other (by simp [hother]))
    refine ⟨⟨before, types, after, rfl, habove⟩, hfit, types, by simp, ?_, ?_⟩
    · intro other hother
      rcases hcases other hother with rfl | hlt
      · exact le_refl _
      · exact le_of_lt hlt
    · intro other hother heq
      rcases hcases other hother with rfl | hlt
      · exact le_refl _
      · exact absurd heq (ne_of_gt hlt)

/-- `findMeanMin` chooses rightly exactly if no sum overflows and one candidate has the least sum,
    or the first with the least deviation of all has it. -/
private theorem findMeanMin_right_iff (hne : cands ≠ []) :
    RightChoice env cands (findMeanMin cands (cands.map (deviation env))) ↔
      (∀ types ∈ cands, NoOverflow types) ∧ (OneLeast cands ∨ SteadiestLeast env cands) := by
  -- Either one element has been counted, or the means decide
  by_cases hcount : (sumLoop cands 0 (0, 0, intMax)).2.1 = 1
  · -- The first loop decides
    constructor
    · intro h
      have hone : OneLeast cands ∧ RightChoice env cands (findMeanMin cands []) :=
        rightChoice_of_count h.noOverflow [] hcount
      exact ⟨h.noOverflow, .inl hone.1⟩
    · exact fun h => (rightChoice_of_count h.1 _ hcount).2
  · rw [findMeanMin_of_count_ne _ hcount]
    constructor
    · intro h
      obtain ⟨before, types, after, rfl, hbefore, hafter⟩ := exists_steadiest env hne
      obtain ⟨types', hget, hleast, -⟩ := h.least
      -- The second loop returns the steadiest, which is also a least one
      rw [meanLoop_deviations _ hbefore hafter] at hget
      obtain rfl : types = types' := by simpa using hget
      exact ⟨h.noOverflow, .inr ⟨before, types, after, rfl, hbefore, hafter, hleast⟩⟩
    -- With several least elements the steadiest one has to be among them
    · rintro ⟨hfit, hcond⟩
      have hsteadiest : SteadiestLeast env cands := hcond.elim (·.steadiest hfit hcount) id
      obtain ⟨before, types, after, rfl, hbefore, hafter, hleast⟩ := hsteadiest
      rw [meanLoop_deviations _ hbefore hafter]
      refine ⟨hfit, types, by simp, hleast, fun other hother _ => ?_⟩
      simp only [List.mem_append, List.mem_cons] at hother
      rcases hother with hother | rfl | hother
      · exact le_of_lt (hbefore other hother)
      · exact le_refl _
      · exact hafter other hother

/-- What is recorded of paths that are found one after the other. -/
def records : MsvrMap K → List (List Nat) → List (List Int32)
  | _, [] => []
  | m, path :: paths => m.record path :: records (m.close path) paths

section Kept

variable {src dst : Nat} {m : MsvrMap K} {paths : List (List Nat)} {rounds : List (Round K)}

omit [LinearOrder K]

/-- The rounds keep the types of the paths that were found. -/
theorem MsvrMap.Kept.types (h : Kept env src dst m paths rounds) :
    rounds.map (·.types) = records m paths := by
  induction h with
  | nil => rfl
  | cons _ _ ih => simp only [List.map_cons, ih, records]

/-- They keep the deviations of these types. -/
theorem MsvrMap.Kept.means (h : Kept env src dst m paths rounds) :
    rounds.map (·.mean) = (rounds.map (·.types)).map (deviation env) := by
  induction h with
  | nil => rfl
  | cons _ _ ih => simp only [List.map_cons, ih]

end Kept

/-- The choice of `getPaths` among the candidates that its search has collected. -/
theorem getPaths_choice_iff {src dst limit fuel : Nat} {m m' : MsvrMap K} {rounds : List (Round K)}
    (hsearch : search env src dst limit fuel m = .ok (rounds, m')) (hne : rounds ≠ []) :
    ∃ paths, Found env src dst m paths ∧ rounds.map (·.types) = records m paths ∧
      (RightChoice env (records m paths)
          (findMeanMin (rounds.map (·.types)) (rounds.map (·.mean))) ↔
        (∀ types ∈ records m paths, NoOverflow types) ∧
          (OneLeast (records m paths) ∨ SteadiestLeast env (records m paths))) := by
  obtain ⟨paths, hfound, hkept, -⟩ := found_of_search hsearch
  rw [hkept.means, hkept.types]
  refine ⟨paths, hfound, rfl, findMeanMin_right_iff ?_⟩
  rw [← hkept.types]
  simpa using hne

/-- The search on the map with a detour finds two paths, and chooses the one whose sum overflows.
-/
private theorem search_detourMap :
    ∃ rounds m', search detourEnv 0 2 10 10 detourMap = .ok (rounds, m') ∧
      rounds.map (·.types) = [[20, 20], [20, 20, intMax]] ∧
      findMeanMin (rounds.map (·.types)) (rounds.map (·.mean)) = 1 := by
  obtain ⟨⟨rounds, m'⟩, hrun, hres⟩ := exists_of_toOption
    (show (search detourEnv 0 2 10 10 detourMap).toOption.map
      (fun r => (r.1.map (·.types), findMeanMin (r.1.map (·.types)) (r.1.map (·.mean)))) =
        some ([[20, 20], [20, 20, intMax]], 1) by decide +kernel)
  obtain ⟨htypes, hindex⟩ := Prod.mk.inj hres
  exact ⟨rounds, m', hrun, htypes, hindex⟩

/-- The condition for the right choice, on the map with a detour. -/
theorem getPaths_choice_iff_detourMap :
    ∃ rounds m' paths, search detourEnv 0 2 10 10 detourMap = .ok (rounds, m') ∧
      Found detourEnv 0 2 detourMap paths ∧ rounds.map (·.types) = records detourMap paths ∧
      (RightChoice detourEnv (records detourMap paths)
          (findMeanMin (rounds.map (·.types)) (rounds.map (·.mean))) ↔
        (∀ types ∈ records detourMap paths, NoOverflow types) ∧
          (OneLeast (records detourMap paths) ∨
            SteadiestLeast detourEnv (records detourMap paths))) := by
  obtain ⟨rounds, m', hrun, htypes, -⟩ := search_detourMap
  have hne : rounds ≠ [] := by
    rintro rfl
    cases htypes
  obtain ⟨paths, hfound, hrecords, hiff⟩ := getPaths_choice_iff hrun hne
  exact ⟨rounds, m', paths, hrun, hfound, hrecords, hiff⟩

/-- The sum of the detour overflows, and the detour is chosen. -/
theorem detourMap_wrong_choice :
    detourMap.Connected ∧
      (getSrcAndDst detourEnv 10 detourMap (-50) 0 250 0).toOption = some (0, 2) ∧
      ∃ rounds m', search detourEnv 0 2 10 10 detourMap = .ok (rounds, m') ∧
        rounds.map (·.types) = [[20, 20], [20, 20, intMax]] ∧
        ¬ RightChoice detourEnv (rounds.map (·.types))
          (findMeanMin (rounds.map (·.types)) (rounds.map (·.mean))) := by
  refine ⟨connected_detourMap, by decide +kernel, ?_⟩
  obtain ⟨rounds, m', hrun, htypes, hindex⟩ := search_detourMap
  refine ⟨rounds, m', hrun, htypes, fun hright => ?_⟩
  obtain ⟨types, hget, hleast, -⟩ := hright.least
  rw [hindex, htypes] at hget
  cases hget
  exact absurd (hleast [20, 20] (by rw [htypes]; simp)) (by decide)

end Choice

end MapRelay.NS3.GeoSvr
