import Mathlib.Data.Rat.Floor
import Mathlib.Analysis.Real.Sqrt
import Mathlib.Algebra.Order.Field.Basic
import Mathlib.Tactic.Linarith
import Mathlib.Tactic.Ring
import MapRelay.ForStd.Memo
import MapRelay.Spec.ObstacleWall

/-!
# What the map of obstacle losses answers

The text under which a loss is kept tells points apart that lie on the grid of tenths of a metre.
It does not tell the range of a call or its channel, so that a call is answered right exactly if
the call that filled the entry was on the same side of the range and, unless its points are the
same, on the same channel.
-/

namespace MapRelay.NS3

open ForStd

/-! ## The text of a point -/

/-- The digits of a number give the number back. -/
private theorem ofDigitChars_padDigits (w n : Nat) : Nat.ofDigitChars 10 (padDigits w n) 0 = n := by
  rw [padDigits, Nat.ofDigitChars_append, Nat.ofDigitChars_replicate_zero, Nat.mul_zero,
    Nat.ofDigitChars_ten_toDigits]

/-- They are digits. -/
private theorem isDigit_of_mem_padDigits {w n : Nat} {c : Char} (h : c ∈ padDigits w n) :
    c.isDigit = true := by
  rcases List.mem_append.mp h with h | h
  · rw [(List.mem_replicate.mp h).2]
    rfl
  · exact Nat.isDigit_of_mem_toDigits (by decide) (by decide) h

/-- A number below ten has one digit. -/
private theorem padDigits_one {n : Nat} (h : n < 10) : padDigits 1 n = [n.digitChar] := by
  rw [padDigits, Nat.toDigits_of_lt_base h]
  rfl

section Text

variable {K : Type} [Field K] [LinearOrder K] [IsStrictOrderedRing K] [FloorRing K]

/-- A number of tenths is not rounded. -/
private theorem roundTenth_natCast (n : Nat) : roundTenth ((n : K) / 10) = n := by
  have hten : (n : K) / 10 * 10 = n := div_mul_cancel₀ _ (by norm_num)
  -- Nothing is left behind the point, so that it is rounded down
  have hlt : ((n : K) - ((⌊(n : K)⌋.toNat : Nat) : K)) < 1 / 2 := by
    rw [Int.floor_natCast, Int.toNat_natCast, sub_self]
    norm_num
  rw [roundTenth]
  simp only [hten]
  rw [if_pos hlt, Int.floor_natCast, Int.toNat_natCast]

/-- The sign and the digits of a multiple of a tenth. -/
private theorem formatTenth_intCast (a : Int) : formatTenth ((a : K) / 10) =
    (if a < 0 then ['-'] else []) ++ padDigits (if a < 0 then 7 else 8) (a.natAbs / 10) ++
      ['.', (a.natAbs % 10).digitChar] := by
  have habs : |(a : K) / 10| = (a.natAbs : K) / 10 := by
    rw [abs_div, abs_of_pos (by norm_num : (0 : K) < 10), Nat.cast_natAbs, Int.cast_abs]
  have hneg : (a : K) / 10 < 0 ↔ a < 0 := by
    rw [div_lt_iff₀ (by norm_num), zero_mul, Int.cast_lt_zero]
  simp only [formatTenth, habs, roundTenth_natCast, hneg,
    padDigits_one (Nat.mod_lt a.natAbs (by decide : 10 > 0))]
  split <;> rfl

/-- Point, sign and comma are none of the digits. -/
private theorem notMem_padDigits {w n : Nat} {c : Char} (h : c.isDigit = false) :
    c ∉ padDigits w n :=
  fun hc => Bool.false_ne_true (h.symm.trans (isDigit_of_mem_padDigits hc))

/-- The tenths of a number are a digit. -/
private theorem isDigit_digitChar (a : Int) : (a.natAbs % 10).digitChar.isDigit = true := by
  rw [Nat.isDigit_digitChar]
  exact decide_eq_true (Nat.mod_lt _ (by decide))

/-- Only digits, a sign and a point are written. -/
private theorem notMem_formatTenth {a : Int} {c : Char} (h : c.isDigit = false) (hsign : c ≠ '-')
    (hpoint : c ≠ '.') : c ∉ formatTenth ((a : K) / 10) := by
  have hlast : c ≠ (a.natAbs % 10).digitChar := fun hc =>
    Bool.false_ne_true (h.symm.trans (hc ▸ isDigit_digitChar a))
  rw [formatTenth_intCast]
  split <;> simp [notMem_padDigits h, hsign, hpoint, hlast]

/-- The sign tells the sign. -/
private theorem minus_mem_formatTenth {a : Int} : '-' ∈ formatTenth ((a : K) / 10) ↔ a < 0 := by
  have hlast : '-' ≠ (a.natAbs % 10).digitChar := fun hc => by
    have := isDigit_digitChar a
    rw [← hc] at this
    cases this
  rw [formatTenth_intCast]
  split
  case isTrue h => simp [h]
  case isFalse h => simp [h, hlast, notMem_padDigits (c := '-') rfl]

/-- The digits are those of the number of tenths. -/
private theorem filter_formatTenth (a : Int) :
    Nat.ofDigitChars 10 ((formatTenth ((a : K) / 10)).filter Char.isDigit) 0 = a.natAbs := by
  have hdigits : (formatTenth ((a : K) / 10)).filter Char.isDigit =
      padDigits (if a < 0 then 7 else 8) (a.natAbs / 10) ++ [(a.natAbs % 10).digitChar] := by
    -- The sign and the point go, the padding is made of digits
    have hpad : ∀ w n, (padDigits w n).filter Char.isDigit = padDigits w n := fun w n =>
      List.filter_eq_self.mpr fun c => isDigit_of_mem_padDigits
    rw [formatTenth_intCast, List.filter_append, List.filter_append, hpad,
      List.filter_cons_of_neg (by decide), List.filter_cons_of_pos (isDigit_digitChar a),
      List.filter_nil]
    split <;> rfl
  rw [hdigits, Nat.ofDigitChars_append, ofDigitChars_padDigits,
    Nat.ofDigitChars_cons_digitChar_of_lt_ten (Nat.mod_lt _ (by decide)), Nat.ofDigitChars_nil]
  exact Nat.div_add_mod a.natAbs 10

/-- Different numbers of tenths have different texts. -/
private theorem formatTenth_inj {a b : Int}
    (h : formatTenth ((a : K) / 10) = formatTenth ((b : K) / 10)) :
    a = b := by
  have hsign : a < 0 ↔ b < 0 := by
    rw [← minus_mem_formatTenth (K := K), h, minus_mem_formatTenth]
  have habs : a.natAbs = b.natAbs := by
    rw [← filter_formatTenth (K := K) a, h, filter_formatTenth]
  omega

/-! ## The text of a call -/

/-- What stands before the first separator, and what stands behind it. -/
private theorem append_separator_inj {xs ys zs ws : List Char} {c : Char} (hxs : c ∉ xs)
    (hys : c ∉ ys) (h : xs ++ c :: zs = ys ++ c :: ws) : xs = ys ∧ zs = ws := by
  -- The first part ends at the first separator
  have hbefore : ∀ us vs : List Char, c ∉ us → (us ++ c :: vs).takeWhile (· ≠ c) = us := by
    intro us vs hus
    have hall : ∀ d ∈ us, decide (d ≠ c) = true := fun d hd =>
      decide_eq_true fun hdc => hus (hdc ▸ hd)
    rw [List.takeWhile_append_of_pos hall, List.takeWhile_cons_of_neg (by simp), List.append_nil]
  have hfirst : xs = ys := by rw [← hbefore xs zs hxs, h, hbefore ys ws hys]
  subst hfirst
  exact ⟨rfl, (List.cons.inj (List.append_cancel_left h)).2⟩

/-- The coordinates are multiples of a tenth of a metre. -/
def OnGrid (p : Point K) : Prop := ∃ a b : Int, p = ((a : K) / 10, (b : K) / 10)

/-- On the grid of tenths, different pairs of points have different keys. -/
private theorem lossKey_inj {p1 p2 q1 q2 : Point K} (hp1 : OnGrid p1) (hp2 : OnGrid p2)
    (hq1 : OnGrid q1)
    (hq2 : OnGrid q2) (h : lossKey p1 p2 = lossKey q1 q2) : p1 = q1 ∧ p2 = q2 := by
  obtain ⟨a1, b1, rfl⟩ := hp1
  obtain ⟨a2, b2, rfl⟩ := hp2
  obtain ⟨c1, d1, rfl⟩ := hq1
  obtain ⟨c2, d2, rfl⟩ := hq2
  have hspace : ∀ a : Int, ' ' ∉ formatTenth ((a : K) / 10) := fun a =>
    notMem_formatTenth rfl (by decide) (by decide)
  simp only [lossKey, formatPoint, List.append_assoc, List.cons_append] at h
  -- Four numbers between three spaces
  obtain ⟨hx1, h⟩ := append_separator_inj (hspace a1) (hspace c1) h
  obtain ⟨hy1, h⟩ := append_separator_inj (hspace b1) (hspace d1) h
  obtain ⟨hx2, hy2⟩ := append_separator_inj (hspace a2) (hspace c2) h
  rw [formatTenth_inj hx1, formatTenth_inj hy1, formatTenth_inj hx2, formatTenth_inj hy2]
  exact ⟨rfl, rfl⟩

end Text

/-! ## The loss of the source and of the call -/

section Loss

variable {K : Type} [Field K] [LinearOrder K]

namespace LossCall

/-- The call with its points in the other order. -/
def swap (c : LossCall K) : LossCall K := { c with p1 := c.p2, p2 := c.p1 }

/-- On the same side of the range, and if that is inside and there is a way between the points, on
    the same channel. -/
def Agree (s c : LossCall K) : Prop :=
  inLossRange s = inLossRange c ∧
    (inLossRange c = true → c.p1 ≠ c.p2 → s.forbeacon = c.forbeacon)

end LossCall

/-- The range does not depend on the order of the points. -/
private theorem inLossRange_swap (c : LossCall K) : inLossRange c.swap = inLossRange c := by
  have hsq : ∀ a b : K, (a - b) * (a - b) = (b - a) * (b - a) := fun a b => by ring
  simp only [inLossRange, LossCall.swap, hsq c.p1.1 c.p2.1, hsq c.p1.2 c.p2.2]

/-- Agreement does not depend on the order of the points. -/
private theorem agree_swap_iff {s c : LossCall K} : s.Agree c.swap ↔ s.Agree c := by
  simp only [LossCall.Agree, inLossRange_swap]
  simp only [LossCall.swap, ne_comm]

/-- The loss as it is computed for the call, its points in one of the two orders. -/
def LossCall.Answer (env : TopologyEnv K) (topology : Topology K) (c : LossCall K) (loss : K) :
    Prop :=
  loss = computeLoss env topology c ∨ loss = computeLoss env topology c.swap

variable [IsStrictOrderedRing K] {env : TopologyEnv K} (henv : env.Regular)
include henv

/-- Calls between the same points that agree have the same loss. -/
private theorem computeLoss_of_agree (topology : Topology K) {s c : LossCall K} (h1 : s.p1 = c.p1)
    (h2 : s.p2 = c.p2) (h : s.Agree c) :
    computeLoss env topology s = computeLoss env topology c := by
  obtain ⟨hrange, hbeacon⟩ := h
  by_cases hsame : c.p1 = c.p2
  · rw [computeLoss_same henv topology hsame,
      computeLoss_same henv topology (h1.trans (hsame.trans h2.symm)), hrange]
  rw [computeLoss, computeLoss, hrange]
  cases hin : inLossRange c with
  | false => rfl
  | true =>
    -- The channel selects the attenuation, and it is the same here
    have hobstacle : obstacleLoss env s = obstacleLoss env c := by
      funext o
      simp only [obstacleLoss, h1, h2, hbeacon hin hsame]
    simp only [h1, h2, hobstacle]

/-- So the loss of a call that agrees, in either order, is an answer. -/
private theorem answer_of_agree (topology : Topology K) {s c : LossCall K}
    (hs : s.Between c.p1 c.p2) (h : s.Agree c) :
    c.Answer env topology (computeLoss env topology s) := by
  rcases hs with ⟨h1, h2⟩ | ⟨h1, h2⟩
  · exact .inl (computeLoss_of_agree henv topology h1 h2 h)
  · exact .inr (computeLoss_of_agree henv topology h1 h2 (agree_swap_iff.mpr h))

/-- What walls between the points take away tells the calls apart. -/
private theorem agree_of_answers {s c : LossCall K} (hs : s.Between c.p1 c.p2)
    (h : ∀ topology, c.Answer env topology (computeLoss env topology s)) : s.Agree c := by
  have hc : c.Between c.p1 c.p2 := .inl ⟨rfl, rfl⟩
  have hc' : c.swap.Between c.p1 c.p2 := .inr ⟨rfl, rfl⟩
  by_cases hsame : c.p1 = c.p2
  · -- Nothing stands between the points, and only the range counts
    have hs' : s.p1 = s.p2 := by
      rcases hs with ⟨h1, h2⟩ | ⟨h1, h2⟩
      · rw [h1, h2, hsame]
      · rw [h1, h2, hsame]
    refine ⟨?_, fun _ hdiff => absurd hsame hdiff⟩
    have hanswer := h [wallBetween (0, 0) (1, 0)]
    rw [LossCall.Answer, computeLoss_same henv _ hs', computeLoss_same henv _ hsame,
      computeLoss_same henv _ (show c.swap.p1 = c.swap.p2 from hsame.symm), inLossRange_swap,
      or_self] at hanswer
    cases hs : inLossRange s <;> cases hc : inLossRange c <;> simp [hs, hc] at hanswer ⊢
  · have hpos := wallLoss_pos henv hsame
    have hanswers (k : Nat) :
        (if inLossRange s then k * (if s.forbeacon then 3 / 4 * wallLoss env c.p1 c.p2
          else wallLoss env c.p1 c.p2) else 9999) =
        if inLossRange c then k * (if c.forbeacon then 3 / 4 * wallLoss env c.p1 c.p2
          else wallLoss env c.p1 c.p2) else 9999 := by
      rcases h (List.replicate k (wallBetween c.p1 c.p2)) with heq | heq
      · rwa [computeLoss_walls henv hsame hs, computeLoss_walls henv hsame hc] at heq
      · rwa [computeLoss_walls henv hsame hs, computeLoss_walls henv hsame hc',
          inLossRange_swap] at heq
    -- What is said outside of the range is not both the loss of one wall and that of two
    have hone := hanswers 1
    have htwo := hanswers 2
    generalize wallLoss env c.p1 c.p2 = loss at hpos hone htwo
    rw [LossCall.Agree]
    cases hs : inLossRange s <;> cases hc : inLossRange c <;> cases hsb : s.forbeacon <;>
      cases hcb : c.forbeacon <;>
      simp only [hs, hc, hsb, hcb, if_true, if_false, Bool.false_eq_true, Nat.cast_one,
        Nat.cast_ofNat, one_mul] at hone htwo ⊢ <;>
      first | simp; done | linarith

end Loss

/-! ## The map as a memo table -/

section Table

variable {K : Type} [Field K] [LinearOrder K] [FloorRing K]

namespace LossCall

/-- The first text the map is asked for. -/
def key (c : LossCall K) : List Char := lossKey c.p1 c.p2

/-- The text of the points fits in the buffer with its zero byte. -/
def Fits (c : LossCall K) : Prop := c.key.length < buffSize

end LossCall

/-- The calls that filled the entries by which `calls` are answered. -/
def lossSources (calls : List (LossCall K)) : List (LossCall K) :=
  Memo.sources LossCall.key (fun c => c.swap.key) 1000 calls

/-- As long as the keys fit in the buffer, a call is one of a memo with both orders as keys. -/
private theorem getObstructedLossBetween_of_fits (env : TopologyEnv K) (topology : Topology K)
    (map : LossMap K) {c : LossCall K} (h : c.Fits) :
    getObstructedLossBetween env topology map c =
      .ok (Memo.call LossCall.key (fun c => c.swap.key) 1000 (computeLoss env topology) map c) := by
  have hsize : ¬(lossKey c.p1 c.p2).length ≥ buffSize := Nat.not_le.mpr h
  rw [getObstructedLossBetween, Memo.call, if_neg hsize]
  simp only [LossCall.key, LossCall.swap]
  cases map.lookup (lossKey c.p1 c.p2) with
  | some loss => rfl
  | none => cases map.lookup (lossKey c.p2 c.p1) <;> rfl

/-- Calls one after the other are those of the memo. -/
private theorem lossCalls_of_fits (env : TopologyEnv K) (topology : Topology K) (map : LossMap K)
    {calls : List (LossCall K)} (h : ∀ c ∈ calls, c.Fits) : lossCalls env topology map calls =
      .ok (Memo.answers LossCall.key (fun c => c.swap.key) 1000 (computeLoss env topology) map
        calls) := by
  induction calls generalizing map with
  | nil => rfl
  | cons c calls ih =>
    rw [lossCalls, getObstructedLossBetween_of_fits env topology map (h c List.mem_cons_self)]
    simp only [bind, Except.bind]
    rw [ih _ fun c hc => h c (List.mem_cons_of_mem _ hc)]
    rfl

/-- No call comes back whose text is too long. -/
private theorem fits_of_lossCalls {env : TopologyEnv K} {topology : Topology K} {map : LossMap K}
    {calls : List (LossCall K)} {losses : List K}
    (h : lossCalls env topology map calls = .ok losses) : ∀ c ∈ calls, c.Fits := by
  induction calls generalizing map losses with
  | nil => exact fun c hc => nomatch hc
  | cons c calls ih =>
    -- A longer text runs over the end of the buffer
    have hfits : c.Fits := by
      by_contra hsize
      have hsize : (lossKey c.p1 c.p2).length ≥ buffSize := Nat.not_lt.mp hsize
      rw [lossCalls, getObstructedLossBetween, if_pos hsize] at h
      cases h
    rw [lossCalls, getObstructedLossBetween_of_fits env topology map hfits] at h
    simp only [bind, Except.bind] at h
    split at h
    case h_1 => cases h
    case h_2 hrest =>
      intro d hd
      rcases List.mem_cons.mp hd with rfl | hd
      · exact hfits
      · exact ih hrest d hd

/-- The answers are the losses of the sources. -/
private theorem lossCalls_eq_map (env : TopologyEnv K) (topology : Topology K)
    {calls : List (LossCall K)} (h : ∀ c ∈ calls, c.Fits) :
    lossCalls env topology [] calls = .ok ((lossSources calls).map (computeLoss env topology)) := by
  rw [lossCalls_of_fits env topology [] h, Memo.answers_eq_map]
  rfl

/-- Every call is answered by the loss of its own points, range and channel. -/
def Coherent (env : TopologyEnv K) (topology : Topology K) (calls : List (LossCall K)) : Prop :=
  ∃ losses, lossCalls env topology [] calls = .ok losses ∧
    List.Forall₂ (fun c loss => c.Answer env topology loss) calls losses

variable [IsStrictOrderedRing K]

/-- Both points are on the grid. -/
def LossCall.OnGrid (c : LossCall K) : Prop := NS3.OnGrid c.p1 ∧ NS3.OnGrid c.p2

/-- An entry stands for a call with the same points. -/
private theorem between_of_standsFor {s c : LossCall K} (hs : s.OnGrid) (hc : c.OnGrid)
    (hstands : Memo.StandsFor LossCall.key (fun c => c.swap.key) s c) :
    s.Between c.p1 c.p2 := by
  rcases hstands with rfl | hkey | hkey
  · exact .inl ⟨rfl, rfl⟩
  · -- The entry was found under the text of the points in their order
    exact .inl (lossKey_inj hs.1 hs.2 hc.1 hc.2 hkey)
  · -- The entry was found under the text of the points the other way round
    exact .inr (lossKey_inj hs.1 hs.2 hc.2 hc.1 hkey)

/-- The answers are right, whatever stands between the points, exactly if every text fits and
    every answer comes from a call that agrees with the one that is answered. -/
theorem coherent_iff {env : TopologyEnv K} (henv : env.Regular) {calls : List (LossCall K)}
    (h : ∀ c ∈ calls, c.OnGrid) :
    (∀ topology, Coherent env topology calls) ↔
      (∀ c ∈ calls, c.Fits) ∧ List.Forall₂ LossCall.Agree (lossSources calls) calls := by
  have hsources : List.Forall₂ (fun s c => s.Between c.p1 c.p2) (lossSources calls) calls :=
    (Memo.forall₂_sources h).imp fun s c hsrc => between_of_standsFor hsrc.1 hsrc.2.1 hsrc.2.2
  constructor
  · -- Topologies with walls are enough: their losses tell the calls apart
    intro hall
    obtain ⟨losses, hlosses, -⟩ := hall []
    have hfits := fits_of_lossCalls hlosses
    refine ⟨hfits, ?_⟩
    have hanswers : ∀ topology, List.Forall₂ (fun c s =>
        c.Answer env topology (computeLoss env topology s)) calls (lossSources calls) := by
      intro topology
      obtain ⟨losses, hlosses, hright⟩ := hall topology
      rw [lossCalls_eq_map env topology hfits, Except.ok.injEq] at hlosses
      subst hlosses
      exact List.forall₂_map_right_iff.mp hright
    refine List.forall₂_iff_get.mpr ⟨hsources.length_eq, fun i hs hc => ?_⟩
    refine agree_of_answers henv ((List.forall₂_iff_get.mp hsources).2 i hs hc) fun topology => ?_
    exact (List.forall₂_iff_get.mp (hanswers topology)).2 i hc hs
  · -- A source has the points of its call, and where it agrees with it the loss too
    rintro ⟨hfits, hagree⟩ topology
    refine ⟨_, lossCalls_eq_map env topology hfits, List.forall₂_map_right_iff.mpr ?_⟩
    exact (hsources.mp (fun s c hbetween hagree =>
      answer_of_agree henv topology hbetween hagree) hagree).flip

end Table

/-- A call on either channel, its points well inside the range. -/
def callAt (K : Type) [Field K] (forbeacon : Bool) : LossCall K :=
  ⟨(0, 0), (20, 0), 500, forbeacon⟩

/-- The points of the example are on the grid. -/
private theorem onGrid_callAt (K : Type) [Field K] [CharZero K] (forbeacon : Bool) :
    (callAt K forbeacon).OnGrid :=
  ⟨⟨0, 0, by norm_num [callAt]⟩, ⟨200, 0, by norm_num [callAt]⟩⟩

open Classical in
/-- The plane with real coordinates. -/
noncomputable def realEnv : TopologyEnv ℝ where
  intersection s r :=
    if h : ∃ x, segment ℝ s.1 s.2 ∩ segment ℝ r.1 r.2 = {x} then some h.choose else none
  inWindow low high x := decide (low.1 ≤ x.1 ∧ x.1 ≤ high.1 ∧ low.2 ≤ x.2 ∧ x.2 ≤ high.2)
  sqrt := Real.sqrt

/-- The intersection, the window and the square root of the plane are regular. -/
private theorem regular_realEnv : realEnv.Regular where
  intersection a b p q x := by
    simp only [realEnv, Option.dite_none_right_eq_some, Option.some.injEq]
    constructor
    · rintro ⟨h, rfl⟩
      exact h.choose_spec
    · intro h
      have hex : ∃ x, segment ℝ a b ∩ segment ℝ p q = {x} := ⟨x, h⟩
      exact ⟨hex, Set.singleton_injective (hex.choose_spec.symm.trans h)⟩
  inWindow low high x h1 h2 h3 h4 := decide_eq_true ⟨h1.le, h2.le, h3.le, h4.le⟩
  sqrt _ _ ha hab := Real.sqrt_lt_sqrt ha hab

/-- A beacon that is sent back is answered by its own loss. -/
theorem coherent_iff_back :
    (∀ topology, Coherent realEnv topology [callAt ℝ true, (callAt ℝ true).swap]) ↔
      (∀ c ∈ [callAt ℝ true, (callAt ℝ true).swap], c.Fits) ∧
        List.Forall₂ LossCall.Agree (lossSources [callAt ℝ true, (callAt ℝ true).swap])
          [callAt ℝ true, (callAt ℝ true).swap] :=
  coherent_iff regular_realEnv (by
    intro c hc
    rcases List.mem_pair.mp hc with rfl | rfl
    · exact onGrid_callAt ℝ true
    · exact (onGrid_callAt ℝ true).symm)

/-- Where two segments that are not parallel cross. -/
def crossing (s r : Point ℚ × Point ℚ) : Option (Point ℚ) :=
  let cross (u v : Point ℚ) := u.1 * v.2 - u.2 * v.1
  let d := cross (s.2 - s.1) (r.2 - r.1)
  let t := cross (r.1 - s.1) (r.2 - r.1) / d
  let t' := cross (r.1 - s.1) (s.2 - s.1) / d
  if d ≠ 0 ∧ 0 ≤ t ∧ t ≤ 1 ∧ 0 ≤ t' ∧ t' ≤ 1 then
    some (s.1.1 + t * (s.2.1 - s.1.1), s.1.2 + t * (s.2.2 - s.1.2))
  else none

/-- The plane with rational coordinates, as far as no two edges are parallel that meet and no roots
    are taken but of squares of whole numbers. -/
def rationalEnv : TopologyEnv ℚ where
  intersection := crossing
  inWindow low high x := low.1 ≤ x.1 ∧ x.1 ≤ high.1 ∧ low.2 ≤ x.2 ∧ x.2 ≤ high.2
  sqrt q := (Nat.sqrt q.num.toNat : ℚ)

/-- A building ten metres wide between the points of the calls. -/
def building : Obstacle ℚ := ⟨[(5, -5), (15, -5), (15, 5), (5, 5)], 9, 2 / 5⟩

/-- A beacon is answered with the loss of the data channel. -/
theorem beacon_gets_data_loss : (∀ c ∈ [callAt ℚ false, callAt ℚ true], c.OnGrid) ∧
    lossCalls rationalEnv [building] [] [callAt ℚ false, callAt ℚ true] = .ok [22, 22] ∧
    computeLoss rationalEnv [building] (callAt ℚ true) = 33 / 2 ∧
    ¬ Coherent rationalEnv [building] [callAt ℚ false, callAt ℚ true] := by
  have hrun : lossCalls rationalEnv [building] [] [callAt ℚ false, callAt ℚ true] =
      .ok [22, 22] := by decide +kernel
  have hforth : computeLoss rationalEnv [building] (callAt ℚ true) = 33 / 2 := by decide +kernel
  have hback : computeLoss rationalEnv [building] (callAt ℚ true).swap = 33 / 2 := by decide +kernel
  refine ⟨?_, hrun, hforth, ?_⟩
  · intro c hc
    rcases List.mem_pair.mp hc with rfl | rfl
    · exact onGrid_callAt ℚ false
    · exact onGrid_callAt ℚ true
  · rintro ⟨losses, hlosses, hright⟩
    rw [hrun, Except.ok.injEq] at hlosses
    subst hlosses
    rcases hright with _ | ⟨-, hright⟩
    rcases hright with _ | ⟨hbeacon, -⟩
    rw [LossCall.Answer, hforth, hback, or_self] at hbeacon
    norm_num at hbeacon

end MapRelay.NS3
