import Mathlib.Tactic.Ring

/-!
# Interleaved coordinates

`morton a c` has the binary digits of `a` in the even places and those of `c` in the odd places.
Both coordinates can be cut out with a mask, and one of them can be counted up or down in place:
the carry runs through the digits of the other one if these are set first.
-/

namespace ForStd.Morton

/-- The binary digits of `a` in the even places. -/
def spread (a : Nat) : Nat := if a = 0 then 0 else 4 * spread (a / 2) + a % 2
decreasing_by omega

/-- The digit 1 in the lowest `s` even places. -/
def mask : Nat → Nat
  | 0 => 0
  | s + 1 => 4 * mask s + 1

/-- The digits of `a` in the even and those of `c` in the odd places. -/
def morton (a c : Nat) : Nat := spread a + 2 * spread c

/-- Zero has no digits. -/
@[simp] theorem spread_zero : spread 0 = 0 := by rw [spread, if_pos rfl]

/-- The lowest digit stays in its place when a number is spread. -/
theorem spread_two_mul_add (a : Nat) {b : Nat} (hb : b < 2) :
    spread (2 * a + b) = 4 * spread a + b := by
  rw [spread]
  split
  case isTrue h =>
    obtain ⟨rfl, rfl⟩ : a = 0 ∧ b = 0 := by omega
    rw [spread_zero]
  case isFalse => rw [show (2 * a + b) / 2 = a by omega, show (2 * a + b) % 2 = b by omega]

/-- The lowest digits of both numbers are the lowest two of the hash. -/
theorem morton_two_mul_add (a c : Nat) {b d : Nat} (hb : b < 2) (hd : d < 2) :
    morton (2 * a + b) (2 * c + d) = 4 * morton a c + (b + 2 * d) := by
  rw [morton, spread_two_mul_add a hb, spread_two_mul_add c hd, morton]
  ring

/-- A number by its last binary digit. -/
theorem exists_two_mul_add (a : Nat) : ∃ a' b, b < 2 ∧ a = 2 * a' + b :=
  ⟨a / 2, a % 2, Nat.mod_lt a (by decide), (Nat.div_add_mod a 2).symm⟩

/-- The lowest digit stays when the number is cut off above it. -/
theorem two_mul_add_mod (a s : Nat) {b : Nat} (hb : b < 2) :
    (2 * a + b) % 2 ^ (s + 1) = 2 * (a % 2 ^ s) + b := by
  have hmod := Nat.mod_lt a (Nat.two_pow_pos s)
  have hdiv : 2 * a + b = 2 ^ (s + 1) * (a / 2 ^ s) + (2 * (a % 2 ^ s) + b) := by
    have := Nat.div_add_mod a (2 ^ s)
    rw [Nat.pow_succ, Nat.mul_comm (2 ^ s) 2, Nat.mul_assoc]
    omega
  rw [hdiv, Nat.mul_add_mod, Nat.mod_eq_of_lt (by rw [Nat.pow_succ]; omega)]

/-! ## Bits -/

/-- The digits in the even places. -/
theorem testBit_morton_even (a c i : Nat) : (morton a c).testBit (2 * i) = a.testBit i := by
  induction i generalizing a c with
  | zero =>
    obtain ⟨a, b, hb, rfl⟩ := exists_two_mul_add a
    obtain ⟨c, d, hd, rfl⟩ := exists_two_mul_add c
    have hlow : (4 * morton a c + (b + 2 * d)) % 2 = (2 * a + b) % 2 := by omega
    rw [morton_two_mul_add a c hb hd, Nat.mul_zero, Nat.testBit_zero, Nat.testBit_zero, hlow]
  | succ i ih =>
    obtain ⟨a, b, hb, rfl⟩ := exists_two_mul_add a
    obtain ⟨c, d, hd, rfl⟩ := exists_two_mul_add c
    rw [morton_two_mul_add a c hb hd, Nat.mul_succ, Nat.testBit_succ, Nat.testBit_succ,
      Nat.testBit_succ, show (4 * morton a c + (b + 2 * d)) / 2 / 2 = morton a c by omega,
      show (2 * a + b) / 2 = a by omega, ih]

/-- Without the lowest digit the coordinates change places. -/
theorem morton_div_two (a c : Nat) : morton a c / 2 = morton c (a / 2) := by
  obtain ⟨a, b, hb, rfl⟩ := exists_two_mul_add a
  rw [morton, spread_two_mul_add a hb, morton, show (2 * a + b) / 2 = a by omega]
  omega

/-- The digits in the odd places. -/
theorem testBit_morton_odd (a c i : Nat) : (morton a c).testBit (2 * i + 1) = c.testBit i := by
  rw [Nat.testBit_succ, morton_div_two, testBit_morton_even]

/-- The coordinates of a number are those that its bits tell. -/
theorem morton_inj {a c a' c' : Nat} : morton a c = morton a' c' ↔ a = a' ∧ c = c' := by
  refine ⟨fun h => ⟨Nat.eq_of_testBit_eq fun i => ?_, Nat.eq_of_testBit_eq fun i => ?_⟩,
    fun ⟨ha, hc⟩ => ha ▸ hc ▸ rfl⟩
  · rw [← testBit_morton_even a c, h, testBit_morton_even]
  · rw [← testBit_morton_odd a c, h, testBit_morton_odd]

/-- Every number is the hash of two numbers. -/
theorem exists_morton {n s : Nat} (h : n < 4 ^ s) :
    ∃ a c, a < 2 ^ s ∧ c < 2 ^ s ∧ n = morton a c := by
  -- The last two digits of `n` are the lowest of `a` and `c`
  induction s generalizing n with
  | zero => exact ⟨0, 0, by decide, by decide, by simp [morton]; omega⟩
  | succ s ih =>
    rw [Nat.pow_succ] at h
    obtain ⟨a, c, ha, hc, hn⟩ := @ih (n / 4) (by omega)
    refine ⟨2 * a + n % 2, 2 * c + n / 2 % 2, ?_, ?_, ?_⟩
    · rw [Nat.pow_succ]
      omega
    · rw [Nat.pow_succ]
      omega
    · rw [morton_two_mul_add a c (by omega) (by omega)]
      omega

/-- The hash has twice as many digits as the numbers. -/
theorem morton_lt {a c s : Nat} (ha : a < 2 ^ s) (hc : c < 2 ^ s) : morton a c < 4 ^ s := by
  induction s generalizing a c with
  | zero =>
    obtain ⟨rfl, rfl⟩ : a = 0 ∧ c = 0 := by omega
    simp [morton]
  | succ s ih =>
    obtain ⟨a, b, hb, rfl⟩ := exists_two_mul_add a
    obtain ⟨c, d, hd, rfl⟩ := exists_two_mul_add c
    rw [Nat.pow_succ] at ha hc
    have := @ih a c (by omega) (by omega)
    rw [morton_two_mul_add a c hb hd, Nat.pow_succ]
    omega

/-! ## Masks -/

/-- The lowest two digits do not meddle with the others. -/
theorem land_four_mul_add (x y : Nat) {r t : Nat} (hr : r < 4) (ht : t < 4) :
    (4 * x + r) &&& (4 * y + t) = 4 * (x &&& y) + (r &&& t) := by
  have hdiv : ((4 * x + r) &&& (4 * y + t)) / 4 = x &&& y := by
    rw [show 4 = 2 ^ 2 from rfl, Nat.and_div_two_pow]
    congr 1 <;> omega
  have hmod : ((4 * x + r) &&& (4 * y + t)) % 4 = r &&& t := by
    rw [show 4 = 2 ^ 2 from rfl, Nat.and_mod_two_pow]
    congr 1 <;> omega
  omega

/-- Digits in the odd places, moved to the even ones. -/
theorem land_two_mul (n m : Nat) : n &&& 2 * m = 2 * (n / 2 &&& m) := by
  have hdiv : (n &&& 2 * m) / 2 = n / 2 &&& m := by
    rw [Nat.and_div_two, Nat.mul_div_cancel_left m (by decide)]
  have hmod : (n &&& 2 * m) % 2 = 0 := by
    rw [show 2 = 2 ^ 1 from rfl, Nat.and_mod_two_pow]
    simp
  omega

/-- The mask in closed form. -/
theorem three_mul_mask (s : Nat) : 3 * mask s + 1 = 4 ^ s := by
  induction s with
  | zero => rfl
  | succ s ih =>
    rw [mask, Nat.pow_succ]
    omega

/-- A mask takes nothing from above its highest digit. -/
theorem mod_two_pow_land (n : Nat) {m w : Nat} (h : m < 2 ^ w) : n % 2 ^ w &&& m = n &&& m := by
  have hm := Nat.and_mod_two_pow (a := n) (b := m) (n := w)
  rw [Nat.mod_eq_of_lt h, Nat.mod_eq_of_lt (Nat.lt_of_le_of_lt Nat.and_le_right h)] at hm
  exact hm.symm

/-- The even places. -/
theorem morton_land_mask (a c s : Nat) : morton a c &&& mask s = spread (a % 2 ^ s) := by
  induction s generalizing a c with
  | zero => rw [mask, Nat.and_zero, Nat.pow_zero, Nat.mod_one, spread_zero]
  | succ s ih =>
    obtain ⟨a, b, hb, rfl⟩ := exists_two_mul_add a
    obtain ⟨c, d, hd, rfl⟩ := exists_two_mul_add c
    have hlow : (b + 2 * d) &&& 1 = b := by
      rw [Nat.and_one_is_mod]
      omega
    rw [morton_two_mul_add a c hb hd, mask, land_four_mul_add _ _ (by omega) (by decide), ih,
      two_mul_add_mod a s hb, spread_two_mul_add _ hb, hlow]

/-- The odd places. -/
theorem morton_land_two_mask (a c s : Nat) :
    morton a c &&& 2 * mask s = 2 * spread (c % 2 ^ s) := by
  rw [land_two_mul, morton_div_two, morton_land_mask]

/-- The mask cuts off the digits above it. -/
theorem spread_land_mask (a s : Nat) : spread a &&& mask s = spread (a % 2 ^ s) := by
  have h := morton_land_mask a 0 s
  rwa [morton, spread_zero] at h

/-- Disjoint digits are put together by `|||`. -/
theorem spread_lor (a c : Nat) : spread a ||| 2 * spread c = morton a c := by
  have heven : spread a = morton a 0 := by rw [morton, spread_zero, Nat.mul_zero, Nat.add_zero]
  have hodd : 2 * spread c = morton 0 c := by rw [morton, spread_zero, Nat.zero_add]
  apply Nat.eq_of_testBit_eq
  intro j
  obtain ⟨i, d, hd, rfl⟩ := exists_two_mul_add j
  rw [heven, hodd, Nat.testBit_or]
  obtain rfl | rfl : d = 0 ∨ d = 1 := by omega
  · rw [Nat.add_zero, testBit_morton_even, testBit_morton_even, testBit_morton_even,
      Nat.zero_testBit, Bool.or_false]
  · rw [testBit_morton_odd, testBit_morton_odd, testBit_morton_odd, Nat.zero_testBit,
      Bool.false_or]

/-! ## Counting in place -/

/-- The mask is a number of ones, spread. -/
theorem spread_two_pow_sub_one (s : Nat) : spread (2 ^ s - 1) = mask s := by
  induction s with
  | zero => rw [Nat.pow_zero, Nat.sub_self, spread_zero, mask]
  | succ s ih =>
    have hpos := Nat.two_pow_pos s
    have hsplit : 2 ^ (s + 1) - 1 = 2 * (2 ^ s - 1) + 1 := by
      rw [Nat.pow_succ]
      omega
    rw [hsplit, spread_two_mul_add _ (by decide), ih, mask]

/-- Only zero is spread to zero. -/
theorem spread_pos {a : Nat} (h : 0 < a) : 0 < spread a := by
  have hne : spread a ≠ spread 0 := fun heq => by
    have := (@morton_inj a 0 0 0).mp (congrArg (· + 2 * spread 0) heq)
    omega
  rw [spread_zero] at hne
  exact Nat.pos_of_ne_zero hne

/-- The odd places below `2 * t + 2` are set, so that the carry runs through them. -/
theorem add_one_land_mask (a : Nat) {s t : Nat} (h : s ≤ t + 1) :
    spread a + (2 * mask t + 1) &&& mask s = spread ((a + 1) % 2 ^ s) := by
  -- Digit by digit from the lowest one
  induction s generalizing a t with
  | zero => rw [mask, Nat.and_zero, Nat.pow_zero, Nat.mod_one, spread_zero]
  | succ s ih =>
    obtain ⟨a, b, hb, rfl⟩ := exists_two_mul_add a
    rw [spread_two_mul_add a hb, mask]
    cases t with
    | zero =>
      obtain rfl : s = 0 := by omega
      have hlow : b + 1 &&& 1 = (2 * a + b + 1) % 2 := by
        rw [Nat.and_one_is_mod]
        omega
      have hbit := spread_two_mul_add 0 (Nat.mod_lt (2 * a + b + 1) (by decide : 2 > 0))
      rw [spread_zero, Nat.mul_zero, Nat.zero_add] at hbit
      rw [mask, show 4 * spread a + b + (2 * 0 + 1) = 4 * spread a + (b + 1) by ring,
        land_four_mul_add _ _ (by omega) (by decide), Nat.and_zero, Nat.mul_zero, Nat.zero_add,
        Nat.zero_add, Nat.pow_one, hlow, hbit]
    | succ t =>
      obtain rfl | rfl : b = 0 ∨ b = 1 := by omega
      · -- The carry ends in the lowest digit
        have hsum : 4 * spread a + 0 + (2 * mask (t + 1) + 1) =
            4 * morton a (2 ^ t - 1) + 3 := by
          rw [mask, morton, spread_two_pow_sub_one]
          ring
        rw [hsum, land_four_mul_add _ _ (by decide) (by decide), morton_land_mask, Nat.add_zero,
          two_mul_add_mod a s (by decide), spread_two_mul_add _ (by decide)]
        rfl
      -- The carry goes on into the next digit
      · have hsum : 4 * spread a + 1 + (2 * mask (t + 1) + 1) =
            4 * (spread a + (2 * mask t + 1)) + 0 := by
          rw [mask]
          ring
        rw [hsum, land_four_mul_add _ _ (by decide) (by decide), ih a (by omega),
          show 2 * a + 1 + 1 = 2 * (a + 1) + 0 by ring, two_mul_add_mod _ s (by decide),
          spread_two_mul_add _ (by decide), Nat.zero_and]

/-- What precedes a spread number has, in the even places, the digits of the number before it. -/
theorem pred_land_mask (a s : Nat) : spread (a + 1) - 1 &&& mask s = spread (a % 2 ^ s) := by
  induction s generalizing a with
  | zero => rw [mask, Nat.and_zero, Nat.pow_zero, Nat.mod_one, spread_zero]
  | succ s ih =>
    obtain ⟨a, b, hb, rfl⟩ := exists_two_mul_add a
    obtain rfl | rfl : b = 0 ∨ b = 1 := by omega
    -- The borrow ends in the lowest digit
    · have hdiff : spread (2 * a + 0 + 1) - 1 = 4 * spread a + 0 := by
        rw [Nat.add_zero, spread_two_mul_add a (by decide), Nat.add_sub_cancel, Nat.add_zero]
      rw [hdiff, mask, land_four_mul_add _ _ (by decide) (by decide), spread_land_mask,
        two_mul_add_mod a s (by decide), spread_two_mul_add _ (by decide), Nat.zero_and]
    · -- The borrow goes on
      have hpos : 0 < spread (a + 1) := spread_pos (Nat.succ_pos a)
      have hdiff : spread (2 * a + 1 + 1) - 1 = 4 * (spread (a + 1) - 1) + 3 := by
        rw [show 2 * a + 1 + 1 = 2 * (a + 1) + 0 by ring, spread_two_mul_add _ (by decide)]
        omega
      rw [hdiff, mask, land_four_mul_add _ _ (by decide) (by decide), ih,
        two_mul_add_mod a s (by decide), spread_two_mul_add _ (by decide)]
      rfl

/-- Words of `w` digits are counted down by adding `2 ^ w - 1`. -/
theorem sub_one_land_mask (a : Nat) {s w : Nat} (h : mask s < 2 ^ w) :
    spread a + (2 ^ w - 1) &&& mask s = spread ((a + (2 ^ s - 1)) % 2 ^ s) := by
  have hw := Nat.two_pow_pos w
  have hs := Nat.two_pow_pos s
  -- Zero wraps around to the greatest number of `s` digits
  cases a with
  | zero =>
    rw [spread_zero, Nat.zero_add, Nat.zero_add, Nat.and_comm, Nat.and_two_pow_sub_one_eq_mod,
      Nat.mod_eq_of_lt h, Nat.mod_eq_of_lt (by omega), spread_two_pow_sub_one]
  | succ a =>
    have hpos : 0 < spread (a + 1) := spread_pos (Nat.succ_pos a)
    have hwrap : spread (a + 1) + (2 ^ w - 1) = spread (a + 1) - 1 + 2 ^ w := by omega
    have hnext : a + 1 + (2 ^ s - 1) = a + 2 ^ s := by omega
    rw [← mod_two_pow_land _ h, hwrap, Nat.add_mod_right, mod_two_pow_land _ h, pred_land_mask,
      hnext, Nat.add_mod_right]

end ForStd.Morton
