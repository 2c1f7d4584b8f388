import MapRelay.ForStd.Lookup
import Mathlib.Data.List.Nodup

/-!
# Maps in both directions

A bimap is a set of pairs in which no left and no right component repeats. It numbers a list if
its pairs are the elements of the list with their positions. Erasing an element leaves a gap in
the numbering, and the gap is moved to the end by shifting the positions behind it down, one
after the other.
-/

namespace ForStd

/-! ## Lists without repetition -/

section AppendNew

variable {α : Type} [DecidableEq α] {xs as : List α} {a b : α}

/-- Append an element that is not in the list yet. -/
def appendNew (xs : List α) (a : α) : List α := if a ∈ xs then xs else xs ++ [a]

/-- Appending keeps what is there in its place. -/
theorem prefix_appendNew : xs <+: appendNew xs a := by
  rw [appendNew]
  split
  · exact List.prefix_rfl
  · exact List.prefix_append _ _

/-- The element is in the list afterwards. -/
theorem mem_appendNew : b ∈ appendNew xs a ↔ b ∈ xs ∨ b = a := by
  rw [appendNew]
  split <;> grind

/-- An element that is there is not appended. -/
theorem appendNew_of_mem (h : a ∈ xs) : appendNew xs a = xs := if_pos h

/-- Appending several elements keeps what is there in its place. -/
theorem prefix_foldl_appendNew : xs <+: as.foldl appendNew xs := by
  induction as generalizing xs with
  | nil => exact List.prefix_rfl
  | cons a as ih => exact prefix_appendNew.trans ih

/-- All the elements are in the list afterwards. -/
theorem mem_foldl_appendNew : b ∈ as.foldl appendNew xs ↔ b ∈ xs ∨ b ∈ as := by
  induction as generalizing xs with
  | nil => simp
  | cons a as ih => rw [List.foldl_cons, ih, mem_appendNew, List.mem_cons, or_assoc]

/-- Nothing is appended exactly if everything is there. -/
theorem foldl_appendNew_eq_self : as.foldl appendNew xs = xs ↔ ∀ a ∈ as, a ∈ xs := by
  constructor
  · intro heq a ha
    rw [← heq]
    exact mem_foldl_appendNew.mpr (.inr ha)
  · intro hall
    induction as with
    | nil => rfl
    | cons a as ih =>
      rw [List.foldl_cons, appendNew_of_mem (hall a List.mem_cons_self)]
      exact ih fun b hb => hall b (List.mem_cons_of_mem _ hb)

end AppendNew

/-- A set of pairs in which neither side repeats. -/
structure Bimap (α β : Type) where
  pairs : List (α × β)
  nodup_left : (pairs.map Prod.fst).Nodup
  nodup_right : (pairs.map Prod.snd).Nodup

namespace Bimap

variable {α β : Type}

instance : Membership (α × β) (Bimap α β) := ⟨fun m p => p ∈ m.pairs⟩

/-- The pairs of a bimap are those of its list. -/
theorem mem_def {m : Bimap α β} {p : α × β} : p ∈ m ↔ p ∈ m.pairs := Iff.rfl

/-- The bimap without pairs. -/
def empty : Bimap α β := ⟨[], List.nodup_nil, List.nodup_nil⟩

/-- The empty bimap has no pairs. -/
@[simp] theorem not_mem_empty (p : α × β) : p ∉ (empty : Bimap α β) := List.not_mem_nil

variable {m m' : Bimap α β} {a : α} {b b' : β}

section Left

variable [DecidableEq α]

/-- What `a` is paired with. -/
def left (m : Bimap α β) (a : α) : Option β := (m.pairs.find? (·.1 == a)).map Prod.snd

/-- Take out the pair of `a`. -/
def eraseLeft (m : Bimap α β) (a : α) : Bimap α β where
  pairs := m.pairs.filter (·.1 ≠ a)
  nodup_left := m.nodup_left.sublist (List.filter_sublist.map _)
  nodup_right := m.nodup_right.sublist (List.filter_sublist.map _)

/-- `left` finds the partner of `a`. -/
theorem left_eq_some : m.left a = some b ↔ (a, b) ∈ m := by
  rw [left, Option.map_eq_some_iff, mem_def]
  constructor
  · intro ⟨p, hp, hb⟩
    obtain ⟨hmem, ha⟩ := (find?_key_eq_some m.nodup_left).mp hp
    rw [← ha, ← hb]
    exact hmem
  · intro hmem
    exact ⟨(a, b), (find?_key_eq_some m.nodup_left).mpr ⟨hmem, rfl⟩, rfl⟩

/-- `left` fails exactly if `a` has no partner. -/
theorem left_eq_none : m.left a = none ↔ ∀ b, (a, b) ∉ m := by
  rw [Option.eq_none_iff_forall_ne_some]
  exact forall_congr' fun b => not_congr left_eq_some

/-- Taking out the pair of `a` leaves the others. -/
theorem mem_eraseLeft {p : α × β} : p ∈ m.eraseLeft a ↔ p ∈ m ∧ p.1 ≠ a := by
  simp [mem_def, eraseLeft]

end Left

section Right

variable [DecidableEq β]

/-- What `b` is paired with. -/
def right (m : Bimap α β) (b : β) : Option α := (m.pairs.find? (·.2 == b)).map Prod.fst

/-- Replace the right component `b` by `b'`, unless that is there already. -/
def modifyRight (m : Bimap α β) (b b' : β) : Option (Bimap α β) :=
  if h : ∀ p ∈ m.pairs, p.2 = b' → p.2 = b then
    some
      { pairs := m.pairs.map fun p => if p.2 = b then (p.1, b') else p
        nodup_left := by
          have hleft : (m.pairs.map fun p => if p.2 = b then (p.1, b') else p).map Prod.fst =
              m.pairs.map Prod.fst := by
            rw [List.map_map]
            apply List.map_congr_left
            intro p _
            by_cases hp : p.2 = b <;> simp [hp]
          exact hleft ▸ m.nodup_left
        nodup_right := by
          have hright : (m.pairs.map fun p => if p.2 = b then (p.1, b') else p).map Prod.snd =
              (m.pairs.map Prod.snd).map fun y => if y = b then b' else y := by
            rw [List.map_map, List.map_map]
            apply List.map_congr_left
            intro p _
            by_cases hp : p.2 = b <;> simp [hp]
          rw [hright]
          apply List.Nodup.map_on _ m.nodup_right
          -- `b'` comes from `b` only
          intro x hx y hy hxy
          obtain ⟨p, hp, rfl⟩ := List.mem_map.mp hx
          obtain ⟨q, hq, rfl⟩ := List.mem_map.mp hy
          have hpb := h p hp
          have hqb := h q hq
          grind }
  else none

/-- `right` finds the partner of `b`. -/
theorem right_eq_some : m.right b = some a ↔ (a, b) ∈ m := by
  rw [right, Option.map_eq_some_iff, mem_def]
  constructor
  · intro ⟨p, hp, ha⟩
    obtain ⟨hmem, hb⟩ := (find?_key_eq_some m.nodup_right).mp hp
    rw [← ha, ← hb]
    exact hmem
  · intro hmem
    exact ⟨(a, b), (find?_key_eq_some m.nodup_right).mpr ⟨hmem, rfl⟩, rfl⟩

/-- A component is replaced unless the new one belongs to another pair. -/
theorem modifyRight_eq_some :
    m.modifyRight b b' = some m' → (∀ a, (a, b') ∈ m → b' = b) ∧
      ∀ x y, (x, y) ∈ m' ↔ (y = b' ∧ (x, b) ∈ m) ∨ (y ≠ b ∧ (x, y) ∈ m) := by
  intro hm
  rw [modifyRight] at hm
  split at hm
  · rename_i h
    cases hm
    refine ⟨fun a ha => h (a, b') ha rfl, fun x y => ?_⟩
    simp only [mem_def, List.mem_map, Prod.exists]
    grind
  · cases hm

/-- A right component that is not there yet can be put in the place of another one. -/
theorem exists_modifyRight (h : ∀ a, (a, b') ∈ m → b' = b) :
    ∃ m', m.modifyRight b b' = some m' := by
  have hfree : ∀ p ∈ m.pairs, p.2 = b' → p.2 = b := by
    rintro ⟨x, y⟩ hp rfl
    exact h x hp
  exact ⟨_, dif_pos hfree⟩

end Right

section Insert

variable [DecidableEq α] [DecidableEq β]

/-- Add a pair, unless one of its components is there already. -/
def insert (m : Bimap α β) (a : α) (b : β) : Bimap α β :=
  if h : a ∉ m.pairs.map Prod.fst ∧ b ∉ m.pairs.map Prod.snd then
    ⟨(a, b) :: m.pairs, List.nodup_cons.mpr ⟨h.1, m.nodup_left⟩,
      List.nodup_cons.mpr ⟨h.2, m.nodup_right⟩⟩
  else m

/-- A pair of two new components is added. -/
theorem mem_insert (ha : ∀ b, (a, b) ∉ m) (hb : ∀ a, (a, b) ∉ m) {p : α × β} :
    p ∈ m.insert a b ↔ p = (a, b) ∨ p ∈ m := by
  have hnew : a ∉ m.pairs.map Prod.fst ∧ b ∉ m.pairs.map Prod.snd := by
    constructor
    · intro hmem
      obtain ⟨⟨x, y⟩, hp, rfl⟩ := List.mem_map.mp hmem
      exact ha y hp
    · intro hmem
      obtain ⟨⟨x, y⟩, hp, rfl⟩ := List.mem_map.mp hmem
      exact hb x hp
  rw [insert, dif_pos hnew]
  exact List.mem_cons

end Insert

/-! ## Numbering a list -/

/-- The elements of `xs` are paired with their positions. -/
def Numbers (m : Bimap α Int) (xs : List α) : Prop :=
  ∀ a i, (a, i) ∈ m ↔ ∃ j : Nat, xs[j]? = some a ∧ i = j

/-- The same with `gap` left out of the numbers. -/
def NumbersAround (m : Bimap α Int) (gap : Nat) (xs : List α) : Prop :=
  ∀ a i, (a, i) ∈ m ↔ ∃ j : Nat, xs[j]? = some a ∧ i = if j < gap then (j : Int) else j + 1

variable {n : Bimap α Int} {xs : List α} {gap : Nat}

/-- The empty bimap numbers the empty list. -/
theorem numbers_empty : (empty : Bimap α Int).Numbers [] := by
  intro a i
  simp

/-- A gap at the end is none. -/
theorem numbersAround_length : n.NumbersAround xs.length xs ↔ n.Numbers xs := by
  refine forall_congr' fun a => forall_congr' fun i => iff_congr Iff.rfl ?_
  refine exists_congr fun j => and_congr_right fun hj => ?_
  rw [if_pos (List.getElem?_eq_some_iff.mp hj).1]

/-- Nothing has the number of the gap. -/
theorem NumbersAround.not_mem_gap (hn : n.NumbersAround gap xs) : (a, (gap : Int)) ∉ n := by
  intro hmem
  obtain ⟨j, -, hj⟩ := (hn a gap).mp hmem
  split at hj <;> omega

/-- The position behind the gap is moved into it. -/
theorem NumbersAround.modifyRight (hn : n.NumbersAround gap xs) :
    ∃ n', n.modifyRight (gap + 1) gap = some n' ∧ n'.NumbersAround (gap + 1) xs := by
  have hfree : ∀ a, (a, (gap : Int)) ∈ n → (gap : Int) = gap + 1 :=
    fun _ ha => absurd ha hn.not_mem_gap
  obtain ⟨n', hn'⟩ := exists_modifyRight hfree
  refine ⟨n', hn', fun a i => ?_⟩
  rw [(modifyRight_eq_some hn').2, hn, hn]
  constructor
  · rintro (⟨rfl, j, hj, hi⟩ | ⟨hne, j, hj, rfl⟩)
    · exact ⟨j, hj, by split at hi <;> grind⟩
    · exact ⟨j, hj, by grind⟩
  · intro ⟨j, hj, hi⟩
    by_cases hjgap : j = gap
    · exact .inl ⟨by grind, j, hj, by grind⟩
    · exact .inr ⟨by grind, j, hj, by grind⟩

/-- The element with a number is the one at that place. -/
theorem Numbers.right_eq_some (hn : n.Numbers xs) {i : Int} :
    n.right i = some a ↔ ∃ j : Nat, xs[j]? = some a ∧ i = j :=
  Bimap.right_eq_some.trans (hn a i)

section Numbers

variable [DecidableEq α]

/-- The number of an element is its place. -/
theorem Numbers.left_eq_some (hn : n.Numbers xs) {i : Int} :
    n.left a = some i ↔ ∃ j : Nat, xs[j]? = some a ∧ i = j :=
  Bimap.left_eq_some.trans (hn a i)

/-- Only the elements of the list have numbers. -/
theorem Numbers.left_eq_none (hn : n.Numbers xs) : n.left a = none ↔ a ∉ xs := by
  rw [Bimap.left_eq_none, List.mem_iff_getElem?]
  constructor
  · intro hno ⟨j, hj⟩
    exact hno j ((hn a j).mpr ⟨j, hj, rfl⟩)
  · intro hno i hmem
    obtain ⟨j, hj, -⟩ := (hn a i).mp hmem
    exact hno ⟨j, hj⟩

/-- A number that was given stays. -/
theorem Numbers.left_of_prefix {n' : Bimap α Int} {xs' : List α} (hn : n.Numbers xs)
    (hn' : n'.Numbers xs') (hpre : xs <+: xs') {i : Int} (hi : n.left a = some i) :
    n'.left a = some i := by
  obtain ⟨j, hj, rfl⟩ := hn.left_eq_some.mp hi
  obtain ⟨rest, rfl⟩ := hpre
  have hlt := (List.getElem?_eq_some_iff.mp hj).1
  exact hn'.left_eq_some.mpr ⟨j, (List.getElem?_append_left hlt).trans hj, rfl⟩

/-- What is numbered does not repeat. -/
theorem Numbers.nodup (hn : n.Numbers xs) : xs.Nodup := by
  rw [List.nodup_iff_getElem?_ne_getElem?]
  intro i j hij hj heq
  have hi : xs[i]? = some xs[j] := heq.trans (List.getElem?_eq_getElem hj)
  have hleft := hn.left_eq_some.mpr ⟨i, hi, rfl⟩
  rw [hn.left_eq_some.mpr ⟨j, List.getElem?_eq_getElem hj, rfl⟩] at hleft
  have := Option.some.inj hleft
  omega

/-- An element that is added gets the next number. -/
theorem Numbers.insert (hn : n.Numbers xs) (ha : a ∉ xs) :
    (n.insert a xs.length).Numbers (xs ++ [a]) := by
  have hleft : ∀ i, (a, i) ∉ n := Bimap.left_eq_none.mp (hn.left_eq_none.mpr ha)
  have hright : ∀ x, (x, (xs.length : Int)) ∉ n := by
    intro x hmem
    obtain ⟨j, hj, hlen⟩ := (hn x _).mp hmem
    have := (List.getElem?_eq_some_iff.mp hj).1
    omega
  intro x i
  rw [mem_insert hleft hright, hn x i]
  constructor
  · rintro (hnew | ⟨j, hj, rfl⟩)
    · cases hnew
      exact ⟨xs.length, List.getElem?_concat_length, rfl⟩
    · exact ⟨j, List.getElem?_append_left (List.getElem?_eq_some_iff.mp hj).1 ▸ hj, rfl⟩
  · intro ⟨j, hj, hi⟩
    rw [List.getElem?_append] at hj
    split at hj
    · exact .inr ⟨j, hj, hi⟩
    · -- The last element
      obtain ⟨hlast, hx⟩ := List.getElem?_eq_some_iff.mp hj
      simp only [List.length_singleton] at hlast
      have hpos : j = xs.length := by omega
      subst hpos
      left
      simp_all

/-- An element that is erased leaves a gap at its position. -/
theorem Numbers.eraseLeft (hn : n.Numbers xs) {k : Nat} (hk : xs[k]? = some a) :
    (n.eraseLeft a).NumbersAround k (xs.eraseIdx k) := by
  intro x i
  rw [mem_eraseLeft, hn x i]
  constructor
  · rintro ⟨⟨j, hj, rfl⟩, hne⟩
    have hjk : j ≠ k := by
      rintro rfl
      exact hne (Option.some.inj (hj.symm.trans hk))
    rcases Nat.lt_or_gt_of_ne hjk with hlt | hgt
    · exact ⟨j, by rw [List.getElem?_eraseIdx_of_lt hlt, hj], by rw [if_pos hlt]⟩
    · refine ⟨j - 1, ?_, ?_⟩
      · rw [List.getElem?_eraseIdx_of_ge (by omega), Nat.sub_add_cancel (by omega), hj]
      · rw [if_neg (by omega)]
        omega
  · intro ⟨j, hj, hi⟩
    rw [List.getElem?_eraseIdx] at hj
    have hpos : ∃ l : Nat, xs[l]? = some x ∧ i = l ∧ l ≠ k := by
      split at hj
      · exact ⟨j, hj, by grind, by omega⟩
      · exact ⟨j + 1, hj, by grind, by omega⟩
    obtain ⟨l, hl, rfl, hlk⟩ := hpos
    refine ⟨⟨l, hl, rfl⟩, ?_⟩
    rintro rfl
    -- The list has the element once
    have hleft := hn.left_eq_some.mpr ⟨l, hl, rfl⟩
    rw [hn.left_eq_some.mpr ⟨k, hk, rfl⟩] at hleft
    have := Option.some.inj hleft
    omega

end Numbers

end Bimap

end ForStd
