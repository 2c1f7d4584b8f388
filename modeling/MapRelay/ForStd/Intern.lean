import Mathlib.Data.List.Basic
import Mathlib.Data.List.Dedup
import Mathlib.Data.List.Perm.Subperm

/-!
# Numbering keys in the order in which they are met

The keys that have been met are kept in a list without repetitions, and the number of a key is
its place in that list. Numbers stay what they are when more keys are met.
-/

namespace ForStd.Intern

variable {κ : Type} [DecidableEq κ] {keys : List κ} {k : κ}

/-- The keys after `k` has been met. -/
def add (keys : List κ) (k : κ) : List κ := if k ∈ keys then keys else keys ++ [k]

/-- The keys after all of `ks` have been met. -/
def addAll (keys ks : List κ) : List κ := ks.foldl add keys

/-- Two lists of names are added one after the other. -/
theorem addAll_append (keys ks ls : List κ) :
    addAll keys (ks ++ ls) = addAll (addAll keys ks) ls := List.foldl_append

/-- A name that is added is there. -/
theorem mem_add {x : κ} : x ∈ add keys k ↔ x ∈ keys ∨ x = k := by
  rw [add]
  split
  case isTrue h => exact ⟨.inl, fun hx => hx.elim id fun hx => hx ▸ h⟩
  case isFalse h => rw [List.mem_append, List.mem_singleton]

/-- All the names that are added are there. -/
theorem mem_addAll {ks : List κ} {x : κ} : x ∈ addAll keys ks ↔ x ∈ keys ∨ x ∈ ks := by
  induction ks generalizing keys with
  | nil => simp [addAll]
  | cons k ks ih =>
    show x ∈ addAll (add keys k) ks ↔ _
    rw [ih, mem_add, List.mem_cons, or_assoc]

/-- No name is there twice when one is added. -/
theorem nodup_add (h : keys.Nodup) : (add keys k).Nodup := by
  rw [add]
  split
  case isTrue => exact h
  case isFalse hk => exact List.nodup_append'.mpr ⟨h, List.nodup_singleton k, by simpa using hk⟩

/-- No name is there twice when several are added. -/
theorem nodup_addAll (h : keys.Nodup) (ks : List κ) : (addAll keys ks).Nodup := by
  induction ks generalizing keys with
  | nil => exact h
  | cons k ks ih => exact ih (nodup_add h)

/-- A name keeps its number. -/
theorem idxOf_add {x : κ} (h : x ∈ keys) : (add keys k).idxOf x = keys.idxOf x := by
  rw [add]
  split
  · rfl
  · exact List.idxOf_append_of_mem h

/-- The number of a key stays. -/
theorem idxOf_addAll {x : κ} (h : x ∈ keys) (ks : List κ) :
    (addAll keys ks).idxOf x = keys.idxOf x := by
  induction ks generalizing keys with
  | nil => rfl
  | cons k ks ih => exact (ih (mem_add.mpr (.inl h))).trans (idxOf_add h)

/-- A name that is there is not added. -/
theorem add_of_mem (h : k ∈ keys) : add keys k = keys := if_pos h

/-- A new name is put at the end. -/
theorem add_of_notMem (h : k ∉ keys) : add keys k = keys ++ [k] := if_neg h

/-- There are no more numbers than different keys. -/
theorem length_addAll_nil_le (ks : List κ) : (addAll [] ks).length ≤ ks.dedup.length := by
  have hsubset : addAll [] ks ⊆ ks.dedup := fun x hx =>
    List.mem_dedup.mpr ((mem_addAll.mp hx).resolve_left List.not_mem_nil)
  exact (List.subperm_of_subset (nodup_addAll List.nodup_nil ks) hsubset).length_le

end ForStd.Intern
