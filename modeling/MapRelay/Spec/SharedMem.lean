import Mathlib.Tactic.ByContra
import MapRelay.Native.SharedMem

/-!
# When a mapping stays inside the shared memory

`mem_mmap` compares the requested length with what is left of the region after the
requested offset, and then maps from the start of the region whatever the offset. A
mapping therefore stays inside exactly when it is no longer than the whole region, and
the check lets longer ones through once the offset is past the end and the subtraction
wraps.
-/

namespace MapRelay.Kernel

variable {mem : SharedMem} {vma : Vma}

/-- The shared memory has four pages. -/
@[simp] theorem toNat_sharedMemSize : sharedMemSize.toNat = 16384 := rfl

/-- The shared memory starts at the start of its first frame. -/
private theorem SharedMem.toNat_mypfn (mem : SharedMem) :
    mem.mypfn.toNat * pageSize = mem.physics.toNat := by
  have hshift : mem.mypfn.toNat = mem.physics.toNat / pageSize := by
    simp [mypfn, pageShift, UInt64.toNat_shiftRight, Nat.shiftRight_eq_div_pow]
  have haligned : mem.physics.toNat % pageSize = 0 := mem.aligned
  rw [hshift, Nat.div_mul_cancel (Nat.dvd_of_mod_eq_zero haligned)]

/-- What is left after the offset, in the arithmetic of the code. -/
private theorem toNat_psize (offset : UInt64) : (sharedMemSize - offset).toNat =
    if offset.toNat ≤ 16384 then 16384 - offset.toNat else 2 ^ 64 + 16384 - offset.toNat := by
  -- The subtraction wraps exactly once when the offset is past the region
  have hlt := offset.toNat_lt
  rw [UInt64.toNat_sub, toNat_sharedMemSize]
  split <;> omega

/-- A range from the first frame on stays inside iff it is no longer than the region. -/
theorem maps_contains_iff (mem : SharedMem) (size : UInt64) :
    (∀ frame, PfnRange.Maps ⟨mem.mypfn, size⟩ frame → mem.Contains frame) ↔
      size.toNat ≤ 16384 := by
  have hstart := mem.toNat_mypfn
  simp only [PfnRange.Maps, SharedMem.Contains, toNat_sharedMemSize, pageSize] at *
  constructor
  · intro h
    by_contra hlong
    -- The first frame past the region holds a byte of the range
    have hpast := h (mem.mypfn.toNat + 4) ⟨by omega, by omega⟩
    omega
  · intro hsize frame ⟨hle, hlt⟩
    constructor <;> omega

/-- The requests that `mem_mmap` answers as it should: no longer than the region, or from
    an offset inside it, or so long that the wrapped check still refuses them. -/
def Vma.Bounded (vma : Vma) : Prop :=
  vma.vmsize.toNat ≤ 16384 ∨ vma.offset.toNat ≤ 16384 ∨
    2 ^ 64 + 16384 < vma.offset.toNat + vma.vmsize.toNat

instance (vma : Vma) : Decidable vma.Bounded := inferInstanceAs (Decidable (_ ∨ _))

/-- The check lets a request through that is longer than the region iff it is not bounded. -/
private theorem long_and_passes_iff (vma : Vma) :
    (16384 < vma.vmsize.toNat ∧ ¬ vma.vmsize > sharedMemSize - vma.offset) ↔ ¬ vma.Bounded := by
  have hlt := vma.vmsize.toNat_lt
  rw [gt_iff_lt, UInt64.lt_iff_toNat_lt, toNat_psize]
  unfold Vma.Bounded
  split <;> omega

/-- `mem_mmap` fails or maps shared memory only, exactly on bounded requests and on those
    that `remap_pfn_range` refuses. -/
theorem memMmap_contained_iff (remapPfnRange : UInt64 → UInt64 → UInt64 → UInt64 → Int32)
    (mem : SharedMem) (vma : Vma) :
    ((∃ errno, memMmap remapPfnRange mem vma = .error errno) ∨
      ∃ r, memMmap remapPfnRange mem vma = .ok r ∧ ∀ frame, r.Maps frame → mem.Contains frame) ↔
    (vma.Bounded ∨ remapPfnRange vma.vmStart mem.mypfn vma.vmsize vma.vmPageProt ≠ 0) := by
  have hcheck := long_and_passes_iff vma
  unfold memMmap
  dsimp only
  split
  · -- Refused by the check, which lets unbounded requests through
    rename_i hlong
    have hbounded : vma.Bounded := by
      by_contra hb
      exact (hcheck.mpr hb).2 hlong
    simp [hbounded]
  · rename_i hpass
    split
    · rename_i hremap
      simp [hremap]
    · -- Mapped: what counts is the length, as the offset is not used
      rename_i hremap
      have hcontained := maps_contains_iff mem vma.vmsize
      have hbounded : vma.Bounded ↔ vma.vmsize.toNat ≤ 16384 := by
        rw [← not_iff_not, ← hcheck]
        simp only [hpass, not_false_eq_true, and_true, Nat.not_le]
      simp [hremap, hbounded, hcontained]

/-- Eight pages from page 5 of the four: the process gets four frames that are not shared
    memory. -/
theorem memMmap_past_region :
    ∃ (mem : SharedMem) (vma : Vma) (r : PfnRange), vma.vmPgoff = 5 ∧
      vma.vmsize = 8 * 4096 ∧ memMmap (fun _ _ _ _ => 0) mem vma = .ok r ∧
      ¬ ∀ frame, r.Maps frame → mem.Contains frame := by
  refine ⟨⟨0xffff880000010000, 0xffff880000000000, by decide, by decide, by decide⟩,
    ⟨0x7f0000000000, 0x7f0000008000, 5, 0⟩, ⟨16, 8 * 4096⟩, rfl, by decide, rfl, fun h => ?_⟩
  exact absurd (h 20 (by decide)) (by decide)

end MapRelay.Kernel
