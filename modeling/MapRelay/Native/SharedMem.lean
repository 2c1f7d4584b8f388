import Mathlib.Algebra.Group.Nat.Defs

/-!
# Mapping the neighbour table into user space (`mbr-mod.c`: `mem_mmap`)

The kernel module keeps the neighbour table in a few reserved pages that a user process
maps through a misc device. All arithmetic is that of a 64-bit `unsigned long`.
-/

namespace MapRelay.Kernel

/-- `PAGE_SHIFT`. -/
def pageShift : UInt64 := 12

/-- The size of a page. -/
abbrev pageSize : Nat := 4096

/-- `SHARED_MEM_SIZE`. -/
def sharedMemSize : UInt64 := 4 * 4096

/-- The pages behind `shared_mem_neighbor`, as `malloc_reserved_mem` got them: in the direct
    mapping of physical memory, which starts at `PAGE_OFFSET`, and on a page boundary,
    where `kmalloc` puts a power of two. -/
structure SharedMem where
  sharedMemNeighbor : UInt64
  pageOffset : UInt64
  above : pageOffset ≤ sharedMemNeighbor
  aligned : (sharedMemNeighbor - pageOffset).toNat % pageSize = 0
  fits : sharedMemNeighbor.toNat + sharedMemSize.toNat ≤ 2 ^ 64

/-- The fields of `struct vm_area_struct` that `mem_mmap` reads. -/
structure Vma where
  vmStart : UInt64
  vmEnd : UInt64
  vmPgoff : UInt64
  vmPageProt : UInt64

/-- A successful `remap_pfn_range`: the frame the mapping starts at, and its length in bytes. -/
structure PfnRange where
  pfn : UInt64
  size : UInt64
  deriving DecidableEq, Repr

/-- The byte offset that the process asked for. -/
def Vma.offset (vma : Vma) : UInt64 := vma.vmPgoff <<< pageShift

/-- The number of bytes that the process asked for. -/
def Vma.vmsize (vma : Vma) : UInt64 := vma.vmEnd - vma.vmStart

/-- The physical address of the shared memory. -/
def SharedMem.physics (mem : SharedMem) : UInt64 := mem.sharedMemNeighbor - mem.pageOffset

/-- The first page frame of the shared memory. -/
def SharedMem.mypfn (mem : SharedMem) : UInt64 := mem.physics >>> pageShift

def ENXIO : Int32 := 6

def EAGAIN : Int32 := 11

/-- `mem_mmap`. `remapPfnRange vm_start pfn size prot` is the kernel's return value, `0`
    when the frames are mapped. -/
def memMmap (remapPfnRange : UInt64 → UInt64 → UInt64 → UInt64 → Int32) (mem : SharedMem)
    (vma : Vma) : Except Int32 PfnRange :=
  -- `unsigned long`: an offset past the region makes this large
  let psize := sharedMemSize - vma.offset
  if vma.vmsize > psize then .error (- ENXIO)
  else if remapPfnRange vma.vmStart mem.mypfn vma.vmsize vma.vmPageProt ≠ 0 then .error (- EAGAIN)
  else .ok ⟨mem.mypfn, vma.vmsize⟩

/-- The page frame is mapped: every page of the range up to the one with its last byte is. -/
def PfnRange.Maps (r : PfnRange) (frame : Nat) : Prop :=
  r.pfn.toNat ≤ frame ∧ (frame - r.pfn.toNat) * pageSize < r.size.toNat

/-- The page frame lies within the shared memory. -/
def SharedMem.Contains (mem : SharedMem) (frame : Nat) : Prop :=
  mem.physics.toNat ≤ frame * pageSize ∧
    frame * pageSize + pageSize ≤ mem.physics.toNat + sharedMemSize.toNat

instance (r : PfnRange) (frame : Nat) : Decidable (r.Maps frame) :=
  inferInstanceAs (Decidable (_ ∧ _))

instance (mem : SharedMem) (frame : Nat) : Decidable (mem.Contains frame) :=
  inferInstanceAs (Decidable (_ ∧ _))

end MapRelay.Kernel
