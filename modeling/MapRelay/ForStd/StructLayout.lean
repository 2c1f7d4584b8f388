/-!
# The layout of a C struct

Each member of a struct starts at the first multiple of its alignment behind the member before
it, and the size of the struct is a multiple of the largest alignment. Two structs that begin
with the same members have them in the same places, whatever comes behind.
-/

namespace ForStd

/-- A member of a struct. -/
structure Member where
  size : Nat
  align : Nat
  deriving DecidableEq, Repr

/-- The first multiple of `a` from `n` on. -/
def alignUp (n a : Nat) : Nat := (n + a - 1) / a * a

namespace Member

/-- Where the members start, behind what ends at `n`. -/
def offsetsFrom : Nat → List Member → List Nat
  | _, [] => []
  | n, m :: ms => alignUp n m.align :: offsetsFrom (alignUp n m.align + m.size) ms

/-- Where the last member ends. -/
def endFrom : Nat → List Member → Nat
  | n, [] => n
  | n, m :: ms => endFrom (alignUp n m.align + m.size) ms

/-- The offsets of the members of a struct. -/
def offsets (ms : List Member) : List Nat := offsetsFrom 0 ms

/-- `sizeof`. -/
def sizeof (ms : List Member) : Nat := alignUp (endFrom 0 ms) ((ms.map align).foldl max 1)

/-- Each member has an offset. -/
theorem length_offsetsFrom (n : Nat) (ms : List Member) :
    (offsetsFrom n ms).length = ms.length := by
  induction ms generalizing n with
  | nil => rfl
  | cons m ms ih => simp [offsetsFrom, ih]

/-- The offsets of two lists of members. -/
theorem offsetsFrom_append (n : Nat) (ms ms' : List Member) :
    offsetsFrom n (ms ++ ms') = offsetsFrom n ms ++ offsetsFrom (endFrom n ms) ms' := by
  induction ms generalizing n with
  | nil => rfl
  | cons m ms ih => simp [offsetsFrom, endFrom, ih]

/-- The members that two structs begin with are in the same places. -/
theorem getElem?_offsets_append {ms : List Member} {i : Nat} (hi : i < ms.length)
    (ms₁ ms₂ : List Member) : (offsets (ms ++ ms₁))[i]? = (offsets (ms ++ ms₂))[i]? := by
  have hlen : i < (offsetsFrom 0 ms).length := by rwa [length_offsetsFrom]
  rw [offsets, offsets, offsetsFrom_append, offsetsFrom_append, List.getElem?_append_left hlen,
    List.getElem?_append_left hlen]

end Member

end ForStd
