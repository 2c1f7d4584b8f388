import Mathlib.Data.Nat.Cast.Defs

/-!
# Numerals

A numeral of a field contains a proof that it is at least two. The one that Mathlib's instance
gives is an application, and each module that has the numeral in a definition makes a constant of
its own for it. The constants here stand for it in all modules, so that one numeral of the source
is one term.
-/

namespace MapRelay

instance atLeastTwo_2 : Nat.AtLeastTwo 2 := ⟨by decide⟩
instance atLeastTwo_4 : Nat.AtLeastTwo 4 := ⟨by decide⟩
instance atLeastTwo_5 : Nat.AtLeastTwo 5 := ⟨by decide⟩
instance atLeastTwo_10 : Nat.AtLeastTwo 10 := ⟨by decide⟩
instance atLeastTwo_15 : Nat.AtLeastTwo 15 := ⟨by decide⟩
instance atLeastTwo_75 : Nat.AtLeastTwo 75 := ⟨by decide⟩
instance atLeastTwo_100 : Nat.AtLeastTwo 100 := ⟨by decide⟩
instance atLeastTwo_195 : Nat.AtLeastTwo 195 := ⟨by decide⟩
instance atLeastTwo_200 : Nat.AtLeastTwo 200 := ⟨by decide⟩
instance atLeastTwo_360 : Nat.AtLeastTwo 360 := ⟨by decide⟩
instance atLeastTwo_999 : Nat.AtLeastTwo 999 := ⟨by decide⟩
instance atLeastTwo_4096 : Nat.AtLeastTwo 4096 := ⟨by decide⟩

end MapRelay
