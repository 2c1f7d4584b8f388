/-!
# The filter of features (`filter.cpp`)

The filter reads a document and erases the features that are no roads from its array of features,
in place, while an iterator goes through the array. `Value` is the DOM of `rapidjson`, with a type
`N` of numbers that nothing reads. An iterator of the array is the distance from `Begin()`: it
stands in front of the first element between `itr--` and `++itr` when that one has been erased.
-/

namespace MapRelay.MapUtils.Filter

/-- A value of a document. -/
inductive Value (N : Type) where
  | null
  | bool (b : Bool)
  | number (n : N)
  | string (s : String)
  | array (elements : List (Value N))
  | object (members : List (String × Value N))

/-- How the filter can fail: out of fuel, with an assertion of its own or of `rapidjson`, or with
    an iterator that is used outside of the array. -/
inductive Fault where
  | outOfFuel
  | assertFailed
  | outOfRange
  deriving DecidableEq, Repr

variable {N : Type}

/-- `assert`. -/
def assert (b : Bool) : Except Fault Unit := if b then .ok () else .error .assertFailed

namespace Value

/-- `IsObject`. -/
def isObject : Value N → Bool
  | object _ => true
  | _ => false

/-- `FindMember`, which asserts that the value is an object: the first member with the name. -/
def findMember (name : String) : Value N → Except Fault (Option (Value N))
  | object members => .ok (members.lookup name)
  | _ => .error .assertFailed

/-- `HasMember`. -/
def hasMember (v : Value N) (name : String) : Except Fault Bool := do
  return (← v.findMember name).isSome

/-- `operator[]`. -/
def get (v : Value N) (name : String) : Except Fault (Value N) := do
  match ← v.findMember name with
  | some w => .ok w
  | none => .error .assertFailed

/-- The elements, if `IsArray()`, as `assert(features.IsArray())` has it. -/
def asArray : Value N → Except Fault (List (Value N))
  | array elements => .ok elements
  | _ => .error .assertFailed

/-- The first of the members with the name gets a new value. -/
def setMember (name : String) (w : Value N) : List (String × Value N) → List (String × Value N)
  | [] => []
  | (n, v) :: members =>
    if name == n then (n, w) :: members else (n, v) :: setMember name w members

/-- The value after its member with the name has become `w`, in place. -/
def withMember (v : Value N) (name : String) (w : Value N) : Value N :=
  match v with
  | object members => object (setMember name w members)
  | _ => v

end Value

/-- `Erase(pos)` of an array, for an iterator `pos`. -/
def erase (pos : Int) (elements : List (Value N)) : Except Fault (List (Value N)) := do
  assert (decide (0 < elements.length))
  assert (decide (0 ≤ pos))
  assert (decide (pos + 1 ≤ elements.length))
  return elements.eraseIdx pos.toNat

/-- `*itr`. -/
def deref (itr : Int) (elements : List (Value N)) : Except Fault (Value N) :=
  match if 0 ≤ itr then elements[itr.toNat]? else none with
  | some v => .ok v
  | none => .error .outOfRange

/-- The array and the iterator, and the features that have been examined so far, of which the
    program keeps no account. -/
structure State (N : Type) where
  features : List (Value N)
  itr : Int
  examined : List (Value N)

/-- `d["features"].Erase(itr); itr--`. -/
def State.eraseBack (s : State N) : Except Fault (State N) := do
  let features ← erase s.itr s.features
  return { s with features, itr := s.itr - 1 }

/-- The body of the loop. -/
def examine (s : State N) : Except Fault (State N) := do
  let feature ← deref s.itr s.features
  let s := { s with examined := s.examined ++ [feature] }
  assert (← feature.hasMember "properties")
  assert feature.isObject
  assert (← feature.hasMember "properties")
  if !(← (← feature.get "properties").hasMember "highway") then s.eraseBack
  else if ← (← feature.get "properties").hasMember "area" then s.eraseBack
  else return s

/-- The loop: `End()` is asked for each time. -/
def loop : Nat → State N → Except Fault (State N)
  | 0, _ => .error .outOfFuel
  | fuel + 1, s =>
    if s.itr ≠ s.features.length then do
      let s ← examine s
      loop fuel { s with itr := s.itr + 1 }
    else .ok s

/-- `main`: from the document that has been read to the one that is written, and the features that
    have been examined. -/
def main (fuel : Nat) (d : Value N) : Except Fault (Value N × List (Value N)) := do
  let features ← (← d.get "features").asArray
  let s ← loop fuel ⟨features, 0, []⟩
  return (d.withMember "features" (.array s.features), s.examined)

end MapRelay.MapUtils.Filter
