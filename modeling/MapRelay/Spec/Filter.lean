import MapRelay.ForStd.EraseScan
import MapRelay.Native.Filter

/-!
# What the filter leaves

The loop of the filter keeps the roads: the features whose properties have a `highway` and no
`area`. While it runs, its array and its iterator are those of a scan that erases (`Scanned`),
also between two erased features and at the first one, so that every feature is examined once.
-/

namespace MapRelay.MapUtils.Filter

open ForStd

variable {N : Type} {s : State N} {feature : Value N} {features todo : List (Value N)}

/-! ## Features -/

/-- The properties of a feature. -/
def properties : Value N → Option (List (String × Value N))
  | .object members =>
    match members.lookup "properties" with
    | some (.object ps) => some ps
    | _ => none
  | _ => none

/-- A feature: an object with an object of properties. -/
def isFeature (v : Value N) : Bool := (properties v).isSome

/-- The properties have a `highway` and no `area`. -/
def isRoad (v : Value N) : Bool :=
  match properties v with
  | some ps => (ps.lookup "highway").isSome && !(ps.lookup "area").isSome
  | none => false

/-- A feature with properties is an object with such a member. -/
private theorem properties_eq_some {ps : List (String × Value N)}
    (h : properties feature = some ps) :
    ∃ members, feature = .object members ∧ members.lookup "properties" = some (.object ps) := by
  cases feature with
  | object members =>
    simp only [properties] at h
    split at h
    · next hps =>
      cases h
      exact ⟨members, rfl, hps⟩
    · cases h
  | _ => cases h

/-- An object has the members of its list. -/
@[simp] theorem hasMember_object (members : List (String × Value N)) (name : String) :
    (Value.object members).hasMember name = .ok (members.lookup name).isSome := rfl

/-- A member of an object is got by its name. -/
private theorem get_object {members : List (String × Value N)} {name : String} {v : Value N}
    (h : members.lookup name = some v) : (Value.object members).get name = .ok v := by
  simp only [Value.get, Value.findMember, bind, Except.bind, h]

/-! ## One step -/

/-- The assertions hold for a feature; it is erased unless it is a road. -/
private theorem examine_of_feature (hderef : deref s.itr s.features = .ok feature)
    (h : isFeature feature = true) :
    examine s =
      if isRoad feature then .ok { s with examined := s.examined ++ [feature] }
      else State.eraseBack { s with examined := s.examined ++ [feature] } := by
  obtain ⟨ps, hps⟩ := Option.isSome_iff_exists.mp h
  obtain ⟨members, rfl, hlookup⟩ := properties_eq_some hps
  simp only [examine, bind, Except.bind, hderef, hasMember_object, hlookup, Option.isSome_some,
    assert, ↓reduceIte, Value.isObject, get_object hlookup, isRoad, hps]
  cases (ps.lookup "highway").isSome <;> cases (ps.lookup "area").isSome <;> rfl

/-- Where a value is no feature, the filter stops at an assertion. -/
private theorem examine_of_not_feature (hderef : deref s.itr s.features = .ok feature)
    (h : isFeature feature = false) : examine s = .error .assertFailed := by
  cases feature with
  | object members =>
    simp only [examine, bind, Except.bind, hderef, hasMember_object]
    cases hlookup : members.lookup "properties" with
    | none => rfl
    | some v =>
      simp only [Option.isSome_some, assert, ↓reduceIte, Value.isObject, get_object hlookup]
      -- The properties are no object, so that they cannot be asked for a member
      cases v with
      | object ps =>
        rw [isFeature, properties, hlookup] at h
        cases h
      | _ => rfl
  | _ => simp only [examine, bind, Except.bind, hderef, Value.hasMember, Value.findMember]

/-- The erasing step removes the feature and goes back by one. -/
private theorem eraseBack_of_next (h₀ : 0 ≤ s.itr) (hlen : s.itr + 1 ≤ s.features.length) :
    s.eraseBack =
      .ok { s with features := s.features.eraseIdx s.itr.toNat, itr := s.itr - 1 } := by
  have hpos : 0 < s.features.length := by omega
  simp only [State.eraseBack, erase, assert, hpos, h₀, hlen, decide_true, ↓reduceIte, bind,
    Except.bind, pure, Except.pure]

/-! ## The loop -/

/-- The loop is a scan that erases all but the roads. -/
def Scanning (all : List (Value N)) (s : State N) : Prop :=
  Scanned isRoad all s.examined s.features s.itr

/-- One round, before the end: the next feature has been examined, or the filter has stopped. -/
private theorem examine_step {all : List (Value N)} (h : Scanning all s)
    (hend : s.itr ≠ s.features.length) :
    ∃ feature todo, all = s.examined ++ feature :: todo ∧
      if isFeature feature then
        ∃ s', examine s = .ok s' ∧ s'.examined = s.examined ++ [feature] ∧
          Scanning all { s' with itr := s'.itr + 1 }
      else examine s = .error .assertFailed := by
  obtain ⟨feature, todo, hall, h₀, hlen, hnext⟩ := Scanned.next h hend
  have hderef : deref s.itr s.features = .ok feature := by
    rw [deref, if_pos h₀, hnext]
  refine ⟨feature, todo, hall, ?_⟩
  split
  · next hfeature =>
    rw [examine_of_feature hderef hfeature]
    split
    · next hroad => exact ⟨_, rfl, rfl, h.keep hnext hroad⟩
    · next hroad =>
      refine ⟨_, eraseBack_of_next h₀ hlen, rfl, ?_⟩
      -- `itr--` and `++itr` leave the iterator where the feature was
      rw [Scanning, Int.sub_add_cancel]
      exact h.erase hnext hroad
  · next hfeature => exact examine_of_not_feature hderef (by simpa using hfeature)

/-- The loop, with enough fuel: it stops at an assertion if one of the features that are still to
    be examined is none, and comes to the end with the roads otherwise. -/
private theorem loop_eq {all : List (Value N)} {fuel : Nat} (h : Scanning all s)
    (hall : all = s.examined ++ todo) (hfuel : todo.length < fuel) :
    loop fuel s =
      if todo.all isFeature then .ok ⟨all.filter isRoad, (all.filter isRoad).length, all⟩
      else .error .assertFailed := by
  induction fuel generalizing s todo with
  | zero => exact absurd hfuel (Nat.not_lt_zero _)
  | succ fuel ih =>
    rw [loop]
    split
    · next hend =>
      -- The next feature is the first one of those that are still to be examined
      obtain ⟨feature, rest, hall', hstep⟩ := examine_step h hend
      cases List.append_cancel_left (hall.symm.trans hall')
      rw [List.all_cons]
      split at hstep
      · next hfeature =>
        obtain ⟨s', hs', hexamined, hscan⟩ := hstep
        rw [hfeature, Bool.true_and]
        simp only [bind, Except.bind, hs']
        refine ih hscan ?_ (by rw [List.length_cons] at hfuel; omega)
        rw [hall', hexamined, List.append_assoc, List.singleton_append]
      · next hfeature =>
        rw [Bool.not_eq_true] at hfeature
        rw [hfeature, hstep]
        rfl
    · next hend =>
      -- The iterator is at the end
      rw [ne_eq, Decidable.not_not] at hend
      obtain ⟨hfeatures, hexamined⟩ := Scanned.eq_filter h hend
      have hnil : todo = [] := by
        rw [hexamined, List.self_eq_append_right] at hall
        exact hall
      subst hnil
      rw [List.all_nil, if_pos rfl, ← hfeatures, ← hend]
      conv => rhs; rw [← hexamined]

/-! ## The document -/

/-- A member that is set has the new value. -/
private theorem lookup_setMember {name : String} {v : Value N} (w : Value N)
    {members : List (String × Value N)} (h : members.lookup name = some v) :
    (Value.setMember name w members).lookup name = some w := by
  induction members with
  | nil => cases h
  | cons m members ih =>
    rw [Value.setMember]
    cases hname : name == m.1 with
    | true => simp only [↓reduceIte, List.lookup_cons, hname]
    | false =>
      rw [List.lookup_cons, hname] at h
      simp only [Bool.false_eq_true, ↓reduceIte, List.lookup_cons, hname, ih h]

/-- Setting a member leaves the others. -/
private theorem lookup_setMember_of_ne {name name' : String} (hne : name' ≠ name) (w : Value N)
    (members : List (String × Value N)) :
    (Value.setMember name w members).lookup name' = members.lookup name' := by
  induction members with
  | nil => rfl
  | cons m members ih =>
    rw [Value.setMember]
    split
    · next hname =>
      rw [List.lookup_cons, List.lookup_cons, ← eq_of_beq hname, beq_false_of_ne hne]
    · rw [List.lookup_cons, List.lookup_cons, ih]

/-- An object with a new value for a member that it has. -/
private theorem get_withMember {d v : Value N} {name : String} (h : d.get name = .ok v)
    (w : Value N) :
    (d.withMember name w).get name = .ok w ∧
      ∀ name' ≠ name, (d.withMember name w).get name' = d.get name' := by
  cases d with
  | object members =>
    cases hlookup : members.lookup name with
    | none =>
      simp only [Value.get, Value.findMember, bind, Except.bind, hlookup] at h
      cases h
    | some v =>
      refine ⟨get_object (lookup_setMember w hlookup), fun name' hne => ?_⟩
      simp only [Value.withMember, Value.get, Value.findMember, lookup_setMember_of_ne hne]
  | _ => cases h

/-- For every array of features, the filter ends; what it has examined is the array, each feature
    once and in its order, and what it leaves in the document is the roads, in their order. It
    stops at an assertion only if something in the array is no feature. -/
theorem main_keeps_roads {d : Value N} {features : List (Value N)}
    (h : d.get "features" = .ok (.array features)) :
    ∃ d' : Value N, ∃ enough, d'.get "features" = .ok (.array (features.filter isRoad)) ∧
      (∀ name ≠ "features", d'.get name = d.get name) ∧
      ∀ fuel ≥ enough, main fuel d =
        if features.all isFeature then .ok (d', features) else .error .assertFailed := by
  obtain ⟨hget, hother⟩ := get_withMember h (.array (features.filter isRoad))
  refine ⟨_, features.length + 1, hget, hother, fun fuel hfuel => ?_⟩
  have hscan : Scanning features ⟨features, 0, []⟩ := Scanned.start isRoad features
  have hloop := loop_eq hscan rfl hfuel
  simp only [main, bind, Except.bind, h, Value.asArray, hloop]
  cases features.all isFeature <;> rfl

/-- A feature with these properties. -/
def featureWith (names : List String) : Value Nat :=
  .object [("properties", .object (names.map fun name => (name, .null)))]

/-- A highway between two features that go, the first one as an area. -/
def square : List (Value Nat) :=
  [featureWith ["highway", "area"], featureWith ["highway"], featureWith []]

/-- The document of the example, whose only road is kept. -/
theorem main_keeps_roads_square :
    ∃ d' : Value Nat, ∃ enough,
      d'.get "features" = .ok (.array (square.filter isRoad)) ∧
      (∀ name ≠ "features", d'.get name = Value.get (.object [("features", .array square)]) name) ∧
      ∀ fuel ≥ enough, main fuel (.object [("features", .array square)]) =
        if square.all isFeature then .ok (d', square) else .error .assertFailed :=
  main_keeps_roads rfl

example : square.filter isRoad = [featureWith ["highway"]] := rfl

end MapRelay.MapUtils.Filter
