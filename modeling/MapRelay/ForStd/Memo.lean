import Mathlib.Data.List.Forall2

/-!
# Memo tables

A memo table keeps the results of a function under keys of its arguments, and is looked up under
two keys before the function is called. It is emptied when it has grown beyond a bound. If the
keys do not tell all arguments apart, the answer may belong to another call; which one that is
does not depend on the function. `sources` says it, and every answer is the function's value at
the source of the call.
-/

namespace ForStd.Memo

variable {κ C V : Type} [BEq κ]

/-- The table, the newest entry first. -/
abbrev Table (κ V : Type) := List (κ × V)

/-- One call: its answer and the new table. -/
def call (key key' : C → κ) (bound : Nat) (f : C → V) (table : Table κ V) (c : C) :
    V × Table κ V :=
  match table.lookup (key c) with
  | some v => (v, table)
  | none =>
    match table.lookup (key' c) with
    | some v => (v, table)
    | none => (f c, (key c, f c) :: if table.length > bound then [] else table)

/-- The answers to a sequence of calls. -/
def answers (key key' : C → κ) (bound : Nat) (f : C → V) : Table κ V → List C → List V
  | _, [] => []
  | table, c :: cs =>
    let r := call key key' bound f table c
    r.1 :: answers key key' bound f r.2 cs

/-- The calls whose values are the answers. -/
def sources (key key' : C → κ) (bound : Nat) (cs : List C) : List C :=
  answers key key' bound id [] cs

variable {key key' : C → κ} {bound : Nat} {f : C → V}

/-- The table of a function, from the table of the calls. -/
def mapTable (f : C → V) (table : Table κ C) : Table κ V := table.map fun e => (e.1, f e.2)

/-- Looking up in a table of images. -/
theorem lookup_mapTable (f : C → V) (table : Table κ C) (k : κ) :
    (mapTable f table).lookup k = (table.lookup k).map f := by
  induction table with
  | nil => rfl
  | cons e table ih =>
    rw [mapTable, List.map_cons, List.lookup_cons, List.lookup_cons]
    split
    · rfl
    · exact ih

/-- A call on a table of images. -/
theorem call_mapTable (table : Table κ C) (c : C) :
    call key key' bound f (mapTable f table) c =
      (f (call key key' bound id table c).1, mapTable f (call key key' bound id table c).2) := by
  rw [call, call, lookup_mapTable, lookup_mapTable]
  cases table.lookup (key c) with
  | some s => rfl
  | none =>
    cases table.lookup (key' c) with
    | some s => rfl
    | none =>
      simp only [Option.map_none, mapTable, List.map_cons, List.length_map, id]
      split <;> rfl

/-- Every answer is the value of the function at the source of the call. -/
theorem answers_eq_map (key key' : C → κ) (bound : Nat) (f : C → V) (cs : List C) :
    answers key key' bound f [] cs = (sources key key' bound cs).map f := by
  -- The tables of the function and of the calls go side by side
  suffices h : ∀ table : Table κ C, answers key key' bound f (mapTable f table) cs =
      (answers key key' bound id table cs).map f from h []
  induction cs with
  | nil => exact fun table => rfl
  | cons c cs ih =>
    intro table
    simp only [answers, call_mapTable, List.map_cons]
    rw [ih]

/-- The call `s` may stand for the call `c`. -/
def StandsFor (key key' : C → κ) (s c : C) : Prop := s = c ∨ key s = key c ∨ key s = key' c

variable [LawfulBEq κ]

/-- What is looked up is in the table. -/
theorem mem_of_lookup {table : Table κ V} {k : κ} {v : V} (h : table.lookup k = some v) :
    (k, v) ∈ table := by
  induction table with
  | nil => cases h
  | cons e table ih =>
    rw [List.lookup_cons] at h
    split at h
    case h_1 hk =>
      cases h
      rw [beq_iff_eq] at hk
      subst hk
      exact List.mem_cons_self
    case h_2 => exact List.mem_cons_of_mem e (ih h)

/-- A table of calls in which every call is under its own key. -/
def Sound (key : C → κ) (P : C → Prop) (table : Table κ C) : Prop :=
  ∀ e ∈ table, key e.2 = e.1 ∧ P e.2

/-- A call keeps the table sound, and its answer stands for the call. -/
theorem sound_call {P : C → Prop} {table : Table κ C} (h : Sound key P table) {c : C} (hc : P c) :
    Sound key P (call key key' bound id table c).2 ∧ P (call key key' bound id table c).1 ∧
      StandsFor key key' (call key key' bound id table c).1 c := by
  rw [call]
  cases hfirst : table.lookup (key c) with
  | some s =>
    -- An entry is under its own key, so that the key it is found under is its own
    obtain ⟨hk, hs⟩ := h _ (mem_of_lookup hfirst)
    exact ⟨h, hs, .inr (.inl hk)⟩
  | none =>
    cases hsecond : table.lookup (key' c) with
    | some s =>
      obtain ⟨hk, hs⟩ := h _ (mem_of_lookup hsecond)
      exact ⟨h, hs, .inr (.inr hk)⟩
    | none =>
      -- The new entry is the call itself, under its own key
      refine ⟨fun e he => ?_, hc, .inl rfl⟩
      rcases List.mem_cons.mp he with rfl | he
      · exact ⟨rfl, hc⟩
      · split at he
        · cases he
        · exact h e he

/-- The source of a call is itself, or an earlier one under one of its keys. -/
theorem forall₂_sources {P : C → Prop} {cs : List C} (h : ∀ c ∈ cs, P c) :
    List.Forall₂ (fun s c => P s ∧ P c ∧ StandsFor key key' s c)
      (sources key key' bound cs) cs := by
  suffices hrun : ∀ table : Table κ C, Sound key P table →
      List.Forall₂ (fun s c => P s ∧ P c ∧ StandsFor key key' s c)
        (answers key key' bound id table cs) cs from hrun [] (by simp [Sound])
  induction cs with
  | nil => exact fun table _ => .nil
  | cons c cs ih =>
    intro table htable
    have hc := h c List.mem_cons_self
    obtain ⟨hnext, hs, hstands⟩ := @sound_call κ C _ key key' bound _ P table htable c hc
    exact .cons ⟨hs, hc, hstands⟩ (ih (fun c hc => h c (List.mem_cons_of_mem _ hc)) _ hnext)

end ForStd.Memo
