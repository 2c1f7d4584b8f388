import Mathlib.Data.List.Nodup

/-!
# Finding a record by its key, and replacing it

A table without a duplicate key is searched for the first record with a key; it finds the
record with that key. A record that has been found is replaced where it stands.
-/

namespace ForStd

variable {κ E : Type} [BEq κ] [LawfulBEq κ] {key : E → κ} {es : List E} {e : E} {k : κ}

/-- Where keys are unique, the element with a key is found. -/
theorem find?_key_eq_some (hnodup : (es.map key).Nodup) :
    es.find? (key · == k) = some e ↔ e ∈ es ∧ key e = k := by
  constructor
  · intro h
    exact ⟨List.mem_of_find?_eq_some h, by simpa using List.find?_some h⟩
  · intro ⟨hmem, hkey⟩
    obtain ⟨d, hd⟩ : ∃ d, es.find? (key · == k) = some d := by
      rw [← Option.isSome_iff_exists, List.find?_isSome]
      exact ⟨e, hmem, by simpa using hkey⟩
    -- The record that is found has the same key
    have hkey' : key d = k := by simpa using List.find?_some hd
    rw [hd, List.inj_on_of_nodup_map hnodup (List.mem_of_find?_eq_some hd) hmem
      (hkey'.trans hkey.symm)]

/-- Nothing is found exactly if no element has the key. -/
theorem find?_key_eq_none : es.find? (key · == k) = none ↔ ∀ e ∈ es, key e ≠ k := by
  simp

/-- What holds of all records holds of all with another one in the place of one of them. -/
theorem forall_mem_replace {P : E → Prop} {before after : List E} {e' : E}
    (h : ∀ d ∈ before ++ e :: after, P d) (hnew : P e') : ∀ d ∈ before ++ e' :: after, P d := by
  rw [List.forall_mem_append, List.forall_mem_cons] at h ⊢
  exact ⟨h.1, hnew, h.2.2⟩

end ForStd
