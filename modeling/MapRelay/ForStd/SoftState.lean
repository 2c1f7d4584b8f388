import Mathlib.Data.List.Nodup

/-!
# Soft state: tables kept alive by announcements

Stations announce a value under a key, for a lifetime from the moment of the announcement.
What a table that collects the announcements is for is said by its history alone: a key is
alive as long as one of its announcements is, and its value is the newest one. `Represents`
says that a table of entries answers like its history, and the lemmas below are the three
ways in which such tables change: an entry is added, refreshed, or dropped once expired.
-/

namespace ForStd

/-- A value announced under a key at a time. -/
structure Announcement (κ β : Type) where
  time : Int
  lifetime : Int
  key : κ
  value : β

namespace Announcement

variable {κ β : Type} [DecidableEq κ]

/-- The last moment at which the announcement counts. -/
def expiry (a : Announcement κ β) : Int := a.time + a.lifetime

/-- The newest value announced under `k`, in a history with the newest first. -/
def latest (h : List (Announcement κ β)) (k : κ) : Option β :=
  (h.find? (·.key = k)).map (·.value)

/-- Some announcement under `k` has not expired at time `t`. -/
def Alive (h : List (Announcement κ β)) (k : κ) (t : Int) : Prop :=
  ∃ a ∈ h, a.key = k ∧ t ≤ a.expiry

instance (h : List (Announcement κ β)) (k : κ) (t : Int) : Decidable (Alive h k t) :=
  inferInstanceAs (Decidable (∃ a ∈ h, _))

/-- The latest announcement counts. -/
theorem latest_cons (a : Announcement κ β) (h : List (Announcement κ β)) (k : κ) :
    latest (a :: h) k = if a.key = k then some a.value else latest h k := by
  by_cases hk : a.key = k <;> simp [latest, hk]

end Announcement

open Announcement

section Table

variable {κ β E : Type} [DecidableEq κ]

/-- How the entries of a table store key, expiry time and value. -/
structure EntryView (κ β E : Type) where
  key : E → κ
  expireTime : E → Int
  value : E → β

/-- The table `es` answers like the history `h` from the time `now` on. -/
structure Represents (V : EntryView κ β E) (es : List E) (h : List (Announcement κ β))
    (now : Int) : Prop where
  nodup : (es.map V.key).Nodup
  latest : ∀ e ∈ es, latest h (V.key e) = some (V.value e)
  expiry_mem : ∀ e ∈ es, ∃ a ∈ h, a.key = V.key e ∧ a.expiry = V.expireTime e
  expiry_le : ∀ e ∈ es, ∀ a ∈ h, a.key = V.key e → now ≤ a.expiry → a.expiry ≤ V.expireTime e
  expired : ∀ a ∈ h, (∀ e ∈ es, V.key e ≠ a.key) → a.expiry < now

namespace Represents

variable {V : EntryView κ β E} {es : List E} {h : List (Announcement κ β)} {now t : Int}

/-- The empty table represents that nothing was heard. -/
theorem nil (V : EntryView κ β E) (now : Int) : Represents V [] [] now where
  nodup := List.nodup_nil
  latest _ he := nomatch he
  expiry_mem _ he := nomatch he
  expiry_le _ he := nomatch he
  expired _ ha := nomatch ha

/-- A table stays true as time goes by. -/
theorem mono (hr : Represents V es h now) (ht : now ≤ t) : Represents V es h t where
  nodup := hr.nodup
  latest := hr.latest
  expiry_mem := hr.expiry_mem
  expiry_le e he a ha hk hexp := hr.expiry_le e he a ha hk (by omega)
  expired a ha hno := by
    have hlt := hr.expired a ha hno
    omega

/-- A key is alive iff the table has an unexpired entry for it. -/
theorem alive_iff (hr : Represents V es h now) (ht : now ≤ t) {k : κ} :
    Alive h k t ↔ ∃ e ∈ es, V.key e = k ∧ t ≤ V.expireTime e := by
  constructor
  · intro ⟨a, ha, hk, hexp⟩
    by_cases hno : ∀ e ∈ es, V.key e ≠ a.key
    · -- No entry for the key: all that was announced under it has expired
      have hlt := hr.expired a ha hno
      omega
    · have ⟨e, he, hke⟩ : ∃ e ∈ es, V.key e = a.key := by
        simpa using hno
      have hle := hr.expiry_le e he a ha hke.symm (by omega)
      exact ⟨e, he, hke.trans hk, by omega⟩
  · intro ⟨e, he, hk, hexp⟩
    obtain ⟨a, ha, hka, hea⟩ := hr.expiry_mem e he
    exact ⟨a, ha, hka.trans hk, by omega⟩

/-- Dropping expired entries does not change what the table says. -/
theorem purge (hr : Represents V es h now) (p : E → Bool)
    (hp : ∀ e ∈ es, p e = false → V.expireTime e < now) :
    Represents V (es.filter p) h now where
  nodup := hr.nodup.sublist (List.filter_sublist.map _)
  latest e he := hr.latest e (List.mem_filter.mp he).1
  expiry_mem e he := hr.expiry_mem e (List.mem_filter.mp he).1
  expiry_le e he := hr.expiry_le e (List.mem_filter.mp he).1
  expired a ha hno := by
    by_cases hkey : ∀ e ∈ es, V.key e ≠ a.key
    · exact hr.expired a ha hkey
    · -- The entry for the key was dropped, and with it all its announcements had expired
      obtain ⟨e, he, hke⟩ : ∃ e ∈ es, V.key e = a.key := by simpa using hkey
      have hdropped : p e = false := by
        cases hpe : p e with
        | false => rfl
        | true => exact absurd hke (hno e (List.mem_filter.mpr ⟨he, hpe⟩))
      have hexp := hp e he hdropped
      have hle := hr.expiry_le e he a ha hke.symm
      omega

/-- An announcement under a key without an entry becomes an entry at the end. -/
theorem insert (hr : Represents V es h now) {a : Announcement κ β}
    (hnew : ∀ e ∈ es, V.key e ≠ a.key) {e : E}
    (hkey : V.key e = a.key) (hexp : V.expireTime e = a.expiry) (hval : V.value e = a.value) :
    Represents V (es ++ [e]) (a :: h) now where
  nodup := by
    rw [List.map_append, List.map_singleton, ← List.concat_eq_append]
    refine .concat ?_ hr.nodup
    intro hmem
    obtain ⟨e', he', heq⟩ := List.mem_map.mp hmem
    exact hnew e' he' (heq.trans hkey)
  latest e' he' := by
    rw [latest_cons]
    rcases List.mem_append.mp he' with he' | he'
    · rw [if_neg fun heq => hnew e' he' heq.symm]
      exact hr.latest e' he'
    · rw [List.mem_singleton.mp he', if_pos hkey.symm, hval]
  expiry_mem e' he' := by
    rcases List.mem_append.mp he' with he' | he'
    · obtain ⟨a', ha', hmem⟩ := hr.expiry_mem e' he'
      exact ⟨a', List.mem_cons_of_mem _ ha', hmem⟩
    · rw [List.mem_singleton.mp he']
      exact ⟨a, List.mem_cons_self, hkey.symm, hexp.symm⟩
  expiry_le e' he' a' ha' hk hlive := by
    rcases List.mem_append.mp he' with he' | he'
    · rcases List.mem_cons.mp ha' with rfl | ha'
      · exact absurd hk.symm (hnew e' he')
      · exact hr.expiry_le e' he' a' ha' hk hlive
    · rw [List.mem_singleton.mp he'] at hk ⊢
      rcases List.mem_cons.mp ha' with rfl | ha'
      · omega
      · -- There was no entry, so whatever was announced under the key has expired
        have hexpired := hr.expired a' ha' fun e' he' heq =>
          hnew e' he' (heq.trans (hk.trans hkey))
        omega
  expired a' ha' hno := by
    rcases List.mem_cons.mp ha' with rfl | ha'
    · exact absurd hkey (hno e (List.mem_append_right _ List.mem_cons_self))
    · exact hr.expired a' ha' fun e' he' => hno e' (List.mem_append_left _ he')

/-- An announcement under a key with an entry refreshes it. -/
theorem refresh {l₁ l₂ : List E} {e e' : E} (hr : Represents V (l₁ ++ e :: l₂) h now)
    {a : Announcement κ β} (hk : V.key e = a.key) (hkey : V.key e' = a.key)
    (hexp : V.expireTime e' = max a.expiry (V.expireTime e)) (hval : V.value e' = a.value) :
    Represents V (l₁ ++ e' :: l₂) (a :: h) now := by
  -- The keys of the table stay the same
  have hkeys : (l₁ ++ e' :: l₂).map V.key = (l₁ ++ e :: l₂).map V.key := by
    simp [hkey, hk]
  have he : e ∈ l₁ ++ e :: l₂ := by simp
  -- Every entry but the refreshed one was there before and has another key
  have hcases : ∀ d ∈ l₁ ++ e' :: l₂, d = e' ∨ (d ∈ l₁ ++ e :: l₂ ∧ V.key d ≠ a.key) := by
    intro d hd
    have hnodup := hr.nodup
    rw [List.map_append, List.map_cons, List.nodup_append, List.nodup_cons] at hnodup
    rcases List.mem_append.mp hd with hd | hd
    · refine .inr ⟨List.mem_append_left _ hd, fun heq => ?_⟩
      exact hnodup.2.2 _ (List.mem_map_of_mem hd) _ List.mem_cons_self (heq.trans hk.symm)
    · rcases List.mem_cons.mp hd with rfl | hd
      · exact .inl rfl
      · refine .inr ⟨List.mem_append_right _ (List.mem_cons_of_mem _ hd), fun heq => ?_⟩
        exact hnodup.2.1.1 (hk.trans heq.symm ▸ List.mem_map_of_mem hd)
  have hkept : ∀ k, (∀ d ∈ l₁ ++ e' :: l₂, V.key d ≠ k) → ∀ d ∈ l₁ ++ e :: l₂, V.key d ≠ k := by
    intro k hno d hd heq
    have hmem : k ∈ (l₁ ++ e' :: l₂).map V.key := hkeys ▸ List.mem_map.mpr ⟨d, hd, heq⟩
    obtain ⟨d', hd', hkd'⟩ := List.mem_map.mp hmem
    exact hno d' hd' hkd'
  refine ⟨hkeys ▸ hr.nodup, fun d hd => ?_, fun d hd => ?_, fun d hd a' ha' hka hlive => ?_,
    fun a' ha' hno => ?_⟩
  · rw [latest_cons]
    rcases hcases d hd with rfl | ⟨hd, hne⟩
    · rw [if_pos hkey.symm, hval]
    · rw [if_neg fun heq => hne heq.symm]
      exact hr.latest d hd
  · rcases hcases d hd with rfl | ⟨hd, -⟩
    · -- The later of the two expiry times is one of an announcement either way
      by_cases hlater : V.expireTime e ≤ a.expiry
      · exact ⟨a, List.mem_cons_self, hkey.symm, by omega⟩
      · obtain ⟨a', ha', hka', hea'⟩ := hr.expiry_mem e he
        exact ⟨a', List.mem_cons_of_mem _ ha', by rw [hka', hk, hkey], by omega⟩
    · obtain ⟨a', ha', hmem⟩ := hr.expiry_mem d hd
      exact ⟨a', List.mem_cons_of_mem _ ha', hmem⟩
  · rcases hcases d hd with rfl | ⟨hd, hne⟩
    · rcases List.mem_cons.mp ha' with rfl | ha'
      · omega
      · have hle := hr.expiry_le e he a' ha' (by rw [hka, hkey, hk]) hlive
        omega
    · rcases List.mem_cons.mp ha' with rfl | ha'
      · exact absurd hka.symm hne
      · exact hr.expiry_le d hd a' ha' hka hlive
  · rcases List.mem_cons.mp ha' with rfl | ha'
    · exact absurd hkey (hno e' (by simp))
    · exact hr.expired a' ha' (hkept _ hno)

end Represents

end Table

end ForStd
