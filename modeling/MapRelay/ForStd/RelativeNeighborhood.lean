import Mathlib.Data.Finite.Prod
import Mathlib.Data.Fintype.Card
import Mathlib.Logic.Relation

/-!
# Networks without their longer links

A network may leave out a link if some third node has shorter links to both of its ends. The
rule is applied everywhere at once, so that the links of such a detour may have been left out
too; their detours are shorter still, and so in the end no connection is lost.
-/

namespace ForStd

open Relation (ReflTransGen)

variable {ν κ : Type} [Preorder κ]

/-- Of the links of a network those are `kept` around which there is no shorter way. -/
structure Bypassed (length : ν → ν → κ) (link kept : ν → ν → Prop) : Prop where
  link_of_kept : ∀ {u v}, kept u v → link u v
  around : ∀ {u v}, link u v → ¬ kept u v →
    ∃ w, link u w ∧ link w v ∧ length u w < length u v ∧ length w v < length u v

namespace Bypassed

variable {length : ν → ν → κ} {link kept : ν → ν → Prop} {u v : ν}

/-- The ends of a link stay connected, by links that are not longer. -/
theorem detour [Finite ν] (h : Bypassed length link kept) (huv : link u v) :
    ReflTransGen (fun a b => kept a b ∧ length a b ≤ length u v) u v := by
  -- A finite network has finitely many lengths
  let shorter : ν × ν → ν × ν → Prop := fun p q => length p.1 p.2 < length q.1 q.2
  have : IsTrans (ν × ν) shorter := ⟨fun _ _ _ => lt_trans⟩
  have : Std.Irrefl shorter := ⟨fun p => lt_irrefl (length p.1 p.2)⟩
  have hwf : WellFounded shorter := Finite.wellFounded_of_trans_of_irrefl shorter
  have hall : ∀ p : ν × ν, link p.1 p.2 →
      ReflTransGen (fun a b => kept a b ∧ length a b ≤ length p.1 p.2) p.1 p.2 := by
    intro p
    induction p using hwf.induction with
    | _ p ih =>
      intro hlink
      by_cases hkept : kept p.1 p.2
      · exact .single ⟨hkept, le_rfl⟩
      · obtain ⟨w, huw, hwv, hltu, hltv⟩ := h.around hlink hkept
        have hfirst := ih (p.1, w) hltu huw
        have hsecond := ih (w, p.2) hltv hwv
        have hmono : ∀ {a b}, length a b < length p.1 p.2 → ∀ c d,
            (kept c d ∧ length c d ≤ length a b) → kept c d ∧ length c d ≤ length p.1 p.2 :=
          fun hlt c d hcd => ⟨hcd.1, hcd.2.trans hlt.le⟩
        exact (ReflTransGen.mono (hmono hltu) _ _ hfirst).trans
          (ReflTransGen.mono (hmono hltv) _ _ hsecond)
  exact hall (u, v) huv

/-- The same nodes are connected as before. -/
theorem connected_iff [Finite ν] (h : Bypassed length link kept) :
    ReflTransGen kept u v ↔ ReflTransGen link u v := by
  constructor
  · exact ReflTransGen.mono (fun a b => h.link_of_kept) u v
  · intro huv
    induction huv with
    | refl => exact .refl
    | tail _ hlink ih =>
      exact ih.trans (ReflTransGen.mono (fun c d hcd => hcd.1) _ _ (h.detour hlink))

end Bypassed

end ForStd
