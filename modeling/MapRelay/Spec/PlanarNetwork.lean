import Mathlib.Data.Finset.Basic
import MapRelay.ForStd.RelativeNeighborhood
import MapRelay.Spec.RngPlanarize

/-!
# The planar neighbours connect the network

Every node applies `rng_planarize` to its own table, and a packet in the recovery mode goes over
the links that are left. A link is left out only if a neighbour in between has shorter links to
both of its ends. In a network where each node has heard from the nodes in its range, this
neighbour is in range of the other end as well, so that no connection is lost, although each node
decides alone.
-/

namespace MapRelay.NS3.Gpsr

open ForStd
open Relation (ReflTransGen)

variable {K : Type}

/-- Nodes that stand still, with their tables and the range of their radios. -/
structure Network (K : Type) where
  nodes : Finset UInt32
  pos : UInt32 → Vector3D K
  table : UInt32 → NeighborTable K
  range : K

namespace Network

variable [Zero K]

/-- The distance of two nodes. -/
def length (env : GpsrEnv K) (net : Network K) (u v : UInt32) : K :=
  env.calculateDistance (planar (net.pos u)) (planar (net.pos v))

/-- What node `u` finds in its table when it planarizes it. -/
def known (env : RecoveryEnv K) (now : Int) (net : Network K) (u : UInt32) :
    List (PositionEntry K) :=
  ((net.table u).purge env.toGpsrEnv now).neighbours env now

variable [LinearOrder K]

/-- The two nodes are in range of each other. -/
def InRange (env : GpsrEnv K) (net : Network K) (u v : UInt32) : Prop :=
  u ∈ net.nodes ∧ v ∈ net.nodes ∧ u ≠ v ∧ net.length env u v ≤ net.range

/-- Each node has heard from exactly the nodes in its range, and knows where they are. -/
structure Heard (env : RecoveryEnv K) (now : Int) (net : Network K) : Prop where
  mem_iff : ∀ u ∈ net.nodes, ∀ v,
    (∃ e ∈ net.known env now u, e.id = v) ↔ net.InRange env.toGpsrEnv u v
  position_eq : ∀ u ∈ net.nodes, ∀ e ∈ net.known env now u, e.position = planar (net.pos e.id)

/-- `v` is a planar neighbour of `u`. -/
def PlanarLink (env : RecoveryEnv K) (now : Int) (net : Network K) (u v : UInt32) : Prop :=
  u ∈ net.nodes ∧ ∃ e ∈ ((net.table u).rngPlanarize env now (net.pos u)).entries, e.id = v

variable {env : RecoveryEnv K} {now : Int} {net : Network K} {u v : UInt32}

/-- The planar neighbours are known ones. -/
private theorem mem_known_of_mem_rngPlanarize {e : PositionEntry K}
    (he : e ∈ ((net.table u).rngPlanarize env now (net.pos u)).entries) :
    e ∈ net.known env now u :=
  (survivors_sublist _).mem (NeighborTable.mem_rngPlanarize.mp he)

/-- A neighbour that is left out has another one in between. -/
private theorem exists_between_of_not_mem {e : PositionEntry K} (he : e ∈ net.known env now u)
    (hout : e ∉ ((net.table u).rngPlanarize env now (net.pos u)).entries) :
    ∃ w ∈ net.known env now u, NeighborTable.Between env.toGpsrEnv (planar (net.pos u)) e w := by
  obtain ⟨pre, post, hsplit⟩ := List.append_of_mem he
  by_contra hno
  -- Nothing is in between, so that the neighbour is kept
  apply hout
  apply NeighborTable.mem_rngPlanarize.mpr
  apply mem_survivors.mpr
  refine ⟨pre, post, hsplit, fun w hw hbetween => hno ⟨w, ?_, hbetween⟩⟩
  rw [hsplit]
  exact List.mem_append_right pre (List.mem_cons_of_mem e hw)

/-- The one in between is in range of both nodes, and nearer to each of them. -/
private theorem exists_inRange_between (h : net.Heard env now)
    (hsymm : ∀ a b, env.calculateDistance a b = env.calculateDistance b a)
    (huv : net.InRange env.toGpsrEnv u v) (hout : ¬ net.PlanarLink env now u v) :
    ∃ w, net.InRange env.toGpsrEnv u w ∧ net.InRange env.toGpsrEnv w v ∧
      net.length env.toGpsrEnv u w < net.length env.toGpsrEnv u v ∧
      net.length env.toGpsrEnv w v < net.length env.toGpsrEnv u v := by
  have hu : u ∈ net.nodes := huv.1
  have hrange : net.length env.toGpsrEnv u v ≤ net.range := huv.2.2.2
  obtain ⟨e, he, rfl⟩ := (h.mem_iff u hu v).mpr huv
  obtain ⟨w, hw, hne, hnear, hnear'⟩ :=
    exists_between_of_not_mem he fun hin => hout ⟨hu, e, hin, rfl⟩
  have huw : net.InRange env.toGpsrEnv u w.id := (h.mem_iff u hu w.id).mp ⟨w, hw, rfl⟩
  rw [h.position_eq u hu e he, h.position_eq u hu w hw] at hnear hnear'
  rw [hsymm] at hnear'
  -- Both of the new links are shorter than the one that is left out
  have hfirst : net.length env.toGpsrEnv u w.id < net.length env.toGpsrEnv u e.id := hnear
  have hsecond : net.length env.toGpsrEnv w.id e.id < net.length env.toGpsrEnv u e.id := hnear'
  exact ⟨w.id, huw, ⟨huw.2.1, huv.2.1, hne, hsecond.le.trans hrange⟩, hfirst, hsecond⟩

/-- A link that planarization drops is bypassed. -/
private theorem bypassed (h : net.Heard env now)
    (hsymm : ∀ a b, env.calculateDistance a b = env.calculateDistance b a) :
    Bypassed (net.length env.toGpsrEnv) (net.InRange env.toGpsrEnv) (net.PlanarLink env now) where
  link_of_kept := by
    intro u v hlink
    obtain ⟨hu, e, he, rfl⟩ := hlink
    exact (h.mem_iff u hu e.id).mp ⟨e, mem_known_of_mem_rngPlanarize he, rfl⟩
  around huv hout := exists_inRange_between h hsymm huv hout

/-- In either mode the planar neighbours connect exactly the nodes that their radios connect, and
    around each link that is left out there is a way of planar links that are not longer. -/
theorem planar_connected (env : RecoveryEnv K) (now : Int) (net : Network K)
    (h : net.Heard env now)
    (hsymm : ∀ a b, env.calculateDistance a b = env.calculateDistance b a) :
    (∀ u v, ReflTransGen (net.PlanarLink env now) u v ↔
      ReflTransGen (net.InRange env.toGpsrEnv) u v) ∧
    ∀ u v, net.InRange env.toGpsrEnv u v →
      ReflTransGen (fun a b => net.PlanarLink env now a b ∧
        net.length env.toGpsrEnv a b ≤ net.length env.toGpsrEnv u v) u v := by
  have : Finite UInt32 := .of_injective UInt32.toFin fun _ _ => UInt32.toFin_inj.mp
  have hbypassed := bypassed h hsymm
  exact ⟨fun u v => hbypassed.connected_iff, fun u v => hbypassed.detour⟩

/-! ### Three nodes in a row -/

/-- A node of the row, ten from the next one, has heard from the two others. -/
def rowNetwork : Network Int where
  nodes := {1, 2, 3}
  pos := linePos
  table u := .own ⟨([1, 2, 3].filter (· ≠ u)).map fun v => ⟨v, linePos v, 5⟩, by
    have hsorted : ([1, 2, 3] : List UInt32).Pairwise (· < ·) := by decide
    exact List.pairwise_map.mpr (hsorted.sublist List.filter_sublist)⟩
  range := 20

def rowEnv : RecoveryEnv Int := ⟨lineEnv, [], fun _ _ => 0⟩

/-- In the row everyone knows the two others. -/
private theorem known_rowNetwork (hu : u ∈ rowNetwork.nodes) :
    rowNetwork.known rowEnv 6 u =
      ([1, 2, 3].filter (· ≠ u)).map fun v => ⟨v, linePos v, 6⟩ := by
  simp only [rowNetwork, Finset.mem_insert, Finset.mem_singleton] at hu
  rcases hu with rfl | rfl | rfl <;> rfl

/-- In the row everyone has heard the two others. -/
private theorem rowNetwork_heard : rowNetwork.Heard rowEnv 6 where
  mem_iff := by
    intro u hu v
    have hrange : ∀ u ∈ rowNetwork.nodes, ∀ v ∈ rowNetwork.nodes,
        rowNetwork.length rowEnv.toGpsrEnv u v ≤ rowNetwork.range := by
      intro u hu v hv
      simp only [rowNetwork, Finset.mem_insert, Finset.mem_singleton] at hu hv
      rcases hu with rfl | rfl | rfl <;> rcases hv with rfl | rfl | rfl <;> decide
    have hmem : v ∈ ([1, 2, 3] : List UInt32) ↔ v ∈ rowNetwork.nodes := by simp [rowNetwork]
    rw [known_rowNetwork hu]
    simp only [List.mem_map, exists_exists_and_eq_and, exists_eq_right, List.mem_filter,
      decide_eq_true_eq, hmem]
    constructor
    · intro hv
      exact ⟨hu, hv.1, hv.2.symm, hrange u hu v hv.1⟩
    · intro hv
      exact ⟨hv.2.1, hv.2.2.1.symm⟩
  position_eq := by
    intro u hu e he
    rw [known_rowNetwork hu] at he
    obtain ⟨v, -, rfl⟩ := List.mem_map.mp he
    rfl

/-- The last node leaves the first one out, and reaches it through the one in between. -/
theorem planar_connected_row :
    ¬ rowNetwork.PlanarLink rowEnv 6 3 1 ∧
      ReflTransGen (rowNetwork.PlanarLink rowEnv 6) 3 1 := by
  have hsymm : ∀ a b, rowEnv.calculateDistance a b = rowEnv.calculateDistance b a := by
    intro a b
    show (((a.x - b.x).natAbs : Nat) : Int) = ((b.x - a.x).natAbs : Nat)
    omega
  have hrange : rowNetwork.InRange rowEnv.toGpsrEnv 3 1 :=
    ⟨by decide, by decide, by decide, by decide⟩
  constructor
  · rintro ⟨-, h⟩
    revert h
    decide
  · exact ((planar_connected rowEnv 6 rowNetwork rowNetwork_heard hsymm).1 3 1).mpr
      (.single hrange)

end Network

end MapRelay.NS3.Gpsr
