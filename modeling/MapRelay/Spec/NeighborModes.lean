import MapRelay.ForStd.Leader
import MapRelay.Native.GeoSvrNeighbors
import MapRelay.Spec.RoadSearch
import Mathlib.Data.List.Forall2
import Mathlib.Data.Nat.Sqrt
import Mathlib.Data.Rat.Floor

/-!
# The two neighbour modes of GeoSVR

Both modes look for the leader of a list: of the own table without the entries that have expired,
or of the table of the application without its first entry, at which its loop does not start. For
the same neighbours the answers differ where a neighbour that only one of them looks at leads.
-/

namespace MapRelay.NS3.GeoSvr.Neighbors

open ForStd
open MsvrMap (calDist getRoadByPos street)

variable {K : Type}

/-! ## The same neighbours -/

/-- The entry has not expired. -/
def Live (now : Int) (e : NbEntry K) : Prop := now ≤ e.expireTime

instance (now : Int) : DecidablePred (Live (K := K) now) :=
  fun _ => inferInstanceAs (Decidable (_ ≤ _))

/-- `purge` leaves the entries that have not expired. -/
private theorem nbl_purge (now : Int) (t : Neighbors K) :
    (t.purge now).nbl = t.nbl.filter (Live now ·) := by
  refine List.filter_congr fun e _ => ?_
  rw [← decide_not, decide_eq_decide]
  exact Int.not_lt

/-- The address that a mode returns for the neighbour it has found. -/
def address : Option (NbEntry K) → UInt32
  | none => 0
  | some e => e.ninfo.dst

section Modes

variable [Field K] [LinearOrder K]

/-- An entry of the own table and one of the table of the application, for the same neighbour. -/
structure SameNeighbour (env : NeighborsEnv K) (fuel : Nat) (map : MsvrMap K) (e : NbEntry K)
    (nb : Neighbor K) : Prop where
  dst : e.ninfo.dst = nb.ipAddress
  position : getCartesianPosition env nb = ⟨e.ninfo.x, e.ninfo.y⟩
  road : ∃ r, getRoadByPos fuel map e.ninfo.x e.ninfo.y = .ok r ∧ r.id = e.ninfo.edgeid

variable {env : NeighborsEnv K} {fuel : Nat} {map : MsvrMap K} {now : Int}
  {nbl : List (NbEntry K)} {nb : List (Neighbor K)}

/-- Neighbours with one address are at one position. -/
private theorem position_of_dst (h : List.Forall₂ (SameNeighbour env fuel map) nbl nb)
    {a b : NbEntry K} (ha : a ∈ nbl) (hb : b ∈ nbl) (hdst : a.ninfo.dst = b.ninfo.dst) :
    (⟨a.ninfo.x, a.ninfo.y⟩ : Point K) = ⟨b.ninfo.x, b.ninfo.y⟩ := by
  -- Each entry of the own table has its counterpart in the other one
  have hfind : ∀ e ∈ nbl, ∃ i, SameNeighbour env fuel map e i := by
    clear ha hb
    induction h with
    | nil => simp
    | cons hei _ ih =>
      intro e he
      rcases List.mem_cons.mp he with rfl | he
      · exact ⟨_, hei⟩
      · exact ih e he
  obtain ⟨i, hi⟩ := hfind a ha
  obtain ⟨j, hj⟩ := hfind b hb
  rw [← hi.position, ← hj.position, getCartesianPosition, getCartesianPosition, ← hi.dst,
    ← hj.dst, hdst]

/-! ## What the loops find -/

section Loops

variable {newLen : Int32 → Point K → K → Option K} {P : NbEntry K → Prop} [DecidablePred P]
  {W : K → K → Prop} [DecidableRel W] {key : NbEntry K → K} {k : K}

/-- The branches of a loop admit the neighbours with `P`, and compare the keys with `W`. -/
def Takes (newLen : Int32 → Point K → K → Option K) (P : NbEntry K → Prop) [DecidablePred P]
    (W : K → K → Prop) [DecidableRel W] (key : NbEntry K → K) : Prop :=
  ∀ e len, newLen e.ninfo.edgeid ⟨e.ninfo.x, e.ninfo.y⟩ len =
    if P e ∧ W (key e) len then some (key e) else none

omit [Field K] [LinearOrder K] in
/-- A step of the loop over the own table is one of the general search for a leader. -/
private theorem ownStep_eq (htakes : Takes newLen P W key) : ownStep newLen = leadStep P W key := by
  funext s e
  rw [ownStep, leadStep, htakes]
  by_cases hlead : P e ∧ W (key e) s.2
  · rw [if_pos hlead, if_pos hlead]
  · rw [if_neg hlead, if_neg hlead]

omit [Field K] [LinearOrder K] in
/-- The loop over the own table finds the leader. -/
private theorem findOwn_eq (htakes : Takes newLen P W key) (nbl : List (NbEntry K)) :
    findOwn newLen k nbl = address (leader P W key k nbl) := by
  rw [findOwn, leader, ownStep_eq htakes]
  cases (nbl.foldl (leadStep P W key) (none, k)).1 <;> rfl

/-- One round over the table of the application does what a round over the own table does. -/
private theorem mbrStep_eq (htakes : Takes newLen P W key) {e : NbEntry K} {i : Neighbor K}
    (h : SameNeighbour env fuel map e i) (s : Option (NbEntry K) × K) :
    mbrStep env fuel map newLen (address s.1, s.2) i =
      .ok (address (leadStep P W key s e).1, (leadStep P W key s e).2) := by
  obtain ⟨r, hr, hid⟩ := h.road
  rw [mbrStep, h.position]
  simp only [hr, inMap, bind, Except.bind, hid]
  rw [htakes, leadStep]
  by_cases hlead : P e ∧ W (key e) s.2
  · rw [if_pos hlead, if_pos hlead, ← h.dst]
    rfl
  · rw [if_neg hlead, if_neg hlead]
    rfl

/-- The loop over the MBR table, with the same neighbours, comes to the same leader. -/
private theorem foldlM_mbrStep (htakes : Takes newLen P W key)
    (h : List.Forall₂ (SameNeighbour env fuel map) nbl nb) (s : Option (NbEntry K) × K) :
    nb.foldlM (mbrStep env fuel map newLen) (address s.1, s.2) =
      .ok (address (nbl.foldl (leadStep P W key) s).1, (nbl.foldl (leadStep P W key) s).2) := by
  induction h generalizing s with
  | nil => rfl
  | cons hei _ ih =>
    rw [List.foldlM_cons, mbrStep_eq htakes hei]
    exact ih _

/-- The mode with the table of the application leaves out the first neighbour. -/
private theorem findMbr_eq (htakes : Takes newLen P W key)
    (h : List.Forall₂ (SameNeighbour env fuel map) nbl nb) :
    findMbr env fuel map newLen k nb = .ok (address (leader P W key k nbl.tail)) := by
  have htail : List.Forall₂ (SameNeighbour env fuel map) nbl.tail (nb.drop 1) := by
    cases h with
    | nil => exact .nil
    | cons _ hrest => exact hrest
  rw [findMbr, show ((0 : UInt32), k) = (address (none : Option (NbEntry K)), k) from rfl,
    foldlM_mbrStep htakes htail (none, k)]
  rfl

/-! ## When the modes agree -/

/-- A candidate that only one mode looks at, the first neighbour or one that has expired, is
    beaten by a candidate that both look at. -/
def Overtaken (P : NbEntry K → Prop) (W : K → K → Prop) (key : NbEntry K → K) (k : K) (now : Int)
    (nbl : List (NbEntry K)) : Prop :=
  ∀ a, Candidate P W key k a →
    (nbl.head? = some a ∧ Live now a ∨ a ∈ nbl.tail ∧ ¬ Live now a) →
      ∃ b ∈ nbl.tail, Live now b ∧ Candidate P W key k b ∧ W (key b) (key a)

/-- One mode looks at no candidate, and the leader of the other one has the address zero, with
    which a mode says that it has found nobody. -/
def Nameless (P : NbEntry K → Prop) (W : K → K → Prop) (key : NbEntry K → K) (k : K) (now : Int)
    (nbl : List (NbEntry K)) : Prop :=
  ∃ a : NbEntry K, a.ninfo.dst = 0 ∧
    ((Leads P W key k (nbl.filter (Live now ·)) a ∧ ∀ b ∈ nbl.tail, ¬ Candidate P W key k b) ∨
      (Leads P W key k nbl.tail a ∧ ∀ b ∈ nbl.filter (Live now ·), ¬ Candidate P W key k b))

omit [Field K] [LinearOrder K] [DecidablePred P] [DecidableRel W] in
/-- Which candidates only one mode looks at, in a list without ties. -/
private theorem overtaken_iff (hties : NoTies P W key k nbl) :
    (∀ a, Candidate P W key k a →
      (a ∈ nbl.filter (Live now ·) ∧ a ∉ nbl.tail ∨ a ∈ nbl.tail ∧ a ∉ nbl.filter (Live now ·)) →
        ∃ b ∈ nbl.filter (Live now ·), b ∈ nbl.tail ∧ Candidate P W key k b ∧
          W (key b) (key a)) ↔
      Overtaken P W key k now nbl := by
  cases nbl with
  | nil => simp [Overtaken]
  | cons first rest =>
    -- A candidate at the first place is at no other
    have hfirst : Candidate P W key k first → first ∉ rest := fun hcand hmem =>
      (List.pairwise_cons.mp hties).1 first hmem hcand hcand rfl
    refine forall_congr' fun a => imp_congr_right fun hcand => imp_congr ?_ ?_
    · -- What only one mode looks at
      simp only [List.mem_filter, decide_eq_true_eq, List.tail_cons, List.head?_cons,
        Option.some.injEq, List.mem_cons]
      constructor
      · rintro (⟨⟨hmem, hlive⟩, hnot⟩ | ⟨hmem, hnot⟩)
        · exact .inl ⟨(hmem.resolve_right hnot).symm, hlive⟩
        · exact .inr ⟨hmem, fun hlive => hnot ⟨.inr hmem, hlive⟩⟩
      · rintro (⟨rfl, hlive⟩ | ⟨hmem, hexpired⟩)
        · exact .inl ⟨⟨.inl rfl, hlive⟩, hfirst hcand⟩
        · exact .inr ⟨hmem, fun h => hexpired h.2⟩
    · -- What both look at
      refine exists_congr fun b => ?_
      simp only [List.mem_filter, decide_eq_true_eq, List.tail_cons, List.mem_cons]
      constructor
      · rintro ⟨⟨-, hlive⟩, hmem, hb⟩
        exact ⟨hmem, hlive, hb⟩
      · rintro ⟨hmem, hlive, hb⟩
        exact ⟨⟨.inr hmem, hlive⟩, hmem, hb⟩

omit [Field K] [LinearOrder K] in
/-- A mode returns the address of its leader, and zero if there is none. -/
private theorem address_eq_iff {l l' : List (NbEntry K)} (hW : Winning W)
    (hties : NoTies P W key k l) (hties' : NoTies P W key k l')
    (hdst : ∀ a ∈ l, ∀ b ∈ l', Candidate P W key k a → Candidate P W key k b →
      a.ninfo.dst = b.ninfo.dst → a = b) :
    address (leader P W key k l) = address (leader P W key k l') ↔
      leader P W key k l = leader P W key k l' ∨
        ∃ a : NbEntry K, a.ninfo.dst = 0 ∧
          ((Leads P W key k l a ∧ ∀ b ∈ l', ¬ Candidate P W key k b) ∨
            (Leads P W key k l' a ∧ ∀ b ∈ l, ¬ Candidate P W key k b)) := by
  constructor
  · intro h
    rcases leader_cases hW hties with ⟨hl, hnone⟩ | ⟨c, hl, hc⟩ <;>
      rcases leader_cases hW hties' with ⟨hl', hnone'⟩ | ⟨d, hl', hd⟩ <;> rw [hl, hl'] at h ⊢
    -- Only an address of zero looks like none
    · exact .inl rfl
    · exact .inr ⟨d, h.symm, .inr ⟨hd, hnone⟩⟩
    · exact .inr ⟨c, h, .inl ⟨hc, hnone'⟩⟩
    · exact .inl (congrArg some (hdst c hc.mem d hd.mem hc.candidate hd.candidate h))
  · rintro (heq | ⟨a, hzero, ⟨ha, hnone⟩ | ⟨ha, hnone⟩⟩)
    · rw [heq]
    · rw [(leader_eq_some hW hties).mpr ha, (leader_eq_none hW hties').mpr hnone]
      exact hzero
    · rw [(leader_eq_some hW hties').mpr ha, (leader_eq_none hW hties).mpr hnone]
      exact hzero.symm

/-- For the same neighbours, none of them as good as another one, the modes give one answer exactly
    if no candidate that only one of them looks at leads. -/
private theorem findOwn_eq_findMbr_iff (htakes : Takes newLen P W key) (hW : Winning W)
    (hpos : ∀ a b : NbEntry K, (⟨a.ninfo.x, a.ninfo.y⟩ : Point K) = ⟨b.ninfo.x, b.ninfo.y⟩ →
      key a = key b)
    (hsame : List.Forall₂ (SameNeighbour env fuel map) nbl nb) (hties : NoTies P W key k nbl)
    (now : Int) :
    ∃ hop, findMbr env fuel map newLen k nb = .ok hop ∧
      (findOwn newLen k (nbl.filter (Live now ·)) = hop ↔
        Overtaken P W key k now nbl ∨ Nameless P W key k now nbl) := by
  -- Both modes choose from parts of one list, the live entries and all but the first
  have hlive : (nbl.filter (Live now ·)).Sublist nbl := List.filter_sublist
  have htail : nbl.tail.Sublist nbl := List.tail_sublist nbl
  refine ⟨_, findMbr_eq htakes hsame, ?_⟩
  rw [findOwn_eq htakes, address_eq_iff hW (hties.sublist hlive) (hties.sublist htail),
    leader_eq_iff hW (hties.sublist hlive) (hties.sublist htail), overtaken_iff hties, Nameless]
  intro a ha b hb hacand hbcand hdst
  exact hties.eq_of_key (hlive.subset ha) (htail.subset hb) hacand hbcand
    (hpos a b (position_of_dst hsame (hlive.subset ha) (htail.subset hb) hdst))

end Loops

/-! ## The two functions -/

/-- `find_next_hop` may take the neighbour: it is on one of the roads, nearer to the goal than the
    node itself, and within 200 of the node. -/
def NextHopArgs.Admits (env : NeighborsEnv K) (a : NextHopArgs K) (e : NbEntry K) : Prop :=
  (e.ninfo.edgeid = a.edgeid1 ∨ (a.edgeid2 ≠ -1 ∧ e.ninfo.edgeid = a.edgeid2) ∨
      e.ninfo.edgeid = a.edgeid3) ∧
    calDist env.toMapEnv ⟨a.x2, a.y2⟩ ⟨e.ninfo.x, e.ninfo.y⟩ <
      calDist env.toMapEnv ⟨a.x1, a.y1⟩ ⟨a.x2, a.y2⟩ ∧
    calDist env.toMapEnv ⟨a.x1, a.y1⟩ ⟨e.ninfo.x, e.ninfo.y⟩ < 200

instance (env : NeighborsEnv K) (a : NextHopArgs K) : DecidablePred (a.Admits env) :=
  fun _ => inferInstanceAs (Decidable (_ ∧ _))

/-- How far the neighbour is from being 195 away; the least counts. -/
def NextHopArgs.miss (env : NeighborsEnv K) (a : NextHopArgs K) (e : NbEntry K) : K :=
  env.abs (calDist env.toMapEnv ⟨a.x1, a.y1⟩ ⟨e.ninfo.x, e.ninfo.y⟩ - 195)

/-- `find_next_hop` takes the nearer of two neighbours. -/
private theorem NextHopArgs.takes (env : NeighborsEnv K) (a : NextHopArgs K) :
    Takes (a.newLen env) (a.Admits env) (· < ·) (a.miss env) := by
  intro e len
  simp only [newLen, Admits, miss]
  split_ifs <;> first | rfl | grind

/-- `find_furthest_nhop` may take the neighbour: it is on one of the roads. -/
def FurthestArgs.Admits (a : FurthestArgs K) (e : NbEntry K) : Prop :=
  e.ninfo.edgeid = a.edgeid1 ∨ (a.edgeid2 ≠ -1 ∧ e.ninfo.edgeid = a.edgeid2)

instance (a : FurthestArgs K) : DecidablePred (FurthestArgs.Admits (K := K) a) :=
  fun _ => inferInstanceAs (Decidable (_ ∨ _))

/-- How far away the neighbour is; the most counts. -/
def FurthestArgs.reach (env : NeighborsEnv K) (a : FurthestArgs K) (e : NbEntry K) : K :=
  calDist env.toMapEnv ⟨a.x1, a.y1⟩ ⟨e.ninfo.x, e.ninfo.y⟩

/-- `find_furthest` takes the further of two neighbours, and the later of equal ones. -/
private theorem FurthestArgs.takes (env : NeighborsEnv K) (a : FurthestArgs K) :
    Takes (a.newLen env) a.Admits (· ≥ ·) (a.reach env) := by
  intro e len
  simp only [newLen, Admits, reach]
  split_ifs <;> first | rfl | grind

/-- In both functions the modes give one answer, for the same neighbours without ties, exactly if
    every candidate that only one of them looks at is beaten by a candidate that both look at. -/
theorem modes_agree_iff (env : NeighborsEnv K) (fuel : Nat) (map : MsvrMap K) (now : Int)
    {nbl : List (NbEntry K)} {nb : List (Neighbor K)}
    (hsame : List.Forall₂ (SameNeighbour env fuel map) nbl nb)
    (nbl' : List (NbEntry K)) (nbapp : Option (List (Neighbor K))) :
    (∀ a : NextHopArgs K, NoTies (a.Admits env) (· < ·) (a.miss env) 200 nbl →
      ∃ hop t hop', findNextHop env fuel map now ⟨nbl, false, nbapp⟩ a = .ok (hop, t) ∧
        findNextHop env fuel map now ⟨nbl', true, some nb⟩ a = .ok (hop', ⟨nbl', true, some nb⟩) ∧
        (hop = hop' ↔
          Overtaken (a.Admits env) (· < ·) (a.miss env) 200 now nbl ∨
            Nameless (a.Admits env) (· < ·) (a.miss env) 200 now nbl)) ∧
    ∀ a : FurthestArgs K, NoTies a.Admits (· ≥ ·) (a.reach env) 0 nbl →
      ∃ hop t hop', findFurthestNhop env fuel map now ⟨nbl, false, nbapp⟩ a = .ok (hop, t) ∧
        findFurthestNhop env fuel map now ⟨nbl', true, some nb⟩ a =
          .ok (hop', ⟨nbl', true, some nb⟩) ∧
        (hop = hop' ↔
          Overtaken a.Admits (· ≥ ·) (a.reach env) 0 now nbl ∨
            Nameless a.Admits (· ≥ ·) (a.reach env) 0 now nbl) := by
  constructor
  · intro a hties
    obtain ⟨hop, hmbr, hiff⟩ := findOwn_eq_findMbr_iff (a.takes env) winning_lt
      (fun e e' hpos => by rw [NextHopArgs.miss, NextHopArgs.miss, hpos]) hsame hties now
    refine ⟨_, _, hop, rfl, ?_, ?_⟩
    · simp only [findNextHop, assertApp, hmbr, bind, Except.bind]
      rfl
    · rw [← nbl_purge now ⟨nbl, false, nbapp⟩] at hiff
      exact hiff
  · intro a hties
    obtain ⟨hop, hmbr, hiff⟩ := findOwn_eq_findMbr_iff (a.takes env) winning_ge
      (fun e e' hpos => by rw [FurthestArgs.reach, FurthestArgs.reach, hpos]) hsame hties now
    refine ⟨_, _, hop, rfl, ?_, ?_⟩
    · cases nb with
      | nil =>
        -- `find_furthest_nhop` returns at once where the table is empty
        cases hmbr
        rfl
      | cons i rest =>
        simp only [findFurthestNhop, assertApp, hmbr, bind, Except.bind]
        rfl
    · rw [← nbl_purge now ⟨nbl, false, nbapp⟩] at hiff
      exact hiff

end Modes

/-! ## Neighbours on a street -/

/-- The nodes 1 and 2 on the street. The square root is that of the square of a whole number. -/
def streetEnv : NeighborsEnv ℚ where
  sqrt q := (Nat.sqrt q.num.toNat : ℚ)
  dijkstra _ _ := none
  nodes := [⟨1, 60, 0⟩, ⟨2, 150, 0⟩]
  abs q := max q (-q)

/-- The entry of the node at `x` in the own table. -/
def ownEntry (dst : UInt32) (x : ℚ) : NbEntry ℚ := ⟨⟨x, 0, 0, 0, 7, dst⟩, 5⟩

/-- An entry of the table of the application. -/
def mbrEntry (ip : UInt32) : Neighbor ℚ := ⟨ip, .zero, 5, 0, false, 0, 0, 0, 0⟩

/-- The first neighbour is the same in both tables. -/
private theorem sameNeighbour_first :
    SameNeighbour streetEnv 1 street (ownEntry 1 60) (mbrEntry 1) :=
  ⟨rfl, by decide, ⟨0, 1, 7, 30⟩, by decide +kernel, rfl⟩

/-- So is the second one. -/
private theorem sameNeighbour_second :
    SameNeighbour streetEnv 1 street (ownEntry 2 150) (mbrEntry 2) :=
  ⟨rfl, by decide, ⟨0, 1, 7, 30⟩, by decide +kernel, rfl⟩

/-- From the origin to the other end of the street. -/
def along : NextHopArgs ℚ := ⟨7, -1, 7, 0, 0, 300, 0⟩

/-- The neighbours on the street, as seen from the origin. -/
def furthestAlong : FurthestArgs ℚ := ⟨7, -1, 0, 0⟩

/-- Two neighbours, of which the second one is the better choice. -/
theorem modes_agree_iff_street :
    (∃ hop t hop',
      findNextHop streetEnv 1 street 0 ⟨[ownEntry 1 60, ownEntry 2 150], false, none⟩ along =
        .ok (hop, t) ∧
      findNextHop streetEnv 1 street 0 ⟨[], true, some [mbrEntry 1, mbrEntry 2]⟩ along =
        .ok (hop', ⟨[], true, some [mbrEntry 1, mbrEntry 2]⟩) ∧
      (hop = hop' ↔
        Overtaken (along.Admits streetEnv) (· < ·) (along.miss streetEnv) 200 0
            [ownEntry 1 60, ownEntry 2 150] ∨
          Nameless (along.Admits streetEnv) (· < ·) (along.miss streetEnv) 200 0
            [ownEntry 1 60, ownEntry 2 150])) ∧
    ∃ hop t hop',
      findFurthestNhop streetEnv 1 street 0 ⟨[ownEntry 1 60, ownEntry 2 150], false, none⟩
        furthestAlong = .ok (hop, t) ∧
      findFurthestNhop streetEnv 1 street 0 ⟨[], true, some [mbrEntry 1, mbrEntry 2]⟩
        furthestAlong = .ok (hop', ⟨[], true, some [mbrEntry 1, mbrEntry 2]⟩) ∧
      (hop = hop' ↔
        Overtaken furthestAlong.Admits (· ≥ ·) (furthestAlong.reach streetEnv) 0 0
            [ownEntry 1 60, ownEntry 2 150] ∨
          Nameless furthestAlong.Admits (· ≥ ·) (furthestAlong.reach streetEnv) 0 0
            [ownEntry 1 60, ownEntry 2 150]) := by
  have h := modes_agree_iff streetEnv 1 street 0
    (.cons sameNeighbour_first (.cons sameNeighbour_second .nil)) [] none
  refine ⟨h.1 along ?_, h.2 furthestAlong ?_⟩
  · exact List.pairwise_pair.mpr fun _ _ => by decide +kernel
  · exact List.pairwise_pair.mpr fun _ _ => by decide +kernel

/-- The first neighbour alone: the mode with the table of the application finds nobody. -/
theorem modes_not_agree :
    List.Forall₂ (SameNeighbour streetEnv 1 street) [ownEntry 1 60] [mbrEntry 1] ∧
      NoTies (along.Admits streetEnv) (· < ·) (along.miss streetEnv) 200 [ownEntry 1 60] ∧
      NoTies furthestAlong.Admits (· ≥ ·) (furthestAlong.reach streetEnv) 0 [ownEntry 1 60] ∧
      (findNextHop streetEnv 1 street 0 ⟨[ownEntry 1 60], false, none⟩ along).map Prod.fst =
        .ok 1 ∧
      (findNextHop streetEnv 1 street 0 ⟨[], true, some [mbrEntry 1]⟩ along).map Prod.fst =
        .ok 0 ∧
      (findFurthestNhop streetEnv 1 street 0 ⟨[ownEntry 1 60], false, none⟩
        furthestAlong).map Prod.fst = .ok 1 ∧
      (findFurthestNhop streetEnv 1 street 0 ⟨[], true, some [mbrEntry 1]⟩
        furthestAlong).map Prod.fst = .ok 0 := by
  refine ⟨.cons sameNeighbour_first .nil, List.pairwise_singleton _ _,
    List.pairwise_singleton _ _, ?_⟩
  decide +kernel

end MapRelay.NS3.GeoSvr.Neighbors
