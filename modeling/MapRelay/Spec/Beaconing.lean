import Mathlib.Data.Rat.Floor
import MapRelay.ForStd.Periodic
import MapRelay.Native.MbrNeighborApp
import MapRelay.Spec.MbrHeader
import MapRelay.Spec.Neighbors

/-!
# Vehicles that hear each other know each other

A vehicle sends its beacons on a schedule to which the delays do not add up. So a vehicle that is
in reach refreshes its entry before it expires, and the position in the entry is not old. The cell
in the entry may be, because `Update` never refreshes it. A vehicle that is out of reach, or has
been stopped, is forgotten.
-/

namespace MapRelay.NS3

open ForStd ForStd.Announcement

variable {K : Type}

/-! ## The table and the beacons that were heard -/

/-- The neighbour table as a table of positions. -/
def placeView (K : Type) : EntryView UInt32 (K × K) (Neighbor K) where
  key := Neighbor.ipAddress
  expireTime := Neighbor.expireTime
  value e := (e.x, e.y)

/-- A beacon heard at time `now`, as an announcement of the position of its sender. -/
def Beacon.place (now : Int) (b : Beacon K) : Announcement UInt32 (K × K) :=
  ⟨now, b.expire, b.addr, (b.x, b.y)⟩

/-- No entry is closed. -/
def Opened (nb : List (Neighbor K)) : Prop := ∀ e ∈ nb, e.close = false

section Table

variable {h : List (Announcement UInt32 (K × K))} {nb : List (Neighbor K)} {now : Int}
  {b : Beacon K}

/-- A purge drops what does not count any more. -/
private theorem represents_purge (hr : Represents (placeView K) nb h now) (hopen : Opened nb) :
    Represents (placeView K) (purge now nb) h now := by
  refine hr.purge _ fun e he hp => ?_
  have hclose := hopen e he
  show e.expireTime < now
  simpa [hclose] using hp

/-- A purge closes no entry. -/
private theorem opened_purge (hopen : Opened nb) (now : Int) : Opened (purge now nb) :=
  fun e he => hopen e (List.mem_filter.mp he).1

/-- `Update` stores the position of the beacon, whether it makes an entry or refreshes one. -/
private theorem represents_update (hr : Represents (placeView K) nb h now) (hopen : Opened nb)
    (b : Beacon K) :
    Represents (placeView K) (update now b nb) (b.place now :: h) now ∧
      Opened (update now b nb) := by
  have hexpiry : (b.place now).expiry = b.expire + now := Int.add_comm _ _
  unfold update
  rcases refresh_cases now b nb with ⟨hnone, hnew⟩ | ⟨l₁, e, e', l₂, rfl, hsome, hrest⟩
  -- No entry for the address: a new one is appended, and the table is purged
  · rw [hnone]
    have hinsert : Represents (placeView K) (nb ++ [b.neighbor now]) (b.place now :: h) now :=
      hr.insert (a := b.place now) hnew rfl hexpiry.symm rfl
    have hopen' : Opened (nb ++ [b.neighbor now]) := by
      intro e he
      rcases List.mem_append.mp he with he | he
      · exact hopen e he
      · rw [List.mem_singleton.mp he]
        rfl
    exact ⟨represents_purge hinsert hopen', opened_purge hopen' now⟩
  -- The first entry for the address is refreshed in place
  · obtain ⟨hip, hip', hclose, hexp, -, hreport⟩ := hrest
    rw [hsome]
    constructor
    · refine hr.refresh hip hip' (hexp.trans (by rw [hexpiry]; rfl)) ?_
      show (e'.report.x, e'.report.y) = (b.x, b.y)
      rw [hreport]
    · exact forall_mem_replace hopen (hclose.trans (hopen e (by simp)))

/-- A refreshed table has old entries, and one that keeps its geohash and direction. -/
private theorem mem_refresh {nb' : List (Neighbor K)} (h : refresh now b nb = some nb')
    {e : Neighbor K} (he : e ∈ nb') :
    e ∈ nb ∨ ∃ e₀ ∈ nb, e₀.ipAddress = b.addr ∧ e.ipAddress = b.addr ∧
      e.geohash = e₀.geohash ∧ e.direction = e₀.direction ∧
      (e.hardwareAddress = e₀.hardwareAddress ∨ e.hardwareAddress = b.mac) := by
  induction nb generalizing nb' with
  | nil => cases h
  | cons i rest ih =>
    unfold refresh at h
    split at h
    · next hi =>
      -- The first entry is for the address; it keeps everything but its address and its position
      cases h
      rcases List.mem_cons.mp he with rfl | he
      · refine .inr ⟨i, List.mem_cons_self, hi, hi, rfl, rfl, ?_⟩
        dsimp only
        split
        · exact .inr rfl
        · exact .inl rfl
      · exact .inl (List.mem_cons_of_mem _ he)
    -- The first entry is passed over
    · obtain ⟨rest', hrest, rfl⟩ := Option.map_eq_some_iff.mp h
      rcases List.mem_cons.mp he with rfl | he
      · exact .inl List.mem_cons_self
      · rcases ih hrest he with he | ⟨e₀, he₀, hrest⟩
        · exact .inl (List.mem_cons_of_mem _ he)
        · exact .inr ⟨e₀, List.mem_cons_of_mem _ he₀, hrest⟩

/-- An entry after `Update` was there before, is new, or is the old entry of the sender with what
    the beacon says of its addresses. -/
theorem mem_update {e : Neighbor K} (he : e ∈ update now b nb) :
    e ∈ nb ∨ e = b.neighbor now ∨ ∃ e₀ ∈ nb, e₀.ipAddress = b.addr ∧ e.ipAddress = b.addr ∧
      e.geohash = e₀.geohash ∧ e.direction = e₀.direction ∧
      (e.hardwareAddress = e₀.hardwareAddress ∨ e.hardwareAddress = b.mac) := by
  unfold update at he
  split at he
  · next nb' hrefresh =>
    rcases mem_refresh hrefresh he with he | he
    · exact .inl he
    · exact .inr (.inr he)
  · rcases List.mem_append.mp (List.mem_filter.mp he).1 with he | he
    · exact .inl he
    · exact .inr (.inl (List.mem_singleton.mp he))

/-- What a query does that has found an entry: its assertion asks for a geohash. -/
def foundReply (geohash : UInt64) (entry : Mac48Address × K × K) : Except Fault (NbReply K) :=
  if geohash = 0 then .error .assertFailed else .ok ⟨geohash, some entry⟩

/-- A query finds the entry for an address as long as a beacon that was heard from it counts. -/
private theorem query_cases (hr : Represents (placeView K) nb h now) (hopen : Opened nb)
    (ip : UInt32) :
    (Alive h ip now ∧ ∃ e ∈ nb, e.ipAddress = ip ∧ latest h ip = some (e.x, e.y) ∧
        getGeohashFromIpInNb now nb ip = foundReply e.geohash (e.hardwareAddress, e.x, e.y)) ∨
      (¬ Alive h ip now ∧ getGeohashFromIpInNb now nb ip = .ok ⟨0, none⟩) := by
  have hp := represents_purge hr hopen
  have halive := hp.alive_iff (Int.le_refl now) (k := ip)
  unfold getGeohashFromIpInNb
  cases hfind : (purge now nb).find? (·.ipAddress == ip) with
  | some e =>
    -- An entry is found: it has survived the purge, so that it has not expired
    have he := List.mem_of_find?_eq_some hfind
    have hip : e.ipAddress = ip := by simpa using List.find?_some hfind
    have hkeep := (List.mem_filter.mp he).2
    simp only [Bool.not_or, Bool.and_eq_true, Bool.not_eq_true', decide_eq_false_iff_not] at hkeep
    refine .inl ⟨halive.mpr ⟨e, he, hip, ?_⟩, e, (List.mem_filter.mp he).1, hip, ?_, rfl⟩
    · show now ≤ e.expireTime
      omega
    · rw [← hip]
      exact hp.latest e he
  | none =>
    -- No entry is found: what counts would have one
    refine .inr ⟨fun hlive => ?_, rfl⟩
    obtain ⟨e, he, hip, -⟩ := halive.mp hlive
    have hne : e.ipAddress ≠ ip := by simpa using List.find?_eq_none.mp hfind e he
    exact hne hip

end Table

/-! ## One beacon -/

section Wave

variable [Field K] [LinearOrder K] [FloorRing K] {V : Type} {W : Vehicles V K}

namespace Vehicles

/-- Longitude and latitude of a vehicle, as far as a `float` keeps them. -/
def place (W : Vehicles V K) (v : V) (t : Int) : K × K :=
  let gps := sumoCartesian2GPS W.env.sumo (W.position v t).1 (W.position v t).2
  (W.env.double (W.env.float gps.1), W.env.double (W.env.float gps.2))

/-- The cell of a vehicle. -/
def cell (W : Vehicles V K) (v : V) (t : Int) : UInt64 :=
  sumoCartesian2Geohash W.env.sumo (W.position v t).1 (W.position v t).2

/-- The beacon that `v` sends at time `t`, as it is entered at `w`. -/
def beacon (W : Vehicles V K) (v w : V) (t : Int) : Beacon K where
  addr := (W.app v).ipOrigin
  expire := (W.app w).waveExpire
  mac := (W.app v).mac
  geohash := W.cell v t
  direction := 0
  x := (W.place v t).1
  y := (W.place v t).2

/-- The packet of that beacon. -/
def packet (W : Vehicles V K) (v : V) (t : Int) : List UInt8 :=
  wavePacket W.env (W.app v) (W.position v t).1 (W.position v t).2

/-- The time within which a vehicle sends its next beacon. -/
def gap (W : Vehicles V K) (v : V) : Int := (W.app v).waveInterval + (W.app v).dNs.toNat

/-- No delay is longer than the interval, and no beacon arrives before it is sent. -/
structure Regular (W : Vehicles V K) : Prop where
  delay_le : ∀ v, ((W.app v).dNs.toNat : Int) ≤ (W.app v).waveInterval
  latency_nonneg : 0 ≤ W.latency

end Vehicles

/-- A beacon is entered as it was sent, but for its direction, which is always zero. -/
theorem receiveWavePacket_packet (v w : V) (t now : Int) (memory : MbrHeader)
    (nb : List (Neighbor K)) :
    receiveWavePacket W.env (W.app w) memory now nb (W.packet v t) =
      some (update now (W.beacon v w t) nb) := by
  have hread := MbrHeader.run_deserialize W.env.buffer
    (helloHeader W.env (W.app v) (W.position v t).1 (W.position v t).2)
    (MbrHeader.default memory) []
  rw [List.append_nil] at hread
  unfold receiveWavePacket Vehicles.packet wavePacket
  rw [hread]
  rfl

/-! ## The invariant -/

/-- The timer of a vehicle, and what it has sent so far. -/
def OnTime (app : MbrNeighborApp) (now : Int) (timer : WaveTimer) (sent : List Int) :
    Option Int → Prop
  | none => timer.event = none ∧ sent = []
  | some start => ∃ drift ≤ app.gpsAccuracyNs,
      OnSchedule (start + 1000000000 + drift.toNat) app.waveInterval app.dNs.toNat sent ∧
      ∀ e, timer.event = some e → now ≤ e ∧ 0 ≤ timer.prevTxDelay ∧
        timer.prevTxDelay ≤ app.dNs.toNat ∧
        e = start + 1000000000 + drift.toNat + sent.length * app.waveInterval + timer.prevTxDelay

/-- A beacon that `v` sent at time `t` reaches `w`. -/
def Reaches (W : Vehicles V K) (s : WaveState V K) (v w : V) (t : Int) : Prop :=
  t ∈ s.sent v ∧ w ∈ W.reach v t

/-- An entry has the addresses of a vehicle, and the cell of one of its beacons. -/
def Names (W : Vehicles V K) (s : WaveState V K) (w : V) (e : Neighbor K) : Prop :=
  ∃ v t, Reaches W s v w t ∧ e.ipAddress = (W.app v).ipOrigin ∧
    e.hardwareAddress = (W.app v).mac ∧ e.geohash = W.cell v t ∧ e.direction = 0

/-- What `w` has heard, as announcements. -/
def history (W : Vehicles V K) (s : WaveState V K) (w : V) :
    List (Announcement UInt32 (K × K)) :=
  (s.heard w).map fun h => (W.beacon h.2.sender w h.2.sentAt).place h.1

/-- The invariant of the vehicles. -/
structure WaveOk (W : Vehicles V K) (s : WaveState V K) : Prop where
  timer : ∀ v, OnTime (W.app v) s.now (s.timers v) (s.sent v) (s.started v)
  air : ∀ b ∈ s.inAir, Reaches W s b.sender b.receiver b.sentAt ∧
    b.packet = W.packet b.sender b.sentAt ∧ b.sentAt ≤ s.now ∧ s.now ≤ b.sentAt + W.latency
  table : ∀ w, Represents (placeView K) (s.tables w) (history W s w) s.now
  opened : ∀ w, Opened (s.tables w)
  names : ∀ w, ∀ e ∈ s.tables w, Names W s w e
  heard : ∀ w, ∀ h ∈ s.heard w, Reaches W s h.2.sender w h.2.sentAt ∧
    h.2.sentAt ≤ h.1 ∧ h.1 ≤ h.2.sentAt + W.latency ∧ h.1 ≤ s.now
  newest : ∀ w, (s.heard w).Pairwise fun h h' => h'.1 ≤ h.1

/-! ## One step -/

variable {s s' : WaveState V K} {v w : V}

/-- What names a beacon that was sent still does when more are sent. -/
theorem Names.mono (hsent : ∀ v, s.sent v ⊆ s'.sent v) {e : Neighbor K} (h : Names W s w e) :
    Names W s' w e := by
  obtain ⟨v, t, ⟨hmem, hreach⟩, hrest⟩ := h
  exact ⟨v, t, ⟨hsent v hmem, hreach⟩, hrest⟩

/-- At the start nothing has been sent or heard. -/
theorem WaveOk.initial (t₀ : Int) : WaveOk W (.initial V K t₀) where
  timer _ := ⟨rfl, rfl⟩
  air _ hb := nomatch hb
  table _ := Represents.nil _ _
  opened _ _ he := nomatch he
  names _ _ he := nomatch he
  heard _ _ hh := nomatch hh
  newest _ := .nil

/-- The time may go on as far as nothing is due. -/
theorem WaveOk.tick (h : WaveOk W s) {t : Int} (hnow : s.now ≤ t)
    (hevent : ∀ v e, (s.timers v).event = some e → t ≤ e)
    (hair : ∀ b ∈ s.inAir, t ≤ b.sentAt + W.latency) : WaveOk W { s with now := t } where
  timer v := by
    -- The timers are as before, and none of them is passed over
    have htimer := h.timer v
    cases hstart : s.started v with
    | none =>
      rw [hstart] at htimer
      exact htimer
    | some start =>
      rw [hstart] at htimer
      obtain ⟨drift, hdrift, hschedule, hdue⟩ := htimer
      exact ⟨drift, hdrift, hschedule, fun e he => ⟨hevent v e he, (hdue e he).2⟩⟩
  air b hb := by
    obtain ⟨hreach, hpacket, hsent, -⟩ := h.air b hb
    exact ⟨hreach, hpacket, Int.le_trans hsent hnow, hair b hb⟩
  table w := (h.table w).mono hnow
  opened := h.opened
  names := h.names
  heard w x hx := by
    obtain ⟨hreach, hsent, harrived, hle⟩ := h.heard w x hx
    exact ⟨hreach, hsent, harrived, Int.le_trans hle hnow⟩
  newest := h.newest

/-- The timers of the other vehicles are left alone. -/
private theorem WaveOk.set_timer [DecidableEq V] (h : WaveOk W s) {timer : WaveTimer}
    {started : V → Option Int} (hstarted : ∀ u, u ≠ v → started u = s.started u)
    (htimer : OnTime (W.app v) s.now timer (s.sent v) (started v)) :
    WaveOk W { s with timers := Function.update s.timers v timer, started } :=
  { h with
    timer := fun u => by
      show OnTime _ _ (Function.update s.timers v timer u) _ (started u)
      by_cases hu : u = v
      · rw [hu, Function.update_self]
        exact htimer
      · rw [Function.update_of_ne hu, hstarted u hu]
        exact h.timer u }

/-- `StartApplication` arms the timer. -/
theorem WaveOk.start [DecidableEq V] (h : WaveOk W s) (hnew : s.started v = none)
    {tDrift txDelay : UInt32} (hdrift : tDrift ≤ (W.app v).gpsAccuracyNs)
    (hdelay : txDelay ≤ (W.app v).dNs) :
    WaveOk W { s with
      timers := Function.update s.timers v ((s.timers v).startApplication s.now tDrift txDelay)
      started := Function.update s.started v (some s.now) } := by
  apply h.set_timer
  · intro u hu
    exact Function.update_of_ne hu _ _
  · have hdelay : txDelay.toNat ≤ (W.app v).dNs.toNat := hdelay
    have htimer := h.timer v
    rw [hnew] at htimer
    rw [Function.update_self, htimer.2]
    refine ⟨tDrift, hdrift, OnSchedule.nil _ _ _, fun e he => ?_⟩
    -- The first beacon is sent a second after the start
    cases he
    simp only [WaveTimer.startApplication, List.length_nil]
    omega

/-- `StopApplication` leaves the timer armed. -/
theorem WaveOk.stop [DecidableEq V] (h : WaveOk W s) :
    WaveOk W { s with timers := Function.update s.timers v (s.timers v).stopApplication } := by
  refine h.set_timer (fun _ _ => rfl) ?_
  have htimer := h.timer v
  cases hstart : s.started v with
  | none =>
    rw [hstart] at htimer
    exact htimer
  | some start =>
    rw [hstart] at htimer
    exact htimer

/-- A purge keeps the invariant. -/
theorem WaveOk.purge [DecidableEq V] (h : WaveOk W s) :
    WaveOk W { s with tables := Function.update s.tables v (purge s.now (s.tables v)) } := by
  have hsub : ∀ w e, e ∈ Function.update s.tables v (MapRelay.NS3.purge s.now (s.tables v)) w →
      e ∈ s.tables w := by
    intro w e he
    by_cases hw : w = v
    · rw [hw, Function.update_self] at he
      rw [hw]
      exact (List.mem_filter.mp he).1
    · rwa [Function.update_of_ne hw] at he
  refine { h with
    table := fun w => ?_
    opened := fun w e he => h.opened w e (hsub w e he)
    names := fun w e he => h.names w e (hsub w e he) }
  -- The purged table of `v` shows what it showed, and the others are untouched
  show Represents _ (Function.update s.tables v _ w) (history W s w) _
  by_cases hw : w = v
  · rw [hw, Function.update_self]
    exact represents_purge (h.table v) (h.opened v)
  · rw [Function.update_of_ne hw]
    exact h.table w

/-- The next beacon is scheduled from the interval, without the delay of the last one. -/
theorem OnTime.generate {app : MbrNeighborApp} {now : Int} {timer : WaveTimer} {sent : List Int}
    {started : Option Int} (h : OnTime app now timer sent started)
    (hevent : timer.event = some now) (hinterval : (app.dNs.toNat : Int) ≤ app.waveInterval)
    {txDelay : UInt32} (hdelay : txDelay ≤ app.dNs) :
    OnTime app now (timer.generateWaveTraffic app now txDelay) (sent ++ [now]) started := by
  have hdelay : txDelay.toNat ≤ app.dNs.toNat := hdelay
  cases started with
  | none =>
    rw [h.1] at hevent
    cases hevent
  | some start =>
    obtain ⟨drift, hdrift, hschedule, hdue⟩ := h
    -- The timer ran out now, which is the time on its schedule
    obtain ⟨-, hmin, hmax, hnow⟩ := hdue now hevent
    refine ⟨drift, hdrift, ?_, fun e he => ?_⟩
    · rw [hnow]
      exact hschedule.concat hmin hmax
    · -- There is a next beacon only if the application was not stopped
      simp only [WaveTimer.generateWaveTraffic] at he ⊢
      split at he
      · cases he
      · cases he
        rw [List.length_append, List.length_singleton, Int.natCast_add, Int.add_mul]
        omega

/-- What is scheduled is not over, and belongs to a vehicle that was started. -/
theorem WaveOk.scheduled (h : WaveOk W s) {e : Int} (hevent : (s.timers v).event = some e) :
    (s.started v).isSome ∧ s.now ≤ e ∧ 0 ≤ (s.timers v).prevTxDelay ∧
      (s.timers v).prevTxDelay ≤ (W.app v).dNs.toNat := by
  have htimer := h.timer v
  -- A vehicle that was never started has no event
  cases hstart : s.started v with
  | none =>
    rw [hstart] at htimer
    rw [htimer.1] at hevent
    cases hevent
  | some start =>
    rw [hstart] at htimer
    obtain ⟨drift, -, -, hdue⟩ := htimer
    obtain ⟨hnow, hmin, hmax, -⟩ := hdue e hevent
    exact ⟨rfl, hnow, hmin, hmax⟩

/-- A timer that fires sends a beacon and is armed again. -/
theorem WaveOk.generate [DecidableEq V] (hW : W.Regular) (h : WaveOk W s)
    (hevent : (s.timers v).event = some s.now) {txDelay : UInt32}
    (hdelay : txDelay ≤ (W.app v).dNs) :
    WaveOk W { s with
      timers := Function.update s.timers v
        ((s.timers v).generateWaveTraffic (W.app v) s.now txDelay)
      inAir := s.inAir ++ (W.reach v s.now).map fun w => ⟨v, w, s.now, W.packet v s.now⟩
      sent := Function.update s.sent v (s.sent v ++ [s.now]) } := by
  -- What was sent before still counts as sent
  have hsent : ∀ u, s.sent u ⊆ Function.update s.sent v (s.sent v ++ [s.now]) u := by
    intro u t ht
    by_cases hu : u = v
    · rw [hu, Function.update_self]
      rw [hu] at ht
      exact List.mem_append_left _ ht
    · rwa [Function.update_of_ne hu]
  refine { h with
    timer := fun u => ?_
    air := fun b hb => ?_
    names := fun w e he => (h.names w e he).mono hsent
    heard := fun w x hx => ?_ }
  -- The timer of `v` is armed for the next beacon
  · show OnTime _ _ (Function.update s.timers v _ u) (Function.update s.sent v _ u) _
    by_cases hu : u = v
    · rw [hu, Function.update_self, Function.update_self]
      exact (h.timer v).generate hevent (hW.delay_le v) hdelay
    · rw [Function.update_of_ne hu, Function.update_of_ne hu]
      exact h.timer u
  -- Beacons that were in the air before are as they were
  · rcases List.mem_append.mp hb with hb | hb
    · obtain ⟨⟨hmem, hreach⟩, hrest⟩ := h.air b hb
      exact ⟨⟨hsent _ hmem, hreach⟩, hrest⟩
    · -- The beacons that were sent just now
      obtain ⟨w, hw, rfl⟩ := List.mem_map.mp hb
      have hlatency := hW.latency_nonneg
      refine ⟨⟨?_, hw⟩, rfl, Int.le_refl _, ?_⟩
      · show s.now ∈ Function.update s.sent v (s.sent v ++ [s.now]) v
        simp
      · show s.now ≤ s.now + W.latency
        omega
  -- What was heard is as it was
  · obtain ⟨⟨hmem, hreach⟩, hrest⟩ := h.heard w x hx
    exact ⟨⟨hsent _ hmem, hreach⟩, hrest⟩

/-- The entry that a beacon makes or refreshes names its sender. -/
private theorem names_update (h : WaveOk W s) {t : Int} (hreach : Reaches W s v w t)
    {e : Neighbor K} (he : e ∈ update s.now (W.beacon v w t) (s.tables w)) : Names W s w e := by
  rcases mem_update he with he | rfl | ⟨e₀, he₀, haddr, hip, hgeo, hdir, hmac⟩
  · exact h.names w e he
  · exact ⟨v, t, hreach, rfl, rfl, rfl, rfl⟩
  · -- The entry was one of the sender before
    obtain ⟨u, t₀, hreach₀, hip₀, hmac₀, hgeo₀, hdir₀⟩ := h.names w e₀ he₀
    obtain rfl : u = v := W.ipOrigin_injective u v (hip₀.symm.trans haddr)
    refine ⟨u, t₀, hreach₀, hip, ?_, hgeo.trans hgeo₀, hdir.trans hdir₀⟩
    rcases hmac with hmac | hmac
    · exact hmac.trans hmac₀
    · exact hmac

/-- A beacon that arrives is entered as heard. -/
theorem WaveOk.receive [DecidableEq V] (h : WaveOk W s) {before after : List (WaveTransit V)}
    {b : WaveTransit V} (hair : s.inAir = before ++ b :: after) :
    WaveOk W { s with
      tables := Function.update s.tables b.receiver
        (update s.now (W.beacon b.sender b.receiver b.sentAt) (s.tables b.receiver))
      inAir := before ++ after
      heard := Function.update s.heard b.receiver ((s.now, b) :: s.heard b.receiver) } := by
  -- The beacon was in the air, so that its sender has sent it to the receiver in time
  have hb : b ∈ s.inAir := by simp [hair]
  obtain ⟨hreach, -, hsent, harrives⟩ := h.air b hb
  have hupdate := represents_update (h.table b.receiver) (h.opened b.receiver)
    (W.beacon b.sender b.receiver b.sentAt)
  refine { h with
    air := fun b' hb' => h.air b' ?_
    table := fun w => ?_
    opened := fun w => ?_
    names := fun w e he => ?_
    heard := fun w x hx => ?_
    newest := fun w => ?_ }
  -- The other beacons in the air are as they were
  · have hb' : b' ∈ before ++ after := hb'
    rw [hair]
    rcases List.mem_append.mp hb' with hb' | hb'
    · exact List.mem_append_left _ hb'
    · exact List.mem_append_right _ (List.mem_cons_of_mem _ hb')
  -- The table of the receiver shows the beacon
  · show Represents _ (Function.update s.tables b.receiver _ w)
      ((Function.update s.heard b.receiver _ w).map _) _
    by_cases hw : w = b.receiver
    · rw [hw, Function.update_self, Function.update_self]
      exact hupdate.1
    · rw [Function.update_of_ne hw, Function.update_of_ne hw]
      exact h.table w
  -- Entering a beacon closes no entry
  · show Opened (Function.update s.tables b.receiver _ w)
    by_cases hw : w = b.receiver
    · rw [hw, Function.update_self]
      exact hupdate.2
    · rw [Function.update_of_ne hw]
      exact h.opened w
  -- An entry of the receiver names the new beacon, or one that it named before
  · have he : e ∈ Function.update s.tables b.receiver _ w := he
    by_cases hw : w = b.receiver
    · rw [hw, Function.update_self] at he
      rw [hw]
      exact names_update h hreach he
    · rw [Function.update_of_ne hw] at he
      exact h.names w e he
  -- The beacon is the newest that the receiver has heard
  · have hx : x ∈ Function.update s.heard b.receiver _ w := hx
    by_cases hw : w = b.receiver
    · rw [hw, Function.update_self] at hx
      rw [hw]
      rcases List.mem_cons.mp hx with rfl | hx
      · exact ⟨hreach, hsent, harrives, Int.le_refl _⟩
      · exact h.heard b.receiver x hx
    · rw [Function.update_of_ne hw] at hx
      exact h.heard w x hx
  -- It is put in front of what was heard before
  · show (Function.update s.heard b.receiver _ w).Pairwise _
    by_cases hw : w = b.receiver
    · rw [hw, Function.update_self]
      refine List.pairwise_cons.mpr ⟨fun x hx => ?_, h.newest b.receiver⟩
      exact (h.heard b.receiver x hx).2.2.2
    · rw [Function.update_of_ne hw]
      exact h.newest w

/-- A beacon that is received is entered as its sender made it. -/
theorem WaveOk.received (h : WaveOk W s) {before after : List (WaveTransit V)}
    {b : WaveTransit V} (hair : s.inAir = before ++ b :: after) {memory : MbrHeader}
    {nb : List (Neighbor K)}
    (hreceive : receiveWavePacket W.env (W.app b.receiver) memory s.now (s.tables b.receiver)
      b.packet = some nb) :
    nb = update s.now (W.beacon b.sender b.receiver b.sentAt) (s.tables b.receiver) := by
  have hb : b ∈ s.inAir := by simp [hair]
  rw [(h.air b hb).2.1, receiveWavePacket_packet] at hreceive
  exact (Option.some.inj hreceive).symm

/-- Every step keeps the invariant. -/
theorem WaveOk.step [DecidableEq V] (hW : W.Regular) (h : WaveOk W s) {event : WaveEvent V}
    (hstep : WaveStep W s event s') : WaveOk W s' := by
  cases hstep with
  | tick hnow hevent hair => exact h.tick hnow hevent hair
  | start hnew hdrift hdelay => exact h.start hnew hdrift hdelay
  | generate hevent hdelay => exact h.generate hW hevent hdelay
  | receive hair hreceive =>
    rw [h.received hair hreceive]
    exact h.receive hair
  | purge => exact h.purge
  | stop => exact h.stop

/-- The invariant holds in every run. -/
theorem waveOk_of_run [DecidableEq V] (hW : W.Regular) {t₀ : Int} {events : List (WaveEvent V)}
    (hrun : Run (WaveStep W) (.initial V K t₀) events s) : WaveOk W s :=
  hrun.invariant (WaveOk.initial t₀) fun _ _ _ h hstep => h.step hW hstep

/-! ## What a vehicle knows -/

/-- The beacons of a vehicle are on a schedule that starts a second after the application. -/
def Punctual (W : Vehicles V K) (s : WaveState V K) (v : V) : Prop :=
  match s.started v with
  | none => s.sent v = []
  | some start => ∃ drift ≤ (W.app v).gpsAccuracyNs,
      OnSchedule (start + 1000000000 + drift.toNat) (W.app v).waveInterval (W.app v).dNs.toNat
        (s.sent v)

/-- The invariant says that the vehicles are punctual. -/
private theorem WaveOk.punctual (h : WaveOk W s) (v : V) : Punctual W s v := by
  have htimer := h.timer v
  unfold Punctual
  cases hstart : s.started v with
  | none =>
    rw [hstart] at htimer
    exact htimer.2
  | some start =>
    rw [hstart] at htimer
    obtain ⟨drift, hdrift, hschedule, -⟩ := htimer
    exact ⟨drift, hdrift, hschedule⟩

/-- What `w` answers when it is asked for `v`: the address of `v`, the cell from which one of its
    beacons was sent, and the position of one that is not older than `since`. If that cell is 0,
    which it is outside the area, the query runs into its assertion. -/
def Tells (W : Vehicles V K) (s : WaveState V K) (w v : V) (since : Int) : Prop :=
  ∃ t t', Reaches W s v w t ∧ Reaches W s v w t' ∧ since ≤ t' ∧
    getGeohashFromIpInNb s.now (s.tables w) (W.app v).ipOrigin =
      foundReply (W.cell v t) ((W.app v).mac, W.place v t')

/-- A vehicle whose beacons all come from a cell is told without a failing assertion. -/
theorem Tells.ok {since : Int} (h : Tells W s w v since)
    (hcell : ∀ t, Reaches W s v w t → W.cell v t ≠ 0) :
    ∃ t t', Reaches W s v w t ∧ Reaches W s v w t' ∧ since ≤ t' ∧
      getGeohashFromIpInNb s.now (s.tables w) (W.app v).ipOrigin =
        .ok ⟨W.cell v t, some ((W.app v).mac, W.place v t')⟩ := by
  obtain ⟨t, t', hr, hr', hsince, hquery⟩ := h
  refine ⟨t, t', hr, hr', hsince, hquery.trans ?_⟩
  exact if_neg (hcell t hr)

/-- `w` has nothing to say about `v`. -/
def Forgot (W : Vehicles V K) (s : WaveState V K) (w v : V) : Prop :=
  getGeohashFromIpInNb s.now (s.tables w) (W.app v).ipOrigin = .ok ⟨0, none⟩

/-- The newest beacon from `v` is the one that is remembered. -/
private theorem latest_eq (h : WaveOk W s) {x : Int × WaveTransit V} (hx : x ∈ s.heard w)
    (hsender : x.2.sender = v) :
    ∃ y ∈ s.heard w, y.2.sender = v ∧ x.1 ≤ y.1 ∧
      latest (history W s w) (W.app v).ipOrigin = some (W.place v y.2.sentAt) := by
  -- The announcements under an address are those of one vehicle
  have hkey : ∀ z : Int × WaveTransit V,
      ((W.beacon z.2.sender w z.2.sentAt).place z.1).key = (W.app v).ipOrigin ↔ z.2.sender = v :=
    fun z => ⟨fun hz => W.ipOrigin_injective _ _ hz, fun hz => by rw [← hz]; rfl⟩
  have hsorted := h.newest w
  unfold history
  generalize s.heard w = heard at hx hsorted ⊢
  -- The newest beacon of `v` is the first one in the list
  induction heard with
  | nil => cases hx
  | cons y rest ih =>
    rw [List.map_cons, latest_cons]
    obtain ⟨hnewest, hsorted⟩ := List.pairwise_cons.mp hsorted
    by_cases hy : y.2.sender = v
    · rw [if_pos ((hkey y).mpr hy)]
      refine ⟨y, List.mem_cons_self, hy, ?_, by rw [← hy]; rfl⟩
      rcases List.mem_cons.mp hx with rfl | hx
      · exact Int.le_refl _
      · exact hnewest x hx
    · rw [if_neg fun hz => hy ((hkey y).mp hz)]
      rcases List.mem_cons.mp hx with rfl | hx
      · exact absurd hsender hy
      · obtain ⟨z, hz, hrest⟩ := ih hx hsorted
        exact ⟨z, List.mem_cons_of_mem _ hz, hrest⟩

/-- A beacon that has been heard counts for `waveExpire`. -/
private theorem WaveOk.tells (h : WaveOk W s) {x : Int × WaveTransit V} (hx : x ∈ s.heard w)
    (hsender : x.2.sender = v) (hlive : s.now ≤ x.1 + (W.app w).waveExpire) :
    Tells W s w v (x.1 - W.latency) := by
  -- The beacon `x` still counts, so that a query finds an entry
  have halive : Alive (history W s w) (W.app v).ipOrigin s.now :=
    ⟨_, List.mem_map_of_mem hx, by rw [← hsender]; rfl, hlive⟩
  rcases query_cases (h.table w) (h.opened w) (W.app v).ipOrigin with
    ⟨-, e, he, hip, hlatest, hquery⟩ | ⟨hdead, -⟩
  -- The entry names some beacon of `v`, and its place is that of the newest beacon that was heard
  · obtain ⟨u, t, hreach, hip', hmac, hgeo, -⟩ := h.names w e he
    obtain rfl : u = v := W.ipOrigin_injective u v (hip'.symm.trans hip)
    obtain ⟨y, hy, hysender, hle, hlatest'⟩ := latest_eq h hx hsender
    obtain ⟨hyreach, -, harrived, -⟩ := h.heard w y hy
    rw [hysender] at hyreach
    have hplace : (e.x, e.y) = W.place u y.2.sentAt :=
      Option.some.inj (hlatest.symm.trans hlatest')
    refine ⟨t, y.2.sentAt, hreach, hyreach, by omega, ?_⟩
    rw [hquery, hgeo, hmac, hplace]
  · exact absurd halive hdead

/-- Without a beacon that still counts nothing is known. -/
private theorem WaveOk.forgot (h : WaveOk W s)
    (hold : ∀ t, Reaches W s v w t → t + W.latency + (W.app w).waveExpire < s.now) :
    Forgot W s w v := by
  rcases query_cases (h.table w) (h.opened w) (W.app v).ipOrigin with
    ⟨⟨a, ha, hkey, hlive⟩, -⟩ | ⟨-, hquery⟩
  · -- An announcement that counts is a beacon that reached `w` not long ago
    obtain ⟨x, hx, rfl⟩ := List.mem_map.mp ha
    obtain ⟨hreach, -, harrived, -⟩ := h.heard w x hx
    obtain rfl : x.2.sender = v := W.ipOrigin_injective _ _ hkey
    have hlate := hold _ hreach
    have hlive : s.now ≤ x.1 + (W.app w).waveExpire := hlive
    omega
  · exact hquery

/-- Whatever is answered is about a vehicle whose beacon was heard. -/
private theorem WaveOk.answer (h : WaveOk W s) (w : V) (ip : UInt32) :
    getGeohashFromIpInNb s.now (s.tables w) ip = .ok ⟨0, none⟩ ∨
      ∃ v, v ≠ w ∧ ip = (W.app v).ipOrigin ∧
        Tells W s w v (s.now - (W.app w).waveExpire - W.latency) := by
  -- A query is answered by an entry, whose vehicle was heard, or not at all
  rcases query_cases (h.table w) (h.opened w) ip with
    ⟨⟨a, ha, hkey, hlive⟩, -⟩ | ⟨-, hquery⟩
  · obtain ⟨x, hx, rfl⟩ := List.mem_map.mp ha
    obtain ⟨hreach, -⟩ := h.heard w x hx
    have hlive : s.now ≤ x.1 + (W.app w).waveExpire := hlive
    refine .inr ⟨x.2.sender, fun heq => ?_, hkey.symm, ?_⟩
    · rw [heq] at hreach
      exact W.not_mem_reach w _ hreach.2
    · obtain ⟨t, t', hr, hr', hsince, hquery⟩ := h.tells hx rfl hlive
      exact ⟨t, t', hr, hr', by omega, hquery⟩
  · exact .inl hquery

/-- The assertion of the query passes where every beacon came from a cell. -/
private theorem WaveOk.asserts (h : WaveOk W s) (w : V)
    (hcell : ∀ v t, Reaches W s v w t → W.cell v t ≠ 0) (ip : UInt32) :
    ∃ reply, getGeohashFromIpInNb s.now (s.tables w) ip = .ok reply := by
  rcases h.answer w ip with hnone | ⟨v, -, rfl, htells⟩
  · exact ⟨_, hnone⟩
  · obtain ⟨t, t', -, -, -, hquery⟩ := htells.ok (hcell v)
    exact ⟨_, hquery⟩

/-! ## Runs -/

/-- A beacon of `v` from time `t` is on its way to `w`, or `w` has heard it. -/
def Delivered (s : WaveState V K) (v w : V) (t : Int) : Prop :=
  (∃ b ∈ s.inAir, b.sender = v ∧ b.receiver = w ∧ b.sentAt = t) ∨
    ∃ x ∈ s.heard w, x.2.sender = v ∧ x.2.sentAt = t

variable [DecidableEq V]

/-- No beacon is lost on its way. -/
theorem Delivered.step {event : WaveEvent V} {t : Int} (hd : Delivered s v w t)
    (hstep : WaveStep W s event s') : Delivered s' v w t := by
  cases hstep with
  -- Steps that neither send nor receive change neither the air nor what was heard
  | tick | start | purge | stop => exact hd
  | generate hevent hdelay =>
    rcases hd with ⟨b, hb, hrest⟩ | hheard
    · exact .inl ⟨b, List.mem_append_left _ hb, hrest⟩
    · exact .inr hheard
  | @receive before after b memory nb hair hreceive =>
    -- What was heard stays so when another beacon is
    have hheard : ∀ x ∈ s.heard w, x ∈ Function.update s.heard b.receiver
        ((s.now, b) :: s.heard b.receiver) w := by
      intro x hx
      by_cases hw : w = b.receiver
      · rw [hw, Function.update_self]
        rw [hw] at hx
        exact List.mem_cons_of_mem _ hx
      · rwa [Function.update_of_ne hw]
    -- The beacon of `v` that is to arrive may be the one that arrives now
    rcases hd with ⟨b', hb', hsender, hreceiver, hsent⟩ | ⟨x, hx, hrest⟩
    · rw [hair] at hb'
      rcases List.mem_append.mp hb' with hb' | hb'
      · exact .inl ⟨b', List.mem_append_left _ hb', hsender, hreceiver, hsent⟩
      · rcases List.mem_cons.mp hb' with rfl | hb'
        · -- It is the beacon that was received
          refine .inr ⟨(s.now, b'), ?_, hsender, hsent⟩
          show _ ∈ Function.update s.heard b'.receiver _ w
          rw [hreceiver, Function.update_self]
          exact List.mem_cons_self
        · exact .inl ⟨b', List.mem_append_right _ hb', hsender, hreceiver, hsent⟩
    · exact .inr ⟨x, hheard x hx, hrest⟩

/-- No step goes back in time. -/
theorem WaveStep.now_le {event : WaveEvent V} (hstep : WaveStep W s event s') :
    s.now ≤ s'.now := by
  cases hstep with
  | tick hnow => exact hnow
  | start | generate | receive | purge | stop => exact Int.le_refl _

/-- The events of a run in which `v` is not stopped. -/
def UnstoppedStep (W : Vehicles V K) (v : V) (s : WaveState V K) (event : WaveEvent V)
    (s' : WaveState V K) : Prop :=
  event ≠ .stop v ∧ WaveStep W s event s'

/-- `v` goes on sending: from time `n` until its next beacon `w` is never long without one. -/
def Sending (W : Vehicles V K) (s : WaveState V K) (v w : V) (n : Int) : Prop :=
  (s.timers v).stop = false ∧ ∃ m, (s.timers v).event = some m ∧ n ≤ m ∧
    Covers (W.gap v) (Delivered s v w) n m

/-- A vehicle that goes on sending into reach stays so. -/
theorem Sending.step (hW : W.Regular) (h : WaveOk W s) {n : Int} (hsending : Sending W s v w n)
    (hreach : ∀ t, n ≤ t → t ≤ s.now → w ∈ W.reach v t) {event : WaveEvent V}
    (hstep : UnstoppedStep W v s event s') : Sending W s' v w n := by
  obtain ⟨hevent, hstep⟩ := hstep
  obtain ⟨hstop, m, hm, hn, hcovers⟩ := hsending
  have hcovers' : Covers (W.gap v) (Delivered s' v w) n m :=
    hcovers.mono fun f _ hf => hf.step hstep
  -- Only its own events change the timer of `v`
  have hsame : s'.timers v = s.timers v → Sending W s' v w n := by
    intro htimer
    rw [Sending, htimer]
    exact ⟨hstop, m, hm, hn, hcovers'⟩
  cases hstep with
  | tick | receive | purge => exact hsame rfl
  | @start u tDrift txDelay hnew hdrift hdelay =>
    by_cases hu : v = u
    · -- Nothing is scheduled for a vehicle that has not been started
      have hstarted := (h.scheduled hm).1
      rw [hu, hnew] at hstarted
      cases hstarted
    · exact hsame (Function.update_of_ne hu _ _)
  | @stop u =>
    have hu : v ≠ u := fun heq => hevent (by rw [heq])
    exact hsame (Function.update_of_ne hu _ _)
  | @generate u txDelay hnow hdelay =>
    by_cases hu : v = u
    · subst hu
      obtain rfl : s.now = m := Option.some.inj (hnow.symm.trans hm)
      obtain ⟨-, -, hmin, hmax⟩ := h.scheduled hm
      have hdelay : txDelay.toNat ≤ (W.app v).dNs.toNat := hdelay
      have hinterval := hW.delay_le v
      refine ⟨?_, s.now + ((W.app v).waveInterval - (s.timers v).prevTxDelay + txDelay.toNat),
        ?_, by omega, ?_⟩
      · show (Function.update s.timers v _ v).stop = false
        rw [Function.update_self]
        exact hstop
      · show (Function.update s.timers v _ v).event = _
        rw [Function.update_self]
        simp [WaveTimer.generateWaveTraffic, hstop]
      · -- The beacon that is sent now will do until the next one
        refine hcovers'.extend hn ?_ (by unfold Vehicles.gap; omega)
        refine .inl ⟨⟨v, w, s.now, W.packet v s.now⟩, ?_, rfl, rfl, rfl⟩
        exact List.mem_append_right _ (List.mem_map_of_mem (hreach s.now hn (Int.le_refl _)))
    · exact hsame (Function.update_of_ne hu _ _)

/-- A vehicle that is in reach is known, from the arrival of its next beacon on. -/
theorem tells_of_run (hW : W.Regular) (h : WaveOk W s) {n : Int}
    (hstop : (s.timers v).stop = false) (hevent : (s.timers v).event = some n)
    {events : List (WaveEvent V)} (hrun : Run (UnstoppedStep W v) s events s')
    (hreach : ∀ t, n ≤ t → t ≤ s'.now → w ∈ W.reach v t)
    (hexpire : W.gap v + W.latency ≤ (W.app w).waveExpire) (hlate : n + W.latency < s'.now) :
    Tells W s' w v (s'.now - W.gap v - 2 * W.latency) := by
  have hlatency := hW.latency_nonneg
  obtain ⟨h', hsending⟩ : WaveOk W s' ∧
      ((∀ t, n ≤ t → t ≤ s'.now → w ∈ W.reach v t) → Sending W s' v w n) := by
    refine hrun.invariant (I := fun s => WaveOk W s ∧
      ((∀ t, n ≤ t → t ≤ s.now → w ∈ W.reach v t) → Sending W s v w n)) ⟨h, fun _ => ?_⟩ ?_
    · exact ⟨hstop, n, hevent, Int.le_refl n, Covers.nil _ _ _⟩
    · intro s event s' ⟨h, hsending⟩ hstep
      refine ⟨h.step hW hstep.2, fun hreach => ?_⟩
      have hbefore : ∀ t, n ≤ t → t ≤ s.now → w ∈ W.reach v t :=
        fun t hn ht => hreach t hn (Int.le_trans ht hstep.2.now_le)
      exact (hsending hbefore).step hW h hbefore hstep
  obtain ⟨-, m, hm, hn, hcovers⟩ := hsending hreach
  -- A beacon that was sent this long ago has arrived
  have hnow := (h'.scheduled hm).2.1
  obtain ⟨f, hf, hgap, hle, hdelivered⟩ :=
    hcovers (s'.now - W.latency - 1) (by omega) (by omega)
  rcases hdelivered with ⟨b, hb, -, -, hsent⟩ | ⟨x, hx, hsender, hsent⟩
  · have hdue := (h'.air b hb).2.2.2
    omega
  · have harrived := (h'.heard w x hx).2.1
    obtain ⟨t, t', hr, hr', hsince, hquery⟩ := h'.tells hx hsender (by omega)
    exact ⟨t, t', hr, hr', by omega, hquery⟩

/-- The beacons that a stopped vehicle still sends: one, if it is scheduled. -/
def beaconsLeft (s : WaveState V K) (v : V) : Nat :=
  if (s.timers v).event = none ∧ (s.started v).isSome then 0 else 1

/-- After the stop, each beacon is one of those that were left. -/
private theorem stopped_step (h : WaveOk W s) {event : WaveEvent V}
    (hstop : (s.timers v).stop = true) (hstep : WaveStep W s event s') :
    (s'.timers v).stop = true ∧
      (s'.sent v).length + beaconsLeft s' v ≤ (s.sent v).length + beaconsLeft s v := by
  cases hstep with
  -- Steps of the time, of the tables and of the air leave the timer
  | tick | receive | purge => exact ⟨hstop, Nat.le_refl _⟩
  -- A vehicle that was stopped before its start sends one beacon when it is started
  | @start u tDrift txDelay hnew hdrift hdelay =>
    by_cases hu : v = u
    · subst hu
      refine ⟨?_, ?_⟩
      · show (Function.update s.timers v _ v).stop = true
        rw [Function.update_self]
        exact hstop
      · have hleft : beaconsLeft s v = 1 := by simp [beaconsLeft, hnew]
        rw [hleft]
        refine Nat.add_le_add_left ?_ _
        unfold beaconsLeft
        split <;> omega
    · simp only [beaconsLeft, Function.update_of_ne hu]
      exact ⟨hstop, Nat.le_refl _⟩
  | @stop u =>
    by_cases hu : v = u
    · subst hu
      simp only [beaconsLeft, Function.update_self]
      exact ⟨rfl, Nat.le_refl _⟩
    · simp only [beaconsLeft, Function.update_of_ne hu]
      exact ⟨hstop, Nat.le_refl _⟩
  -- The last beacon is sent, and the timer is not armed again
  | @generate u txDelay hnow hdelay =>
    by_cases hu : v = u
    · subst hu
      have hlast : (Function.update s.timers v
          ((s.timers v).generateWaveTraffic (W.app v) s.now txDelay) v).event = none := by
        rw [Function.update_self]
        simp [WaveTimer.generateWaveTraffic, hstop]
      have hleft : beaconsLeft s v = 1 := by simp [beaconsLeft, hnow]
      rw [hleft]
      constructor
      · show (Function.update s.timers v _ v).stop = true
        rw [Function.update_self]
        exact hstop
      · -- This was the last beacon
        unfold beaconsLeft
        rw [if_pos ⟨hlast, (h.scheduled hnow).1⟩]
        show (Function.update s.sent v _ v).length ≤ _
        rw [Function.update_self, List.length_append]
        exact Nat.le_refl _
    · simp only [beaconsLeft, Function.update_of_ne hu]
      exact ⟨hstop, Nat.le_refl _⟩

/-- Beacons are sent on schedule, and at most one by a vehicle that is stopped. Every answer is
    about another vehicle that was heard, with its address and with a position that is not too old,
    and only a beacon from the cell 0 can make the assertion of a query fail. A vehicle that sends
    and stays in reach is known, and one that is not heard any more is forgotten. -/
structure Beaconing (W : Vehicles V K) (s : WaveState V K) : Prop where
  punctual : ∀ v, Punctual W s v
  stops : ∀ v events s', (s.timers v).stop = true → Run (WaveStep W) s events s' →
    (s'.sent v).length ≤ (s.sent v).length + 1
  answer : ∀ w ip, getGeohashFromIpInNb s.now (s.tables w) ip = .ok ⟨0, none⟩ ∨
    ∃ v, v ≠ w ∧ ip = (W.app v).ipOrigin ∧
      Tells W s w v (s.now - (W.app w).waveExpire - W.latency)
  known : ∀ w, ∀ x ∈ s.heard w, s.now ≤ x.1 + (W.app w).waveExpire →
    Tells W s w x.2.sender (x.1 - W.latency)
  asserts : ∀ w, (∀ v t, Reaches W s v w t → W.cell v t ≠ 0) → ∀ ip,
    ∃ reply, getGeohashFromIpInNb s.now (s.tables w) ip = .ok reply
  keeps : ∀ v w n events s', (s.timers v).stop = false → (s.timers v).event = some n →
    Run (UnstoppedStep W v) s events s' → (∀ t, n ≤ t → t ≤ s'.now → w ∈ W.reach v t) →
    W.gap v + W.latency ≤ (W.app w).waveExpire → n + W.latency < s'.now →
    Tells W s' w v (s'.now - W.gap v - 2 * W.latency)
  forgets : ∀ v w,
    (∀ t, Reaches W s v w t → t + W.latency + (W.app w).waveExpire < s.now) → Forgot W s w v

/-- In every run the vehicles are punctual, and the tables tell what was heard. -/
theorem beaconing (hW : W.Regular) {t₀ : Int} {events : List (WaveEvent V)}
    (hrun : Run (WaveStep W) (.initial V K t₀) events s) : Beaconing W s := by
  have h := waveOk_of_run hW hrun
  refine ⟨h.punctual, ?_, h.answer, fun w x hx => h.tells hx rfl, h.asserts, ?_,
    fun v w hold => h.forgot hold⟩
  · intro v events s' hstop hrun'
    -- No more beacons are sent than are left, and there is one at most
    obtain ⟨-, -, hle⟩ : WaveOk W s' ∧ (s'.timers v).stop = true ∧
        (s'.sent v).length + beaconsLeft s' v ≤ (s.sent v).length + beaconsLeft s v := by
      refine hrun'.invariant (I := fun s' => WaveOk W s' ∧ (s'.timers v).stop = true ∧
        (s'.sent v).length + beaconsLeft s' v ≤ (s.sent v).length + beaconsLeft s v)
        ⟨h, hstop, Nat.le_refl _⟩ ?_
      intro s₁ event s₂ ⟨h₁, hstop₁, hle₁⟩ hstep
      obtain ⟨hstop₂, hle₂⟩ := stopped_step h₁ hstop₁ hstep
      exact ⟨h₁.step hW hstep, hstop₂, Nat.le_trans hle₂ hle₁⟩
    have hleft : beaconsLeft s v ≤ 1 := by
      unfold beaconsLeft
      split <;> omega
    omega
  · intro v w n events s' hstop hevent hrun' hreach hexpire hlate
    exact tells_of_run hW h hstop hevent hrun' hreach hexpire hlate

end Wave

/-! ### Two vehicles -/

/-- Two vehicles that stand still and hear each other. Coordinates are degrees, and both of
    theirs are exact as a `float`. -/
def twoVehicles : Vehicles Bool ℚ where
  env := ⟨⟨fun _ => 0, fun u v => (u / radToDeg, v / radToDeg), 0, 0⟩, .network,
    fun q => if q = 40 then 0x42200000 else 0x42E90000,
    fun bits => if bits = 0x42200000 then 40 else 233 / 2⟩
  app v := ⟨if v then 2 else 1, .ofBytes 2 0 0 0 0 (if v then 2 else 1), 250000000, 1000000000,
    10000000, 40⟩
  position _ _ := (233 / 2, 40)
  reach v _ := [!v]
  latency := 1000
  ipOrigin_injective := by decide
  not_mem_reach v _ := by cases v <;> simp

/-- The delays of the two vehicles are regular. -/
private theorem twoVehicles_regular : twoVehicles.Regular where
  delay_le := by decide
  latency_nonneg := by decide

/-- They are in the area. -/
private theorem twoVehicles_cell (v : Bool) (t : Int) : twoVehicles.cell v t ≠ 0 := by
  change sumoCartesian2Geohash twoVehicles.env.sumo (233 / 2) 40 ≠ 0
  decide +kernel

/-- The two stay at one place. -/
private theorem twoVehicles_place (v : Bool) (t : Int) : twoVehicles.place v t = (233 / 2, 40) := by
  have hplace : twoVehicles.place false 0 = (233 / 2, 40) := by decide +kernel
  exact hplace

/-- One of them is started, sends its first beacon a second later, and is heard: the other one
    knows its address and its position. -/
theorem beaconing_two_vehicles : ∃ s, Run (WaveStep twoVehicles) (.initial Bool ℚ 0)
    [.start true 20 7, .tick 1000000027, .generate true 5,
      .receive ⟨true, false, 1000000027, twoVehicles.packet true 1000000027⟩ MbrHeader.hello] s ∧
    (s.heard false).length = 1 ∧ Beaconing twoVehicles s ∧
      ∃ geohash, getGeohashFromIpInNb s.now (s.tables false) 2 =
        .ok ⟨geohash, some (.ofBytes 2 0 0 0 0 2, 233 / 2, 40)⟩ := by
  have hstart : WaveStep twoVehicles (.initial Bool ℚ 0) (.start true 20 7) _ :=
    .start rfl (by decide) (by decide)
  have hrun := Run.nil.snoc hstart
  -- Only the vehicle that was started has something to do
  have hrun := hrun.snoc (.tick (t := 1000000027) (by decide)
    (fun v e he => by cases v <;> cases he; decide) (by simp [WaveState.initial]))
  have hgenerate : ∀ {s : WaveState Bool ℚ}, (s.timers true).event = some s.now →
      WaveStep twoVehicles s (.generate true 5) _ := fun hevent => .generate hevent (by decide)
  have hrun := hrun.snoc (hgenerate rfl)
  have hreceive : ∀ {s : WaveState Bool ℚ} {b nb}, s.inAir = [b] →
      receiveWavePacket twoVehicles.env (twoVehicles.app b.receiver) MbrHeader.hello s.now
        (s.tables b.receiver) b.packet = some nb →
      WaveStep twoVehicles s (.receive b MbrHeader.hello) _ :=
    fun hair hreceive => .receive (show _ = [] ++ _ :: [] from hair) hreceive
  have hrun := hrun.snoc (hreceive rfl (receiveWavePacket_packet true false _ _ _ _))
  refine ⟨_, hrun, rfl, beaconing twoVehicles_regular hrun, ?_⟩
  have hexpire : (1000000027 : Int) ≤ 1000000027 + (twoVehicles.app false).waveExpire := by decide
  have htells := (waveOk_of_run twoVehicles_regular hrun).tells (w := false) (v := true)
    (x := (1000000027, ⟨true, false, 1000000027, twoVehicles.packet true 1000000027⟩))
    (List.mem_singleton_self _) rfl hexpire
  obtain ⟨t, t', -, -, -, hquery⟩ := htells.ok fun t _ => twoVehicles_cell true t
  rw [twoVehicles_place] at hquery
  exact ⟨_, hquery⟩

end MapRelay.NS3
