import MapRelay.ForStd.Lookup
import MapRelay.ForStd.Run
import MapRelay.ForStd.SoftState
import MapRelay.Native.Neighbors

/-!
# What the neighbour table answers

A neighbour table is a soft-state table of the reports in the beacons. `Update` keeps that
up when it makes an entry. When it refreshes one it stores the new position but not the new
geohash and direction, so the table answers with the newest report only as long as the
beacons of a vehicle repeat the geohash and the direction of its entry. A geohash of 0 makes
the query abort.
-/

namespace MapRelay.NS3

open ForStd ForStd.Announcement

variable {K : Type}

/-- What a beacon reports about its sender. -/
structure Report (K : Type) where
  geohash : UInt64
  direction : UInt16
  x : K
  y : K

/-- The part of an entry that comes from the beacons. -/
def Neighbor.report (e : Neighbor K) : Report K := ⟨e.geohash, e.direction, e.x, e.y⟩

def Beacon.report (b : Beacon K) : Report K := ⟨b.geohash, b.direction, b.x, b.y⟩

/-- A beacon heard at time `now`, as an announcement of its sender's report. -/
def Beacon.announcement (now : Int) (b : Beacon K) : Announcement UInt32 (Report K) :=
  ⟨now, b.expire, b.addr, b.report⟩

/-- The neighbour table as a soft-state table. -/
def nbView (K : Type) : EntryView UInt32 (Report K) (Neighbor K) where
  key := Neighbor.ipAddress
  expireTime := Neighbor.expireTime
  value := Neighbor.report

/-- The beacons heard since the table was last cleared, newest first. -/
def heard (events : List (Int × NbEvent K)) : List (Announcement UInt32 (Report K)) :=
  events.foldl (fun h event =>
    match event.2 with
    | .update b => b.announcement event.1 :: h
    | .purge => h
    | .clear => []) []

/-- What a table that has heard the beacons `h` should answer at time `t`: the newest report
    as long as the entry lives, and nothing after that. The query must not run into its
    assertion. -/
def Answers (h : List (Announcement UInt32 (Report K))) (t : Int) (ip : UInt32)
    (reply : Except Fault (NbReply K)) : Prop :=
  if Alive h ip t then
    ∃ r mac, latest h ip = some r ∧ reply = .ok ⟨r.geohash, some (mac, r.x, r.y)⟩
  else reply = .ok ⟨0, none⟩

/-- The invariant of the table. -/
structure Current (h : List (Announcement UInt32 (Report K))) (s : NbState K) : Prop where
  represents : Represents (nbView K) s.nb h s.now
  notClosed : ∀ e ∈ s.nb, e.close = false
  geohash_ne : ∀ e ∈ s.nb, e.geohash ≠ 0

variable {h : List (Announcement UInt32 (Report K))} {s : NbState K} {now t : Int}

/-! ## The operations -/

/-- `Update` finds the first entry for the address, or there is none. -/
theorem refresh_cases (now : Int) (b : Beacon K) (nb : List (Neighbor K)) :
    (refresh now b nb = none ∧ ∀ e ∈ nb, e.ipAddress ≠ b.addr) ∨
      ∃ l₁ e e' l₂, nb = l₁ ++ e :: l₂ ∧ refresh now b nb = some (l₁ ++ e' :: l₂) ∧
        e.ipAddress = b.addr ∧ e'.ipAddress = b.addr ∧ e'.close = e.close ∧
        e'.expireTime = max (b.expire + now) e.expireTime ∧ e'.geohash = e.geohash ∧
        e'.report = ⟨e.geohash, e.direction, b.x, b.y⟩ := by
  -- The loop stops at the first entry with the address of the beacon
  induction nb with
  | nil => exact .inl ⟨rfl, by simp⟩
  | cons i rest ih =>
    by_cases hi : i.ipAddress = b.addr
    · refine .inr ⟨[], i, _, rest, rfl, if_pos hi, hi, ?_⟩
      exact ⟨hi, rfl, rfl, rfl, rfl⟩
    -- Behind an entry with another address
    · rcases ih with ⟨hnone, hall⟩ | ⟨l₁, e, e', l₂, rfl, hsome, hrest⟩
      · refine .inl ⟨by simp [refresh, hi, hnone], fun e he => ?_⟩
        rcases List.mem_cons.mp he with rfl | he
        · exact hi
        · exact hall e he
      · exact .inr ⟨i :: l₁, e, e', l₂, rfl, by simp [refresh, hi, hsome], hrest⟩

/-- A purge keeps the table current. -/
theorem Current.purge (hc : Current h s) : Current h ⟨s.now, purge s.now s.nb⟩ where
  represents := hc.represents.purge _ fun e he hp => by
    have hopen := hc.notClosed e he
    show e.expireTime < s.now
    simpa [hopen] using hp
  notClosed e he := hc.notClosed e (List.mem_filter.mp he).1
  geohash_ne e he := hc.geohash_ne e (List.mem_filter.mp he).1

/-- The clock goes on. -/
theorem Current.mono (hc : Current h s) (ht : s.now ≤ t) : Current h ⟨t, s.nb⟩ :=
  ⟨hc.represents.mono ht, hc.notClosed, hc.geohash_ne⟩

/-- The events after which the table is still current: a beacon has a geohash other than 0,
    which the assertion of the query asks for, and that of a vehicle with an entry repeats the
    geohash and the direction in it. -/
def SameReport (nb : List (Neighbor K)) : NbEvent K → Prop
  | .update b => b.geohash ≠ 0 ∧
      ∀ e ∈ nb, e.ipAddress = b.addr → e.geohash = b.geohash ∧ e.direction = b.direction
  | _ => True

/-- A beacon keeps the table current. -/
theorem Current.update (hc : Current h s) {b : Beacon K} (hb : SameReport s.nb (.update b)) :
    Current (b.announcement s.now :: h) ⟨s.now, update s.now b s.nb⟩ := by
  have hexpiry : (b.announcement s.now).expiry = b.expire + s.now := Int.add_comm _ _
  unfold MapRelay.NS3.update
  rcases refresh_cases s.now b s.nb with ⟨hnone, hnew⟩ | ⟨l₁, e, e', l₂, hnb, hsome, hrest⟩
  · -- A new neighbour: the entry is made of the beacon, and then the table is purged
    rw [hnone]
    have hinsert : Current (b.announcement s.now :: h) ⟨s.now, s.nb ++ [b.neighbor s.now]⟩ := by
      refine ⟨hc.represents.insert (a := b.announcement s.now) hnew rfl hexpiry.symm rfl,
        fun e he => ?_, fun e he => ?_⟩
      · rcases List.mem_append.mp he with he | he
        · exact hc.notClosed e he
        · rw [List.mem_singleton.mp he]
          rfl
      · rcases List.mem_append.mp he with he | he
        · exact hc.geohash_ne e he
        · rw [List.mem_singleton.mp he]
          exact hb.1
    exact hinsert.purge
  · -- A known one: the entry keeps geohash and direction, which are those of the beacon
    obtain ⟨hip, hip', hclose, hexp, hgeo', hreport⟩ := hrest
    have he : e ∈ s.nb := by simp [hnb]
    obtain ⟨hgeo, hdir⟩ := hb.2 e he hip
    have hr := hc.represents
    rw [hnb] at hr
    rw [hsome]
    refine ⟨hr.refresh hip hip' (hexp.trans (by rw [hexpiry]; rfl)) ?_,
      forall_mem_replace (hnb ▸ hc.notClosed) (hclose.trans (hc.notClosed e he)),
      forall_mem_replace (hnb ▸ hc.geohash_ne) (hgeo'.trans_ne (hc.geohash_ne e he))⟩
    show e'.report = b.report
    rw [hreport, hgeo, hdir]
    rfl

/-! ## Runs -/

/-- A step of a run in which the beacons of a vehicle agree with its entry and none has the
    geohash 0. -/
def SameReportStep (s : NbState K) (event : Int × NbEvent K) (s' : NbState K) : Prop :=
  SameReport s.nb event.2 ∧ NbStep s event s'

/-- What has been heard after one event more. -/
private theorem heard_append (events : List (Int × NbEvent K)) (event : Int × NbEvent K) :
    heard (events ++ [event]) =
      match event.2 with
      | .update b => b.announcement event.1 :: heard events
      | .purge => heard events
      | .clear => [] := by
  simp [heard, List.foldl_append]

/-- In every run the table is current. -/
theorem current_of_run {t₀ : Int} {events : List (Int × NbEvent K)}
    (hrun : Run SameReportStep ⟨t₀, []⟩ events s) : Current (heard events) s := by
  have hempty : ∀ t, Current ([] : List (Announcement UInt32 (Report K))) ⟨t, []⟩ := fun t =>
    ⟨Represents.nil _ _, fun e he => (nomatch he), fun e he => nomatch he⟩
  refine hrun.invariant_inputs (I := fun events s => Current (heard events) s) (hempty t₀) ?_
  intro events s event s' hc ⟨hsame, hle, hs'⟩
  obtain ⟨t, event⟩ := event
  -- First the clock goes on, then the event happens
  have hc := hc.mono hle
  rw [heard_append, hs']
  cases event with
  | update b => exact hc.update hsame
  | purge => exact hc.purge
  | clear => exact hempty t

/-- A current table answers as it should. -/
theorem Current.answers (hc : Current h s) (ht : s.now ≤ t) (ip : UInt32) :
    Answers h t ip (getGeohashFromIpInNb t s.nb ip) := by
  have hp := (hc.mono ht).purge
  unfold getGeohashFromIpInNb Answers
  cases hfind : (MapRelay.NS3.purge t s.nb).find? (·.ipAddress == ip) with
  | some e =>
    -- The entry has survived the purge of the query, so that it is alive
    have he := List.mem_of_find?_eq_some hfind
    have hip : e.ipAddress = ip := by simpa using List.find?_some hfind
    have hlive : t ≤ e.expireTime := by
      have hkeep := (List.mem_filter.mp he).2
      simp only [Bool.not_or, Bool.and_eq_true, Bool.not_eq_true', decide_eq_false_iff_not] at hkeep
      omega
    rw [if_pos ((hp.represents.alive_iff (Int.le_refl t)).mpr ⟨e, he, hip, hlive⟩)]
    -- The assertion passes
    simp only [if_neg (hp.geohash_ne e he)]
    exact ⟨e.report, e.hardwareAddress, hip ▸ hp.represents.latest e he, rfl⟩
  | none =>
    have hno : ¬ Alive h ip t := by
      rw [hp.represents.alive_iff (Int.le_refl t)]
      intro ⟨e, he, hip, _⟩
      have hne : e.ipAddress ≠ ip := by simpa using List.find?_eq_none.mp hfind e he
      exact hne hip
    rw [if_neg hno]

/-- The choice depends on the cells and the directions of the entries only. -/
theorem getnodeFromsetBest_congr {E : Type} {geohash geohash' : E → UInt64}
    {direction direction' : E → Int} {entries : List E}
    (hgeo : ∀ e ∈ entries, geohash e = geohash' e)
    (hdir : ∀ e ∈ entries, direction e = direction' e) (set : GeoHashSetCoordinate) :
    getnodeFromsetBest geohash direction entries set =
      getnodeFromsetBest geohash' direction' entries set := by
  -- The loop over the entries gives both the same best one
  have hloop : ∀ (es : List E) dtimeMax dtimeBest best, (∀ e ∈ es, e ∈ entries) →
      bestOfSet (fun e => getDtime (geohash e) (direction e) set) dtimeMax es dtimeBest best =
        bestOfSet (fun e => getDtime (geohash' e) (direction' e) set) dtimeMax es dtimeBest
          best := by
    intro es dtimeMax dtimeBest best hes
    induction es generalizing dtimeBest best with
    | nil => rfl
    | cons e es ih =>
      have he := hes e List.mem_cons_self
      have hrest := fun dtimeBest best =>
        ih dtimeBest best fun e' he' => hes e' (List.mem_cons_of_mem _ he')
      simp only [bestOfSet, hgeo e he, hdir e he, hrest]
  unfold getnodeFromsetBest
  rw [hloop entries _ _ _ fun _ he => he]

/-- `GetnbFromsetBest` chooses by the newest reports. -/
theorem Current.getnbFromsetBest (hc : Current h s) (set : GeoHashSetCoordinate)
    {report : UInt32 → Report K} (hreport : ∀ ip r, latest h ip = some r → report ip = r) :
    getnbFromsetBest t s.nb set =
      (getnodeFromsetBest (fun e => (report e.ipAddress).geohash)
        (fun e => (report e.ipAddress).direction.toNat) (MapRelay.NS3.purge t s.nb) set).map
        Neighbor.hardwareAddress := by
  -- Each entry that has not expired is what its vehicle has reported last
  have hentry : ∀ e ∈ MapRelay.NS3.purge t s.nb, report e.ipAddress = e.report := fun e he =>
    hreport _ _ (hc.represents.latest e (List.mem_filter.mp he).1)
  have hgeo : ∀ e ∈ MapRelay.NS3.purge t s.nb, e.geohash = (report e.ipAddress).geohash :=
    fun e he => congrArg Report.geohash (hentry e he).symm
  have hdir : ∀ e ∈ MapRelay.NS3.purge t s.nb,
      (e.direction.toNat : Int) = (report e.ipAddress).direction.toNat :=
    fun e he => congrArg (fun r : Report K => (r.direction.toNat : Int)) (hentry e he).symm
  unfold MapRelay.NS3.getnbFromsetBest
  rw [getnodeFromsetBest_congr hgeo hdir]

/-- In a run in which the beacons of a vehicle agree with its entry and none has the geohash
    0, the table answers with
    the newest report at any time, and `GetnbFromsetBest` chooses as if each neighbour had
    the cell and the direction of its newest report, which are those of its entry. -/
theorem answers_of_run {t₀ : Int} {events : List (Int × NbEvent K)} {s : NbState K}
    (hrun : Run SameReportStep ⟨t₀, []⟩ events s) {t : Int} (ht : s.now ≤ t) :
    (∀ ip, Answers (heard events) t ip (getGeohashFromIpInNb t s.nb ip)) ∧
      (∀ e ∈ purge t s.nb, ∃ r, latest (heard events) e.ipAddress = some r ∧
        e.geohash = r.geohash ∧ e.direction = r.direction) ∧
      ∀ set (report : UInt32 → Report K),
        (∀ ip r, latest (heard events) ip = some r → report ip = r) →
        getnbFromsetBest t s.nb set =
          (getnodeFromsetBest (fun e => (report e.ipAddress).geohash)
            (fun e => (report e.ipAddress).direction.toNat) (purge t s.nb) set).map
            Neighbor.hardwareAddress := by
  have hc := current_of_run hrun
  refine ⟨hc.answers ht, fun e he => ?_, fun set report => hc.getnbFromsetBest set⟩
  exact ⟨e.report, hc.represents.latest e (List.mem_filter.mp he).1, rfl, rfl⟩

/-- A beacon of the vehicle with address 1, from the cell `geohash` and the position `x`. -/
def beaconOf (geohash : UInt64) (x : Nat) : Beacon Nat where
  addr := 1
  expire := 350
  mac := .ofBytes 2 0 0 0 0 1
  geohash := geohash
  direction := 90
  x := x
  y := 0

/-- Two beacons from one cell: the table has the newer position. -/
theorem answers_same_cell :
    ∃ s, Run SameReportStep ⟨0, []⟩
        [(0, .update (beaconOf 5 10)), (100, .update (beaconOf 5 11))] s ∧
      Answers (heard [(0, .update (beaconOf 5 10)), (100, .update (beaconOf 5 11))]) 200 1
        (getGeohashFromIpInNb 200 s.nb 1) := by
  have hfirst : SameReportStep ⟨0, []⟩ (0, .update (beaconOf 5 10))
      ⟨0, [(beaconOf 5 10).neighbor 0]⟩ :=
    ⟨⟨by decide, fun e he => (nomatch he)⟩, Int.le_refl 0, rfl⟩
  have hsecond : SameReportStep ⟨0, [(beaconOf 5 10).neighbor 0]⟩ (100, .update (beaconOf 5 11))
      ⟨100, update 100 (beaconOf 5 11) [(beaconOf 5 10).neighbor 0]⟩ := by
    refine ⟨⟨by decide, fun e he _ => ?_⟩, by decide, rfl⟩
    rw [List.mem_singleton.mp he]
    exact ⟨rfl, rfl⟩
  have hrun := (Run.nil.snoc hfirst).snoc hsecond
  exact ⟨_, hrun, (answers_of_run hrun (by decide)).1 1⟩

/-- A vehicle that has moved on to another cell between its beacons: the table answers with
    the cell it came from. -/
theorem answers_stale_cell :
    ∃ s, Run NbStep ⟨0, []⟩ [(0, .update (beaconOf 5 10)), (100, .update (beaconOf 6 20))] s ∧
      ¬ Answers (heard [(0, .update (beaconOf 5 10)), (100, .update (beaconOf 6 20))]) 100 1
        (getGeohashFromIpInNb 100 s.nb 1) := by
  refine ⟨_, (Run.nil.snoc ⟨Int.le_refl 0, rfl⟩).snoc ⟨by decide, rfl⟩, fun hanswers => ?_⟩
  rw [Answers, if_pos (by decide)] at hanswers
  obtain ⟨r, mac, hlatest, hreply⟩ := hanswers
  cases hlatest
  -- The entry has the geohash of the first beacon, the newest one is of the second
  have hgeo : (5 : UInt64) = 6 := congrArg NbReply.geohash (Except.ok.inj hreply)
  exact absurd hgeo (by decide)

end MapRelay.NS3
