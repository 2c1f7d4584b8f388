import Mathlib.Algebra.Order.Group.Int
import Mathlib.Data.List.Basic
import Mathlib.Logic.Function.Basic
import MapRelay.ForStd.Run

/-!
# Stations that announce themselves

A station sends a packet to those that it reaches, each time after an interval with a jitter of at
most half of it, and a packet arrives within a latency. So the packets of a station are between
half an interval and three halves apart, and each is on its way or has been heard. What a station
hears it keeps in a table for some time.
-/

namespace ForStd.Announce

variable {V P : Type}

/-- The stations: what they send at a time, which stations that reaches, and within what time. No
    station hears itself. -/
structure Net (V P : Type) where
  packet : V → Int → P
  reach : V → Int → List V
  latency : Int
  interval : Int
  not_mem_reach : ∀ v t, v ∉ reach v t
  latency_nonneg : 0 ≤ latency

/-- A packet on its way to one of the stations that it reaches. -/
structure Transit (V P : Type) where
  sender : V
  receiver : V
  sentAt : Int
  packet : P

/-- What a station sends to another one at a time. -/
def Net.transit (N : Net V P) (u : V) (t : Int) (w : V) : Transit V P := ⟨u, w, t, N.packet u t⟩

/-- The time, when the timers run out, and the packets in the air. When a station has sent, the
    last time first, and what it has heard when, is written down. -/
structure State (V P : Type) where
  now : Int
  timers : V → Option Int
  inAir : List (Transit V P)
  sent : V → List Int
  heard : V → List (Int × Transit V P)

/-- No station has been started. -/
def State.initial (V P : Type) (now : Int) : State V P :=
  ⟨now, fun _ => none, [], fun _ => [], fun _ => []⟩

/-- What happens. -/
inductive Event (V P : Type) where
  | tick (t : Int)
  | start (v : V) (jitter : Int)
  | send (v : V) (jitter : Int)
  | receive (b : Transit V P)

/-- The events in any order. The time does not pass what is scheduled, nor a packet that has to
    have arrived. The first jitter is not negative. -/
inductive Step [DecidableEq V] (N : Net V P) : State V P → Event V P → State V P → Prop where
  | tick {s : State V P} {t : Int} (hnow : s.now ≤ t)
      (htimer : ∀ v e, s.timers v = some e → t ≤ e)
      (hair : ∀ b ∈ s.inAir, t ≤ b.sentAt + N.latency) :
      Step N s (.tick t) { s with now := t }
  | start {s : State V P} {v : V} {jitter : Int} (hnew : s.timers v = none)
      (hjitter : 0 ≤ jitter ∧ 2 * jitter ≤ N.interval) :
      Step N s (.start v jitter) { s with
        timers := Function.update s.timers v (some (s.now + jitter)) }
  | send {s : State V P} {v : V} {jitter : Int} (htimer : s.timers v = some s.now)
      (hjitter : -N.interval ≤ 2 * jitter ∧ 2 * jitter ≤ N.interval) :
      Step N s (.send v jitter) { s with
        timers := Function.update s.timers v (some (s.now + (N.interval + jitter)))
        inAir := s.inAir ++ (N.reach v s.now).map (N.transit v s.now)
        sent := Function.update s.sent v (s.now :: s.sent v) }
  | receive {s : State V P} {before after : List (Transit V P)} {b : Transit V P}
      (hair : s.inAir = before ++ b :: after) :
      Step N s (.receive b) { s with
        inAir := before ++ after
        heard := Function.update s.heard b.receiver ((s.now, b) :: s.heard b.receiver) }

/-! ## What holds in every run -/

variable {N : Net V P} {s s' : State V P}

/-- The packets of a station, the later one first, are between half an interval and three halves
    apart. -/
def Net.Spaced (N : Net V P) (later earlier : Int) : Prop :=
  N.interval ≤ 2 * (later - earlier) ∧ 2 * (later - earlier) ≤ 3 * N.interval

/-- The packet is one that its sender has sent, to a station that it reaches. -/
structure Net.WasSent (N : Net V P) (sent : V → List Int) (b : Transit V P) : Prop where
  transit_eq : N.transit b.sender b.sentAt b.receiver = b
  reached : b.receiver ∈ N.reach b.sender b.sentAt
  mem_sent : b.sentAt ∈ sent b.sender

/-- A packet that was sent stays so when more are. -/
theorem Net.WasSent.mono {sent sent' : V → List Int} {b : Transit V P} (h : N.WasSent sent b)
    (hsub : ∀ u, sent u ⊆ sent' u) : N.WasSent sent' b :=
  ⟨h.transit_eq, h.reached, hsub _ h.mem_sent⟩

/-- A packet is what its sender sent at its time. -/
theorem Net.WasSent.packet_eq {sent : V → List Int} {b : Transit V P} (h : N.WasSent sent b) :
    b.packet = N.packet b.sender b.sentAt :=
  congrArg Transit.packet h.transit_eq.symm

/-- No packet goes to its sender. -/
theorem Net.WasSent.sender_ne {sent : V → List Int} {b : Transit V P} (h : N.WasSent sent b) :
    b.sender ≠ b.receiver := by
  intro heq
  apply N.not_mem_reach b.sender b.sentAt
  have hreached := h.reached
  rwa [← heq] at hreached

/-- Packets are sent on schedule, and each is in the air or has been heard. -/
structure Ok (N : Net V P) (s : State V P) : Prop where
  timer : ∀ v e, s.timers v = some e → s.now ≤ e
  scheduled : ∀ v l rest, s.sent v = l :: rest → ∃ e, s.timers v = some e ∧ N.Spaced e l
  spaced : ∀ v, (s.sent v).IsChain N.Spaced
  transit : ∀ b ∈ s.inAir, N.WasSent s.sent b ∧ b.sentAt ≤ s.now ∧ s.now ≤ b.sentAt + N.latency
  arrives : ∀ u t w, t ∈ s.sent u → w ∈ N.reach u t →
    N.transit u t w ∈ s.inAir ∨ ∃ r, (r, N.transit u t w) ∈ s.heard w
  heard : ∀ v r b, (r, b) ∈ s.heard v → b.receiver = v ∧ N.WasSent s.sent b ∧ b.sentAt ≤ r ∧
    r ≤ b.sentAt + N.latency ∧ r ≤ s.now

/-- Before anything is sent the invariant holds. -/
theorem ok_initial (N : Net V P) (now : Int) : Ok N (.initial V P now) where
  timer _ _ h := nomatch h
  scheduled _ _ _ h := nomatch h
  spaced _ := .nil
  transit _ h := nomatch h
  arrives _ _ _ h := nomatch h
  heard _ _ _ h := nomatch h

/-- A station that has sent is not silent for longer than three halves of an interval. -/
theorem Ok.silent (h : Ok N s) {v : V} {l : Int} {rest : List Int} (hl : s.sent v = l :: rest) :
    2 * (s.now - l) ≤ 3 * N.interval := by
  obtain ⟨e, he, hspaced⟩ := h.scheduled v l rest hl
  have hnow := h.timer v e he
  have hlate := hspaced.2
  omega

/-- Of what was sent more than the latency ago, the last one was sent within three halves of an
    interval and the latency. -/
theorem Net.exists_recent {N : Net V P} {now l : Int} {rest : List Int}
    (hchain : (l :: rest).IsChain N.Spaced)
    (hl : 2 * (now - l) ≤ 3 * N.interval + 2 * N.latency)
    (hlate : ∃ t ∈ l :: rest, t + N.latency < now) :
    ∃ t ∈ l :: rest, t + N.latency < now ∧
      2 * (now - t) ≤ 3 * N.interval + 2 * N.latency := by
  -- The list is newest first, the induction goes back in time
  induction rest generalizing l with
  | nil =>
    obtain ⟨t, ht, hlate⟩ := hlate
    rw [List.mem_singleton.mp ht] at hlate
    exact ⟨l, List.mem_cons_self, hlate, hl⟩
  | cons l' rest ih =>
    by_cases hnow : l + N.latency < now
    · exact ⟨l, List.mem_cons_self, hnow, hl⟩
    · -- The last one is still on its way
      obtain ⟨hspaced, hrest⟩ := List.isChain_cons_cons.mp hchain
      obtain ⟨t, ht, hlate⟩ := hlate
      have ht' : t ∈ l' :: rest := by
        rcases List.mem_cons.mp ht with rfl | ht
        · exact absurd hlate hnow
        · exact ht
      have hl' := hspaced.2
      obtain ⟨t, ht, hrecent⟩ := ih hrest (by omega) ⟨t, ht', hlate⟩
      exact ⟨t, List.mem_cons_of_mem _ ht, hrecent⟩

/-- A station that has sent long enough ago has also sent lately. -/
theorem Ok.exists_recent (h : Ok N s) {v : V}
    (hlate : ∃ t ∈ s.sent v, t + N.latency < s.now) :
    ∃ t ∈ s.sent v, t + N.latency < s.now ∧
      2 * (s.now - t) ≤ 3 * N.interval + 2 * N.latency := by
  have hchain := h.spaced v
  -- Something was sent, so that there is a last one
  cases hsent : s.sent v with
  | nil =>
    obtain ⟨t, ht, -⟩ := hlate
    rw [hsent] at ht
    cases ht
  | cons l rest =>
    rw [hsent] at hchain hlate
    have hsilent := h.silent hsent
    have hlatency := N.latency_nonneg
    exact Net.exists_recent hchain (by omega) hlate

/-- What was sent has been heard once the latency is over. -/
theorem Ok.heard_of_late (h : Ok N s) {u v : V} {t : Int} (ht : t ∈ s.sent u)
    (hv : v ∈ N.reach u t) (hlate : t + N.latency < s.now) :
    ∃ r, t ≤ r ∧ (r, N.transit u t v) ∈ s.heard v := by
  rcases h.arrives u t v ht hv with hin | ⟨r, hr⟩
  · have hair : s.now ≤ t + N.latency := (h.transit _ hin).2.2
    omega
  · exact ⟨r, (h.heard v r _ hr).2.2.1, hr⟩

/-! ## The steps -/

/-- The time can go on as far as nothing is due. -/
theorem Ok.tick (h : Ok N s) {t : Int} (hnow : s.now ≤ t)
    (htimer : ∀ v e, s.timers v = some e → t ≤ e)
    (hair : ∀ b ∈ s.inAir, t ≤ b.sentAt + N.latency) : Ok N { s with now := t } where
  timer := htimer
  scheduled := h.scheduled
  spaced := h.spaced
  transit b hb := by
    obtain ⟨hsent, hle, -⟩ := h.transit b hb
    exact ⟨hsent, hle.trans hnow, hair b hb⟩
  arrives := h.arrives
  heard v r b hb := by
    obtain ⟨hv, hsent, hle, hle', hr⟩ := h.heard v r b hb
    exact ⟨hv, hsent, hle, hle', hr.trans hnow⟩

variable [DecidableEq V]

/-- What has been written down stays. -/
theorem subset_update_cons {α : Type} (f : V → List α) (v : V) (x : α) (w : V) :
    f w ⊆ Function.update f v (x :: f v) w := by
  by_cases hw : w = v
  · rw [hw, Function.update_self]
    exact List.subset_cons_self _ _
  · rw [Function.update_of_ne hw]
    exact List.Subset.refl _

/-- An entry that is put in front is there. -/
theorem mem_update_cons {α : Type} (f : V → List α) (v : V) (x : α) :
    x ∈ Function.update f v (x :: f v) v := by
  rw [Function.update_self]
  exact List.mem_cons_self

/-- A station that is started will send for the first time. -/
theorem Ok.start (h : Ok N s) {v : V} {jitter : Int} (hnew : s.timers v = none)
    (hjitter : 0 ≤ jitter) :
    Ok N { s with timers := Function.update s.timers v (some (s.now + jitter)) } where
  timer w e he := by
    by_cases hw : w = v
    · subst hw
      simp only [Function.update_self, Option.some.injEq] at he
      show s.now ≤ e
      omega
    · simp only [Function.update_of_ne hw] at he
      exact h.timer w e he
  scheduled w l rest hl := by
    obtain ⟨e, he, hspaced⟩ := h.scheduled w l rest hl
    -- A station that has sent has its timer running
    have hw : w ≠ v := by
      rintro rfl
      rw [hnew] at he
      cases he
    exact ⟨e, (Function.update_of_ne hw _ _).trans he, hspaced⟩
  spaced := h.spaced
  transit := h.transit
  arrives := h.arrives
  heard := h.heard

/-- A station that sends will send again, within the bounds on the gap. -/
theorem Ok.send (h : Ok N s) {v : V} {jitter : Int} (htimer : s.timers v = some s.now)
    (hjitter : -N.interval ≤ 2 * jitter ∧ 2 * jitter ≤ N.interval) :
    Ok N { s with
      timers := Function.update s.timers v (some (s.now + (N.interval + jitter)))
      inAir := s.inAir ++ (N.reach v s.now).map (N.transit v s.now)
      sent := Function.update s.sent v (s.now :: s.sent v) } := by
  have hsub := subset_update_cons s.sent v s.now
  constructor
  · intro w e he
    by_cases hw : w = v
    · subst hw
      simp only [Function.update_self, Option.some.injEq] at he
      show s.now ≤ e
      omega
    · simp only [Function.update_of_ne hw] at he
      exact h.timer w e he
  · intro w l rest hl
    by_cases hw : w = v
    · subst hw
      simp only [Function.update_self, List.cons.injEq] at hl
      refine ⟨_, Function.update_self _ _ _, ?_⟩
      rw [← hl.1, Net.Spaced]
      omega
    · simp only [Function.update_of_ne hw] at hl ⊢
      exact h.scheduled w l rest hl
  · intro w
    by_cases hw : w = v
    · subst hw
      simp only [Function.update_self]
      cases hsent : s.sent w with
      | nil => exact .singleton _
      | cons l rest =>
        -- The timer has run out that was scheduled at the last packet
        obtain ⟨e, he, hspaced⟩ := h.scheduled w l rest hsent
        cases htimer.symm.trans he
        exact .cons_cons hspaced (hsent ▸ h.spaced w)
    · simp only [Function.update_of_ne hw]
      exact h.spaced w
  · intro b hb
    rcases List.mem_append.mp hb with hb | hb
    · obtain ⟨hsent, hle, hle'⟩ := h.transit b hb
      exact ⟨hsent.mono hsub, hle, hle'⟩
    · obtain ⟨w, hw, rfl⟩ := List.mem_map.mp hb
      exact ⟨⟨rfl, hw, mem_update_cons s.sent v s.now⟩, le_refl s.now,
        le_add_of_nonneg_right N.latency_nonneg⟩
  · intro u t w ht hw
    have hold : t ∈ s.sent u →
        N.transit u t w ∈ s.inAir ++ (N.reach v s.now).map (N.transit v s.now) ∨
          ∃ r, (r, N.transit u t w) ∈ s.heard w := fun ht =>
      (h.arrives u t w ht hw).imp_left (List.mem_append_left _)
    by_cases hu : u = v
    · subst hu
      simp only [Function.update_self, List.mem_cons] at ht
      rcases ht with rfl | ht
      · exact .inl (List.mem_append_right _ (List.mem_map_of_mem hw))
      · exact hold ht
    · simp only [Function.update_of_ne hu] at ht
      exact hold ht
  · intro w r b hb
    obtain ⟨hv, hsent, hrest⟩ := h.heard w r b hb
    exact ⟨hv, hsent.mono hsub, hrest⟩

/-- A packet that arrives is written down as heard. -/
theorem Ok.receive (h : Ok N s) {before after : List (Transit V P)} {b : Transit V P}
    (hair : s.inAir = before ++ b :: after) :
    Ok N { s with
      inAir := before ++ after
      heard := Function.update s.heard b.receiver ((s.now, b) :: s.heard b.receiver) } := by
  have hsub := subset_update_cons s.heard b.receiver (s.now, b)
  -- All packets but the one that is received are still in the air
  have hsplit : ∀ b', b' ∈ s.inAir ↔ b' = b ∨ b' ∈ before ++ after := by
    intro b'
    rw [hair]
    simp only [List.mem_append, List.mem_cons]
    tauto
  constructor
  · exact h.timer
  · exact h.scheduled
  · exact h.spaced
  -- What is in the air was so before
  · intro b' hb'
    exact h.transit b' ((hsplit b').mpr (.inr hb'))
  -- A packet that has been sent is in the air or has been heard
  · intro u t w ht hw
    rcases h.arrives u t w ht hw with hin | ⟨r, hr⟩
    · rcases (hsplit _).mp hin with heq | hin
      · -- The packet that is received now
        have hreceiver : w = b.receiver := congrArg Transit.receiver heq
        refine .inr ⟨s.now, ?_⟩
        rw [heq, hreceiver]
        exact mem_update_cons s.heard b.receiver (s.now, b)
      · exact .inl hin
    · exact .inr ⟨r, hsub w hr⟩
  -- The receiver has heard one more
  · intro v r b' hb'
    by_cases hv : v = b.receiver
    · rw [hv] at hb' ⊢
      simp only [Function.update_self, List.mem_cons, Prod.mk.injEq] at hb'
      rcases hb' with ⟨rfl, rfl⟩ | hb'
      · obtain ⟨hsent, hle, hle'⟩ := h.transit b' ((hsplit b').mpr (.inl rfl))
        exact ⟨rfl, hsent, hle, hle', le_refl s.now⟩
      · exact h.heard _ r b' hb'
    · simp only [Function.update_of_ne hv] at hb'
      exact h.heard v r b' hb'

/-- No step goes back in time. -/
theorem Step.now_le {event : Event V P} (hstep : Step N s event s') : s.now ≤ s'.now := by
  cases hstep with
  | tick hnow => exact hnow
  | start => exact le_refl s.now
  | send => exact le_refl s.now
  | receive => exact le_refl s.now

/-- What an arrival does to the state. -/
theorem Step.receive_eq {b : Transit V P} (hstep : Step N s (.receive b) s') :
    b ∈ s.inAir ∧ s'.now = s.now ∧
      s'.heard = Function.update s.heard b.receiver ((s.now, b) :: s.heard b.receiver) := by
  cases hstep with
  | receive hair => exact ⟨by simp [hair], rfl, rfl⟩

/-- Every step keeps the invariant. -/
theorem Ok.step (h : Ok N s) {event : Event V P} (hstep : Step N s event s') : Ok N s' := by
  cases hstep with
  | tick hnow htimer hair => exact h.tick hnow htimer hair
  | start hnew hjitter => exact h.start hnew hjitter.1
  | send htimer hjitter => exact h.send htimer hjitter
  | receive hair => exact h.receive hair

/-! ## Keeping what was heard

A station keeps a table of what it hears, with an entry for each address at most, and forgets an
entry when it does not count any more. -/

/-- Such tables: the entries of a table, whom an entry is about and when that was heard, which
    entries are right about a packet, and at what time that counts which was heard at another. -/
structure Book (V P T E A : Type) where
  entries : T → List E
  about : E → A
  time : E → Int
  address : V → A
  Tells : Transit V P → E → Prop
  Counts : Int → Int → Prop
  about_eq : ∀ b e, Tells b e → about e = address b.sender
  counts_mono : ∀ now now' r r', now ≤ now' → r ≤ r' → Counts now' r → Counts now r'

/-- What counts for less than `life`, for `counts_mono` of a book. -/
theorem counts_mono_lt (life now now' r r' : Int) (hnow : now ≤ now') (hr : r ≤ r')
    (h : now' < life + r) : now < life + r' := by
  omega

/-- What counts for `life` and not longer. -/
theorem counts_mono_le (life now now' r r' : Int) (hnow : now ≤ now') (hr : r ≤ r')
    (h : now' ≤ life + r) : now ≤ life + r' := by
  omega

/-- Each of two stations can reach the other one. -/
theorem not_mem_other (v : Bool) (_ : Int) : v ∉ [!v] := by
  revert v
  decide

namespace Book

variable {T E A : Type} {B : Book V P T E A} {tables : V → T}

/-- Each entry is from a packet that was heard at its time, and for each that was heard and
    counts there is one. -/
structure Ok (B : Book V P T E A) (N : Net V P) (s : State V P) (tables : V → T) : Prop where
  net : Announce.Ok N s
  entry : ∀ v, ∀ e ∈ B.entries (tables v), ∃ b, (B.time e, b) ∈ s.heard v ∧ B.Tells b e
  kept : ∀ v r b, (r, b) ∈ s.heard v → B.Counts s.now r →
    ∃ e ∈ B.entries (tables v), B.about e = B.address b.sender ∧ r ≤ B.time e

/-- The tables are right, and all of them are in a mode in which a station keeps its own. -/
structure Held (B : Book V P T E A) (N : Net V P) (s : State V P) (tables : V → T)
    (Own : T → Prop) : Prop where
  book : B.Ok N s tables
  own : ∀ v, Own (tables v)

/-- A new entry in a table. It may take the place of those with the same address, and of those
    that do not count any more. -/
structure Enters (B : Book V P T E A) (now : Int) (t : T) (new : E) (t' : T) : Prop where
  mem_new : new ∈ B.entries t'
  mem_old : ∀ e ∈ B.entries t', e ∈ B.entries t ∨ e = new
  mem_rest : ∀ e ∈ B.entries t, B.about e ≠ B.about new → B.Counts now (B.time e) →
    e ∈ B.entries t'

omit [DecidableEq V] in
/-- At the start the tables are empty. -/
theorem ok_initial (now : Int) (htables : ∀ v, B.entries (tables v) = []) :
    B.Ok N (.initial V P now) tables where
  net := Announce.ok_initial N now
  entry v e he := by
    rw [htables] at he
    cases he
  kept _ _ _ h := nomatch h

omit [DecidableEq V] in
/-- Each entry tells of a packet that was sent, and was entered in time. -/
theorem Ok.entry_sent (h : B.Ok N s tables) {v : V} {e : E} (he : e ∈ B.entries (tables v)) :
    ∃ b, B.Tells b e ∧ b.receiver = v ∧ N.WasSent s.sent b ∧ b.sentAt ≤ B.time e ∧
      B.time e ≤ b.sentAt + N.latency ∧ B.time e ≤ s.now := by
  obtain ⟨b, hb, htells⟩ := h.entry v e he
  exact ⟨b, htells, h.net.heard v _ b hb⟩

omit [DecidableEq V] in
/-- What was heard is known as long as it counts. -/
theorem Ok.known_heard (h : B.Ok N s tables) {v : V} {r : Int} {b : Transit V P}
    (hb : (r, b) ∈ s.heard v) (hcounts : B.Counts s.now r) :
    ∃ e ∈ B.entries (tables v), B.about e = B.address b.sender ∧ r ≤ B.time e ∧
      B.Counts s.now (B.time e) := by
  obtain ⟨e, he, hid, hr⟩ := h.kept v r b hb hcounts
  exact ⟨e, he, hid, hr, B.counts_mono _ _ _ _ (le_refl s.now) hr hcounts⟩

omit [DecidableEq V] in
/-- What was sent is known once the latency is over, as long as it counts. -/
theorem Ok.known (h : B.Ok N s tables) {u v : V} {t : Int} (ht : t ∈ s.sent u)
    (hv : v ∈ N.reach u t) (hlate : t + N.latency < s.now) (hcounts : B.Counts s.now t) :
    ∃ e ∈ B.entries (tables v), B.about e = B.address u ∧ t ≤ B.time e ∧
      B.Counts s.now (B.time e) := by
  obtain ⟨r, hle, hr⟩ := h.net.heard_of_late ht hv hlate
  obtain ⟨e, he, hid, htime, hlive⟩ :=
    h.known_heard hr (B.counts_mono _ _ _ _ (le_refl s.now) hle hcounts)
  exact ⟨e, he, hid, hle.trans htime, hlive⟩

/-- Where nothing is heard, the tables stay right. -/
theorem Ok.of_net (h : B.Ok N s tables) {event : Event V P} (hstep : Step N s event s')
    (hheard : s'.heard = s.heard) : B.Ok N s' tables where
  net := h.net.step hstep
  entry v e he := by
    rw [hheard]
    exact h.entry v e he
  kept v r b hb hcounts := by
    rw [hheard] at hb
    exact h.kept v r b hb (B.counts_mono _ _ _ _ hstep.now_le (le_refl r) hcounts)

/-- A packet that arrives is entered under its sender. -/
theorem Ok.receive (h : B.Ok N s tables) {b : Transit V P} {new : E} {t : T}
    (hstep : Step N s (.receive b) s') (htells : B.Tells b new) (htime : B.time new = s.now)
    (henters : B.Enters s.now (tables b.receiver) new t) :
    B.Ok N s' (Function.update tables b.receiver t) := by
  obtain ⟨-, hnow, hheard⟩ := hstep.receive_eq
  have hsub := subset_update_cons s.heard b.receiver (s.now, b)
  constructor
  · exact h.net.step hstep
  · intro v e he
    rw [hheard]
    by_cases hv : v = b.receiver
    · rw [hv] at he ⊢
      rw [Function.update_self] at he
      rcases henters.mem_old e he with he | rfl
      · obtain ⟨b', hb', htells'⟩ := h.entry _ e he
        exact ⟨b', hsub _ hb', htells'⟩
      · refine ⟨b, ?_, htells⟩
        rw [htime]
        exact mem_update_cons s.heard b.receiver (s.now, b)
    · rw [Function.update_of_ne hv] at he ⊢
      exact h.entry v e he
  · intro v r b' hb' hcounts
    rw [hheard] at hb'
    rw [hnow] at hcounts
    by_cases hv : v = b.receiver
    · rw [hv] at hb' ⊢
      simp only [Function.update_self, List.mem_cons, Prod.mk.injEq] at hb' ⊢
      -- The new entry is also newer than what was heard of the same sender before
      by_cases hsame : B.address b'.sender = B.address b.sender
      · refine ⟨new, henters.mem_new, (B.about_eq b new htells).trans hsame.symm, ?_⟩
        rw [htime]
        rcases hb' with ⟨rfl, -⟩ | hb'
        · exact le_refl s.now
        · exact (h.net.heard _ r b' hb').2.2.2.2
      · rcases hb' with ⟨-, rfl⟩ | hb'
        · exact absurd rfl hsame
        · obtain ⟨e, he, hid, hr⟩ := h.kept _ r b' hb' hcounts
          have hne : B.about e ≠ B.about new := by
            rw [hid, B.about_eq b new htells]
            exact hsame
          exact ⟨e, henters.mem_rest e he hne
            (B.counts_mono _ _ _ _ (le_refl s.now) hr hcounts), hid, hr⟩
    · rw [Function.update_of_ne hv] at hb' ⊢
      exact h.kept v r b' hb' hcounts

/-- Entries that do not count any more may be dropped. -/
theorem Ok.purge (h : B.Ok N s tables) {v : V} {t : T}
    (ht : ∀ e, e ∈ B.entries t ↔ e ∈ B.entries (tables v) ∧ B.Counts s.now (B.time e)) :
    B.Ok N s (Function.update tables v t) := by
  constructor
  · exact h.net
  -- The entries that are left were there before
  · intro w e he
    by_cases hw : w = v
    · rw [hw, Function.update_self] at he
      rw [hw]
      exact h.entry v e ((ht e).mp he).1
    · rw [Function.update_of_ne hw] at he
      exact h.entry w e he
  -- What still counts is not dropped
  · intro w r b hb hcounts
    obtain ⟨e, he, hid, hr⟩ := h.kept w r b hb hcounts
    by_cases hw : w = v
    · rw [hw] at he ⊢
      rw [Function.update_self]
      exact ⟨e, (ht e).mpr ⟨he, B.counts_mono _ _ _ _ (le_refl s.now) hr hcounts⟩, hid, hr⟩
    · rw [Function.update_of_ne hw]
      exact ⟨e, he, hid, hr⟩

variable {Own : T → Prop}

/-- Steps that hear nothing leave the books as they are. -/
theorem Held.of_net (h : B.Held N s tables Own) {event : Event V P} (hstep : Step N s event s')
    (hheard : s'.heard = s.heard) : B.Held N s' tables Own :=
  ⟨h.book.of_net hstep hheard, h.own⟩

/-- A change of the table of one station that keeps it in its mode. -/
theorem Held.update (h : B.Held N s tables Own) {v : V} {t : T}
    (hbook : B.Ok N s' (Function.update tables v t)) (ht : Own t) :
    B.Held N s' (Function.update tables v t) Own :=
  ⟨hbook, (Function.forall_update_iff tables fun _ t => Own t).mpr ⟨ht, fun w _ => h.own w⟩⟩

end Book

end ForStd.Announce
