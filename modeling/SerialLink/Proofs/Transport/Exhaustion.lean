import SerialLink.Proofs.Clock
import SerialLink.Proofs.Transport.Callbacks
import SerialLink.Proofs.Transport.Diary

/-!
# Which message runs out of retries

Every queued message has times of its own, and a sink without room makes them drift apart. On a
clock that never goes back they stay ranked nevertheless: an earlier message was sent more often
than a later one, or as often and last no later. So the first one that runs out of retries is the
oldest.

`Ranked` is the order, and `Passing` the invariant of a pass that keeps it: behind a frame that
waits, one that was sent as often waits too, by `Entry.wait_of_later`, and behind one that is sent
all were sent less often. Both are instances of `timed_sweep` from `Proofs.Transport.Timing`, put
together in `ranked_sweep`. `Diary.Clocked` says which runs are on a true clock, and `Recent` what
that means at a tick: a difference of wrapped times is the true one only within a turn of the clock,
by `toNat_elapsed` from `Proofs.Clock`. What the application hears of a tick comes from
`service_exhaustedAt` and from `Proofs.Transport.Callbacks`.
-/

namespace SerialLink

variable {σ ε : Type}

/-! ## Ranks -/

/-- One message was sent more often than the other, or as often and last no later. Times stand
latest first. -/
def Precedes (times times' : List Nat) : Prop :=
  times'.length < times.length ∨
    times'.length = times.length ∧ ∀ last ∈ times.head?, ∀ last' ∈ times'.head?, last ≤ last'

/-- From place `n` on, the times of each message precede those of the later ones. -/
def Ranked (stamps : List (Stamp Nat)) (n : Nat) : Prop :=
  ∀ i j, n ≤ i → i < j → Precedes (timesOf stamps i) (timesOf stamps j)

namespace Ranked

variable {stamps : List (Stamp Nat)} {n : Nat}

theorem mono (h : Ranked stamps n) {m : Nat} (hm : n ≤ m) : Ranked stamps m :=
  fun i j hi hij => h i j (Nat.le_trans hm hi) hij

/-- `Ranked` after a message was sent at `time` that was sent less often than all before it. -/
theorem sent (h : Ranked stamps n) {p time : Nat} {f : Frame}
    (hpast : ∀ s ∈ stamps, s.time ≤ time)
    (hless : ∀ i, n ≤ i → i < p → (timesOf stamps p).length < (timesOf stamps i).length) :
    Ranked (⟨p, f, time⟩ :: stamps) n := by
  intro i j hi hij
  by_cases hpi : p = i
  · -- It was sent at least as often as the later message before.
    subst hpi
    rw [timesOf_cons_self, timesOf_cons_of_ne (by omega)]
    left
    rw [List.length_cons]
    rcases h p j hi hij with hlt | ⟨heq, -⟩ <;> omega
  · by_cases hpj : p = j
    · -- It catches up with the earlier message at most, and then it was the last one sent.
      subst hpj
      rw [timesOf_cons_self, timesOf_cons_of_ne hpi]
      have hlt := hless i hi hij
      rcases Nat.lt_or_ge (timesOf stamps p).length.succ (timesOf stamps i).length with hlt' | hge
      · exact .inl hlt'
      · refine .inr ⟨?_, ?_⟩
        · rw [List.length_cons]
          omega
        · intro last hlast last' hlast'
          obtain rfl : time = last' := by simpa using hlast'
          obtain ⟨s, hs, rfl⟩ := List.mem_map.mp (List.mem_of_mem_head? hlast)
          exact hpast s (List.mem_filter.mp hs).1
    · rw [timesOf_cons_of_ne hpi, timesOf_cons_of_ne hpj]
      exact h i j hi hij

end Ranked

/-! ## A pass over ranked messages -/

/-- No message was sent later than at `time`, and those from place `n` on were last sent less than
one turn of the wrapping clock before. -/
structure Recent (stamps : List (Stamp Nat)) (n time : Nat) : Prop where
  past : ∀ s ∈ stamps, s.time ≤ time
  last : ∀ k, n ≤ k → ∀ last ∈ (timesOf stamps k).head?, time < last + UInt32.size

/-- The last time of a message is `past`. -/
theorem Recent.time_le {stamps : List (Stamp Nat)} {n time k last : Nat}
    (h : Recent stamps n time) (hlast : last ∈ (timesOf stamps k).head?) : last ≤ time := by
  obtain ⟨s, hs, rfl⟩ := List.mem_map.mp (List.mem_of_mem_head? hlast)
  exact h.past s (List.mem_filter.mp hs).1

/-- `Recent` after a message was sent at the same time. -/
theorem Recent.sent {stamps : List (Stamp Nat)} {n time : Nat} (h : Recent stamps n time) (p : Nat)
    (f : Frame) : Recent (⟨p, f, time⟩ :: stamps) n time where
  past := List.forall_mem_cons.mpr ⟨Nat.le_refl _, h.past⟩
  last := by
    intro k hk last hlast
    by_cases hp : p = k
    · subst hp
      rw [timesOf_cons_self] at hlast
      obtain rfl : time = last := by simpa using hlast
      exact Nat.lt_add_of_pos_right (by decide)
    · rw [timesOf_cons_of_ne hp] at hlast
      exact h.last k hk last hlast

/-- A frame that was last sent no earlier than one that has to wait has to wait, too. -/
theorem Entry.wait_of_later {policy : RetryPolicy} {time : Nat} {e x : Entry}
    {times times' : List Nat} (he : e.Recorded Nat.toUInt32 times)
    (hx : x.Recorded Nat.toUInt32 times') (hlen : times'.length = times.length)
    (hle : ∀ last ∈ times.head?, ∀ last' ∈ times'.head?, last ≤ last')
    (hpast : ∀ last' ∈ times'.head?, last' ≤ time)
    (hrecent : ∀ last ∈ times.head?, time < last + UInt32.size)
    (hact : e.action policy time.toUInt32 = .wait) : x.action policy time.toUInt32 = .wait := by
  have hspec := e.action_spec policy time.toUInt32
  rw [hact] at hspec
  obtain ⟨since, hsince, hwait⟩ := hspec
  obtain ⟨last, earlier, rfl, hlast, -⟩ := he.eq_cons (by simp [isSent, hsince])
  obtain rfl : last.toUInt32 = since := Option.some.inj (hlast.symm.trans hsince)
  cases times' with
  | nil => exact absurd hlen (by simp)
  | cons last' earlier' =>
    have hlast' := hx.lastSent
    have horder := hle last rfl last' rfl
    have hpast' := hpast last' rfl
    have hrecent' := hrecent last rfl
    -- Less time has passed since the later one.
    have hwait' : elapsed time.toUInt32 last'.toUInt32 < policy.timeout := by
      rw [UInt32.lt_iff_toNat_lt, toNat_elapsed (by omega) hrecent'] at hwait
      rw [UInt32.lt_iff_toNat_lt, toNat_elapsed hpast' (by omega)]
      omega
    simp only [List.head?_cons, Option.map_some] at hlast'
    unfold action RetryPolicy.action
    rw [hlast']
    exact if_pos hwait'

/-- A pass at `time` is between the frames `done` and `rest`: those of the rest that are not to wait
were sent less often than those passed. -/
structure Passing (policy : RetryPolicy) (n time : Nat) (done rest : List Entry)
    (stamps : List (Stamp Nat)) : Prop where
  ranked : Ranked stamps n
  recent : Recent stamps n time
  fewer : ∀ i j e, i < done.length → rest[j]? = some e → e.action policy time.toUInt32 ≠ .wait →
    (timesOf stamps (n + done.length + j)).length < (timesOf stamps (n + i)).length

namespace Passing

variable {policy : RetryPolicy} {n time : Nat} {done rest : List Entry} {e : Entry}
  {stamps : List (Stamp Nat)}

theorem place_concat (n j : Nat) (done : List Entry) (e : Entry) :
    n + (done ++ [e]).length + j = n + done.length + (j + 1) := by
  rw [List.length_append, List.length_singleton]
  omega

/-- `Passing` behind a frame that has to wait: a later one that was sent as often has to wait,
too. -/
theorem wait (h : Passing policy n time done (e :: rest) stamps)
    (ht : Timed Nat.toUInt32 policy stamps n (done ++ e :: rest))
    (hact : e.action policy time.toUInt32 = .wait) :
    Passing policy n time (done ++ [e]) rest stamps where
  ranked := h.ranked
  recent := h.recent
  fewer := by
    intro i j x hi hx hne
    rw [List.length_append, List.length_singleton] at hi
    rw [place_concat]
    by_cases hlast : i = done.length
    · subst hlast
      rcases h.ranked (n + done.length) (n + done.length + (j + 1)) (by omega) (by omega) with
        hlt | ⟨heq, hle⟩
      · exact hlt
      · -- Sent as often and not before, the later one is not due either.
        have hx' : (done ++ e :: rest)[done.length + (j + 1)]? = some x := by
          rw [List.getElem?_append_right (Nat.le_add_right ..), Nat.add_sub_cancel_left]
          exact hx
        have hrecorded := ht.recorded _ x hx'
        rw [← Nat.add_assoc] at hrecorded
        have hwait := Entry.wait_of_later ht.recorded_at hrecorded heq hle
          (fun _ hlast => h.recent.time_le hlast) (h.recent.last _ (by omega)) hact
        exact absurd hwait hne
    · exact h.fewer i (j + 1) x (by omega) hx hne

/-- `Passing` behind a frame that is sent: it was sent at least as often before as all behind it. -/
theorem sent (h : Passing policy n time done (e :: rest) stamps)
    (hact : e.action policy time.toUInt32 = .send ∨ e.action policy time.toUInt32 = .resend) :
    Passing policy n time (done ++ [e.markSent time.toUInt32]) rest
      (⟨n + done.length, e.frame, time⟩ :: stamps) := by
  have hdue : e.action policy time.toUInt32 ≠ .wait := by
    rcases hact with hact | hact <;> simp [hact]
  refine ⟨h.ranked.sent h.recent.past ?_, h.recent.sent _ _, ?_⟩
  · intro i hi hlt
    have hfewer := h.fewer (i - n) 0 e (by omega) rfl hdue
    rwa [Nat.add_zero, Nat.add_sub_cancel' hi] at hfewer
  · intro i j x hi hx hne
    rw [List.length_append, List.length_singleton] at hi
    rw [place_concat, timesOf_cons_of_ne (k := n + done.length + (j + 1)) (by omega)]
    -- Once more makes it strictly more often.
    by_cases hlast : i = done.length
    · subst hlast
      rw [timesOf_cons_self, List.length_cons]
      rcases h.ranked (n + done.length) (n + done.length + (j + 1)) (by omega) (by omega) with
        hlt | ⟨heq, -⟩ <;> omega
    · rw [timesOf_cons_of_ne (by omega)]
      exact h.fewer i (j + 1) x (by omega) hx hne

end Passing

/-! ## Ticks -/

namespace Transport

variable [ByteSink σ ε]

/-- A `sweep` that stops at its first frame has done nothing. -/
theorem sweep_exhausted_zero {policy : RetryPolicy} {now : UInt32} {stats : TransportStats}
    {sink : σ} {q : List Entry} (h : (sweep policy now stats sink q).exhausted = some 0) :
    sweep policy now stats sink q = ⟨q, stats, sink, [], some 0⟩ := by
  cases q with
  | nil => simp [sweep] at h
  | cons e rest =>
    obtain ⟨-, hs⟩ | ⟨-, hs⟩ | ⟨n, sink', hs⟩ | ⟨failure, sink', hs⟩ :=
      sweep_cons policy now stats sink e rest
    · simp [hs, Sweep.cons] at h
    · exact hs
    · simp [hs, Sweep.cons] at h
    · simp [hs] at h

/-- Data frames are written by the `sweep` of a tick, and by nothing else. -/
theorem Effect.dataWritten_cases {t t' : Transport} {op : Operation σ} {events : List (Event ε)}
    (he : t.Effect op events t') :
    dataWritten events = [] ∨ ∃ (now : UInt32) (sink : σ) (stats : TransportStats) (sink' : σ),
      op = .service now sink ∧
        dataWritten events = dataWritten (sweep t.policy now stats sink' t.queue).events := by
  cases he with
  | refused | queued | heard | passed | spurious | acked => exact .inl rfl
  | blocked _ hnotice => exact .inl hnotice.dataWritten_eq
  | @swept now sink _ _ _ _ hflush hswept _ hacks =>
    -- Around the pass a tick writes resets and acknowledgements only.
    obtain ⟨stats, sink', rfl⟩ := hswept
    refine .inr ⟨now, sink, stats, sink', rfl, ?_⟩
    simp [dataWritten_append, dataWritten_flush hflush, hacks.dataWritten_eq]
  | @gaveUp now sink _ _ _ _ _ _ _ hflush hswept _ hnotice hacks =>
    obtain ⟨stats, sink', rfl⟩ := hswept
    refine .inr ⟨now, sink, stats, sink', rfl, ?_⟩
    simp [dataWritten_append, dataWritten_flush hflush, dataWritten_abandoned,
      hnotice.dataWritten_eq, hacks.dataWritten_eq]
  | @delivered _ _ _ _ r | @unexpected _ _ _ _ r => cases r <;> exact .inl rfl
  | told | dropped => exact .inl (dataWritten_abandoned _)
  | reset hnotice =>
    left
    rw [dataWritten_append, dataWritten_abandoned, hnotice.dataWritten_eq]
    rfl

/-- The place in the queue of the frame that a tick finds out of retries, if it finds one. -/
def exhaustedAt (t : Transport) (now : UInt32) (sink : σ) : Option Nat :=
  let flushed := t.flushReset sink
  let u := flushed.transport
  if u.resetPending then none else (sweep u.policy now u.stats flushed.sink u.queue).exhausted

theorem Notice.not_data {events : List (Event ε)} {pending : Bool} (h : Notice events pending)
    {f : Frame} {r : Except (SendError ε) Nat} (hf : .attempted f r ∈ events) : ¬ f.isData := by
  cases h with
  | written | due =>
    obtain ⟨rfl, -⟩ := Event.attempted.inj (List.mem_singleton.mp hf)
    simp [Frame.isData, Frame.reset]

theorem Repeat.not_data {expected : UInt8} {events : List (Event ε)} (h : Repeat expected events)
    {f : Frame} {r : Except (SendError ε) Nat} (hf : .attempted f r ∈ events) : ¬ f.isData := by
  cases h with
  | none => exact absurd hf (by simp)
  | sent =>
    obtain ⟨rfl, -⟩ := Event.attempted.inj (List.mem_singleton.mp hf)
    simp [Frame.isData, Frame.ack]

theorem not_data_flush {t : Transport} {flush : List (Event ε)}
    (h : if t.resetPending then Notice flush false else flush = []) {f : Frame}
    {r : Except (SendError ε) Nat} (hf : .attempted f r ∈ flush) : ¬ f.isData := by
  split at h
  · exact h.not_data hf
  · simp [h] at hf

/-- Behind the pass of `serviceQueue`, what it found is given up, and no more data frames are
sent. -/
theorem serviceQueue_spec (t : Transport) (now : UInt32) (sink : σ) :
    let swept := sweep t.policy now t.stats sink t.queue
    failures (t.serviceQueue now sink).events =
        (match swept.exhausted with
        | none => []
        | some k => lost swept.queue (some k)) ∧
      ∀ f r, .attempted f r ∈ (t.serviceQueue now sink).events → f.isData →
        .attempted f r ∈ swept.events := by
  intro swept
  have hquiet : failures swept.events = [] := failures_sweep ..
  unfold serviceQueue
  simp only
  cases hexhausted : swept.exhausted with
  | none => exact ⟨hquiet, fun f r hf _ => hf⟩
  | some k =>
    obtain ⟨notice, pending, hnotice, hevents, -⟩ :=
      giveUp_effect { t with queue := swept.queue, stats := swept.stats } k swept.sink
    dsimp only at hevents ⊢
    rw [hevents]
    -- Behind the events of the pass come the reports and one reset.
    refine ⟨?_, fun f r hf hdata => ?_⟩
    · rw [failures_append, failures_append, hquiet, failures_abandoned, hnotice.failures_eq]
      simp
    · rcases List.mem_append.mp hf with hf | hf
      · exact hf
      · rcases List.mem_append.mp hf with hf | hf
        · simp at hf
        · exact absurd hdata (hnotice.not_data hf)

/-- A tick gives up what its pass finds, the frame at `exhaustedAt`, reports nothing else, and tries
to send no data frames but those of the pass. -/
theorem service_exhaustedAt (t : Transport) (now : UInt32) (sink : σ) :
    (t.exhaustedAt now sink = none ∧ failures (t.service now sink).events = []) ∨
    ∃ (k : Nat) (stats : TransportStats) (sink' : σ), t.exhaustedAt now sink = some k ∧
      let swept := sweep t.policy now stats sink' t.queue
      swept.exhausted = some k ∧
      failures (t.service now sink).events = lost swept.queue (some k) ∧
      ∀ f r, .attempted f r ∈ (t.service now sink).events → f.isData →
        .attempted f r ∈ swept.events := by
  have hflushed := t.flushReset_effect sink
  unfold exhaustedAt service
  simp only
  generalize t.flushReset sink = flushed at hflushed ⊢
  obtain ⟨hpending, hnotice, h⟩ | ⟨hflush, h⟩ := hflushed
  · -- The reset is still owed, and there is no pass.
    have hdue : flushed.transport.resetPending := h.resetPending.trans hpending
    rw [if_pos hdue, if_pos hdue]
    exact .inl ⟨rfl, hnotice.failures_eq⟩
  · -- Behind the reset comes the pass, over the queue as it was before the tick.
    have hsent : ¬ flushed.transport.resetPending := by simp [h.resetPending]
    rw [if_neg hsent, if_neg hsent]
    obtain ⟨hfailures, hdata⟩ := flushed.transport.serviceQueue_spec now flushed.sink
    have hpolicy : flushed.transport.policy = t.policy := h.policy
    have hqueue : flushed.transport.queue = t.queue := h.queue
    rw [hpolicy, hqueue] at hfailures hdata ⊢
    generalize flushed.transport.serviceQueue now flushed.sink = served at hfailures hdata ⊢
    obtain ⟨-, hacks⟩ := served.transport.repeatAck_effect now served.sink
    have hevents : failures (flushed.events ++ served.events ++
        (served.transport.repeatAck now served.sink).events) = failures served.events := by
      rw [failures_append, failures_append, failures_flush hflush, hacks.failures_eq]
      simp
    rw [hevents, hfailures]
    cases hexhausted : (sweep t.policy now flushed.transport.stats flushed.sink
      t.queue).exhausted with
    | none => exact .inl ⟨rfl, rfl⟩
    | some k =>
      refine .inr ⟨k, flushed.transport.stats, flushed.sink, rfl, hexhausted, rfl, ?_⟩
      intro f r hf hisData
      rcases List.mem_append.mp hf with hf | hf
      · rcases List.mem_append.mp hf with hf | hf
        · exact absurd hisData (not_data_flush hflush hf)
        · exact hdata f r hf hisData
      · exact absurd hisData (hacks.not_data hf)

end Transport

namespace History

variable [ByteSink σ ε] {h : History} {stamps : List (Stamp Nat)} {time : Nat}

/-- **A pass over ranked messages leaves them ranked, and no message but the oldest runs out of
retries.** -/
theorem ranked_sweep (ha : h.Accounted) (ht : h.TimedBy Nat.toUInt32 stamps)
    (hranked : Ranked stamps h.departed.length) (hrecent : Recent stamps h.departed.length time)
    (stats : TransportStats) (sink : σ) :
    let swept := Transport.sweep h.transport.policy time.toUInt32 stats sink h.transport.queue
    Ranked (h.enter time swept.events stamps) h.departed.length ∧
      ∀ k, swept.exhausted = some k → k = 0 := by
  intro swept
  obtain ⟨done, rest, -, ⟨ht', hpassing, -⟩, hstop⟩ := timed_sweep ha
    (Passing h.transport.policy h.departed.length time)
    (fun ht hact hpassing => hpassing.wait ht hact)
    (fun _ _ hact hpassing => hpassing.sent hact) stats sink ht ⟨hranked, hrecent, by simp⟩
  refine ⟨hpassing.ranked, fun k hk => ?_⟩
  obtain ⟨rfl, e, others, rfl, hact⟩ := hstop k hk
  -- Behind another one it would have been sent less often than that one, and so less often than
  -- allowed.
  apply Nat.eq_zero_of_not_pos
  intro hpos
  have hfewer := hpassing.fewer 0 0 e hpos rfl (by simp [hact])
  have hmost := (ht'.permits h.departed.length).length_le
  obtain ⟨hall, -⟩ := ht'.recorded_at.exhausted (ht'.permits _) hact
  simp only [Nat.add_zero] at hfewer
  omega

end History

/-! ## Runs on a true clock -/

namespace Diary

variable [ByteSink σ ε]

/-- The operations are told the time of a clock that never goes back, modulo 2³², which is
`UInt32.size`. At every tick each queued message that was sent was last sent less than 2³²
milliseconds before. -/
structure Clocked (c : Config) (steps : List (Nat × Transport.Operation σ)) : Prop where
  ordered : steps.Pairwise fun s s' => s.1 ≤ s'.1
  told : ∀ s ∈ steps, ∀ now ∈ s.2.now?, now = s.1.toUInt32
  recent : ∀ i time now sink, steps[i]? = some (time, .service now sink) →
    let d := run (ε := ε) c (steps.take i)
    ∀ k, d.history.departed.length ≤ k → ∀ last ∈ (timesOf d.sendings k).head?,
      time < last + UInt32.size

variable {c : Config} {steps : List (Nat × Transport.Operation σ)}

/-- **Every operation leaves the queued messages `Ranked`.** -/
theorem ranked_perform {d : Diary Nat} (hd : d.Kept Nat.toUInt32)
    (hranked : Ranked d.sendings d.history.departed.length) {time : Nat}
    {op : Transport.Operation σ}
    (htick : ∀ now sink, op = .service now sink →
      now = time.toUInt32 ∧ Recent d.sendings d.history.departed.length time) :
    Ranked (d.perform (ε := ε) time op).sendings
      (d.perform (ε := ε) time op).history.departed.length := by
  -- That messages leave the queue at its front does no harm.
  have hmore : d.history.departed.length ≤
      (d.perform (ε := ε) time op).history.departed.length := by
    simp only [perform, History.perform, List.length_append]
    omega
  refine Ranked.mono ?_ hmore
  have heffect := d.history.transport.perform_effect (ε := ε) op
  unfold perform
  dsimp only
  obtain hnone | ⟨now, sink, stats, sink', hop, hdata⟩ := heffect.dataWritten_cases
  · rwa [History.enter_of_no_data hnone]
  · obtain ⟨rfl, hrecent⟩ := htick now sink hop
    have hswept := History.ranked_sweep hd.accounted hd.timed hranked hrecent stats sink'
    rw [History.enter, hdata]
    exact hswept.1

/-- Every time among the `sendings` of a diary is the time of an operation. -/
theorem time_of_run (c : Config) (steps : List (Nat × Transport.Operation σ)) :
    ∀ s ∈ (run (ε := ε) c steps).sendings, ∃ x ∈ steps, x.1 = s.time := by
  unfold run
  -- The induction is on the steps to come, with any diary kept before them.
  suffices hfrom : ∀ d : Diary Nat,
      ∀ s ∈ (steps.foldl (fun d x => d.perform (ε := ε) x.1 x.2) d).sendings,
        s ∈ d.sendings ∨ ∃ x ∈ steps, x.1 = s.time by
    intro s hs
    rcases hfrom _ s hs with hs | hs
    · exact absurd hs (by simp)
    · exact hs
  induction steps with
  | nil => exact fun d s hs => .inl hs
  | cons x steps ih =>
    intro d s hs
    rcases ih _ s hs with hs | ⟨y, hy, htime⟩
    · rcases List.mem_append.mp hs with hs | hs
      · obtain ⟨f, -, rfl⟩ := List.mem_map.mp (List.mem_reverse.mp hs)
        exact .inr ⟨x, List.mem_cons_self .., rfl⟩
      · exact .inl hs
    · exact .inr ⟨y, List.mem_cons_of_mem x hy, htime⟩

namespace Clocked

/-- A run that takes less than one turn of the wrapping clock is `Clocked`. -/
theorem of_short (hordered : steps.Pairwise fun s s' => s.1 ≤ s'.1)
    (htold : ∀ s ∈ steps, ∀ now ∈ s.2.now?, now = s.1.toUInt32)
    (hshort : ∀ s ∈ steps, ∀ s' ∈ steps, s.1 < s'.1 + UInt32.size) : Clocked (ε := ε) c steps where
  ordered := hordered
  told := htold
  recent := by
    intro i time now sink hi d k _ last hlast
    obtain ⟨s, hs, rfl⟩ := List.mem_map.mp (List.mem_of_mem_head? hlast)
    obtain ⟨x, hx, htime⟩ := time_of_run c _ s (List.mem_filter.mp hs).1
    rw [← htime]
    exact hshort _ (List.mem_of_getElem? hi) x (List.mem_of_mem_take hx)

/-- The diary of the first steps is `Kept`, with the wrapping clock. -/
theorem kept_take (h : Clocked (ε := ε) c steps) (i : Nat) :
    (run (ε := ε) c (steps.take i)).Kept Nat.toUInt32 := by
  apply kept_run
  intro s hs now sink hop
  exact h.told s (List.mem_of_mem_take hs) now (by rw [hop]; rfl)

/-- At a tick the sending times are past, and the last ones `Recent`. -/
theorem recent_take (h : Clocked (ε := ε) c steps) {i time : Nat} {now : UInt32} {sink : σ}
    (hi : steps[i]? = some (time, .service now sink)) :
    now = time.toUInt32 ∧ Recent (run (ε := ε) c (steps.take i)).sendings
      (run (ε := ε) c (steps.take i)).history.departed.length time := by
  refine ⟨h.told _ (List.mem_of_getElem? hi) now rfl, ?_, h.recent i time now sink hi⟩
  intro s hs
  obtain ⟨x, hx, htime⟩ := time_of_run c _ s hs
  obtain ⟨hlt, hget⟩ := List.getElem?_eq_some_iff.mp hi
  have hordered := h.ordered
  rw [← List.take_append_drop i steps, List.drop_eq_getElem_cons hlt, hget] at hordered
  rw [← htime]
  exact (List.pairwise_append.mp hordered).2.2 x hx _ (List.mem_cons_self ..)

/-- **On a true clock the queued messages are ranked, whatever was done with the transport.** -/
theorem ranked_take (h : Clocked (ε := ε) c steps) (i : Nat) :
    Ranked (run (ε := ε) c (steps.take i)).sendings
      (run (ε := ε) c (steps.take i)).history.departed.length := by
  -- By induction on how far the run has come, since a tick has to know the times before it.
  induction i with
  | zero =>
    intro i j _ _
    exact .inr ⟨rfl, by simp [run, timesOf]⟩
  | succ i ih =>
    rw [List.take_add_one]
    cases hi : steps[i]? with
    | none => simpa using ih
    | some step =>
      obtain ⟨time, op⟩ := step
      have hperform : run (ε := ε) c (steps.take i ++ [(time, op)]) =
          (run (ε := ε) c (steps.take i)).perform (ε := ε) time op := by
        unfold run
        rw [List.foldl_append]
        rfl
      rw [Option.toList_some, hperform]
      apply ranked_perform (h.kept_take i) ih
      intro now sink hop
      exact h.recent_take (hop ▸ hi)

end Clocked

end Diary

/-! ## Who runs out of retries -/

namespace Transport

/-- When the first frame runs out of retries, the others that were sent are `lost` with it. -/
theorem lost_oldest {e : Entry} {rest : List Entry} (h : SentFirst (e :: rest)) (he : e.isSent) :
    lost (e :: rest) (some 0) = e.failure .retriesExhausted ::
      (rest.filter Entry.isSent).map (Entry.failure · .linkReset) := by
  rw [lost_eq h, List.filter_cons_of_pos he, failuresOf_oldest]

variable [ByteSink σ ε]

/-- **Only the oldest message ever runs out of retries.** On a true clock, which may wrap any number
of times in what the transport is told of it, a tick that gives up does so for the first frame of
the queue. It tries to send no data frame, and reports first that frame as out of retries and then
the others that were sent, in the order of the queue. -/
theorem oldest_runs_out {c : Config} {steps : List (Nat × Operation σ)}
    (h : Diary.Clocked (ε := ε) c steps) {i time : Nat} {now : UInt32} {sink : σ}
    (hi : steps[i]? = some (time, .service now sink)) :
    let t := (ofConfig c).run (ε := ε) ((steps.take i).map Prod.snd)
    let events := (t.service now sink).events
    (t.exhaustedAt now sink = none ∧ callbacks events = []) ∨
    (t.exhaustedAt now sink = some 0 ∧
      (∀ f r, .attempted f r ∈ events → ¬ f.isData) ∧
      ∃ e rest, t.queue = e :: rest ∧
        callbacks events = .abandoned (e.failure .retriesExhausted) ::
          (rest.filter Entry.isSent).map fun x => .abandoned (x.failure .linkReset)) := by
  intro t events
  have hkept := h.kept_take i
  have hranked := h.ranked_take i
  obtain ⟨hnow, hrecent⟩ := h.recent_take hi
  have htransport : (Diary.run (ε := ε) c (steps.take i)).history.transport = t := by
    rw [Diary.history_run, History.transport_run]
  generalize Diary.run (ε := ε) c (steps.take i) = d at hkept hranked hrecent htransport
  clear_value t
  subst hnow htransport
  -- No frame arrives at a tick, so the application is called for failures only.
  have hcallbacks : callbacks events = (failures events).map .abandoned := by
    apply callbacks_of_undelivered
    intro f hf
    obtain ⟨-, _, _, hop⟩ := (d.history.transport.service_effect _ sink).of_delivered hf
    cases hop
  obtain ⟨hnone, hquiet⟩ | ⟨k, stats, sink', hsome, hexhausted, hfailures, hdata⟩ :=
    d.history.transport.service_exhaustedAt time.toUInt32 sink
  · refine .inl ⟨hnone, ?_⟩
    rw [hcallbacks, hquiet]
    rfl
  · have hpass := History.ranked_sweep hkept.accounted hkept.timed hranked hrecent stats sink'
    obtain rfl := hpass.2 k hexhausted
    obtain ⟨e, rest, hqueue, he⟩ := isSent_of_exhausted hexhausted
    rw [sweep_exhausted_zero hexhausted] at hqueue hfailures hdata
    refine .inr ⟨hsome, fun f r hf hisData => absurd (hdata f r hf hisData) (by simp), ?_⟩
    refine ⟨e, rest, hqueue, ?_⟩
    have hshape := hkept.accounted.regular.sentFirst
    dsimp only at hqueue
    rw [hcallbacks, hfailures, hqueue, lost_oldest (hqueue ▸ hshape) he]
    simp

/-- Two messages are sent one after the other, for lack of room, and the first one once more. The
wrapping clock starts anew before its last timeout has passed. -/
def stalledRun : List (Nat × Operation (TxQueue 64)) :=
  let roomForOne : TxQueue 64 := ⟨List.replicate 52 0, by decide⟩
  let full : TxQueue 64 := ⟨List.replicate 64 0, by decide⟩
  let start := UInt32.size - 20
  let tick (time : Nat) (sink : TxQueue 64) := (time, .service time.toUInt32 sink)
  [(start, .send ⟨1, [0x11]⟩), (start, .send ⟨2, [0x22]⟩), tick start roomForOne,
    tick (start + 4) .empty, tick (start + 10) .empty, tick (start + 14) full,
    (start + 21, .send ⟨3, [0x33]⟩), tick (start + 21) .empty]

theorem oldest_runs_out_stalledRun :
    let c : Config := { retransmitTimeout := 10, maxRetransmits := 1 }
    let t := (ofConfig c).run ((stalledRun.take 7).map Prod.snd)
    let events := (t.service 1 (TxQueue.empty : TxQueue 64)).events
    Diary.Clocked c stalledRun ∧ stalledRun[7]? = some (UInt32.size + 1, .service 1 .empty) ∧
      t.exhaustedAt 1 (TxQueue.empty : TxQueue 64) = some 0 ∧
      (∀ f r, .attempted f r ∈ events → ¬ f.isData) ∧
      callbacks events = [.abandoned ⟨1, 0, .singleton 0x11, .retriesExhausted⟩,
        .abandoned ⟨2, 1, .singleton 0x22, .linkReset⟩] := by
  intro c t events
  have hclocked : Diary.Clocked c stalledRun :=
    .of_short (by decide +kernel) (by simp [stalledRun, Operation.now?]) (by decide +kernel)
  have hi : stalledRun[7]? = some (UInt32.size + 1, .service 1 .empty) := rfl
  have hfound : t.exhaustedAt 1 (TxQueue.empty : TxQueue 64) = some 0 := by decide +kernel
  have hqueue : t.queue = [⟨1, 0, .singleton 0x11, some 4294967286, 1⟩,
      ⟨2, 1, .singleton 0x22, some 4294967280, 0⟩, ⟨3, 2, .singleton 0x33, none, 0⟩] := by
    decide +kernel
  obtain ⟨hnone, -⟩ | ⟨-, hdata, e, rest, hsplit, hcalls⟩ := oldest_runs_out hclocked hi
  · exact absurd (hnone.symm.trans hfound) (by simp)
  · obtain ⟨rfl, rfl⟩ := List.cons.inj (hqueue.symm.trans hsplit)
    exact ⟨hclocked, hi, hfound, hdata, hcalls⟩

end Transport

end SerialLink
