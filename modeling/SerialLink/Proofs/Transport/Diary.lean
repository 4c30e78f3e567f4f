import SerialLink.Proofs.Transport.Timing

/-!
# The retry budget

A diary keeps the history of a transport and, for each message, the times at which it was written
and at which it ran out of retries. Whatever was done with a transport, no message is sent too often
or too soon, and none is given up for its retries before it had all of them.

A `Diary` is a `History` with two lists of stamps. `History.Adds` is what one operation adds to
them, and `History.adds_effect` shows it by the cases of `Effect`: most write no data frame
(`adds_of_quiet`, `adds_of_stay`), a tick may end in a give-up or not (`adds_gaveUp`, `adds_swept`).
`Diary.Kept` is the invariant of a run, with `Timed` from `Proofs.Transport.Timing` for the queue
and `Spent` for the messages that have left it. The times may be of any type;
`Proofs.Transport.Exhaustion` takes a true clock for them, and `timed` the time that each operation
is told.
-/

namespace SerialLink

variable {σ ε τ : Type}

namespace History

open Transport

/-! ## What an operation adds -/

section step

variable {h : History} {clock : τ → UInt32} {time : τ} {op : Operation σ}
  {events : List (Event ε)} {stamps : List (Stamp τ)} {t : Transport}

/-- The stamps are `Timed` with the queue of the history. -/
def TimedBy (h : History) (clock : τ → UInt32) (stamps : List (Stamp τ)) : Prop :=
  Timed clock h.transport.policy stamps h.departed.length h.transport.queue

/-- The stamps are `Timed` with the queue of the next transport, whose front may have left. -/
def TimedAfter (h : History) (clock : τ → UInt32) (stamps : List (Stamp τ)) (t : Transport) :
    Prop :=
  Timed clock h.transport.policy stamps (h.departed.length + (h.left t).length) t.queue

/-- More stamps, of messages that have not left the queue before. -/
structure Grown (h : History) (stamps stamps' : List (Stamp τ)) : Prop where
  carried : ∀ s ∈ stamps', s ∈ stamps ∨ Carried h.accepted s
  kept : ∀ k, k < h.departed.length → timesOf stamps' k = timesOf stamps k

theorem grown_refl (h : History) (stamps : List (Stamp τ)) : h.Grown stamps stamps :=
  ⟨fun _ hs => .inl hs, fun _ _ => rfl⟩

/-- A stamp for a queued message lets the stamps have `Grown`. -/
theorem Grown.sent {stamps' : List (Stamp τ)} (hg : h.Grown stamps stamps') (ha : h.Accounted)
    {done rest : List Entry} {e : Entry}
    (hframes : (done ++ e :: rest).map Entry.frame = h.transport.queue.map Entry.frame) :
    h.Grown stamps (⟨h.departed.length + done.length, e.frame, time⟩ :: stamps') where
  carried := List.forall_mem_cons.mpr ⟨.inr ⟨_, message_eq ha hframes, rfl, rfl⟩, hg.carried⟩
  kept := by
    intro k hk
    rw [timesOf_cons_of_ne (by omega)]
    exact hg.kept k hk

/-- What an operation adds to the stamps, and what they tell of the queue afterwards. -/
structure Adds (h : History) (clock : τ → UInt32) (time : τ) (stamps : List (Stamp τ))
    (events : List (Event ε)) (t : Transport) : Prop where
  grown : h.Grown stamps (h.enter time events stamps)
  timed : h.TimedAfter clock (h.enter time events stamps) t
  spent : ∀ f ∈ exhausted events, Carried h.accepted (h.stamp time f) ∧
    Spent clock h.transport.policy (h.enter time events stamps)
      (h.departed.length + (h.left t).length) (h.stamp time f)

/-- An operation that writes no data frame and gives none up for its retries. -/
theorem adds_of_quiet (hdata : dataWritten events = []) (hquiet : exhausted events = [])
    (ht : h.TimedAfter clock stamps t) :
    h.Adds clock time stamps events t where
  grown := by
    rw [enter_of_no_data hdata]
    exact h.grown_refl stamps
  timed := by rwa [enter_of_no_data hdata]
  spent := by simp [hquiet]

/-- Where the queue stays as long as it was, nothing has `left` it. -/
theorem length_left_eq_zero (hlen : h.transport.queue.length ≤ t.queue.length) :
    (h.left t).length = 0 := by
  rw [length_left]
  exact Nat.sub_eq_zero_of_le hlen

/-- `TimedAfter` where the queue stays as long as it was. -/
theorem timedAfter_of_length_le (hlen : h.transport.queue.length ≤ t.queue.length)
    (ht : Timed clock h.transport.policy stamps h.departed.length t.queue) :
    h.TimedAfter clock stamps t := by
  rwa [TimedAfter, length_left_eq_zero hlen, Nat.add_zero]

/-- An operation that leaves the queue alone and reports nothing. -/
theorem adds_of_stay (hdata : dataWritten events = []) (hquiet : failures events = [])
    (hqueue : t.queue = h.transport.queue) (ht : h.TimedBy clock stamps) :
    h.Adds clock time stamps events t := by
  apply adds_of_quiet hdata
  · rw [exhausted, hquiet]
    rfl
  · exact timedAfter_of_length_le (by rw [hqueue]) (hqueue ▸ ht)

/-- `TimedAfter` where numbering starts anew, and the frames that were sent leave the queue. -/
theorem timed_renew {q : List Entry} (q' : List Entry) {k : Nat} {due : Bool}
    (ht : Timed clock h.transport.policy stamps h.departed.length q)
    (hshape : SentFirst q) (hq : q.length = h.transport.pending)
    (hq' : (q.filter Entry.isSent).length + q'.length ≤ q.length)
    (hu : Unmoved (h.transport.renew (renumbered q') k due) t) :
    h.TimedAfter clock stamps t := by
  have hlen : t.pending = q'.length := by
    unfold Transport.pending
    rw [hu.queue]
    exact length_renumbered q'
  rw [TimedAfter, hu.queue, length_left, hlen, ← hq]
  apply ht.restart
  · intro i e hi he hsent
    have hlt := hshape.lt_of_isSent he hsent
    omega
  · intro e he
    obtain ⟨i, hi, rfl⟩ := List.mem_mapIdx.mp he
    exact ⟨rfl, rfl⟩

/-- A frame that was sent is among those that have `left` when numbering starts anew. -/
theorem lt_length_left {q : List Entry} {e : Entry} {k n : Nat} {due : Bool} (hshape : SentFirst q)
    (hq : q.length = h.transport.queue.length) (hk : q[k]? = some e) (he : e.isSent)
    (hu : Unmoved (h.transport.renew (kept q) n due) t) : k < (h.left t).length := by
  have hlt := hshape.lt_of_isSent hk he
  have hfilters := hshape.length_filters
  have hrest : t.pending = (q.filter fun x => !x.isSent).length := by
    unfold Transport.pending
    rw [hu.queue]
    exact length_renumbered _
  rw [length_left, hrest]
  unfold Transport.pending
  omega

/-- `TimedAfter` where acknowledged frames leave the queue at its front. -/
theorem timed_acked {n : Nat} (hn : n ≤ h.transport.queue.length)
    (hqueue : t.queue = h.transport.queue.drop n)
    (ht : h.TimedBy clock stamps) :
    h.TimedAfter clock stamps t := by
  have hleft : h.transport.pending - t.pending = n := by
    unfold Transport.pending
    rw [hqueue, List.length_drop]
    omega
  rw [TimedAfter, length_left, hleft, hqueue]
  exact ht.drop n hn

variable [ByteSink σ ε]

/-- A pass stamps what it writes, and may stop at a frame that is out of retries. -/
theorem grown_sweep (ha : h.Accounted)
    (ht : h.TimedBy clock stamps)
    (stats : TransportStats) (sink : σ) {swept : Sweep σ ε}
    (hswept : swept = sweep h.transport.policy (clock time) stats sink h.transport.queue) :
    ∃ done rest, swept.queue = done ++ rest ∧
      (Timed clock h.transport.policy (h.enter time swept.events stamps) h.departed.length
          (done ++ rest) ∧
        h.Grown stamps (h.enter time swept.events stamps) ∧
        (done ++ rest).map Entry.frame = h.transport.queue.map Entry.frame) ∧
      ∀ k, swept.exhausted = some k → k = done.length ∧
        ∃ e others, rest = e :: others ∧ e.action h.transport.policy (clock time) = .giveUp := by
  subst hswept
  exact timed_sweep ha (fun _ _ => h.Grown stamps) (fun _ _ hg => hg)
    (fun _ hframes _ hg => hg.sent ha hframes) stats sink ht (h.grown_refl stamps)

/-- What a tick that gives nothing up adds are the stamps of its `sweep`. -/
theorem adds_swept (ha : h.Accounted)
    (ht : h.TimedBy clock stamps)
    (stats : TransportStats) (sink : σ) {swept : Sweep σ ε}
    (hswept : swept = sweep h.transport.policy (clock time) stats sink h.transport.queue)
    (hdata : dataWritten events = dataWritten swept.events) (hquiet : failures events = [])
    (hqueue : t.queue = swept.queue) : h.Adds clock time stamps events t := by
  obtain ⟨done, rest, hsplit, ⟨ht', hgrown, hframes⟩, -⟩ := grown_sweep ha ht stats sink hswept
  have henter : h.enter time events stamps = h.enter time swept.events stamps := by
    rw [enter, enter, hdata]
  have hlen : t.queue.length = h.transport.queue.length := by
    have hlength := congrArg List.length hframes
    rw [List.length_map, List.length_map] at hlength
    rw [hqueue, hsplit, hlength]
  refine ⟨henter ▸ hgrown, ?_, ?_⟩
  · rw [henter]
    exact timedAfter_of_length_le (Nat.le_of_eq hlen.symm) (by rwa [hqueue, hsplit])
  · simp [exhausted, hquiet]

/-- What a tick adds that finds a frame out of retries: this frame is `Spent`, and no other one is
named `exhausted`. -/
theorem adds_gaveUp (ha : h.Accounted)
    (ht : h.TimedBy clock stamps)
    (stats : TransportStats) (sink : σ) {swept : Sweep σ ε}
    (hswept : swept = sweep h.transport.policy (clock time) stats sink h.transport.queue)
    (hdata : dataWritten events = dataWritten swept.events) {k n : Nat} {due : Bool}
    (hsome : swept.exhausted = some k) (hlost : failures events = lost swept.queue (some k))
    (hu : Unmoved (h.transport.renew (kept swept.queue) n due) t) :
    h.Adds clock time stamps events t := by
  obtain ⟨done, rest, hsplit, ⟨ht', hgrown, hframes⟩, hstop⟩ := grown_sweep ha ht stats sink hswept
  have hshape := sentFirst_sweep h.transport.policy (clock time) stats sink ha.regular.sentFirst
  have hlength := length_sweep h.transport.policy (clock time) stats sink h.transport.queue
  rw [← hswept] at hshape hlength
  obtain ⟨rfl, e, others, rfl, hact⟩ := hstop k hsome
  have hne : e.action h.transport.policy (clock time) ≠ .send := by simp [hact]
  have he : e.isSent := Entry.isSent_of_action hne
  have henter : h.enter time events stamps = h.enter time swept.events stamps := by
    rw [enter, enter, hdata]
  have htimed : h.TimedAfter clock (h.enter time events stamps) t := by
    rw [henter]
    exact timed_renew _ (hsplit ▸ ht') hshape hlength (Nat.le_of_eq hshape.length_filters) hu
  refine ⟨henter ▸ hgrown, htimed, ?_⟩
  have hexhausted : exhausted events = [e.frame] := by
    rw [exhausted, hlost, hsplit, exhausted_lost he]
    rfl
  have hplace : h.stamp time e.frame = ⟨h.departed.length + done.length, e.frame, time⟩ := by
    rw [← place_eq ha.regular hframes]
    rfl
  -- It was sent as often as allowed, and leaves the queue with the restart.
  simp only [hexhausted, List.mem_singleton, forall_eq, hplace, henter]
  refine ⟨⟨_, message_eq ha hframes, rfl, rfl⟩, Nat.add_lt_add_left ?_ _, ?_⟩
  · exact lt_length_left hshape hlength (by simp [hsplit]) he hu
  · exact ht'.recorded_at.exhausted (ht'.permits _) hact

/-- **What an operation adds to the stamps agrees with what it does to the queue.** -/
theorem adds_effect (ha : h.Accounted)
    (ht : h.TimedBy clock stamps)
    (hclock : ∀ now sink, op = .service now sink → now = clock time)
    (he : h.transport.Effect op events t) : h.Adds clock time stamps events t := by
  have hsentFirst := ha.regular.sentFirst
  cases he with
  | refused | heard | passed => exact adds_of_stay rfl rfl rfl ht
  | @queued e seq t' hsend hroom hid hseq hnew hzero hu =>
    apply adds_of_quiet rfl rfl
    apply timedAfter_of_length_le
    · simp [hu.queue]
    · rw [hu.queue]
      exact ht.append hnew hzero
  | blocked _ hnotice hu =>
    exact adds_of_stay hnotice.dataWritten_eq hnotice.failures_eq hu.queue ht
  | spurious _ _ hu => exact adds_of_stay rfl rfl hu.queue ht
  | @delivered _ _ _ _ r _ _ _ hu | @unexpected _ _ _ _ r _ _ _ hu =>
    refine adds_of_stay ?_ rfl hu.queue ht
    cases r <;> rfl
  | acked hid hpending hn hle =>
    apply adds_of_quiet rfl rfl
    exact timed_acked (Nat.le_trans hle h.transport.inFlight_le) rfl ht
  | told _ hu =>
    apply adds_of_quiet (dataWritten_abandoned _)
    · exact exhausted_linkReset _ _ ((failures_abandoned _).trans (lost_none hsentFirst))
    · exact timed_renew _ ht hsentFirst rfl (Nat.le_of_eq hsentFirst.length_filters) hu
  | dropped hu =>
    apply adds_of_quiet (dataWritten_abandoned _)
    · exact exhausted_linkReset _ _ (failures_abandoned _)
    · exact timed_renew [] ht hsentFirst rfl (List.length_filter_le ..) hu
  | reset hnotice hu =>
    apply adds_of_quiet
    · rw [dataWritten_append, dataWritten_abandoned, hnotice.dataWritten_eq]
      rfl
    · apply exhausted_linkReset
      rw [failures_append, failures_abandoned, hnotice.failures_eq, List.append_nil]
    · exact timed_renew [] ht hsentFirst rfl (List.length_filter_le ..) hu
  | @swept now sink _ _ _ _ hflush hswept hnone hacks hu =>
    -- Only a tick looks at the time, which is the one that the clock shows.
    obtain ⟨stats, sink', hswept⟩ := hswept
    obtain rfl := hclock now sink rfl
    apply adds_swept ha ht stats sink' hswept
    · simp [dataWritten_append, dataWritten_flush hflush, hacks.dataWritten_eq]
    · rw [hswept]
      exact failures_swept hflush hacks
    · exact hu.queue
  | @gaveUp now sink _ k _ _ _ _ _ hflush hswept hsome hnotice hacks hu =>
    obtain ⟨stats, sink', hswept⟩ := hswept
    obtain rfl := hclock now sink rfl
    refine adds_gaveUp ha ht stats sink' hswept ?_ hsome ?_ hu
    · simp [dataWritten_append, dataWritten_flush hflush, dataWritten_abandoned,
        hnotice.dataWritten_eq, hacks.dataWritten_eq]
    · rw [hswept]
      exact failures_gaveUp hflush hnotice hacks

end step

theorem length_departed_perform [ByteSink σ ε] (h : History) (op : Operation σ) :
    (h.perform (ε := ε) op).departed.length =
      h.departed.length + (h.left (h.transport.perform (ε := ε) op).1).length := by
  simp [perform]

end History

/-! ## Diaries -/

/-- The `History` of a transport, with the times at which its data frames were written and at which
they ran out of retries. -/
structure Diary (τ : Type) where
  history : History
  /-- The data frames written, latest first. -/
  sendings : List (Stamp τ) := []
  /-- The data frames that ran out of retries, latest first. -/
  exhaustions : List (Stamp τ) := []

namespace Diary

open Transport

variable [ByteSink σ ε]

/-- Records an operation at a time. -/
def perform (d : Diary τ) (time : τ) (op : Operation σ) : Diary τ :=
  let events := (d.history.transport.perform op).2
  { history := d.history.perform op
    sendings := d.history.enter time events d.sendings
    exhaustions := ((exhausted events).map (d.history.stamp time)).reverse ++ d.exhaustions }

/-- The diary of a new transport after operations in order, each at its time. -/
def run (c : Config) (steps : List (τ × Operation σ)) : Diary τ :=
  steps.foldl (fun d s => d.perform s.1 s.2) { history := { transport := .ofConfig c } }

/-- What a diary tells is true of the queue and of the messages accepted. -/
structure Kept (clock : τ → UInt32) (d : Diary τ) : Prop where
  accounted : d.history.Accounted
  timed : d.history.TimedBy clock d.sendings
  carried : ∀ s, s ∈ d.sendings ∨ s ∈ d.exhaustions → History.Carried d.history.accepted s
  spent : ∀ x ∈ d.exhaustions, History.Spent clock d.history.transport.policy d.sendings
    d.history.departed.length x

variable {clock : τ → UInt32}

theorem kept_fresh (clock : τ → UInt32) (c : Config) :
    Kept clock { history := { transport := .ofConfig c } } where
  accounted := History.accounted_fresh c
  timed :=
    { permits := fun _ => RetryPolicy.permits_nil
      recorded := by simp [ofConfig]
      ahead := fun _ _ => rfl }
  carried := by simp
  spent := by simp

/-- **Every operation keeps `Kept`**, if a tick is told the time of the clock. -/
theorem Kept.perform {d : Diary τ} (hd : d.Kept clock) {time : τ} {op : Operation σ}
    (hclock : ∀ now sink, op = .service now sink → now = clock time) :
    (d.perform (ε := ε) time op).Kept clock := by
  have heffect := d.history.transport.perform_effect (ε := ε) op
  have hadds := History.adds_effect hd.accounted hd.timed hclock heffect
  obtain ⟨hpolicy, -⟩ := heffect.settings
  have hdeparted := d.history.length_departed_perform (ε := ε) op
  have htransport : (d.perform (ε := ε) time op).history.transport.policy =
      d.history.transport.policy := hpolicy
  -- The new stamps are what `adds_effect` says; those of before stay where they are.
  refine ⟨hd.accounted.perform op, ?_, ?_, ?_⟩
  · unfold History.TimedBy
    rw [htransport]
    unfold Diary.perform
    dsimp only
    rw [hdeparted]
    exact hadds.timed
  · rintro s (hs | hs)
    · rcases hadds.grown.carried s hs with hs | hs
      · exact (hd.carried s (.inl hs)).append _
      · exact hs.append _
    · rcases List.mem_append.mp hs with hs | hs
      · obtain ⟨f, hf, rfl⟩ := List.mem_map.mp (List.mem_reverse.mp hs)
        exact (hadds.spent f hf).1.append _
      · exact (hd.carried s (.inr hs)).append _
  · intro x hx
    rw [htransport]
    unfold Diary.perform
    dsimp only
    rw [hdeparted]
    rcases List.mem_append.mp hx with hx | hx
    · obtain ⟨f, hf, rfl⟩ := List.mem_map.mp (List.mem_reverse.mp hx)
      exact (hadds.spent f hf).2
    · -- A message that has left the queue before is sent no more.
      obtain ⟨hleft, hlength, hlast⟩ := hd.spent x hx
      have htimes := hadds.grown.kept x.index hleft
      exact ⟨by omega, by rw [htimes, hlength], by rwa [htimes]⟩

theorem kept_run (c : Config) {steps : List (τ × Operation σ)}
    (hclock : ∀ s ∈ steps, ∀ now sink, s.2 = .service now sink → now = clock s.1) :
    (run (ε := ε) c steps).Kept clock := by
  unfold run
  suffices hfrom : ∀ d : Diary τ, d.Kept clock →
      (steps.foldl (fun d s => d.perform (ε := ε) s.1 s.2) d).Kept clock from
    hfrom _ (kept_fresh clock c)
  induction steps with
  | nil => exact fun d hd => hd
  | cons s steps ih =>
    obtain ⟨hfirst, hothers⟩ := List.forall_mem_cons.mp hclock
    exact fun d hd => ih hothers _ (hd.perform hfirst)

/-- A diary holds the history of the same operations. -/
theorem history_run (c : Config) (steps : List (τ × Operation σ)) :
    (run (ε := ε) c steps).history = History.run (ε := ε) c (steps.map Prod.snd) := by
  unfold run History.run
  suffices hfrom : ∀ d : Diary τ,
      (steps.foldl (fun d s => d.perform (ε := ε) s.1 s.2) d).history =
        (steps.map Prod.snd).foldl (History.perform (ε := ε)) d.history from hfrom _
  induction steps with
  | nil => exact fun d => rfl
  | cons s steps ih => exact fun d => ih _

/-- The retry policy of a diary is the one of the `Config`, whatever was done. -/
theorem policy_run (c : Config) (steps : List (τ × Operation σ)) :
    (run (ε := ε) c steps).history.transport.policy = c.retryPolicy := by
  rw [history_run, History.transport_run]
  exact (settings_run _ _).1

end Diary

/-! ## The retry budget -/

namespace Transport

/-- The time that an operation is told, if it needs one. -/
def Operation.now? : Operation σ → Option UInt32
  | .service now _ | .receive now _ _ | .noteHeard now => some now
  | .send _ | .reset _ _ => none

/-- Operations with the times that they are told. -/
def timed (ops : List (Operation σ)) : List (UInt32 × Operation σ) :=
  ops.map fun op => (op.now?.getD 0, op)

/-- **No message is sent too often or too soon, whatever was done with the transport.** It is
written at most once more than the number of repetitions allowed, and not before the timeout since
the last time has passed. It is given up for its retries only after all of them, and after the
timeout since the last one. What a queued entry knows is the last time that its message was written
whole, and how often it was; attempts that failed leave no trace there. -/
theorem retry_budget [ByteSink σ ε] (c : Config) (ops : List (Operation σ)) :
    let d := Diary.run (ε := ε) c (timed ops)
    let t := (ofConfig c).run (ε := ε) ops
    (∀ k, (timesOf d.sendings k).length ≤ c.maxRetransmits.toNat + 1 ∧
        (timesOf d.sendings k).IsChain fun later earlier =>
          c.retransmitTimeout ≤ elapsed later earlier) ∧
      (∀ x ∈ d.exhaustions, (timesOf d.sendings x.index).length = c.maxRetransmits.toNat + 1 ∧
        ∃ last ∈ (timesOf d.sendings x.index).head?,
          c.retransmitTimeout ≤ elapsed x.time last) ∧
      (∀ i e, t.queue[i]? = some e →
        let times := timesOf d.sendings (d.history.departed.length + i)
        e.lastSent = times.head? ∧ times.length = e.retransmits.toNat + e.isSent.toNat ∧
          ∀ now, e.action t.policy now = .resend →
            (e.markSent now).retransmits.toNat = e.retransmits.toNat + 1) ∧
      ∀ s, s ∈ d.sendings ∨ s ∈ d.exhaustions →
        ∃ m, d.history.accepted[s.index]? = some m ∧ s.frame.Carries m := by
  intro d t
  have hclock : ∀ s ∈ timed ops, ∀ now sink, s.2 = .service now sink → now = id s.1 := by
    intro s hs now sink hservice
    obtain ⟨op, -, rfl⟩ := List.mem_map.mp hs
    dsimp only at hservice
    rw [hservice]
    rfl
  -- With the times told as the clock, the invariant of diaries says all there is to say.
  have hkept : d.Kept id := Diary.kept_run c hclock
  have hpolicy : d.history.transport.policy = c.retryPolicy := Diary.policy_run c _
  have htransport : d.history.transport = t := by
    have hhistory := Diary.history_run (ε := ε) c (timed ops)
    have hops : (timed ops).map Prod.snd = ops := by
      unfold timed
      rw [List.map_map]
      exact List.map_id ops
    rw [hops] at hhistory
    exact (congrArg History.transport hhistory).trans (History.transport_run c ops)
  have htimed := hkept.timed
  have hspent := hkept.spent
  unfold History.TimedBy at htimed
  rw [hpolicy] at htimed hspent
  refine ⟨fun k => ?_, fun x hx => (hspent x hx).2, fun i e he => ?_, hkept.carried⟩
  · obtain ⟨hlength, hspaced⟩ := htimed.permits k
    exact ⟨hlength, hspaced⟩
  · rw [← htransport] at he
    obtain ⟨hlast, hcount⟩ := htimed.recorded i e he
    refine ⟨by simpa using hlast, hcount, fun now hact => ?_⟩
    exact (Entry.retransmits_markSent hact).2

end Transport

end SerialLink
