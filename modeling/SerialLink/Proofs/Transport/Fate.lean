import SerialLink.Proofs.Transport.History

/-!
# The fate of every message

Every message that a transport accepts is acknowledged, or reported to the application as given up,
or still queued. A restart of the numbering reports the frames on their way and keeps the others in
order; it loses no message, changes none and reports none twice.

`Transport.Departs` is what one operation does to the queue as far as messages go: some leave at the
front, acknowledged or reported. `Effect.departs` shows it case by case, by `departs_of_stay`,
`departs_of_drop`, `departs_of_renew` and `departs_of_clear`; `History.Accounted` is what a run
makes of it. The hard case is a frame that runs out of retries in the middle of a pass that has sent
frames already: `sweep_exhausted` says that none of them was sent for the first time. `failures` and
its lemmas are used again in `Proofs.Transport.Callbacks` and behind it.
-/

namespace SerialLink

variable {σ ε : Type}

/-! ## Messages of frames -/

/-- The `Entry.message` is part of the `Entry.frame`, so queues with the same frames have the same
messages. -/
theorem map_message_congr {q q' : List Entry} (h : q'.map Entry.frame = q.map Entry.frame) :
    q'.map Entry.message = q.map Entry.message := by
  have hmessage := congrArg (List.map Frame.message) h
  rw [List.map_map, List.map_map] at hmessage
  exact hmessage

theorem map_message_renumbered (q : List Entry) :
    (renumbered q).map Entry.message = q.map Entry.message := by
  apply List.ext_getElem
  · simp
  · intro i hi hi'
    simp [renumbered, Entry.renumber, Entry.message]

namespace Transport

/-! ## Events that report nothing -/

theorem failures_append (events more : List (Event ε)) :
    failures (events ++ more) = failures events ++ failures more :=
  List.filterMap_append

theorem failures_abandoned (xs : List DeliveryFailure) :
    failures (xs.map (Event.abandoned (ε := ε))) = xs := by
  unfold failures
  rw [List.filterMap_map]
  exact List.filterMap_some

theorem Notice.failures_eq {events : List (Event ε)} {pending : Bool} (h : Notice events pending) :
    failures events = [] := by
  cases h <;> rfl

theorem Repeat.failures_eq {expected : UInt8} {events : List (Event ε)}
    (h : Repeat expected events) : failures events = [] := by
  cases h <;> rfl

/-- A pending reset reports nothing when it is flushed. -/
theorem failures_flush {t : Transport} {flush : List (Event ε)}
    (h : if t.resetPending then Notice flush false else flush = []) : failures flush = [] := by
  split at h
  · exact h.failures_eq
  · rw [h]
    rfl

/-! ## A pass over the queue -/

section pass

variable [ByteSink σ ε] (policy : RetryPolicy) (now : UInt32) (stats : TransportStats) (sink : σ)
  {q : List Entry}

theorem failures_sweep (q : List Entry) :
    failures (sweep (ε := ε) policy now stats sink q).events = [] := by
  obtain ⟨-, -, -, h, -⟩ := sweep_rule (q := q) policy now (fun _ _ events => failures events = [])
    (fun _ h => h) (fun n _ h => by rw [failures_append, h]; rfl)
    (fun failure h => by rw [failures_append, h]; rfl) stats sink rfl
  exact h

/-- A pass that finds a frame out of retries has sent no frame for the first time: all before that
frame were sent already. -/
theorem sweep_exhausted (h : SentFirst q) {k : Nat}
    (hk : (sweep (ε := ε) policy now stats sink q).exhausted = some k) :
    ∃ e, q[k]? = some e ∧ e.action policy now = .giveUp ∧
      ((sweep (ε := ε) policy now stats sink q).queue.filter Entry.isSent).map Entry.frame =
        (q.filter Entry.isSent).map Entry.frame ∧
      (sweep (ε := ε) policy now stats sink q).queue.filter (fun e => !e.isSent) =
        q.filter (fun e => !e.isSent) := by
  induction q generalizing stats sink k with
  | nil => simp [sweep] at hk
  | cons e rest ih =>
    obtain ⟨ha, hs⟩ | ⟨ha, hs⟩ | ⟨-, n, sink', hs⟩ | ⟨failure, sink', hs⟩ :=
      sweep_cases policy now stats sink e rest
    -- `e` waits, is the frame that is given up, is sent, or ends the pass.
    · rw [hs] at hk ⊢
      obtain ⟨j, hj, rfl⟩ := Option.map_eq_some_iff.mp hk
      obtain ⟨x, hx, hact, hsent, hunsent⟩ := ih stats sink h.tail hj
      have hne : e.action policy now ≠ .send := by simp [ha]
      have he : e.isSent := Entry.isSent_of_action hne
      refine ⟨x, hx, hact, ?_, ?_⟩
      · simpa [Sweep.cons, he] using hsent
      · simpa [Sweep.cons, he] using hunsent
    · rw [hs] at hk ⊢
      obtain rfl := Option.some.inj hk
      exact ⟨e, rfl, ha, rfl, rfl⟩
    · rw [hs] at hk ⊢
      obtain ⟨j, hj, rfl⟩ := Option.map_eq_some_iff.mp hk
      obtain ⟨x, hx, hact, hsent, hunsent⟩ := ih _ sink' h.tail hj
      -- A frame behind `e` was sent before, so `e` is only repeated here.
      have hne : x.action policy now ≠ .send := by simp [hact]
      have he : e.isSent := h.isSent_head (List.mem_of_getElem? hx) (Entry.isSent_of_action hne)
      have hmark : (e.markSent now).isSent := rfl
      have hframe : (e.markSent now).frame = e.frame := rfl
      refine ⟨x, hx, hact, ?_, ?_⟩
      · simpa [Sweep.cons, he, hmark, hframe] using hsent
      · simpa [Sweep.cons, he, hmark] using hunsent
    · rw [hs] at hk
      exact absurd hk (by simp)

/-- The frame that is `exhausted` is one of those on their way. -/
theorem exhausted_lt (h : SentFirst q) {k : Nat}
    (hk : (sweep (ε := ε) policy now stats sink q).exhausted = some k) :
    k < ((sweep (ε := ε) policy now stats sink q).queue.filter Entry.isSent).length := by
  obtain ⟨e, he, hact, hsent, -⟩ := sweep_exhausted policy now stats sink h hk
  have hne : e.action policy now ≠ .send := by simp [hact]
  have hlen := congrArg List.length hsent
  rw [List.length_map, List.length_map] at hlen
  rw [hlen]
  exact h.lt_of_isSent he (Entry.isSent_of_action hne)

end pass

/-- A tick that gives nothing up reports nothing. -/
theorem failures_swept [ByteSink σ ε] {t : Transport} {now : UInt32} {stats : TransportStats}
    {sink : σ} {q : List Entry} {flush acks : List (Event ε)} {expected : UInt8}
    (hflush : if t.resetPending then Notice flush false else flush = [])
    (hacks : Repeat expected acks) :
    failures (flush ++ (sweep t.policy now stats sink q).events ++ acks) = [] := by
  rw [failures_append, failures_append, failures_flush hflush, failures_sweep, hacks.failures_eq]
  rfl

/-- A tick that gives frames up reports them, once, and nothing else. -/
theorem failures_gaveUp [ByteSink σ ε] {t : Transport} {now : UInt32} {stats : TransportStats}
    {sink : σ} {q : List Entry} {flush notice acks : List (Event ε)} {expected : UInt8}
    {pending : Bool} {xs : List DeliveryFailure}
    (hflush : if t.resetPending then Notice flush false else flush = [])
    (hnotice : Notice notice pending) (hacks : Repeat expected acks) :
    failures (flush ++ ((sweep t.policy now stats sink q).events ++
      (xs.map .abandoned ++ notice)) ++ acks) = xs := by
  rw [failures_append, failures_append, failures_append, failures_append, failures_flush hflush,
    failures_sweep, failures_abandoned, hnotice.failures_eq, hacks.failures_eq]
  simp

/-! ## What an operation takes off the queue -/

section departures

variable {t t' : Transport} {op : Operation σ} {events : List (Event ε)}

/-- Some frames leave the queue at its front, acknowledged or reported; the others stay in order,
and what is accepted goes behind them. -/
structure Departs (t : Transport) (op : Operation σ) (events : List (Event ε)) (t' : Transport) :
    Prop where
  messages : t'.queue.map Entry.message =
    (t.queue.drop (t.pending - t'.pending)).map Entry.message ++ op.accepted t
  frames : (failures events).map DeliveryFailure.frame =
    if op.isAck then [] else (t.queue.take (t.pending - t'.pending)).map Entry.frame
  count : t'.stats.deliveryFailures =
    t.stats.deliveryFailures + (failures events).length.toUInt32

/-- `Departs` from the number of frames that left, which need not be read off the lengths. -/
theorem departs_of_drop {n : Nat} (hn : n ≤ t.pending)
    (hmessages : t'.queue.map Entry.message = (t.queue.drop n).map Entry.message)
    (haccepted : op.accepted t = [])
    (hframes : (failures events).map DeliveryFailure.frame =
      if op.isAck then [] else (t.queue.take n).map Entry.frame)
    (hcount : t'.stats.deliveryFailures =
      t.stats.deliveryFailures + (failures events).length.toUInt32) :
    t.Departs op events t' := by
  -- How many frames left is read off the lengths.
  have hlen := congrArg List.length hmessages
  rw [List.length_map, List.length_map, List.length_drop] at hlen
  have hleft : t.pending - t'.pending = n := by
    unfold pending at hn ⊢
    omega
  refine ⟨?_, ?_, hcount⟩
  · rw [hleft, haccepted, List.append_nil]
    exact hmessages
  · rw [hleft]
    exact hframes

/-- `Departs` where no frame left the queue and none joined it. -/
theorem departs_of_stay (hmessages : t'.queue.map Entry.message = t.queue.map Entry.message)
    (haccepted : op.accepted t = []) (hfailures : failures events = [])
    (hcount : t'.stats.deliveryFailures = t.stats.deliveryFailures) : t.Departs op events t' := by
  apply departs_of_drop (Nat.zero_le _) hmessages haccepted
  · rw [hfailures, List.take_zero]
    simp
  · rw [hfailures, hcount]
    simp

/-- `renew` with what is `kept` takes off the frames on their way, and reports them. The queue `q`
is the one that a pass has left, if there was one before the restart. -/
theorem departs_of_renew {q : List Entry} {pending : Bool} {exhausted : Option Nat}
    (h : SentFirst t.queue) (hq : SentFirst q)
    (hsent : (q.filter Entry.isSent).map Entry.frame =
      (t.queue.filter Entry.isSent).map Entry.frame)
    (hunsent : q.filter (fun e => !e.isSent) = t.queue.filter (fun e => !e.isSent))
    (hu : Unmoved (t.renew (kept q) (lost q exhausted).length pending) t')
    (haccepted : op.accepted t = []) (hack : op.isAck = false)
    (hfailures : failures events = lost q exhausted) : t.Departs op events t' := by
  -- The frames on their way stand at the front of the queue, also after a pass over it.
  have hlost := lost_eq hq exhausted
  have hlen : (t.queue.filter Entry.isSent).length ≤ t.pending := List.length_filter_le ..
  apply departs_of_drop hlen
  · rw [hu.queue, h.drop_sent, ← hunsent]
    exact map_message_renumbered _
  · exact haccepted
  · rw [hfailures, hlost, map_frame_failuresOf, hsent, h.take_sent, hack]
    rfl
  · rw [hfailures]
    exact hu.deliveryFailures

/-- `renew` with an empty queue takes off all frames, and reports them. -/
theorem departs_of_clear {due : Bool} (hu : Unmoved (t.renew [] t.queue.length due) t')
    (haccepted : op.accepted t = []) (hack : op.isAck = false)
    (hfailures : failures events = t.queue.map (Entry.failure · .linkReset)) :
    t.Departs op events t' := by
  apply departs_of_drop (Nat.le_refl t.pending)
  · rw [hu.queue, pending, List.drop_length]
    rfl
  · exact haccepted
  · rw [hfailures, pending, List.take_length, hack, List.map_map]
    rfl
  · rw [hfailures, List.length_map]
    exact hu.deliveryFailures

/-- **Every operation takes frames off the front of the queue only, and reports those that it takes
off without an acknowledgement.** -/
theorem Effect.departs [ByteSink σ ε] (h : SentFirst t.queue) (he : t.Effect op events t') :
    t.Departs op events t' := by
  cases he with
  | @refused m failure hsend =>
    have haccepted : (Operation.send (σ := σ) m).accepted t = [] := by
      simp only [Operation.accepted, hsend]
    exact departs_of_stay rfl haccepted rfl rfl
  | @queued e seq t' hsend hroom hid hseq hnew hzero hu =>
    have haccepted : (Operation.send (σ := σ) e.message).accepted t = [e.message] := by
      simp only [Operation.accepted, hsend]
    have hpending : t.pending - t'.pending = 0 := by
      unfold pending
      rw [hu.queue, List.length_append]
      omega
    refine ⟨?_, by rw [hpending]; rfl, hu.deliveryFailures.trans (by simp [failures])⟩
    rw [hpending, hu.queue, haccepted]
    simp
  | passed => exact departs_of_stay rfl rfl rfl rfl
  | heard => exact departs_of_stay rfl rfl rfl rfl
  | spurious _ _ hu =>
    exact departs_of_stay (congrArg _ hu.queue) rfl rfl hu.deliveryFailures
  | blocked _ hnotice hu =>
    exact departs_of_stay (congrArg _ hu.queue) rfl hnotice.failures_eq hu.deliveryFailures
  | @swept now _ _ _ _ _ hflush hswept hnone hacks hu =>
    obtain ⟨stats, sink, rfl⟩ := hswept
    apply departs_of_stay
    · rw [hu.queue]
      exact map_message_congr (map_frame_sweep t.policy now stats sink t.queue)
    · rfl
    · exact failures_swept hflush hacks
    · exact hu.deliveryFailures
  | @gaveUp now _ _ k _ _ _ _ _ hflush hswept hsome hnotice hacks hu =>
    obtain ⟨stats, sink, rfl⟩ := hswept
    obtain ⟨e, -, -, hsent, hunsent⟩ := sweep_exhausted t.policy now stats sink h hsome
    apply departs_of_renew h (sentFirst_sweep t.policy now stats sink h) hsent hunsent hu rfl rfl
    exact failures_gaveUp hflush hnotice hacks
  | @acked now f sink n hid hpending hn hle =>
    -- The only frames that leave without being reported.
    apply departs_of_drop (Nat.le_trans hle t.inFlight_le) rfl rfl
    · simp [Operation.isAck, hid, failures]
    · simp [failures]
  | delivered hid hseq hu | unexpected hid hseq hu =>
    exact departs_of_stay (congrArg _ hu.queue) rfl rfl hu.deliveryFailures
  | told hid hu =>
    apply departs_of_renew h h rfl rfl hu rfl
    · simp [Operation.isAck, hid]
    · exact failures_abandoned _
  | dropped hu =>
    apply departs_of_clear hu rfl rfl
    exact failures_abandoned _
  | reset hnotice hu =>
    apply departs_of_clear hu rfl rfl
    rw [failures_append, failures_abandoned, hnotice.failures_eq, List.append_nil]

end departures

/-! ## Restarts and give-ups, one by one -/

section restarts

variable [ByteSink σ ε] {t : Transport}

/-- A tick reports nothing, unless a frame is out of retries; then it gives up that frame and the
others on their way. -/
theorem gaveUp_of_service (h : SentFirst t.queue) (now : UInt32) (sink : σ) :
    (failures (t.service (ε := ε) now sink).events = [] ∧
      (t.service (ε := ε) now sink).transport.queue.map Entry.frame =
        t.queue.map Entry.frame) ∨
    ∃ k e, t.queue[k]? = some e ∧ e.action t.policy now = .giveUp ∧
      failures (t.service (ε := ε) now sink).events =
        failuresOf (reasonAt (some k)) (t.queue.filter Entry.isSent) ∧
      (t.service (ε := ε) now sink).transport.queue =
        renumbered (t.queue.filter fun e => !e.isSent) := by
  have heffect := t.service_effect (ε := ε) now sink
  generalize (t.service (ε := ε) now sink).events = events at heffect ⊢
  generalize (t.service (ε := ε) now sink).transport = t' at heffect ⊢
  cases heffect with
  | blocked hpending hnotice hu => exact .inl ⟨hnotice.failures_eq, by rw [hu.queue]⟩
  | swept hflush hswept hnone hacks hu =>
    obtain ⟨stats, sink'', rfl⟩ := hswept
    refine .inl ⟨failures_swept hflush hacks, ?_⟩
    rw [hu.queue]
    exact map_frame_sweep t.policy now stats sink'' t.queue
  | gaveUp hflush hswept hsome hnotice hacks hu =>
    -- The pass stopped there, so it has sent no frame that was unsent before.
    obtain ⟨stats, sink'', rfl⟩ := hswept
    obtain ⟨e, he, hact, hsent, hunsent⟩ := sweep_exhausted t.policy now stats sink'' h hsome
    refine .inr ⟨_, e, he, hact, ?_, ?_⟩
    · rw [failures_gaveUp hflush hnotice hacks, lost_eq (sentFirst_sweep _ _ _ _ h)]
      exact failuresOf_congr _ hsent
    · rw [hu.queue, ← hunsent]
      rfl

end restarts

end Transport

/-! ## Runs -/

namespace History

variable [ByteSink σ ε]

/-- Every message accepted is still queued or left the queue, and what left it without an
acknowledgement was reported, once and as it stood. -/
structure Accounted (h : History) : Prop where
  regular : h.transport.Regular
  accepted : h.accepted =
    h.departed.map (·.entry.message) ++ h.transport.queue.map Entry.message
  reported : h.reported.map DeliveryFailure.frame =
    (h.departed.filter fun d => !d.acked).map (·.entry.frame)
  count : h.transport.stats.deliveryFailures = h.reported.length.toUInt32

theorem accounted_fresh (c : Config) : Accounted { transport := .ofConfig c } where
  regular := Transport.regular_ofConfig c
  accepted := rfl
  reported := rfl
  count := rfl

/-- A `Departure` is to be reported unless it is `acked`. -/
theorem frames_unacked (q : List Entry) (acked : Bool) :
    ((q.map fun e => Departure.mk e acked).filter fun d => !d.acked).map (·.entry.frame) =
      if acked then [] else q.map Entry.frame := by
  induction q with
  | nil => cases acked <;> rfl
  | cons e rest ih =>
    cases acked with
    | true => exact ih
    | false => exact congrArg (e.frame :: ·) ih

/-- **Every operation keeps `Accounted`**, by what it takes off the queue. -/
theorem Accounted.perform {h : History} (ha : h.Accounted) (op : Transport.Operation σ) :
    (h.perform (ε := ε) op).Accounted := by
  have heffect := h.transport.perform_effect (ε := ε) op
  have hdeparts := heffect.departs ha.regular.sentFirst
  have hregular := ha.regular.effect heffect
  unfold History.perform
  simp only
  generalize h.transport.perform (ε := ε) op = performed at hdeparts hregular
  obtain ⟨t, events⟩ := performed
  refine ⟨hregular, ?_, ?_, ?_⟩
  · -- The queue is cut where the frames that left it end.
    have hsplit := List.take_append_drop (h.transport.pending - t.pending) h.transport.queue
    have hmessages := congrArg (List.map Entry.message) hsplit
    rw [List.map_append] at hmessages
    dsimp only
    rw [ha.accepted, hdeparts.messages, ← hmessages, List.map_append, List.map_map]
    simp only [List.append_assoc, left, Function.comp_def]
  · -- Of the frames that left, those without an acknowledgement are the ones reported.
    dsimp only
    rw [List.map_append, ha.reported, hdeparts.frames, List.filter_append, List.map_append,
      frames_unacked, left]
  · dsimp only
    rw [hdeparts.count, ha.count, List.length_append]
    simp only [Nat.toUInt32_eq, UInt32.ofNat_add]

/-- The transport of a `History` is the one that the operations lead to without it. -/
theorem transport_run (c : Config) (ops : List (Transport.Operation σ)) :
    (run (ε := ε) c ops).transport = (Transport.ofConfig c).run (ε := ε) ops := by
  unfold run Transport.run
  suffices hfrom : ∀ h : History, (ops.foldl (perform (ε := ε)) h).transport =
      ops.foldl (fun t op => (t.perform (ε := ε) op).1) h.transport from hfrom _
  induction ops with
  | nil => exact fun h => rfl
  | cons op ops ih => exact fun h => ih _

end History

end SerialLink
