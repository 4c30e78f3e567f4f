import SerialLink.Proofs.Transmit
import SerialLink.Proofs.Transport.Run

/-!
# What a transport hears

A transport notes when a frame last arrived and when a data frame last did, and counts the data
frames. It does so when frames arrive and at no other time: whatever it sends, queues, gives up or
restarts, it knows as much of its peer as before.

`Effect` leaves the times out, so each function has a lemma of its own here: `Unheard` says that it
heard nothing, and the lemmas follow the calls, from `unheard_countUnsent` up to `unheard_service`
and `unheard_reset`. What arrives is `receive_data_heard`. `counts_run` sums up the `arrivals` over
a run, for `Proofs.Transport.Receiver`; `active_of_service` says when a tick repeats an
acknowledgement, for `Proofs.Endpoint.Silence`, where the times are needed; and
`Proofs.Transport.Settled` uses that a tick keeps the interval between two of them.
-/

namespace SerialLink

/-- The data frames that arrived, whatever became of them, as three counters tell it:
`framesDelivered`, `duplicates` and `outOfOrder`. They wrap. -/
def TransportStats.arrivals (s : TransportStats) : UInt32 :=
  s.framesDelivered + s.duplicates + s.outOfOrder

namespace Transport

variable {σ ε : Type} {t t' u : Transport}

/-- The data frame that arrives in a `receive`. -/
def Operation.arrival? : Operation σ → Option Frame
  | .receive _ f _ => if f.isData then some f else none
  | _ => none

/-- The data frames that arrive in the course of operations, in order. -/
def arrivals (ops : List (Operation σ)) : List Frame := ops.filterMap Operation.arrival?

theorem arrivals_cons (op : Operation σ) (ops : List (Operation σ)) :
    arrivals (op :: ops) = op.arrival?.toList ++ arrivals ops := by
  unfold arrivals
  rw [List.filterMap_cons]
  cases op.arrival? <;> rfl

/-- Nothing was heard on the way from one transport to the other, and the settings for what is heard
are the same. -/
structure Unheard (t t' : Transport) : Prop where
  ackInterval : t'.ackInterval = t.ackInterval
  idleTimeout : t'.idleTimeout = t.idleTimeout
  lastHeard : t'.lastHeard = t.lastHeard
  lastData : t'.lastData = t.lastData
  arrivals : t'.stats.arrivals = t.stats.arrivals

/-- What a transport knows of its peer, and the settings by which it judges that. -/
def knowledge (t : Transport) :=
  (t.ackInterval, t.idleTimeout, t.lastHeard, t.lastData, t.stats.arrivals)

theorem Unheard.of_knowledge (h : t'.knowledge = t.knowledge) : t.Unheard t' := by
  simp only [knowledge, Prod.mk.injEq] at h
  obtain ⟨hinterval, hidle, hheard, hdata, harrivals⟩ := h
  exact ⟨hinterval, hidle, hheard, hdata, harrivals⟩

theorem Unheard.trans (h : t.Unheard t') (h' : t'.Unheard u) : t.Unheard u where
  ackInterval := h'.ackInterval.trans h.ackInterval
  idleTimeout := h'.idleTimeout.trans h.idleTimeout
  lastHeard := h'.lastHeard.trans h.lastHeard
  lastData := h'.lastData.trans h.lastData
  arrivals := h'.arrivals.trans h.arrivals

/-! ## Sending and queueing -/

theorem arrivals_countUnsent (stats : TransportStats) (failure : SendError ε) :
    (stats.countUnsent failure).arrivals = stats.arrivals := by
  cases failure <;> rfl

/-- A failure is counted, which is no arrival. -/
theorem unheard_countUnsent (t : Transport) (failure : SendError ε) :
    t.Unheard (t.countUnsent failure) :=
  ⟨rfl, rfl, rfl, rfl, arrivals_countUnsent t.stats failure⟩

theorem unheard_afterReset (t : Transport) (result : Except (SendError ε) Nat) :
    t.Unheard (t.afterReset result) := by
  cases result with
  | ok n => exact .of_knowledge rfl
  | error failure => exact t.unheard_countUnsent failure

theorem unheard_afterAck (t : Transport) (now : UInt32) (result : Except (SendError ε) Nat) :
    t.Unheard (t.afterAck now result) := by
  cases result with
  | ok n => exact .of_knowledge rfl
  | error failure => exact t.unheard_countUnsent failure

/-- `enqueue` hears nothing. -/
theorem unheard_enqueue {id seq : UInt8} {payload : List UInt8}
    (h : t.enqueue id payload = .ok (seq, t')) : t.Unheard t' := by
  obtain ⟨-, -, -, p, -, rfl⟩ := enqueue_eq_ok h
  exact .of_knowledge rfl

theorem unheard_restart (t : Transport) (q : List Entry) : t.Unheard (t.restart q) := by
  rw [restart_eq]
  exact .of_knowledge rfl

theorem unheard_countFailures (t : Transport) (n : Nat) : t.Unheard (t.countFailures n) :=
  .of_knowledge rfl

theorem unheard_resync (t : Transport) (exhausted : Option Nat) :
    t.Unheard (t.resync exhausted).1 :=
  (t.unheard_countFailures _).trans (unheard_restart _ _)

section

variable [ByteSink σ ε]

theorem unheard_sendReset (t : Transport) (sink : σ) :
    t.Unheard (t.sendReset sink).transport := by
  simp only [sendReset, settleReset]
  exact unheard_afterReset t (transmit sink Frame.reset).1

theorem unheard_sendAck (t : Transport) (now : UInt32) (sink : σ) :
    t.Unheard (t.sendAck now sink).transport := by
  simp only [sendAck]
  exact unheard_afterAck t now (transmit sink (Frame.ack t.expected)).1

theorem unheard_flushReset (t : Transport) (sink : σ) :
    t.Unheard (t.flushReset sink).transport := by
  unfold flushReset
  split
  · exact t.unheard_sendReset sink
  · exact .of_knowledge rfl

theorem unheard_repeatAck (t : Transport) (now : UInt32) (sink : σ) :
    t.Unheard (t.repeatAck now sink).transport := by
  unfold repeatAck
  split
  · exact t.unheard_sendAck now sink
  · exact .of_knowledge rfl

/-- A `sweep` counts what it sends, and no arrivals. -/
theorem arrivals_sweep (policy : RetryPolicy) (now : UInt32) (stats : TransportStats) (sink : σ)
    (q : List Entry) : (sweep policy now stats sink q).stats.arrivals = stats.arrivals := by
  -- `sweep_rule` does not speak of the counters, so this goes by the first frame.
  induction q generalizing stats sink with
  | nil => rfl
  | cons e rest ih =>
    obtain ⟨-, h⟩ | ⟨-, h⟩ | ⟨n, sink', h⟩ | ⟨failure, sink', h⟩ :=
      sweep_cons policy now stats sink e rest
    · rw [h]
      exact ih stats sink
    · rw [h]
    · rw [h]
      refine (ih _ sink').trans ?_
      cases e.isSent <;> rfl
    · rw [h]
      exact arrivals_countUnsent stats failure

theorem unheard_giveUp (t : Transport) (k : Nat) (sink : σ) :
    t.Unheard (t.giveUp k sink).transport := by
  have hresync := t.unheard_resync (some k)
  unfold giveUp
  generalize t.resync (some k) = resynced at hresync ⊢
  obtain ⟨u, failures⟩ := resynced
  have hpending : u.Unheard { u with resetPending := true } := .of_knowledge rfl
  have hsent := unheard_sendReset { u with resetPending := true } sink
  dsimp only
  exact (hresync.trans hpending).trans hsent

theorem unheard_serviceQueue (t : Transport) (now : UInt32) (sink : σ) :
    t.Unheard (t.serviceQueue now sink).transport := by
  have harrivals := arrivals_sweep t.policy now t.stats sink t.queue
  unfold serviceQueue
  simp only
  generalize sweep t.policy now t.stats sink t.queue = swept at harrivals ⊢
  have hpassed : t.Unheard { t with queue := swept.queue, stats := swept.stats } :=
    ⟨rfl, rfl, rfl, rfl, harrivals⟩
  cases swept.exhausted with
  | none => exact hpassed
  | some k =>
    have hgave := unheard_giveUp { t with queue := swept.queue, stats := swept.stats } k swept.sink
    dsimp only
    exact hpassed.trans hgave

/-- **A tick hears nothing.** -/
theorem unheard_service (t : Transport) (now : UInt32) (sink : σ) :
    t.Unheard (t.service now sink).transport := by
  have hflushed := t.unheard_flushReset sink
  obtain ⟨-, h⟩ | ⟨-, h⟩ := t.service_cases now sink
  · rw [h]
    exact hflushed
  · rw [h]
    have hserved := unheard_serviceQueue (t.flushReset sink).transport now (t.flushReset sink).sink
    exact (hflushed.trans hserved).trans (unheard_repeatAck _ now _)

/-- **A reset hears nothing.** -/
theorem unheard_reset (t : Transport) (inform : Bool) (sink : σ) :
    t.Unheard (t.reset inform sink).2.transport := by
  have hrestarted := (t.unheard_countFailures
    (t.queue.map (Entry.failure · .linkReset)).length).trans (unheard_restart _ [])
  unfold reset
  simp only [settleReset]
  generalize (t.countFailures _).restart [] = u at hrestarted ⊢
  have hpending : u.Unheard { u with resetPending := true } := .of_knowledge rfl
  cases inform with
  | false => exact hrestarted
  | true =>
    have hsent := unheard_afterReset { u with resetPending := true } (transmit sink Frame.reset).1
    simp only [if_true]
    exact (hrestarted.trans hpending).trans hsent

/-! ## Frames that arrive -/

/-- `acceptData` counts one more arrival, whichever of the three counters it is. -/
theorem acceptData_heard (t : Transport) (f : Frame) :
    let u := (t.acceptData (ε := ε) f).1
    u.ackInterval = t.ackInterval ∧ u.idleTimeout = t.idleTimeout ∧ u.lastHeard = t.lastHeard ∧
      u.lastData = t.lastData ∧ u.stats.arrivals = t.stats.arrivals + 1 := by
  intro u
  unfold u acceptData TransportStats.arrivals
  split
  · exact ⟨rfl, rfl, rfl, rfl, by grind⟩
  · split <;> exact ⟨rfl, rfl, rfl, rfl, by grind⟩

theorem unheard_onAck (t : Transport) (ack : UInt8) : t.Unheard (t.onAck ack) := by
  unfold onAck
  simp only
  split <;> exact .of_knowledge rfl

/-- A frame that is no data frame makes no difference to what is known of the peer. -/
theorem unheard_receive {f : Frame} (h : ¬ f.isData) (t : Transport) (now : UInt32) (sink : σ) :
    t.Unheard (t.receive now f sink).transport := by
  unfold receive
  cases hid : f.id with
  | app a => exact .of_knowledge rfl
  | ack => exact t.unheard_onAck f.seq
  | reset =>
    have hrestarted := unheard_resync { t with
      stats := { t.stats with resetsReceived := t.stats.resetsReceived + 1 }
      resetPending := false } none
    have hcounted : t.Unheard { t with
      stats := { t.stats with resetsReceived := t.stats.resetsReceived + 1 }
      resetPending := false } := .of_knowledge rfl
    simp only [onReset]
    exact hcounted.trans hrestarted
  | data id => exact absurd (by simp [Frame.isData, hid]) h

/-- **A data frame that arrives is noted and counted,** accepted or not. -/
theorem receive_data_heard {f : Frame} (h : f.isData) (t : Transport) (now : UInt32) (sink : σ) :
    let u := (t.receive now f sink).transport
    u.ackInterval = t.ackInterval ∧ u.idleTimeout = t.idleTimeout ∧ u.lastHeard = t.lastHeard ∧
      u.lastData = some now ∧ u.stats.arrivals = t.stats.arrivals + 1 := by
  intro u
  obtain ⟨id, hid⟩ := Frame.exists_of_isData h
  have hnoted : ({ t with lastData := some now }.note .frameReceived).stats = t.stats := rfl
  obtain ⟨hinterval, hidle, hheard, hlast, hcount⟩ :=
    acceptData_heard (ε := ε) ({ t with lastData := some now }.note .frameReceived) f
  rw [hnoted] at hcount
  unfold u receive
  simp only [hid, onData]
  generalize ({ t with lastData := some now }.note .frameReceived).acceptData f = accepted at *
  -- The acknowledgement that answers the frame changes nothing of what was heard.
  have hacked := unheard_sendAck accepted.1 now sink
  exact ⟨hacked.ackInterval.trans hinterval, hacked.idleTimeout.trans hidle,
    hacked.lastHeard.trans hheard, hacked.lastData.trans hlast, hacked.arrivals.trans hcount⟩

/-! ## Acknowledgements that are repeated -/

/-- It was not tried to send an acknowledgement: none was `attempted`. -/
def NoAcks (events : List (Event ε)) : Prop := ∀ f r, .attempted f r ∈ events → f.id ≠ .ack

omit [ByteSink σ ε] in
theorem NoAcks.append {events events' : List (Event ε)} (h : NoAcks events)
    (h' : NoAcks events') : NoAcks (events ++ events') := by
  intro f r hf
  rcases List.mem_append.mp hf with hf | hf
  · exact h f r hf
  · exact h' f r hf

omit [ByteSink σ ε] in
theorem noAcks_single {f : Frame} {r : Except (SendError ε) Nat} (h : f.id ≠ .ack) :
    NoAcks [.attempted f r] := by
  intro g r' hg
  obtain ⟨rfl, -⟩ := Event.attempted.inj (List.mem_singleton.mp hg)
  exact h

omit [ByteSink σ ε] in
theorem Notice.noAcks {events : List (Event ε)} {pending : Bool} (h : Notice events pending) :
    NoAcks events := by
  cases h with
  | written | due => exact noAcks_single (by simp [Frame.reset])

theorem noAcks_flushReset (t : Transport) (sink : σ) : NoAcks (t.flushReset sink).events := by
  have hflushed := t.flushReset_effect sink
  obtain ⟨-, hnotice, -⟩ | ⟨hflush, -⟩ := hflushed
  · exact hnotice.noAcks
  · split at hflush
    · exact hflush.noAcks
    · rw [hflush]
      intro f r hf
      exact absurd hf List.not_mem_nil

theorem noAcks_sweep (policy : RetryPolicy) (now : UInt32) (stats : TransportStats) (sink : σ)
    (q : List Entry) : NoAcks (sweep policy now stats sink q).events := by
  have hdata : ∀ e : Entry, e.frame.id ≠ .ack := fun e => by simp [Entry.frame]
  obtain ⟨-, -, -, h, -⟩ := sweep_rule (q := q) policy now (fun _ _ events => NoAcks events)
    (fun _ h => h) (fun n _ h => h.append (noAcks_single (hdata _)))
    (fun failure h => h.append (noAcks_single (hdata _))) stats sink
    (fun f r hf => absurd hf List.not_mem_nil)
  exact h

theorem noAcks_serviceQueue (t : Transport) (now : UInt32) (sink : σ) :
    NoAcks (t.serviceQueue now sink).events := by
  have hswept := noAcks_sweep t.policy now t.stats sink t.queue
  unfold serviceQueue
  dsimp only
  cases (sweep t.policy now t.stats sink t.queue).exhausted with
  | none => exact hswept
  | some k =>
    obtain ⟨notice, pending, hnotice, hevents, -⟩ := giveUp_effect { t with
      queue := (sweep t.policy now t.stats sink t.queue).queue
      stats := (sweep t.policy now t.stats sink t.queue).stats } k
      (sweep t.policy now t.stats sink t.queue).sink
    dsimp only
    rw [hevents]
    -- Reports are no attempts at all, and the notice is a reset.
    have hreported : NoAcks ((lost (sweep t.policy now t.stats sink t.queue).queue
        (some k)).map (Event.abandoned (ε := ε))) :=
      fun f r hf => by simp at hf
    exact hswept.append (hreported.append hnotice.noAcks)

omit [ByteSink σ ε] in
/-- An acknowledgement is `ackDue` only while data frames are arriving. -/
theorem active_of_ackDue {now : UInt32} (h : t.ackDue now) :
    ∃ since, t.lastData = some since ∧ elapsed now since < t.idleTimeout := by
  unfold ackDue at h
  cases hlast : t.lastData with
  | none => simp [hlast] at h
  | some since =>
    simp only [hlast, Bool.and_eq_true, decide_eq_true_eq] at h
    exact ⟨since, rfl, h.1⟩

/-- **A tick repeats the acknowledgement only while data frames are arriving.** -/
theorem active_of_service {t : Transport} {now : UInt32} {sink : σ} {f : Frame}
    {r : Except (SendError ε) Nat} (hf : .attempted f r ∈ (t.service now sink).events)
    (hid : f.id = .ack) : ∃ since, t.lastData = some since ∧ elapsed now since < t.idleTimeout := by
  have hreset := t.noAcks_flushReset sink
  have hflushed := t.unheard_flushReset sink
  obtain ⟨-, h⟩ | ⟨-, h⟩ := t.service_cases now sink
  · -- The tick ends with a reset that is still owed.
    rw [h] at hf
    exact absurd hid (hreset f r hf)
  · rw [h] at hf
    generalize t.flushReset sink = flushed at hf hreset hflushed
    have hdata := flushed.transport.noAcks_serviceQueue now flushed.sink
    have hserved := flushed.transport.unheard_serviceQueue now flushed.sink
    generalize flushed.transport.serviceQueue now flushed.sink = served at hf hdata hserved
    have hunheard := hflushed.trans hserved
    rcases List.mem_append.mp hf with hf | hf
    · exact absurd hid (hreset.append hdata f r hf)
    · -- What is left is the acknowledgement itself, which is tried only if it is due.
      by_cases hdue : served.transport.ackDue now
      · obtain ⟨since, hlast, hrecent⟩ := active_of_ackDue hdue
        rw [hunheard.lastData] at hlast
        rw [hunheard.idleTimeout] at hrecent
        exact ⟨since, hlast, hrecent⟩
      · rw [repeatAck, if_neg hdue] at hf
        exact absurd hf List.not_mem_nil

/-! ## Runs -/

/-- On the way to `t'` as many data frames as `n` were counted, and the settings were kept. -/
structure Counts (t : Transport) (n : Nat) (t' : Transport) : Prop where
  ackInterval : t'.ackInterval = t.ackInterval
  idleTimeout : t'.idleTimeout = t.idleTimeout
  arrivals : t'.stats.arrivals = t.stats.arrivals + n.toUInt32

theorem Unheard.counts (h : t.Unheard t') : t.Counts 0 t' :=
  ⟨h.ackInterval, h.idleTimeout, by simpa using h.arrivals⟩

theorem counts_perform (t : Transport) (op : Operation σ) :
    t.Counts op.arrival?.toList.length (t.perform (ε := ε) op).1 := by
  cases op with
  | send m =>
    rw [perform_send]
    cases hsend : t.enqueue m.id m.bytes with
    | error failure => exact Unheard.counts (.of_knowledge rfl)
    | ok queued => exact (unheard_enqueue hsend).counts
  | service now sink => exact (t.unheard_service now sink).counts
  | noteHeard now => exact ⟨rfl, rfl, by simp [perform, noteHeard, Operation.arrival?]⟩
  | reset inform sink => exact (t.unheard_reset inform sink).counts
  | receive now f sink =>
    by_cases hdata : f.isData
    · obtain ⟨hinterval, hidle, -, -, hcount⟩ := t.receive_data_heard hdata now sink
      simp only [Operation.arrival?, hdata, if_true]
      exact ⟨hinterval, hidle, hcount⟩
    · have hunheard := unheard_receive hdata t now sink
      simp only [Operation.arrival?, hdata]
      exact hunheard.counts

/-- **A run counts the data frames that arrive,** and keeps the settings. -/
theorem counts_run (t : Transport) (ops : List (Operation σ)) :
    t.Counts (arrivals ops).length (t.run (ε := ε) ops) := by
  induction ops generalizing t with
  | nil => exact ⟨rfl, rfl, by simp [run, arrivals]⟩
  | cons op ops ih =>
    have hfirst := t.counts_perform (ε := ε) op
    have hothers := ih (t.perform (ε := ε) op).1
    refine ⟨hothers.ackInterval.trans hfirst.ackInterval,
      hothers.idleTimeout.trans hfirst.idleTimeout, hothers.arrivals.trans ?_⟩
    rw [hfirst.arrivals, arrivals_cons, List.length_append]
    simp only [Nat.toUInt32_eq, UInt32.ofNat_add]
    grind

end

end Transport

end SerialLink
