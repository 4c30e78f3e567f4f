import SerialLink.Proofs.Link.Basic
import SerialLink.Proofs.Transport.Queue

/-!
# Runs of a transport

A transport by itself: anything may arrive, at any time and in any order, and the sink may be in any
state whenever it is used. `Transport.Effect` says once what each operation can do to a transport
and which events it causes; what holds of every run is derived from it.

The constructors of `Effect` are the outcomes of the operations, and `perform_effect` says that
there are no others. It is put together from one lemma for each function of the transport
(`sendReset_effect`, `flushReset_effect`, `giveUp_effect`, `service_effect`, `receive_effect`,
`reset_effect`, `enqueue_effect`), each of which cites the ones it calls. An outcome is told up to
`Unmoved`, that is without times and most counters, which few properties look at: what was heard is
followed function by function in `Proofs.Transport.Hearing`, and so are the sink and the counters of
the frames sent in `Proofs.Transport.Wire`. The step lemmas of most other modules, here and in
`Proofs.Link`, go by cases on `Effect`.
-/

namespace SerialLink

namespace Transport

variable {σ ε : Type} {t t' : Transport}

/-! ## Operations -/

/-- What can be done with a `Transport`. -/
inductive Operation (σ : Type) where
  /-- The application hands over a message, which may be refused. -/
  | send (m : Message)
  | service (now : UInt32) (sink : σ)
  /-- A frame arrives. -/
  | receive (now : UInt32) (f : Frame) (sink : σ)
  | noteHeard (now : UInt32)
  | reset (inform : Bool) (sink : σ)

/-- The transport after an operation, and what the operation did. -/
def perform [ByteSink σ ε] (t : Transport) : Operation σ → Transport × List (Event ε)
  | .send m => ((t.submit m.id m.bytes).2, [])
  | .service now sink =>
    let turn := t.service now sink
    (turn.transport, turn.events)
  | .receive now f sink =>
    let turn := t.receive now f sink
    (turn.transport, turn.events)
  | .noteHeard now => (t.noteHeard now, [])
  | .reset inform sink =>
    let turn := (t.reset inform sink).2
    (turn.transport, turn.events)

/-- The transport after operations in order. -/
def run [ByteSink σ ε] (t : Transport) (ops : List (Operation σ)) : Transport :=
  ops.foldl (fun t op => (t.perform op).1) t

/-! ## What an operation can do -/

/-- All of a transport but times and counters other than the one of the frames given up. -/
def core (t : Transport) :=
  (t.window, t.policy, t.queue, t.nextSeq, t.expected, t.state, t.resetPending,
    t.stats.deliveryFailures)

/-- The two differ in times, and in counters other than the one of the frames given up: they have
the same `core`. -/
structure Unmoved (t t' : Transport) : Prop where
  window : t'.window = t.window := by rfl
  policy : t'.policy = t.policy := by rfl
  queue : t'.queue = t.queue := by rfl
  nextSeq : t'.nextSeq = t.nextSeq := by rfl
  expected : t'.expected = t.expected := by rfl
  state : t'.state = t.state := by rfl
  resetPending : t'.resetPending = t.resetPending := by rfl
  deliveryFailures : t'.stats.deliveryFailures = t.stats.deliveryFailures := by rfl

theorem Unmoved.of_core (h : t'.core = t.core) : t.Unmoved t' := by
  simp only [core, Prod.mk.injEq] at h
  obtain ⟨hwindow, hpolicy, hqueue, hnextSeq, hexpected, hstate, hpending, hfailures⟩ := h
  exact ⟨hwindow, hpolicy, hqueue, hnextSeq, hexpected, hstate, hpending, hfailures⟩

theorem Unmoved.trans {u : Transport} (h : t.Unmoved t') (h' : t'.Unmoved u) : t.Unmoved u :=
  ⟨h'.window.trans h.window, h'.policy.trans h.policy, h'.queue.trans h.queue,
    h'.nextSeq.trans h.nextSeq, h'.expected.trans h.expected, h'.state.trans h.state,
    h'.resetPending.trans h.resetPending, h'.deliveryFailures.trans h.deliveryFailures⟩

/-- Numbering starts anew with the queue `q`, after `n` frames were given up. -/
def renew (t : Transport) (q : List Entry) (n : Nat) (pending : Bool) : Transport :=
  { t with
    queue := q
    nextSeq := q.length.toUInt8
    expected := 0
    state := if q.isEmpty then .idle else .running
    resetPending := pending
    stats := { t.stats with deliveryFailures := t.stats.deliveryFailures + n.toUInt32 } }

/-- The events of an attempt to send a reset, and whether the reset is still due after it. -/
inductive Notice : List (Event ε) → Bool → Prop where
  | written {n : Nat} : Notice [.attempted Frame.reset (.ok n)] false
  | due {failure : SendError ε} : Notice [.attempted Frame.reset (.error failure)] true

/-- The events of a repeated acknowledgement, which may not be due. -/
inductive Repeat (expected : UInt8) : List (Event ε) → Prop where
  | none : Repeat expected []
  | sent {r : Except (SendError ε) Nat} : Repeat expected [.attempted (Frame.ack expected) r]

/-- What each `Operation` can do to a transport, and the events that tell of it. -/
inductive Effect [ByteSink σ ε] (t : Transport) :
    Operation σ → List (Event ε) → Transport → Prop where
  | refused {m : Message} {failure : QueueError}
      (hsend : t.enqueue m.id m.bytes = .error failure) : Effect t (.send m) [] t
  | queued {e : Entry} {seq : UInt8} {t' : Transport}
      (hsend : t.enqueue e.message.id e.message.bytes = .ok (seq, t'))
      (hroom : t.queue.length < t.window) (hid : e.id ≤ FrameId.maxAppId)
      (hseq : e.seq = t.nextSeq) (hnew : e.lastSent = none) (hzero : e.retransmits = 0)
      (h : Unmoved { t with
        queue := t.queue ++ [e]
        nextSeq := t.nextSeq + 1
        state := .running } t') : Effect t (.send e.message) [] t'
  | heard {now : UInt32} : Effect t (.noteHeard now) [] (t.noteHeard now)
  /-- A tick ends early because a pending reset cannot be sent. -/
  | blocked {now : UInt32} {sink : σ} {events : List (Event ε)} {t' : Transport}
      (hpending : t.resetPending) (hnotice : Notice events true) (h : t.Unmoved t') :
      Effect t (.service now sink) events t'
  /-- A tick sends what is due, behind a pending reset. -/
  | swept {now : UInt32} {sink : σ} {swept : Sweep σ ε} {flush acks : List (Event ε)}
      {t' : Transport} (hflush : if t.resetPending then Notice flush false else flush = [])
      (hswept : ∃ stats sink, swept = sweep t.policy now stats sink t.queue)
      (hnone : swept.exhausted = none) (hacks : Repeat t.expected acks)
      (h : Unmoved { t with queue := swept.queue, resetPending := false } t') :
      Effect t (.service now sink) (flush ++ swept.events ++ acks) t'
  /-- A tick finds a frame out of retries. -/
  | gaveUp {now : UInt32} {sink : σ} {swept : Sweep σ ε} {k : Nat} {pending : Bool}
      {flush notice acks : List (Event ε)} {t' : Transport}
      (hflush : if t.resetPending then Notice flush false else flush = [])
      (hswept : ∃ stats sink, swept = sweep t.policy now stats sink t.queue)
      (hsome : swept.exhausted = some k) (hnotice : Notice notice pending)
      (hacks : Repeat 0 acks)
      (h : Unmoved (t.renew (kept swept.queue) (lost swept.queue (some k)).length pending) t') :
      Effect t (.service now sink)
        (flush ++ (swept.events ++ ((lost swept.queue (some k)).map .abandoned ++ notice)) ++ acks)
        t'
  | passed {now : UInt32} {f : Frame} {sink : σ} {a : UInt8} (hid : f.id = .app a) :
      Effect t (.receive now f sink) [] t
  /-- An acknowledgement makes no sense. -/
  | spurious {now : UInt32} {f : Frame} {sink : σ} {t' : Transport} (hid : f.id = .ack)
      (hbad : t.resetPending ∨ t.inFlight < (f.seq - t.oldestSeq).toNat) (h : t.Unmoved t') :
      Effect t (.receive now f sink) [] t'
  | acked {now : UInt32} {f : Frame} {sink : σ} {n : Nat} (hid : f.id = .ack)
      (hpending : ¬ t.resetPending) (hn : n = (f.seq - t.oldestSeq).toNat) (hle : n ≤ t.inFlight) :
      Effect t (.receive now f sink) [] { t with queue := t.queue.drop n, state := .running }
  | delivered {now : UInt32} {f : Frame} {sink : σ} {id : UInt8}
      {r : Except (SendError ε) Nat} {t' : Transport} (hid : f.id = .data id)
      (hseq : f.seq = t.expected)
      (h : Unmoved { t with expected := t.expected + 1, state := .running } t') :
      Effect t (.receive now f sink) [.delivered f, .attempted (Frame.ack (t.expected + 1)) r] t'
  | unexpected {now : UInt32} {f : Frame} {sink : σ} {id : UInt8}
      {r : Except (SendError ε) Nat} {t' : Transport} (hid : f.id = .data id)
      (hseq : f.seq ≠ t.expected) (h : Unmoved { t with state := .running } t') :
      Effect t (.receive now f sink) [.attempted (Frame.ack t.expected) r] t'
  | told {now : UInt32} {f : Frame} {sink : σ} {t' : Transport} (hid : f.id = .reset)
      (h : Unmoved (t.renew (kept t.queue) (lost t.queue none).length false) t') :
      Effect t (.receive now f sink) ((lost t.queue none).map .abandoned) t'
  | dropped {sink : σ} {t' : Transport}
      (h : Unmoved (t.renew [] t.queue.length t.resetPending) t') :
      Effect t (.reset false sink) ((t.queue.map (Entry.failure · .linkReset)).map .abandoned) t'
  | reset {sink : σ} {pending : Bool} {notice : List (Event ε)} {t' : Transport}
      (hnotice : Notice notice pending) (h : Unmoved (t.renew [] t.queue.length pending) t') :
      Effect t (.reset true sink)
        ((t.queue.map (Entry.failure · .linkReset)).map .abandoned ++ notice) t'

/-! ## Every operation does one of these -/

theorem unmoved_countUnsent (t : Transport) (failure : SendError ε) :
    t.Unmoved (t.countUnsent failure) := by
  cases failure <;> exact .of_core rfl

/-- `restart` as one update, without the two ways to the link state. -/
theorem restart_eq (t : Transport) (q : List Entry) :
    t.restart q = { t with
      queue := q
      nextSeq := q.length.toUInt8
      expected := 0
      lastAck := none
      state := if q.isEmpty then .idle else .running } := by
  unfold restart
  simp only
  split <;> simp [note, LinkState.after, *]

section

variable [ByteSink σ ε]

/-- `sendAck` moves nothing, whether the acknowledgement is written or not. -/
theorem sendAck_effect (t : Transport) (now : UInt32) (sink : σ) :
    t.Unmoved (t.sendAck now sink).transport ∧
      ∃ r, (t.sendAck now sink).events = [.attempted (Frame.ack t.expected) r] := by
  refine ⟨?_, _, rfl⟩
  simp only [sendAck]
  cases (transmit sink (Frame.ack t.expected)).1 with
  | ok n => exact .of_core rfl
  | error failure => exact unmoved_countUnsent t failure

theorem repeatAck_effect (t : Transport) (now : UInt32) (sink : σ) :
    t.Unmoved (t.repeatAck now sink).transport ∧
      Repeat t.expected (t.repeatAck now sink).events := by
  unfold repeatAck
  split
  · obtain ⟨h, r, hr⟩ := t.sendAck_effect now sink
    exact ⟨h, hr ▸ .sent⟩
  · exact ⟨.of_core rfl, .none⟩

/-- `sendReset` writes a reset that is due, or leaves it due. -/
theorem sendReset_effect (t : Transport) (hpending : t.resetPending) (sink : σ) :
    ∃ pending, Notice (t.sendReset sink).events pending ∧
      Unmoved { t with resetPending := pending } (t.sendReset sink).transport := by
  simp only [sendReset, settleReset]
  cases (transmit sink Frame.reset).1 with
  | ok n => exact ⟨false, .written, .of_core rfl⟩
  | error failure =>
    have hcount := t.unmoved_countUnsent failure
    exact ⟨true, .due, { hcount with resetPending := hcount.resetPending.trans hpending }⟩

/-- `flushReset` is stuck on a reset that is due, or leaves none due. -/
theorem flushReset_effect (t : Transport) (sink : σ) :
    (t.resetPending ∧ Notice (t.flushReset sink).events true ∧
      t.Unmoved (t.flushReset sink).transport) ∨
    ((if t.resetPending then Notice (t.flushReset sink).events false
        else (t.flushReset sink).events = []) ∧
      Unmoved { t with resetPending := false } (t.flushReset sink).transport) := by
  unfold flushReset
  by_cases hpending : t.resetPending
  · rw [if_pos hpending, if_pos hpending]
    obtain ⟨_ | _, hnotice, h⟩ := t.sendReset_effect hpending sink
    · exact .inr ⟨hnotice, h⟩
    · exact .inl ⟨hpending, hnotice, { h with resetPending := h.resetPending.trans hpending.symm }⟩
  · rw [if_neg hpending, if_neg hpending]
    exact .inr ⟨rfl, { resetPending := by simpa using hpending }⟩

/-- `resync` starts anew with what is `kept`, and counts what is `lost`. -/
theorem resync_effect (t : Transport) (exhausted : Option Nat) (pending : Bool) :
    Unmoved (t.renew (kept t.queue) (lost t.queue exhausted).length pending)
      { (t.resync exhausted).1 with resetPending := pending } := by
  simp only [resync, restart_eq]
  exact .of_core rfl

/-- `giveUp` is a `resync` that tells the application, and then the peer. -/
theorem giveUp_effect (t : Transport) (k : Nat) (sink : σ) :
    ∃ notice pending, Notice notice pending ∧
      (t.giveUp k sink).events = (lost t.queue (some k)).map .abandoned ++ notice ∧
      Unmoved (t.renew (kept t.queue) (lost t.queue (some k)).length pending)
        (t.giveUp k sink).transport := by
  have hresync := t.resync_effect (some k)
  have hlost : (t.resync (some k)).2 = lost t.queue (some k) := rfl
  unfold giveUp
  generalize t.resync (some k) = resynced at hresync hlost ⊢
  obtain ⟨u, failures⟩ := resynced
  obtain ⟨pending, hnotice, h⟩ := sendReset_effect { u with resetPending := true } rfl sink
  have hsent : Unmoved { u with resetPending := pending }
      (sendReset { u with resetPending := true } sink).transport := h
  refine ⟨_, pending, hnotice, ?_, ?_⟩
  · rw [← hlost]
  · have hgave := (hresync pending).trans hsent
    dsimp only
    exact hgave

theorem deliveryFailures_sweep (policy : RetryPolicy) (now : UInt32) (stats : TransportStats)
    (sink : σ) (q : List Entry) :
    (sweep policy now stats sink q).stats.deliveryFailures = stats.deliveryFailures := by
  induction q generalizing stats sink with
  | nil => rfl
  | cons e rest ih =>
    obtain ⟨-, h⟩ | ⟨-, h⟩ | ⟨n, sink', h⟩ | ⟨failure, sink', h⟩ :=
      sweep_cons policy now stats sink e rest
    · rw [h]
      exact ih stats sink
    · rw [h]
    · rw [h]
      refine (ih _ sink').trans ?_
      cases e.isSent <;> rfl
    · rw [h]
      cases failure <;> rfl

/-- `service` is a `flushReset` that leaves the reset due, or the pass over the queue and the
repeated acknowledgement behind it. -/
theorem service_cases (t : Transport) (now : UInt32) (sink : σ) :
    let flushed := t.flushReset sink
    let served := flushed.transport.serviceQueue now flushed.sink
    let acked := served.transport.repeatAck now served.sink
    (flushed.transport.resetPending ∧ t.service now sink = flushed) ∨
      (¬ flushed.transport.resetPending ∧ t.service now sink =
        { acked with events := flushed.events ++ served.events ++ acked.events }) := by
  intro flushed served acked
  by_cases hpending : flushed.transport.resetPending
  · exact .inl ⟨hpending, if_pos hpending⟩
  · exact .inr ⟨hpending, if_neg hpending⟩

theorem service_effect (t : Transport) (now : UInt32) (sink : σ) :
    t.Effect (.service now sink) (t.service now sink).events (t.service now sink).transport := by
  have hflushed := t.flushReset_effect sink
  unfold service
  simp only
  generalize t.flushReset sink = flushed at hflushed ⊢
  obtain ⟨hpending, hnotice, h⟩ | ⟨hflush, h⟩ := hflushed
  · rw [if_pos (h.resetPending.trans hpending)]
    exact .blocked hpending hnotice h
  · have hsent : flushed.transport.resetPending = false := h.resetPending
    rw [if_neg (by simp [hsent])]
    -- The pass works on the queue as it was before the tick.
    have hswept : ∃ stats sink, sweep flushed.transport.policy now flushed.transport.stats
        flushed.sink flushed.transport.queue = sweep t.policy now stats sink t.queue :=
      ⟨_, _, by rw [h.policy, h.queue]⟩
    have hfailures := deliveryFailures_sweep flushed.transport.policy now flushed.transport.stats
      flushed.sink flushed.transport.queue
    unfold serviceQueue
    simp only
    generalize sweep flushed.transport.policy now flushed.transport.stats flushed.sink
      flushed.transport.queue = swept at hswept hfailures ⊢
    have hpassed : Unmoved { t with queue := swept.queue, resetPending := false }
        { flushed.transport with queue := swept.queue, stats := swept.stats } :=
      { h with queue := rfl, deliveryFailures := hfailures.trans h.deliveryFailures }
    generalize { flushed.transport with queue := swept.queue, stats := swept.stats } = passed
      at hpassed ⊢
    -- What is acknowledged again behind the pass depends on whether it ended in a restart.
    cases hexhausted : swept.exhausted with
    | none =>
      obtain ⟨hacked, hacks⟩ := passed.repeatAck_effect now swept.sink
      rw [hpassed.expected] at hacks
      exact .swept hflush hswept hexhausted hacks (hpassed.trans hacked)
    | some k =>
      obtain ⟨notice, pending, hnotice, hevents, hgave⟩ := passed.giveUp_effect k swept.sink
      simp only
      generalize passed.giveUp k swept.sink = gave at hevents hgave ⊢
      obtain ⟨hacked, hacks⟩ := gave.transport.repeatAck_effect now gave.sink
      rw [hgave.expected] at hacks
      rw [hpassed.queue] at hevents hgave
      have hrenewed : Unmoved
          (t.renew (kept swept.queue) (lost swept.queue (some k)).length pending)
          (passed.renew (kept swept.queue) (lost swept.queue (some k)).length pending) :=
        { window := hpassed.window, policy := hpassed.policy,
          deliveryFailures := by simp only [renew, hpassed.deliveryFailures] }
      rw [hevents]
      exact .gaveUp hflush hswept hexhausted hnotice hacks
        ((hrenewed.trans hgave).trans hacked)

/-- `acceptData` hands a data frame over when it is the one expected. -/
theorem acceptData_effect (t : Transport) (f : Frame) :
    (f.seq = t.expected ∧ (t.acceptData f).2 = [Event.delivered (ε := ε) f] ∧
      Unmoved { t with expected := t.expected + 1 } (t.acceptData (ε := ε) f).1) ∨
    (f.seq ≠ t.expected ∧ (t.acceptData f).2 = ([] : List (Event ε)) ∧
      t.Unmoved (t.acceptData (ε := ε) f).1) := by
  unfold acceptData
  by_cases hseq : f.seq = t.expected
  · rw [if_pos hseq]
    exact .inl ⟨hseq, rfl, .of_core rfl⟩
  · rw [if_neg hseq]
    refine .inr ⟨hseq, ?_⟩
    split <;> exact ⟨rfl, .of_core rfl⟩

theorem receive_effect (t : Transport) (now : UInt32) (f : Frame) (sink : σ) :
    t.Effect (.receive now f sink) (t.receive now f sink).events
      (t.receive now f sink).transport := by
  unfold receive
  cases hid : f.id with
  | app a => exact .passed hid
  | ack =>
    simp only [onAck]
    split
    · next hbad => exact .spurious hid hbad (.of_core rfl)
    · next hgood =>
      obtain ⟨hpending, hle⟩ := not_or.mp hgood
      exact .acked hid hpending rfl (Nat.le_of_not_lt hle)
  | reset =>
    refine .told hid ?_
    simp only [onReset, resync, restart_eq]
    exact .of_core rfl
  | data id =>
    have hheard : Unmoved { t with state := .running }
        ({ t with lastData := some now }.note .frameReceived) := .of_core rfl
    simp only [onData]
    generalize { t with lastData := some now }.note .frameReceived = heard at hheard ⊢
    have haccepted := heard.acceptData_effect (ε := ε) f
    generalize heard.acceptData f = accepted at haccepted ⊢
    obtain ⟨u, events⟩ := accepted
    -- The acknowledgement is of what is expected after the frame was looked at.
    obtain ⟨hacked, r, hevents⟩ := u.sendAck_effect now sink
    rw [hevents]
    obtain ⟨hseq, rfl, h⟩ | ⟨hseq, rfl, h⟩ := haccepted
    · have hexpected : Unmoved { t with expected := t.expected + 1, state := .running }
          { heard with expected := heard.expected + 1 } :=
        { hheard with expected := by simp only [hheard.expected] }
      have hu := hexpected.trans h
      rw [hu.expected]
      exact .delivered hid (hseq.trans hheard.expected) (hu.trans hacked)
    · have hu := hheard.trans h
      rw [hu.expected]
      exact .unexpected hid (fun h => hseq (h.trans hheard.expected.symm)) (hu.trans hacked)

theorem reset_effect (t : Transport) (inform : Bool) (sink : σ) :
    t.Effect (.reset inform sink) (t.reset inform sink).2.events
      (t.reset inform sink).2.transport := by
  unfold reset
  simp only [List.length_map, restart_eq]
  cases inform with
  | false => exact .dropped (.of_core rfl)
  | true =>
    obtain ⟨pending, hnotice, h⟩ :=
      sendReset_effect { t.renew [] t.queue.length true with lastAck := none } rfl sink
    have hrestarted : Unmoved (t.renew [] t.queue.length pending)
        { t.renew [] t.queue.length pending with lastAck := none } := .of_core rfl
    have hreset := hrestarted.trans h
    simp only [sendReset] at hnotice hreset
    simp only [if_true]
    exact .reset hnotice hreset

/-- A message that `enqueue` accepts is queued as it is, behind the others. -/
theorem enqueue_effect {m : Message} {seq : UInt8} (h : t.enqueue m.id m.bytes = .ok (seq, t')) :
    ∃ e : Entry, e.message = m ∧ t.queue.length < t.window ∧ e.id ≤ FrameId.maxAppId ∧
      e.seq = t.nextSeq ∧ e.lastSent = none ∧ e.retransmits = 0 ∧
      Unmoved { t with
        queue := t.queue ++ [e]
        nextSeq := t.nextSeq + 1
        state := .running } t' := by
  obtain ⟨id, bytes⟩ := m
  obtain ⟨hroom, hid, -, p, rfl, rfl⟩ := enqueue_eq_ok h
  exact ⟨{ id, seq := t.nextSeq, payload := p }, rfl, hroom, hid, rfl, rfl, rfl, .of_core rfl⟩

/-- A message that is refused leaves the transport as it was, and one that is accepted leaves what
`enqueue` hands back. -/
theorem perform_send (t : Transport) (m : Message) :
    t.perform (ε := ε) (.send m : Operation σ) =
      match t.enqueue m.id m.bytes with
      | .ok (_, t') => (t', [])
      | .error _ => (t, []) := by
  simp only [perform, enqueue_eq_submit]
  obtain ⟨failure, h⟩ | ⟨-, -, p, -, h⟩ := t.submit_cases m.id m.bytes <;> rw [h] <;> rfl

/-- **Every operation has one of the effects listed.** -/
theorem perform_effect (t : Transport) (op : Operation σ) :
    t.Effect op (t.perform op).2 (t.perform op).1 := by
  cases op with
  | send m =>
    rw [perform_send]
    cases hsend : t.enqueue m.id m.bytes with
    | error failure => exact Effect.refused hsend
    | ok queued =>
      obtain ⟨seq, t'⟩ := queued
      obtain ⟨e, rfl, hroom, hid, hseq, hnew, hzero, h⟩ := enqueue_effect hsend
      exact Effect.queued hsend hroom hid hseq hnew hzero h
  | service now sink => exact t.service_effect now sink
  | receive now f sink => exact t.receive_effect now f sink
  | noteHeard now => exact .heard
  | reset inform sink => exact t.reset_effect inform sink

end

end Transport

end SerialLink
