import SerialLink.Proofs.Transport.Invariant
import SerialLink.Proofs.Transmit

/-!
# What reaches the wire

Every operation offers its frames to the sink one after the other, each of them whole and in one
write, and only where the sink says that it has room for it. The counters of a transport tell how
many of its frames were sent.

`Wired` relates the events of an operation to what was done to its sink, and `Tally` relates them to
the counters; a `Ledger` has both, and that the frames are `Genuine`. Ledgers compose
(`Ledger.append`), so there is one lemma for each function of the transport, and it follows the body
of the function: `ledger_sendAck`, `ledger_sweep`, `ledger_service`, `ledger_receive`,
`ledger_reset`. `Proofs.Endpoint.Wire` reads the bytes of a transmit queue off them,
`Proofs.Transport.Space` how much room is needed, and `Wired.calls` says the same in terms of the
calls that a `Watched` sink records.
-/

namespace SerialLink

variable {σ ε : Type}

/-! ## Frames that the wire can carry -/

/-- The wire carries the frame as it is: it can be encoded, and is its own `readBack`. -/
structure Frame.Genuine (f : Frame) : Prop where
  valid : f.id.Valid
  seq : ¬ f.id.hasSeq → f.seq = 0

namespace Frame

theorem genuine_ack (expected : UInt8) : (ack expected).Genuine :=
  ⟨FrameId.valid_ack, fun h => absurd rfl h⟩

theorem genuine_reset : reset.Genuine := ⟨FrameId.valid_reset, fun _ => rfl⟩

/-- What `Frame.app` makes is `Genuine`. -/
theorem genuine_app {id : UInt8} {payload : List UInt8} {f : Frame}
    (h : app id payload = .ok f) : f.Genuine ∧ f.id = .app id := by
  unfold app make at h
  split at h
  · next hid =>
    split at h
    · rw [← Except.ok.inj h]
      exact ⟨⟨hid, fun _ => rfl⟩, rfl⟩
    · exact absurd h (by simp)
  · exact absurd h (by simp)

end Frame

theorem Entry.genuine_frame {e : Entry} (h : e.id ≤ FrameId.maxAppId) : e.frame.Genuine :=
  ⟨FrameId.valid_data.mpr h, fun hseq => absurd rfl hseq⟩

/-! ## Offers to the sink -/

/-- The events tell all that was done to the sink on the way from its first state to its last. An
attempt either leaves it alone, for lack of room, or begins a frame, writes the whole encoding at
once, and ends the frame. -/
inductive Wired [ByteSink σ ε] : σ → List (Event ε) → σ → Prop where
  | done {sink : σ} : Wired sink [] sink
  | refused {f : Frame} {bytes : List UInt8} {sink sink' : σ} {events : List (Event ε)}
      (hencode : f.encode = .ok bytes) (hroom : ByteSink.room sink < bytes.length)
      (h : Wired sink events sink') :
      Wired sink
        (.attempted f (.error (.noRoom bytes.length (ByteSink.room sink))) :: events) sink'
  | offered {f : Frame} {bytes : List UInt8} {sink sink' : σ} {events : List (Event ε)}
      (hencode : f.encode = .ok bytes) (hroom : bytes.length ≤ ByteSink.room sink)
      (h : Wired (ByteSink.endFrame (ByteSink.write (ByteSink.beginFrame sink) bytes).2) events
        sink') :
      Wired sink
        (.attempted f (sendResult bytes.length
          (ByteSink.write (ByteSink.beginFrame sink) bytes).1) :: events) sink'
  | delivered {f : Frame} {sink sink' : σ} {events : List (Event ε)}
      (h : Wired sink events sink') : Wired sink (.delivered f :: events) sink'
  | abandoned {failure : DeliveryFailure} {sink sink' : σ} {events : List (Event ε)}
      (h : Wired sink events sink') : Wired sink (.abandoned failure :: events) sink'

namespace Wired

variable [ByteSink σ ε] {sink sink' sink'' : σ} {events events' : List (Event ε)}

theorem append (h : Wired sink events sink') (h' : Wired sink' events' sink'') :
    Wired sink (events ++ events') sink'' := by
  induction h with
  | done => exact h'
  | refused hencode hroom _ ih => exact .refused hencode hroom (ih h')
  | offered hencode hroom _ ih => exact .offered hencode hroom (ih h')
  | delivered _ ih => exact .delivered (ih h')
  | abandoned _ ih => exact .abandoned (ih h')

/-- A `transmit` is `Wired`, with the one event that tells of it. -/
theorem attempt {f : Frame} (h : f.id.Valid) (sink : σ) :
    Wired sink [.attempted f (transmit sink f).1] (transmit sink f).2 := by
  have hencode := Frame.encode_eq_wire h
  rw [transmit_eq h]
  split
  · next hroom => exact .refused hencode hroom .done
  · next hroom => exact .offered hencode (Nat.le_of_not_lt hroom) .done

theorem of_abandoned (failures : List DeliveryFailure) (sink : σ) :
    Wired sink (failures.map (Event.abandoned (ε := ε))) sink := by
  induction failures with
  | nil => exact .done
  | cons failure failures ih => exact .abandoned ih

end Wired

/-! ## Calls on a sink -/

/-- A call that may change a sink. -/
inductive Call where
  | beginFrame
  | write (bytes : List UInt8)
  | endFrame
  deriving DecidableEq

/-- A sink with a record of the calls made on it. -/
structure Watched (σ : Type) where
  sink : σ
  calls : List Call

instance [ByteSink σ ε] : ByteSink (Watched σ) ε where
  room w := ByteSink.room w.sink
  write w bytes :=
    let written := ByteSink.write w.sink bytes
    (written.1, ⟨written.2, w.calls ++ [.write bytes]⟩)
  beginFrame w := ⟨ByteSink.beginFrame w.sink, w.calls ++ [.beginFrame]⟩
  endFrame w := ⟨ByteSink.endFrame w.sink, w.calls ++ [.endFrame]⟩

/-- The calls that an attempt makes: none without room, and one write of the whole encoding
otherwise. -/
def Event.calls : Event ε → List Call
  | .attempted _ (.error (.noRoom _ _)) => []
  | .attempted f _ => [.beginFrame, .write f.wire, .endFrame]
  | .delivered _ | .abandoned _ => []

theorem calls_sendResult (f : Frame) (expected : Nat) (result : Except ε Nat) :
    Event.calls (.attempted f (sendResult expected result)) =
      [.beginFrame, .write f.wire, .endFrame] := by
  unfold sendResult
  cases result with
  | error failure => rfl
  | ok n =>
    simp only
    split <;> rfl

/-- A `Watched` sink sees just the calls that the events tell of. -/
theorem Wired.calls [ByteSink σ ε] {w w' : Watched σ} {events : List (Event ε)}
    (h : Wired w events w') : w'.calls = w.calls ++ events.flatMap Event.calls := by
  induction h with
  | done => simp
  | refused _ _ _ ih | delivered _ ih | abandoned _ ih => exact ih
  | offered hencode _ _ ih =>
    rw [ih, List.flatMap_cons, calls_sendResult, Frame.eq_wire_of_encode hencode]
    simp [ByteSink.write, ByteSink.beginFrame, ByteSink.endFrame]

/-! ## Counting frames -/

/-- The counters of the data frames and acknowledgements sent: `framesSent`, `framesRetransmitted`
and `acksSent`. -/
def TransportStats.sent (s : TransportStats) : UInt32 × UInt32 × UInt32 :=
  (s.framesSent, s.framesRetransmitted, s.acksSent)

theorem TransportStats.sent_countUnsent (s : TransportStats) (failure : SendError ε) :
    (s.countUnsent failure).sent = s.sent := by
  cases failure <;> rfl

/-- The counters tell how many data frames and acknowledgements were written. -/
structure Tally (stats : TransportStats) (frames : List Frame) (stats' : TransportStats) :
    Prop where
  data : stats'.framesSent + stats'.framesRetransmitted =
    stats.framesSent + stats.framesRetransmitted + (frames.countP Frame.isData).toUInt32
  acks : stats'.acksSent =
    stats.acksSent + (frames.countP fun f => f.id = .ack).toUInt32

namespace Tally

variable {stats stats' stats'' : TransportStats} {frames frames' : List Frame}

theorem append (h : Tally stats frames stats') (h' : Tally stats' frames' stats'') :
    Tally stats (frames ++ frames') stats'' where
  data := by
    rw [h'.data, h.data, List.countP_append, Nat.toUInt32_eq, Nat.toUInt32_eq, Nat.toUInt32_eq,
      UInt32.ofNat_add, UInt32.add_assoc]
  acks := by
    rw [h'.acks, h.acks, List.countP_append, Nat.toUInt32_eq, Nat.toUInt32_eq, Nat.toUInt32_eq,
      UInt32.ofNat_add, UInt32.add_assoc]

/-- Nothing is counted when only resets and application frames are written. -/
theorem of_others (hsent : stats'.sent = stats.sent)
    (hframes : ∀ f ∈ frames, ¬ f.isData ∧ f.id ≠ .ack) : Tally stats frames stats' := by
  simp only [TransportStats.sent, Prod.mk.injEq] at hsent
  obtain ⟨hfirst, hagain, hacks⟩ := hsent
  -- No frame among these is one of those counted.
  have hnoData : frames.countP Frame.isData = 0 :=
    List.countP_eq_zero.mpr fun f hf => (hframes f hf).1
  have hnoAck : (frames.countP fun f => f.id = .ack) = 0 :=
    List.countP_eq_zero.mpr fun f hf => by simpa using (hframes f hf).2
  exact ⟨by simp [hfirst, hagain, hnoData], by simp [hacks, hnoAck]⟩

/-- `countSent` counts the data frame of an entry. -/
theorem of_sent (stats : TransportStats) (e : Entry) :
    Tally stats [e.frame] (Transport.countSent stats e.isSent) where
  data := by
    -- The frame is counted under one of the two, for the first time or again.
    have hcount : [e.frame].countP Frame.isData = 1 := rfl
    rw [hcount]
    unfold Transport.countSent
    split
    · simp only [UInt32.add_assoc]
      rfl
    · simp only [UInt32.add_assoc, UInt32.add_comm stats.framesRetransmitted]
      rfl
  acks := by
    have hcount : ([e.frame].countP fun f => f.id = .ack) = 0 := rfl
    rw [hcount]
    unfold Transport.countSent
    split <;> simp

end Tally

/-! ## Turns of a transport -/

/-- What the events of an operation tell of the sink and of the counters. -/
structure Ledger [ByteSink σ ε] (stats : TransportStats) (sink : σ) (events : List (Event ε))
    (stats' : TransportStats) (sink' : σ) : Prop where
  wired : Wired sink events sink'
  genuine : ∀ f ∈ written events, f.Genuine
  tally : Tally stats (written events) stats'

namespace Ledger

variable [ByteSink σ ε] {stats stats' stats'' : TransportStats} {sink sink' sink'' : σ}
  {events events' : List (Event ε)}

/-- What is done after one another makes one `Ledger`. -/
theorem append (h : Ledger stats sink events stats' sink')
    (h' : Ledger stats' sink' events' stats'' sink'') :
    Ledger stats sink (events ++ events') stats'' sink'' where
  wired := h.wired.append h'.wired
  genuine f hf := by
    rw [written_append, List.mem_append] at hf
    rcases hf with hf | hf
    · exact h.genuine f hf
    · exact h'.genuine f hf
  tally := by
    rw [written_append]
    exact h.tally.append h'.tally

/-- The `Ledger` of doing nothing: no frame is sent, and none is counted. -/
theorem idle (hsent : stats'.sent = stats.sent) (sink : σ) :
    Ledger stats sink ([] : List (Event ε)) stats' sink where
  wired := .done
  genuine := by simp
  tally := .of_others hsent (by simp)

theorem of_abandoned (failures : List DeliveryFailure) (hsent : stats'.sent = stats.sent)
    (sink : σ) :
    Ledger stats sink (failures.map (Event.abandoned (ε := ε))) stats' sink where
  wired := .of_abandoned failures sink
  genuine := by simp
  tally := by
    rw [written_abandoned]
    exact .of_others hsent (by simp)

section attempt

variable {f : Frame} (hf : f.Genuine)

include hf

/-- The `Ledger` of a frame that was sent whole. -/
theorem sent {n : Nat} (hsent : transmit sink f = (.ok n, sink'))
    (htally : Tally stats [f] stats') :
    Ledger stats sink [.attempted f (.ok n)] stats' sink' where
  wired := by
    have hwired := Wired.attempt hf.valid sink
    rwa [hsent] at hwired
  genuine g hg := List.mem_singleton.mp hg ▸ hf
  tally := htally

/-- The `Ledger` of a frame that could not be sent. -/
theorem unsent {failure : SendError ε} (hsent : transmit sink f = (.error failure, sink'))
    (hstats : stats'.sent = stats.sent) :
    Ledger stats sink [.attempted f (.error failure)] stats' sink' where
  wired := by
    have hwired := Wired.attempt hf.valid sink
    rwa [hsent] at hwired
  genuine g hg := absurd hg List.not_mem_nil
  tally := .of_others hstats (by simp)

end attempt

end Ledger

namespace Transport

variable [ByteSink σ ε] {t : Transport}

theorem ledger_sendAck (t : Transport) (now : UInt32) (sink : σ) :
    Ledger t.stats sink (t.sendAck now sink).events (t.sendAck now sink).transport.stats
      (t.sendAck now sink).sink := by
  have hack := Frame.genuine_ack t.expected
  simp only [sendAck]
  rcases hsent : transmit sink (Frame.ack t.expected) with ⟨failure | n, sink'⟩
  · exact .unsent hack hsent (t.stats.sent_countUnsent failure)
  · apply Ledger.sent hack hsent
    exact ⟨by simp [afterAck, Frame.isData, Frame.ack], by simp [afterAck, Frame.ack]⟩

theorem ledger_settleReset (t : Transport) (sink : σ) :
    Ledger t.stats sink (t.settleReset (transmit sink Frame.reset)).events
      (t.settleReset (transmit sink Frame.reset)).transport.stats
      (t.settleReset (transmit sink Frame.reset)).sink := by
  simp only [settleReset]
  rcases hsent : transmit sink Frame.reset with ⟨failure | n, sink'⟩
  · exact .unsent Frame.genuine_reset hsent (t.stats.sent_countUnsent failure)
  · apply Ledger.sent Frame.genuine_reset hsent
    exact .of_others rfl (by simp [Frame.isData, Frame.reset])

theorem ledger_sweep (policy : RetryPolicy) (now : UInt32) (stats : TransportStats) (sink : σ)
    {q : List Entry} (hid : ∀ e ∈ q, e.id ≤ FrameId.maxAppId) :
    Ledger stats sink (sweep policy now stats sink q).events
      (sweep policy now stats sink q).stats (sweep policy now stats sink q).sink := by
  induction q generalizing stats sink with
  | nil => exact .idle rfl sink
  | cons e rest ih =>
    have he : e.frame.Genuine := Entry.genuine_frame (hid e (List.mem_cons_self ..))
    have hrest := fun x hx => hid x (List.mem_cons_of_mem e hx)
    unfold sweep
    cases e.action policy now with
    | wait => exact ih stats sink hrest
    | giveUp => exact .idle rfl sink
    | send | resend =>
      -- The pass goes on behind a frame that was sent, and stops at one that was not.
      simp only
      rcases hsent : transmit sink e.frame with ⟨failure | n, sink'⟩
      · exact .unsent he hsent (stats.sent_countUnsent failure)
      · have hfirst := Ledger.sent he hsent (Tally.of_sent stats e)
        exact hfirst.append (ih _ sink' hrest)

/-! ## Operations -/

theorem sent_enqueue {id seq : UInt8} {payload : List UInt8} {t' : Transport}
    (h : t.enqueue id payload = .ok (seq, t')) : t'.stats.sent = t.stats.sent := by
  obtain ⟨-, -, -, p, -, rfl⟩ := enqueue_eq_ok h
  rfl

theorem sent_resync (t : Transport) (exhausted : Option Nat) :
    (t.resync exhausted).1.stats.sent = t.stats.sent := by
  simp only [resync, restart_eq]
  rfl

theorem ledger_giveUp (t : Transport) (k : Nat) (sink : σ) :
    Ledger t.stats sink (t.giveUp k sink).events (t.giveUp k sink).transport.stats
      (t.giveUp k sink).sink := by
  have hsent := t.sent_resync (some k)
  unfold giveUp
  generalize t.resync (some k) = resynced at hsent ⊢
  obtain ⟨u, failures⟩ := resynced
  have hreset := ledger_settleReset { u with resetPending := true } sink
  -- The reset is tried behind the reports, and its counters are not those of the tally.
  dsimp only [sendReset]
  generalize settleReset { u with resetPending := true } (transmit sink Frame.reset) = turn
    at hreset ⊢
  exact (Ledger.of_abandoned failures hsent sink).append hreset

theorem ledger_serviceQueue (t : Transport) (now : UInt32) (sink : σ)
    (hid : ∀ e ∈ t.queue, e.id ≤ FrameId.maxAppId) :
    Ledger t.stats sink (t.serviceQueue now sink).events (t.serviceQueue now sink).transport.stats
      (t.serviceQueue now sink).sink := by
  have hswept := ledger_sweep t.policy now t.stats sink hid
  unfold serviceQueue
  simp only
  generalize sweep t.policy now t.stats sink t.queue = swept at hswept ⊢
  cases swept.exhausted with
  | none => exact hswept
  | some k =>
    have hgave := ledger_giveUp { t with queue := swept.queue, stats := swept.stats } k swept.sink
    dsimp only
    generalize giveUp { t with queue := swept.queue, stats := swept.stats } k swept.sink = turn
      at hgave ⊢
    exact hswept.append hgave

theorem ledger_repeatAck (t : Transport) (now : UInt32) (sink : σ) :
    Ledger t.stats sink (t.repeatAck now sink).events (t.repeatAck now sink).transport.stats
      (t.repeatAck now sink).sink := by
  unfold repeatAck
  split
  · exact t.ledger_sendAck now sink
  · exact .idle rfl sink

theorem ledger_flushReset (t : Transport) (sink : σ) :
    Ledger t.stats sink (t.flushReset sink).events (t.flushReset sink).transport.stats
      (t.flushReset sink).sink := by
  unfold flushReset
  split
  · exact t.ledger_settleReset sink
  · exact .idle rfl sink

/-- **The `Ledger` of a tick.** Every queued frame has to have a valid identifier, which `Regular`
gives. -/
theorem ledger_service (t : Transport) (now : UInt32) (sink : σ)
    (hid : ∀ e ∈ t.queue, e.id ≤ FrameId.maxAppId) :
    Ledger t.stats sink (t.service now sink).events (t.service now sink).transport.stats
      (t.service now sink).sink := by
  have hflushed := t.ledger_flushReset sink
  unfold service
  simp only
  split
  · exact hflushed
  · -- The reset is settled first, then come the queue and the repeated acknowledgement.
    have hqueue : (t.flushReset sink).transport.queue = t.queue := t.queue_flushReset sink
    have hserved := ledger_serviceQueue (t.flushReset sink).transport now (t.flushReset sink).sink
      (hqueue ▸ hid)
    exact (hflushed.append hserved).append (ledger_repeatAck _ now _)

theorem ledger_acceptData (t : Transport) (f : Frame) (sink : σ) :
    Ledger t.stats sink (t.acceptData (ε := ε) f).2 (t.acceptData (ε := ε) f).1.stats sink := by
  unfold acceptData
  split
  · exact ⟨.delivered .done, by simp, .of_others rfl (by simp)⟩
  · split
    · apply Ledger.idle
      rfl
    · apply Ledger.idle
      rfl

theorem ledger_onData (t : Transport) (now : UInt32) (f : Frame) (sink : σ) :
    Ledger t.stats sink (t.onData now f sink).events (t.onData now f sink).transport.stats
      (t.onData now f sink).sink := by
  have hheard : ({ t with lastData := some now }.note .frameReceived).stats = t.stats := rfl
  unfold onData
  generalize { t with lastData := some now }.note .frameReceived = heard at hheard ⊢
  have haccepted := heard.ledger_acceptData (ε := ε) f sink
  rw [hheard] at haccepted
  dsimp only
  generalize heard.acceptData (ε := ε) f = accepted at haccepted ⊢
  have hacked := accepted.1.ledger_sendAck now sink
  generalize accepted.1.sendAck now sink = turn at hacked ⊢
  exact haccepted.append hacked

/-- **The `Ledger` of a frame that arrives.** -/
theorem ledger_receive (t : Transport) (now : UInt32) (f : Frame) (sink : σ) :
    Ledger t.stats sink (t.receive now f sink).events (t.receive now f sink).transport.stats
      (t.receive now f sink).sink := by
  unfold receive
  cases f.id with
  | app a => exact .idle rfl sink
  | data id => exact t.ledger_onData now f sink
  | ack =>
    simp only [onAck]
    split
    · apply Ledger.idle
      rfl
    · apply Ledger.idle
      rfl
  | reset =>
    apply Ledger.of_abandoned
    exact sent_resync _ none

/-- **The `Ledger` of a reset by the application.** -/
theorem ledger_reset (t : Transport) (inform : Bool) (sink : σ) :
    Ledger t.stats sink (t.reset inform sink).2.events (t.reset inform sink).2.transport.stats
      (t.reset inform sink).2.sink := by
  -- Failures are counted apart from what is sent.
  have hsent : ((t.countFailures (t.queue.map (Entry.failure · .linkReset)).length).restart
      []).stats.sent = t.stats.sent := by
    rw [restart_eq]
    rfl
  unfold reset
  simp only
  generalize (t.countFailures (t.queue.map (Entry.failure · .linkReset)).length).restart [] = u
    at hsent ⊢
  have hfailed := Ledger.of_abandoned (ε := ε) (t.queue.map (Entry.failure · .linkReset)) hsent sink
  cases inform with
  | false => exact hfailed
  | true =>
    have hreset := ledger_settleReset { u with resetPending := true } sink
    simp only [if_true]
    generalize settleReset { u with resetPending := true } (transmit sink Frame.reset) = turn
      at hreset ⊢
    exact hfailed.append hreset

end Transport

end SerialLink
