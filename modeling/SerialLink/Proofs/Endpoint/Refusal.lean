import SerialLink.Proofs.Endpoint.Run
import SerialLink.Proofs.Transmit
import SerialLink.Proofs.Transport.Callbacks

/-!
# Operations that fail

A request to send is looked at in full before anything is changed, so that one that is refused
leaves the endpoint as it was. A restart of the numbering works the other way round: it takes full
effect, and only then is it tried to tell the peer, which may fail.

For each of these operations there is an equation for what it answers and a lemma for what it leaves
behind, on failure too: `submit_eq` with `submit_refused` and `submit_queued`,
`sendUnreliable_cases`, and `resetTransport_eq` with `Transport.reset_restarts`. Whether a frame
goes out at all is `transmit_eq_ok_iff`, from `transmit_eq` in `Proofs.Transmit`. `submit_eq` rests
on `Transport.submit_eq` in `Proofs.Transport.Queue`, where the window, the identifier and the
length are looked at.
-/

namespace SerialLink

namespace Transport

variable {σ ε : Type} [ByteSink σ ε]

/-! ## Restarting -/

/-- **A restart that is to be announced takes full effect**, whatever comes of the announcement. -/
theorem reset_restarts (t : Transport) (sink : σ) :
    let turn := (t.reset true sink).2
    turn.transport.queue = [] ∧ turn.transport.nextSeq = 0 ∧ turn.transport.expected = 0 ∧
      turn.transport.state = .idle ∧
      turn.transport.stats.deliveryFailures =
        t.stats.deliveryFailures + t.pending.toUInt32 ∧
      failures turn.events = t.queue.map (Entry.failure · .linkReset) := by
  simp only [reset, if_true, settleReset, failures_append, failures_abandoned, List.length_map,
    restart_eq]
  have hnotice : failures [Event.attempted Frame.reset (transmit sink Frame.reset).1] = [] := rfl
  rw [hnotice, List.append_nil]
  cases (transmit sink Frame.reset).1 with
  | ok n => exact ⟨rfl, rfl, rfl, rfl, rfl, rfl⟩
  | error failure => cases failure <;> exact ⟨rfl, rfl, rfl, rfl, rfl, rfl⟩

/-- After a `reset` that is to be announced, the announcement is pending until it is sent. -/
theorem resetPending_reset (t : Transport) (sink : σ) :
    (t.reset true sink).2.transport.resetPending = true ↔
      ∀ n, (transmit sink Frame.reset).1 ≠ .ok n := by
  simp only [reset, if_true, settleReset]
  cases (transmit sink Frame.reset).1 with
  | ok n => simp [afterReset]
  | error failure => simp [afterReset, countUnsent]

end Transport

/-- `transmit` sends a frame when the sink has room for it and takes it whole. -/
theorem transmit_eq_ok_iff {σ ε : Type} [ByteSink σ ε] {f : Frame} (h : f.id.Valid) (sink : σ)
    (n : Nat) :
    (transmit sink f).1 = .ok n ↔ n = f.wire.length ∧ f.wire.length ≤ ByteSink.room sink ∧
      (ByteSink.write (ByteSink.beginFrame sink) f.wire).1 = .ok f.wire.length := by
  rw [transmit_eq h]
  split
  · next hroom =>
    have hlack : ¬ f.wire.length ≤ ByteSink.room sink := Nat.not_le.mpr hroom
    simp [hlack]
  · next hroom =>
    have hfits : f.wire.length ≤ ByteSink.room sink := Nat.not_lt.mp hroom
    cases (ByteSink.write (ByteSink.beginFrame sink) f.wire).1 with
    | error failure => simp [sendResult]
    | ok k =>
      by_cases hk : k = f.wire.length
      · simp [sendResult, hk, hfits, eq_comm]
      · simp [sendResult, hk]

/-- A restart that is announced fails only by a sink that has room: a lack of room leaves the reset
pending, which `resetResult` takes for no failure. -/
theorem Transport.resetResult_transmit {σ ε : Type} [ByteSink σ ε] {f : Frame} (h : f.id.Valid)
    (sink : σ) :
    resetResult (transmit sink f).1 =
      if ByteSink.room sink < f.wire.length then .ok ()
      else match (ByteSink.write (ByteSink.beginFrame sink) f.wire).1 with
        | .ok n => if n = f.wire.length then .ok () else .error (.shortWrite n f.wire.length)
        | .error failure => .error (.sink failure) := by
  rw [transmit_eq h]
  split
  · rfl
  · cases (ByteSink.write (ByteSink.beginFrame sink) f.wire).1 with
    | error failure => rfl
    | ok n =>
      by_cases hn : n = f.wire.length
      · simp only [sendResult, if_pos hn, resetResult]
      · simp only [sendResult, if_neg hn, resetResult]

namespace Endpoint

variable {σ ε ρ ε' : Type} [ByteSink σ ε] [ByteSource ρ ε']

/-! ## Sending -/

omit [ByteSink σ ε] in
/-- `submit` looks at the settings first, and leaves the endpoint as it was wherever it refuses;
the rest is `Transport.submit_eq`. -/
theorem submit_eq (e : Endpoint σ) (id : UInt8) (payload : List UInt8) :
    e.submit (ε := ε) id payload =
      if ¬ e.config.transport then (.error .transportDisabled, e)
      else if e.transport.window ≤ e.transport.pending then (.error (.queue .full), e)
      else if FrameId.maxAppId < id then (.error (.queue (.frame .invalidId)), e)
      else if hfits : payload.length ≤ Payload.maxLength then
        (.ok e.transport.nextSeq, { e with transport := e.transport.queued id ⟨payload, hfits⟩ })
      else (.error (.queue (.frame .payloadTooLarge)), e) := by
  unfold submit
  rw [Transport.submit_eq]
  cases e.config.transport with
  | false => rfl
  | true =>
    simp only [if_true, not_true_eq_false, if_false]
    by_cases hfull : e.transport.window ≤ e.transport.pending
    · simp only [if_pos hfull]
    · simp only [if_neg hfull]
      by_cases hlarge : FrameId.maxAppId < id
      · simp only [if_pos hlarge]
      · simp only [if_neg hlarge]
        by_cases hfits : payload.length ≤ Payload.maxLength
        · simp only [dif_pos hfits]
        · simp only [dif_neg hfits]

omit [ByteSink σ ε] in
/-- What `submit` answers: what speaks against a payload is looked at in a fixed order. -/
theorem submit_result (e : Endpoint σ) (id : UInt8) (payload : List UInt8) :
    (e.submit (ε := ε) id payload).1 =
      if ¬ e.config.transport then .error .transportDisabled
      else if e.transport.window ≤ e.transport.pending then .error (.queue .full)
      else if FrameId.maxAppId < id then .error (.queue (.frame .invalidId))
      else if Payload.maxLength < payload.length then .error (.queue (.frame .payloadTooLarge))
      else .ok e.transport.nextSeq := by
  rw [submit_eq]
  split
  · rfl
  · split
    · rfl
    · split
      · rfl
      · by_cases hfits : payload.length ≤ Payload.maxLength
        · rw [dif_pos hfits, if_neg (Nat.not_lt.mpr hfits)]
        · rw [dif_neg hfits, if_pos (Nat.not_le.mp hfits)]

omit [ByteSink σ ε] in
/-- A payload that `submit` refuses changes nothing. -/
theorem submit_refused {e : Endpoint σ} {id : UInt8} {payload : List UInt8}
    {failure : LinkError ε} (h : (e.submit id payload).1 = .error failure) :
    (e.submit (ε := ε) id payload).2 = e := by
  obtain ⟨failure', hsubmit⟩ | ⟨seq, t', -, -, hsubmit⟩ := submit_cases (ε := ε) e id payload
  · rw [hsubmit]
  · rw [hsubmit] at h
    exact absurd h (by simp)

omit [ByteSink σ ε] in
/-- A payload that `submit` takes stands in the queue as it was handed over. -/
theorem submit_queued {e : Endpoint σ} {id seq : UInt8} {payload : List UInt8}
    (h : (e.submit (ε := ε) id payload).1 = .ok seq) :
    ∃ p : Payload, p.bytes = payload ∧
      (e.submit (ε := ε) id payload).2 = { e with transport := e.transport.queued id p } := by
  obtain ⟨failure, hsubmit⟩ | ⟨seq', t', -, henqueue, hsubmit⟩ :=
    submit_cases (ε := ε) e id payload
  · rw [hsubmit] at h
    exact absurd h (by simp)
  · obtain ⟨-, -, -, p, hp, rfl⟩ := Transport.enqueue_eq_ok henqueue
    exact ⟨p, hp, by rw [hsubmit]⟩

omit [ByteSink σ ε] in
/-- `sendReliable` answers what `submit` does, and hands back its endpoint if the payload was
queued. -/
theorem sendReliable_eq_submit (e : Endpoint σ) (id : UInt8) (payload : List UInt8) :
    e.sendReliable (ε := ε) id payload =
      (e.submit id payload).1.map (·, (e.submit (ε := ε) id payload).2) := by
  unfold sendReliable
  rcases e.submit (ε := ε) id payload with ⟨failure | seq, e'⟩ <;> rfl

/-- `sendUnreliable` does not offer a frame to the sink that cannot be made, and transmits it
otherwise. -/
theorem sendUnreliable_cases (e : Endpoint σ) (id : UInt8) (payload : List UInt8) :
    (∃ error, e.sendUnreliable (ε := ε) id payload = (.error (.send (.frame error)), e, [])) ∨
      ∃ f : Frame, f.id.Valid ∧
        (e.sendUnreliable (ε := ε) id payload).2 =
          ({ e with sink := (transmit e.sink f).2 }, [.attempted f (transmit e.sink f).1]) ∧
        ∀ failure, (e.sendUnreliable (ε := ε) id payload).1 = .error (.send failure) ↔
          (transmit e.sink f).1 = .error failure := by
  unfold sendUnreliable
  cases hmake : Frame.app id payload with
  | error error => exact .inl ⟨error, rfl⟩
  | ok f =>
    refine .inr ⟨f, ?_, rfl, ?_⟩
    · -- A frame that was made has an identifier that `Frame.make` accepts.
      rw [Frame.app, Frame.make_eq] at hmake
      split at hmake
      · exact absurd hmake (by simp)
      · next hid =>
        split at hmake
        · rw [← Except.ok.inj hmake]
          exact Decidable.not_not.mp hid
        · exact absurd hmake (by simp)
    · intro failure
      dsimp only
      cases (transmit e.sink f).1 <;> simp

/-- **An application frame concerns the sink alone**, and not even the sink when it cannot be made
or finds no room. -/
theorem sendUnreliable_leaves (e : Endpoint σ) (id : UInt8) (payload : List UInt8) :
    let sent := e.sendUnreliable (ε := ε) id payload
    sent.2.1 = { e with sink := sent.2.1.sink } ∧ callbacks sent.2.2 = [] ∧
      ∀ failure, sent.1 = .error (.send failure) →
        (∃ error, failure = .frame error) ∨ (∃ needed available, failure = .noRoom needed available) →
        sent.2.1 = e := by
  obtain ⟨error, hsent⟩ | ⟨f, hid, hsent, hresult⟩ := sendUnreliable_cases (ε := ε) e id payload
  · rw [hsent]
    exact ⟨rfl, rfl, fun _ _ _ => rfl⟩
  · dsimp only
    rw [hsent]
    refine ⟨rfl, rfl, ?_⟩
    intro failure hfailed hkind
    rw [hresult, transmit_eq hid] at hfailed
    -- Once there is room, only the sink itself can fail.
    rw [transmit_eq hid]
    split at hfailed
    · next hroom => rw [if_pos hroom]
    · next hroom =>
      exfalso
      unfold sendResult at hfailed
      split at hfailed
      · split at hfailed
        · exact absurd hfailed (by simp)
        · obtain rfl := Except.error.inj hfailed
          simp at hkind
      · obtain rfl := Except.error.inj hfailed
        simp at hkind

/-! ## Restarting -/

omit [ByteSource ρ ε'] in
/-- With the transport in use, `resetTransport` is a `Transport.reset` on the sink of the
endpoint. -/
theorem resetTransport_eq {e : Endpoint σ} (h : e.config.transport = true) (inform : Bool) :
    e.resetTransport (ε := ε) inform =
      ((e.transport.reset inform e.sink).1.mapError .send,
        e.withTurn (e.transport.reset inform e.sink).2) := by
  unfold resetTransport
  rw [if_pos h]
  generalize e.transport.reset inform e.sink = done
  obtain ⟨result, turn⟩ := done
  cases result <;> rfl

/-! ## What failed operations leave -/

/-- **Operations that fail leave the endpoint intact.** A payload is queued under the next number
exactly if nothing speaks against it, and what speaks against it is looked at in a fixed order; the
endpoint that `submit` leaves behind a refusal is the one it was called on, and so is the one behind
a read that fails. An application frame never touches the transport. A restart that is to be
announced is complete whatever comes of the announcement, which stays pending unless the sink takes
it whole. -/
theorem failures_leave_intact (e : Endpoint σ) :
    (∀ (id : UInt8) (payload : List UInt8),
      let submitted := e.submit (ε := ε) id payload
      e.sendReliable id payload = submitted.1.map (·, submitted.2) ∧
        (∀ failure, submitted.1 = .error failure → submitted.2 = e) ∧
        (e.sendReliable (ε := ε) id payload).map Prod.fst =
          (if ¬ e.config.transport then .error .transportDisabled
          else if e.transport.window ≤ e.transport.pending then .error (.queue .full)
          else if FrameId.maxAppId < id then .error (.queue (.frame .invalidId))
          else if Payload.maxLength < payload.length then .error (.queue (.frame .payloadTooLarge))
          else .ok e.transport.nextSeq) ∧
        (∀ failure, e.sendReliable (ε := ε) id payload = .error failure →
          e.perform (.sendReliable id payload : Operation ρ) = (e, [])) ∧
        ∀ seq e', e.sendReliable (ε := ε) id payload = .ok (seq, e') →
          ∃ p : Payload, p.bytes = payload ∧
            e' = { e with transport := e.transport.queued id p }) ∧
      (∀ (id : UInt8) (payload : List UInt8),
        let sent := e.sendUnreliable (ε := ε) id payload
        sent.2.1 = { e with sink := sent.2.1.sink } ∧ callbacks sent.2.2 = [] ∧
          ∀ failure, sent.1 = .error (.send failure) →
            (∃ error, failure = .frame error) ∨
              (∃ needed available, failure = .noRoom needed available) →
            sent.2.1 = e) ∧
      (∀ (now : UInt32) (source source' : ρ) (failure : ε'),
        ByteSource.read source chunkSize = (.error failure, source') →
          e.pollSource now source = (.error failure, source', e, [])) ∧
      (e.config.transport = true →
        let done := e.resetTransport (ε := ε) true
        let wire := Frame.reset.wire
        let write := (ByteSink.write (ByteSink.beginFrame e.sink) wire).1
        (done.2.1.transport.queue = [] ∧ done.2.1.transport.nextSeq = 0 ∧
            done.2.1.transport.expected = 0 ∧ done.2.1.transport.state = .idle ∧
            done.2.1.transport.stats.deliveryFailures =
              e.transport.stats.deliveryFailures + e.transport.pending.toUInt32 ∧
            failures done.2.2 = e.transport.queue.map (Entry.failure · .linkReset)) ∧
          done.1 =
            (if ByteSink.room e.sink < wire.length then .ok ()
            else match write with
              | .ok n =>
                if n = wire.length then .ok () else .error (.send (.shortWrite n wire.length))
              | .error failure => .error (.send (.sink failure))) ∧
          (done.2.1.transport.resetPending = true ↔
            ¬ (wire.length ≤ ByteSink.room e.sink ∧ write = .ok wire.length))) := by
  refine ⟨?_, fun id payload => e.sendUnreliable_leaves id payload, ?_, ?_⟩
  · intro id payload
    have hsend := e.sendReliable_eq_submit (ε := ε) id payload
    refine ⟨hsend, fun _ => submit_refused, ?_, ?_, ?_⟩
    · rw [hsend, ← submit_result]
      cases (e.submit (ε := ε) id payload).1 <;> rfl
    · -- `perform` goes on from the state that `submit` returns, which is the one before.
      intro failure hfailed
      rw [hsend] at hfailed
      cases hresult : (e.submit (ε := ε) id payload).1 with
      | error failure' => simp only [perform, submit_refused hresult]
      | ok seq =>
        rw [hresult] at hfailed
        exact absurd hfailed (by simp [Except.map])
    · intro seq e' hqueued
      rw [hsend] at hqueued
      cases hresult : (e.submit (ε := ε) id payload).1 with
      | error failure =>
        rw [hresult] at hqueued
        exact absurd hqueued (by simp [Except.map])
      | ok seq' =>
        rw [hresult] at hqueued
        obtain ⟨-, rfl⟩ := Prod.mk.inj (Except.ok.inj hqueued)
        exact submit_queued hresult
  · intro now source source' failure hread
    simp only [pollSource, hread]
  · intro hon
    have hsent := transmit_eq_ok_iff (f := Frame.reset) FrameId.valid_reset e.sink
    have hpending := e.transport.resetPending_reset e.sink
    have hresult :=
      Transport.resetResult_transmit (f := Frame.reset) FrameId.valid_reset e.sink
    simp only [resetTransport_eq hon, withTurn]
    refine ⟨e.transport.reset_restarts e.sink, ?_, hpending.trans ⟨?_, ?_⟩⟩
    · simp only [Transport.reset, if_true]
      rw [hresult]
      split
      · rfl
      · cases (ByteSink.write (ByteSink.beginFrame e.sink) Frame.reset.wire).1 with
        | error failure => rfl
        | ok n =>
          dsimp only
          split <;> rfl
    · intro hunsent hwhole
      exact hunsent _ ((hsent _).mpr ⟨rfl, hwhole⟩)
    · intro hpart n hn
      exact hpart ((hsent n).mp hn).2

/-- A line that has lost its other end: it cannot be read, and of what is written a byte is lost. -/
inductive LooseLine where
  | loose

instance : ByteSource LooseLine String where
  read line _ := (.error "no carrier", line)

instance : ByteSink LooseLine String where
  room _ := 64
  write line bytes := (.ok (bytes.length - 1), line)

/-- One payload was queued when the line came loose. -/
def oneOnLoose : Endpoint LooseLine :=
  let e := standard 0 .loose
  { e with transport := e.transport.queued 1 (.singleton 0x11) }

theorem failures_leave_intact_loose :
    (oneOnLoose.submit (ε := String) 64 [0x22]).2 = oneOnLoose ∧
      oneOnLoose.sendReliable (ε := String) 64 [0x22] = .error (.queue (.frame .invalidId)) ∧
      oneOnLoose.perform (.sendReliable 64 [0x22] : Operation LooseLine) = (oneOnLoose, []) ∧
      (∃ e' p, oneOnLoose.sendReliable (ε := String) 2 [0x22] = .ok (1, e') ∧ p.bytes = [0x22] ∧
        e' = { oneOnLoose with transport := oneOnLoose.transport.queued 2 p }) ∧
      (oneOnLoose.sendUnreliable 64 [0x22]).2.1 = oneOnLoose ∧
      oneOnLoose.pollSource 0 LooseLine.loose = (.error "no carrier", .loose, oneOnLoose, []) ∧
      (oneOnLoose.resetTransport true).1 = .error (.send (.shortWrite 10 11)) ∧
      (oneOnLoose.resetTransport true).2.1.transport.queue = [] ∧
      (oneOnLoose.resetTransport true).2.1.transport.resetPending = true ∧
      failures (oneOnLoose.resetTransport true).2.2 =
        oneOnLoose.transport.queue.map (Entry.failure · .linkReset) := by
  obtain ⟨hreliable, hunreliable, hpoll, hreset⟩ :=
    failures_leave_intact (ε := String) (ρ := LooseLine) oneOnLoose
  have hon : oneOnLoose.config.transport = true := by decide
  have hroom : ¬ oneOnLoose.transport.window ≤ oneOnLoose.transport.pending := by decide
  obtain ⟨hlargeSend, hrefused, -, hlargeLeaves, -⟩ := hreliable 64 [0x22]
  obtain ⟨hsmallSend, -, -, -, hsmallLeaves⟩ := hreliable 2 [0x22]
  have hlarge : (oneOnLoose.submit (ε := String) 64 [0x22]).1 =
      .error (.queue (.frame .invalidId)) := by
    rw [submit_result, if_neg (not_not_intro hon), if_neg hroom, if_pos (by decide)]
  have hsmall :
      (oneOnLoose.submit (ε := String) 2 [0x22]).1 = .ok oneOnLoose.transport.nextSeq := by
    rw [submit_result, if_neg (not_not_intro hon), if_neg hroom, if_neg (by decide),
      if_neg (by decide)]
  rw [hlarge] at hlargeSend
  rw [hsmall] at hsmallSend
  obtain ⟨p, hp, hqueued⟩ := hsmallLeaves _ _ hsmallSend
  have hunmade : (oneOnLoose.sendUnreliable 64 [0x22]).1 =
      .error (.send (.frame .invalidId)) := by
    have hmake : Frame.app 64 [0x22] = .error .invalidId := by
      rw [Frame.app, Frame.make_eq, if_pos (by decide)]
    simp only [sendUnreliable, hmake]
  have hlength : Frame.reset.wire.length = 11 := by decide +kernel
  have hwrite : (ByteSink.write (ByteSink.beginFrame oneOnLoose.sink) Frame.reset.wire).1 =
      .ok 10 := congrArg Except.ok (by decide +kernel)
  obtain ⟨⟨hempty, -, -, -, -, hfailures⟩, hresult, hpending⟩ := hreset hon
  refine ⟨hrefused _ hlarge, hlargeSend, hlargeLeaves _ hlargeSend, ⟨_, p, hsmallSend, hp, hqueued⟩,
    (hunreliable 64 [0x22]).2.2 _ hunmade (.inl ⟨_, rfl⟩), hpoll 0 .loose .loose _ rfl,
    ?_, hempty, ?_, hfailures⟩
  · rw [hresult, hlength, hwrite]
    rfl
  · rw [hpending, hlength, hwrite]
    simp

end Endpoint

end SerialLink
