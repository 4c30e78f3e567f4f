import SerialLink.Proofs.Decoder.RoundTrip
import SerialLink.Proofs.Endpoint.Run
import SerialLink.Proofs.Transport.Wire

/-!
# Whole frames on the wire

Whatever an endpoint is put through, the bytes that its transmit queue accepts are the encodings of
the frames that it wrote, one after the other. A receiver that hears them from the first one on
reads back just these frames, and the counters tell how many of each kind there are.

`Turns.ledger` puts the ledgers of `Proofs.Transport.Wire` together for an operation of an endpoint,
and a run follows by induction: `tally_run` for the counters, whatever happens to the sink, and
`accepted_run` for a transmit queue that the line drains meanwhile, where `Wired.bytes_txQueue`
turns events into bytes. That the frames are read back is `Decoder.feed_genuine`, by the round trip
of `Proofs.Decoder.RoundTrip`.
-/

namespace SerialLink

variable {σ ε ρ ε' δ : Type}

/-! ## A transmit queue -/

/-- The line takes bytes off the queue, the oldest ones first. -/
def TxQueue.drain {capacity : Nat} (n : Nat) (q : TxQueue capacity) : TxQueue capacity :=
  ⟨q.bytes.drop n, by
    have hle := q.length_le
    rw [List.length_drop]
    omega⟩

/-- A `Genuine` frame is read back as it is. -/
theorem Frame.Genuine.readBack_eq {f : Frame} (h : f.Genuine) : f.readBack = f := by
  apply Frame.ext
  · rfl
  · unfold readBack
    split
    · rfl
    · next hseq => exact (h.seq hseq).symm
  · rfl

/-- `Genuine` frames are read back one after the other, and nothing else is found on the way. -/
theorem Decoder.feed_genuine {frames : List Frame} (h : ∀ f ∈ frames, f.Genuine) :
    (fresh.feed (frames.flatMap Frame.wire)).2 = frames ∧
      (fresh.pushAll (frames.flatMap Frame.wire)).2.filterMap Progress.discard? = [] ∧
      (fresh.feed (frames.flatMap Frame.wire)).1.phase = .searching := by
  have hvalid : ∀ f ∈ frames, f.id.Valid := fun f hf => (h f hf).valid
  have hback : frames.map Frame.readBack = frames.map id :=
    List.map_congr_left fun f hf => (h f hf).readBack_eq
  rw [List.map_id] at hback
  -- A fresh decoder is between frames, where it discards nothing.
  obtain ⟨stats, progress, hall, hframes, hquiet⟩ := pushAll_wires hvalid {}
  rw [hback] at hframes
  have hfresh : fresh.pushAll (frames.flatMap Frame.wire) = (⟨.searching, 0, stats⟩, progress) :=
    hall
  rw [feed_eq_pushAll, hfresh]
  exact ⟨hframes, hquiet, rfl⟩

/-- A `TxQueue` takes whole frames, and refuses one only for lack of room. -/
theorem Wired.bytes_txQueue {capacity : Nat} {q q' : TxQueue capacity} {events : List (Event Empty)}
    (h : Wired q events q') :
    q'.bytes = q.bytes ++ (written events).flatMap Frame.wire ∧
      ∀ f r, Event.attempted f r ∈ events →
        (∃ n, r = .ok n) ∨ ∃ needed available, r = .error (.noRoom needed available) := by
  induction h with
  | done => simp
  | delivered _ ih | abandoned _ ih => simpa using ih
  | refused hencode hroom _ ih =>
    obtain ⟨hbytes, hresults⟩ := ih
    refine ⟨hbytes, ?_⟩
    intro f r hmem
    rcases List.mem_cons.mp hmem with heq | hmem
    · obtain ⟨-, rfl⟩ := Event.attempted.inj heq
      exact .inr ⟨_, _, rfl⟩
    · exact hresults f r hmem
  | @offered f bytes q q' events hencode hroom _ ih =>
    -- What fits is accepted as a whole.
    have hfit : bytes.length ≤ q.room := hroom
    have hresult : sendResult bytes.length
        (ByteSink.write (ByteSink.beginFrame q) bytes).1 = .ok bytes.length := by
      have hmin : min bytes.length q.room = bytes.length := Nat.min_eq_left hfit
      simp only [ByteSink.write, ByteSink.beginFrame, id, sendResult, hmin, if_true]
    have hpush : (ByteSink.endFrame (ByteSink.write (ByteSink.beginFrame q) bytes).2).bytes =
        q.bytes ++ bytes := TxQueue.bytes_push hfit
    obtain ⟨hbytes, hresults⟩ := ih
    rw [hresult]
    refine ⟨?_, ?_⟩
    · rw [hbytes, hpush, written_attempted_ok, List.flatMap_cons,
        Frame.eq_wire_of_encode hencode, List.append_assoc]
    · intro g r hmem
      rcases List.mem_cons.mp hmem with heq | hmem
      · obtain ⟨-, rfl⟩ := Event.attempted.inj heq
        exact .inl ⟨_, rfl⟩
      · exact hresults g r hmem

namespace Endpoint

variable [ByteSink σ ε] [ByteSource ρ ε']

/-! ## Operations -/

/-- The events of `Turns` tell what was done to the sink and what was counted. -/
theorem Turns.ledger {t t' : Transport} {sink sink' : σ} {events : List (Event ε)}
    (h : Turns t sink events t' sink') (hreg : t.Regular) :
    Ledger t.stats sink events t'.stats sink' := by
  induction h with
  | rest => exact .idle rfl _
  | append h _ ih ih' =>
    -- What comes later starts from a transport that operations have led to.
    exact (ih hreg).append (ih' (hreg.reaches h.reaches))
  | heard now => exact .idle rfl _
  | queued h => exact .idle (Transport.sent_enqueue h) _
  | @service t sink now => exact t.ledger_service now sink fun e he => (hreg.sane e he).id_le
  | @receive t sink now f => exact t.ledger_receive now f sink
  | @reset t sink inform => exact t.ledger_reset inform sink
  | handedOver f => exact ⟨.delivered .done, by simp, .of_others rfl (by simp)⟩
  | @offered t sink id payload f h =>
    obtain ⟨hf, hid⟩ := Frame.genuine_app h
    rcases hsent : transmit sink f with ⟨failure | n, sink'⟩
    · exact .unsent hf hsent rfl
    · apply Ledger.sent hf hsent
      exact .of_others rfl (by simp [Frame.isData, hid])

/-- **Every operation is accounted for by its events.** -/
theorem ledger_perform {e : Endpoint σ} (hreg : e.transport.Regular) (op : Operation ρ) :
    Ledger e.transport.stats e.sink (e.perform op).2 (e.perform op).1.transport.stats
      (e.perform op).1.sink :=
  (e.turned_perform op).ledger hreg

theorem regular_perform {e : Endpoint σ} (hreg : e.transport.Regular) (op : Operation ρ) :
    (e.perform op).1.transport.Regular :=
  hreg.reaches (e.turned_perform op).reaches

/-! ## Runs -/

/-- Whatever happens to the sink, the events of a run tell what was counted, by one `Tally` for
each step. -/
theorem tally_run (line : δ → σ → σ) {e : Endpoint σ} (hreg : e.transport.Regular)
    (steps : List (Step δ ρ)) :
    Tally e.transport.stats (written (e.run line steps).2) (e.run line steps).1.transport.stats ∧
      ∀ f ∈ written (e.run line steps).2, f.Genuine := by
  induction steps generalizing e with
  | nil => exact ⟨.of_others rfl (by simp [run]), by simp [run]⟩
  | cons s rest ih =>
    cases s with
    | operation op =>
      have hfirst := ledger_perform hreg op
      obtain ⟨htally, hgenuine⟩ := ih (regular_perform hreg op)
      simp only [run, step, written_append]
      refine ⟨hfirst.tally.append htally, ?_⟩
      intro f hf
      rcases List.mem_append.mp hf with hf | hf
      · exact hfirst.genuine f hf
      · exact hgenuine f hf
    | line change => exact ih (e := { e with sink := line change e.sink }) hreg

/-- Whatever the sink comes to be in the course of a run, an operation offers it whole frames. -/
theorem wired_after {e : Endpoint σ} (hreg : e.transport.Regular) (steps : List (Step σ ρ))
    (op : Operation ρ) :
    let e' := (e.run (fun s _ => s) steps).1
    Wired e'.sink (e'.perform op).2 (e'.perform op).1.sink :=
  (ledger_perform (hreg.reaches (reaches_run _ e steps)) op).wired

section queue

variable {capacity : Nat}

/-- The bytes that the line takes off the queue in the course of a run. -/
def drained (e : Endpoint (TxQueue capacity)) : List (Step Nat ρ) → List UInt8
  | [] => []
  | .operation op :: rest => (e.perform op).1.drained rest
  | .line n :: rest =>
    e.sink.bytes.take n ++ drained { e with sink := e.sink.drain n } rest

/-- What the queue has ever accepted, what was `drained` and what is in it still, are the encodings
of the frames `written`. -/
theorem accepted_run {e : Endpoint (TxQueue capacity)} (hreg : e.transport.Regular)
    (steps : List (Step Nat ρ)) :
    e.drained steps ++ (e.run TxQueue.drain steps).1.sink.bytes =
        e.sink.bytes ++ (written (e.run TxQueue.drain steps).2).flatMap Frame.wire ∧
      ∀ f r, Event.attempted f r ∈ (e.run TxQueue.drain steps).2 →
        (∃ n, r = .ok n) ∨ ∃ needed available, r = .error (.noRoom needed available) := by
  induction steps generalizing e with
  | nil => simp [drained, run]
  | cons s rest ih =>
    cases s with
    | operation op =>
      obtain ⟨hfirst, hresults⟩ := (ledger_perform hreg op).wired.bytes_txQueue
      obtain ⟨hrest, hresults'⟩ := ih (regular_perform hreg op)
      simp only [drained, run, step, written_append, List.flatMap_append]
      refine ⟨?_, ?_⟩
      · rw [hrest, hfirst, List.append_assoc]
      · intro f r hmem
        rcases List.mem_append.mp hmem with hmem | hmem
        · exact hresults f r hmem
        · exact hresults' f r hmem
    | line n =>
      -- The bytes that are taken off stood at the front of the queue.
      obtain ⟨hrest, hresults⟩ := ih (e := { e with sink := e.sink.drain n }) hreg
      simp only [drained, run, step, List.nil_append]
      refine ⟨?_, hresults⟩
      rw [List.append_assoc, hrest, ← List.append_assoc]
      simp only [TxQueue.drain, List.take_append_drop]

end queue

/-- **Only whole frames reach the wire.** Whatever an endpoint is put through, its transmit queue
has accepted the encodings of the frames written and nothing else, a receiver reads these frames
back, and the counters tell how many there are. Any sink whatsoever is offered each frame whole and
in one write, or is left alone. -/
theorem writes_whole_frames {capacity : Nat} (label : UInt8) (config : Config)
    (steps : List (Step Nat ρ)) :
    let e : Endpoint (TxQueue capacity) := { label, config, sink := .empty }
    let out := e.run TxQueue.drain steps
    let bytes := e.drained steps ++ out.1.sink.bytes
    let stats := out.1.transport.stats
    (∃ wires, (written out.2).mapM Frame.encode = .ok wires ∧ bytes = wires.flatten) ∧
      ((∀ f ∈ written out.2, f.id.Valid) ∧ (Decoder.fresh.feed bytes).2 = written out.2 ∧
        (Decoder.fresh.pushAll bytes).2.filterMap Progress.discard? = [] ∧
        (Decoder.fresh.feed bytes).1.phase = .searching) ∧
      (∀ f r, Event.attempted f r ∈ out.2 →
        (∃ n, r = .ok n) ∨ ∃ needed available, r = .error (.noRoom needed available)) ∧
      stats.framesSent + stats.framesRetransmitted =
        ((written out.2).countP Frame.isData).toUInt32 ∧
      stats.acksSent = ((written out.2).countP fun f => f.id = .ack).toUInt32 ∧
      (∀ {σ ε : Type} [ByteSink σ ε] (sink : σ) (steps : List (Step σ ρ)) (op : Operation ρ),
        let e := (({ label, config, sink } : Endpoint σ).run (fun s _ => s) steps).1
        Wired e.sink (e.perform op).2 (e.perform op).1.sink) ∧
      ∀ {σ ε : Type} [ByteSink σ ε] (sink : Watched σ) (steps : List (Step (Watched σ) ρ))
        (op : Operation ρ),
        let e := (({ label, config, sink } : Endpoint (Watched σ)).run (fun s _ => s) steps).1
        (e.perform op).1.sink.calls = e.sink.calls ++ (e.perform op).2.flatMap Event.calls := by
  intro e out bytes stats
  have hreg : e.transport.Regular := Transport.regular_ofConfig config
  obtain ⟨haccepted, hresults⟩ := accepted_run hreg steps
  obtain ⟨⟨hdata, hacks⟩, hgenuine⟩ := tally_run TxQueue.drain hreg steps
  have hvalid : ∀ f ∈ written out.2, f.id.Valid := fun f hf => (hgenuine f hf).valid
  have hbytes : bytes = (written out.2).flatMap Frame.wire := haccepted
  have hread := Decoder.feed_genuine hgenuine
  rw [← hbytes] at hread
  refine ⟨⟨(written out.2).map Frame.wire, Decoder.mapM_encode hvalid, hbytes⟩, ⟨hvalid, hread⟩,
    hresults, ?_, ?_, ?_, ?_⟩
  · -- The counters of a fresh transport are zero.
    exact hdata.trans (UInt32.zero_add _)
  · exact hacks.trans (UInt32.zero_add _)
  · intro σ ε _ sink steps op
    exact wired_after (e := { label, config, sink }) hreg steps op
  · intro σ ε _ sink steps op
    exact (wired_after (e := { label, config, sink }) hreg steps op).calls

end Endpoint

end SerialLink
