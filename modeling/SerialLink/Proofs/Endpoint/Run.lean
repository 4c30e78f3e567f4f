import SerialLink.Endpoint
import SerialLink.Proofs.Transport.Invariant

/-!
# Runs of an endpoint

An endpoint is polled, sends and is reset in any order, and in between its sink changes: the line
takes bytes off it, or it comes to be in some other state. All that an endpoint does to its
transport are operations of the transport, so that whatever holds of every transport holds of the
one in an endpoint.

`Turns` says what an operation does to transport and sink together, and `turned_perform` that every
operation consists of them; `Turns.reaches` forgets the sink, and `reaches_run` is what a run comes
to. `Regular` and the other invariants of `Proofs.Transport` are carried over by `Regular.reaches`.
Of the functions of an endpoint only `submit` has an inversion of its own, `submit_cases`; the
others are short enough to be unfolded where they are looked at, here, in `Proofs.Endpoint.Bypass`
and in `Proofs.Endpoint.Silence`.
-/

namespace SerialLink

/-! ## Operations of the transport in order -/

namespace Transport

variable {σ ε : Type} [ByteSink σ ε] {t t' t'' : Transport}

/-- Some operations, in order, lead from the one transport to the other. -/
def Reaches (σ : Type) {ε : Type} [ByteSink σ ε] (t t' : Transport) : Prop :=
  ∃ ops : List (Operation σ), t' = t.run (ε := ε) ops

theorem Reaches.refl (t : Transport) : t.Reaches σ t := ⟨[], rfl⟩

theorem reaches_perform (t : Transport) (op : Operation σ) :
    t.Reaches σ (t.perform (ε := ε) op).1 := ⟨[op], rfl⟩

theorem Reaches.trans (h : t.Reaches σ t') (h' : t'.Reaches σ t'') : t.Reaches σ t'' := by
  obtain ⟨ops, rfl⟩ := h
  obtain ⟨ops', rfl⟩ := h'
  exact ⟨ops ++ ops', by simp [run]⟩

/-- What is reached from a `Regular` transport is `Regular`. -/
theorem Regular.reaches (hreg : t.Regular) (h : t.Reaches σ t') : t'.Regular := by
  obtain ⟨ops, rfl⟩ := h
  exact hreg.run ops

end Transport

namespace Endpoint

variable {σ ε ρ ε' δ : Type} [ByteSink σ ε] [ByteSource ρ ε']

/-! ## Operations of an endpoint -/

/-- What can be done with an `Endpoint`. A source is in any state whenever it is read. -/
inductive Operation (ρ : Type) where
  | poll (now : UInt32) (bytes : List UInt8)
  | pollSource (now : UInt32) (source : ρ)
  | sendReliable (id : UInt8) (payload : List UInt8)
  | sendUnreliable (id : UInt8) (payload : List UInt8)
  | resetTransport (inform : Bool)

/-- The endpoint after an operation, and what the operation did. -/
def perform (e : Endpoint σ) : Operation ρ → Endpoint σ × List (Event ε)
  | .poll now bytes => e.poll now bytes
  | .pollSource now source => (e.pollSource now source).2.2
  | .sendReliable id payload => ((e.submit (ε := ε) id payload).2, [])
  | .sendUnreliable id payload => (e.sendUnreliable id payload).2
  | .resetTransport inform => (e.resetTransport inform).2

/-- What happens at an endpoint. -/
inductive Step (δ ρ : Type) where
  | operation (op : Operation ρ)
  /-- Something happens to the sink meanwhile. -/
  | line (change : δ)

/-- The endpoint after a step, and what was done in it; `line` says how the sink changes. -/
def step (line : δ → σ → σ) (e : Endpoint σ) : Step δ ρ → Endpoint σ × List (Event ε)
  | .operation op => e.perform op
  | .line change => ({ e with sink := line change e.sink }, [])

/-- The endpoint after steps in order, and all that was done in them, one `step` after the other. -/
def run (line : δ → σ → σ) (e : Endpoint σ) : List (Step δ ρ) → Endpoint σ × List (Event ε)
  | [] => (e, [])
  | s :: rest =>
    let first := e.step line s
    let others := first.1.run line rest
    (others.1, first.2 ++ others.2)

/-! ## Queueing a payload -/

omit [ByteSink σ ε] in
/-- What `submit` leaves: the endpoint as it was, or one whose transport queued the payload. -/
theorem submit_cases (e : Endpoint σ) (id : UInt8) (payload : List UInt8) :
    (∃ failure, e.submit (ε := ε) id payload = (.error failure, e)) ∨
      ∃ seq t', e.config.transport = true ∧ e.transport.enqueue id payload = .ok (seq, t') ∧
        e.submit (ε := ε) id payload = (.ok seq, { e with transport := t' }) := by
  unfold submit
  by_cases hon : e.config.transport = true
  · rw [if_pos hon]
    obtain ⟨failure, h⟩ | ⟨-, -, p, -, h⟩ := e.transport.submit_cases id payload
    · exact .inl ⟨.queue failure, by rw [h]⟩
    · exact .inr ⟨_, _, hon, by rw [Transport.enqueue_eq_submit, h]; rfl, by rw [h]⟩
  · exact .inl ⟨.transportDisabled, if_neg hon⟩

/-! ## What an operation does -/

/-- What an endpoint does to its transport and to its sink: turns of the transport one after the
other, and application frames that go past it. -/
inductive Turns : Transport → σ → List (Event ε) → Transport → σ → Prop where
  | rest {t : Transport} {sink : σ} : Turns t sink [] t sink
  | append {t t' t'' : Transport} {sink sink' sink'' : σ} {events events' : List (Event ε)}
      (h : Turns t sink events t' sink') (h' : Turns t' sink' events' t'' sink'') :
      Turns t sink (events ++ events') t'' sink''
  | heard {t : Transport} {sink : σ} (now : UInt32) : Turns t sink [] (t.noteHeard now) sink
  | queued {t t' : Transport} {sink : σ} {id seq : UInt8} {payload : List UInt8}
      (h : t.enqueue id payload = .ok (seq, t')) : Turns t sink [] t' sink
  | service {t : Transport} {sink : σ} (now : UInt32) :
      Turns t sink (t.service now sink).events (t.service now sink).transport
        (t.service now sink).sink
  | receive {t : Transport} {sink : σ} (now : UInt32) (f : Frame) :
      Turns t sink (t.receive now f sink).events (t.receive now f sink).transport
        (t.receive now f sink).sink
  | reset {t : Transport} {sink : σ} (inform : Bool) :
      Turns t sink (t.reset inform sink).2.events (t.reset inform sink).2.transport
        (t.reset inform sink).2.sink
  /-- An application frame arrives. -/
  | handedOver {t : Transport} {sink : σ} (f : Frame) : Turns t sink [.delivered f] t sink
  /-- An application frame is to be sent. -/
  | offered {t : Transport} {sink : σ} {id : UInt8} {payload : List UInt8} {f : Frame}
      (h : Frame.app id payload = .ok f) :
      Turns t sink [.attempted f (transmit sink f).1] t (transmit sink f).2

/-- `Turns` lead from the endpoint to what was done. -/
def Turned (e : Endpoint σ) (done : Endpoint σ × List (Event ε)) : Prop :=
  Turns e.transport e.sink done.2 done.1.transport done.1.sink

/-- `dispatch` notes that a frame was heard, and hands it over or has the transport receive it. -/
theorem turned_dispatch (e : Endpoint σ) (now : UInt32) (f : Frame) :
    e.Turned (e.dispatch now f) := by
  unfold Turned dispatch
  split
  · exact (Turns.heard now).append (.handedOver f)
  · dsimp only
    split
    · exact (Turns.heard now).append (.receive now f)
    · exact .heard now

theorem turned_receive (e : Endpoint σ) (now : UInt32) (bytes : List UInt8) :
    e.Turned (e.receive now bytes) := by
  -- A byte completes a frame, which is dispatched, or concerns the decoder alone.
  induction bytes generalizing e with
  | nil => exact .rest
  | cons b rest ih =>
    have hfirst : e.Turned (e.receiveByte now b) := by
      unfold receiveByte
      simp only
      split
      · exact turned_dispatch { e with decoder := (e.decoder.push b).1 } now _
      · exact .rest
    exact hfirst.append (ih _)

theorem turned_tick (e : Endpoint σ) (now : UInt32) : e.Turned (e.tick now) := by
  unfold tick
  split
  · exact .service now
  · exact .rest

theorem turned_poll (e : Endpoint σ) (now : UInt32) (bytes : List UInt8) :
    e.Turned (e.poll now bytes) :=
  (e.turned_receive now bytes).append (turned_tick _ now)

/-- **An operation of an endpoint consists of turns of its transport** and of application frames. -/
theorem turned_perform (e : Endpoint σ) (op : Operation ρ) : e.Turned (e.perform op) := by
  cases op with
  | poll now bytes => exact e.turned_poll now bytes
  | pollSource now source =>
    simp only [perform, pollSource]
    split
    · exact .rest
    · exact e.turned_poll now _
  | sendReliable id payload =>
    simp only [perform]
    obtain ⟨failure, h⟩ | ⟨seq, t', -, hsend, h⟩ := submit_cases (ε := ε) e id payload
    · rw [h]
      exact .rest
    · rw [h]
      exact .queued hsend
  | sendUnreliable id payload =>
    simp only [perform, sendUnreliable]
    cases hmake : Frame.app id payload with
    | error failure => exact .rest
    | ok f => exact .offered hmake
  | resetTransport inform =>
    simp only [perform, resetTransport]
    split
    · exact .reset inform
    · exact .rest

/-! ## The settings -/

theorem config_receive (e : Endpoint σ) (now : UInt32) (bytes : List UInt8) :
    (e.receive now bytes).1.config = e.config := by
  induction bytes generalizing e with
  | nil => rfl
  | cons b rest ih =>
    refine (ih _).trans ?_
    unfold receiveByte
    dsimp only
    split
    · unfold dispatch
      split
      · rfl
      · dsimp only
        split <;> rfl
    · rfl

theorem config_poll (e : Endpoint σ) (now : UInt32) (bytes : List UInt8) :
    (e.poll now bytes).1.config = e.config := by
  refine Eq.trans ?_ (e.config_receive now bytes)
  unfold poll tick
  dsimp only
  split <;> rfl

theorem config_perform (e : Endpoint σ) (op : Operation ρ) :
    (e.perform op).1.config = e.config := by
  cases op with
  | poll now bytes => exact e.config_poll now bytes
  | pollSource now source =>
    simp only [perform, pollSource]
    split
    · rfl
    · exact e.config_poll now _
  | sendReliable id payload =>
    simp only [perform]
    obtain ⟨failure, h⟩ | ⟨seq, t', -, -, h⟩ := submit_cases (ε := ε) e id payload <;> rw [h]
  | sendUnreliable id payload =>
    simp only [perform, sendUnreliable]
    cases Frame.app id payload <;> rfl
  | resetTransport inform =>
    simp only [perform, resetTransport]
    split <;> rfl

/-- An endpoint keeps its `config`, whatever it is put through. -/
theorem config_run (line : δ → σ → σ) (e : Endpoint σ) (steps : List (Step δ ρ)) :
    (e.run line steps).1.config = e.config := by
  induction steps generalizing e with
  | nil => rfl
  | cons s rest ih =>
    cases s with
    | operation op => exact (ih _).trans (e.config_perform op)
    | line change => exact ih { e with sink := line change e.sink }

/-! ## What happens to the transport -/

/-- Of `Turns`, the transport sees operations only. -/
theorem Turns.reaches {t t' : Transport} {sink sink' : σ} {events : List (Event ε)}
    (h : Turns t sink events t' sink') : t.Reaches σ t' := by
  induction h with
  | rest | handedOver | offered => exact .refl _
  | append _ _ ih ih' => exact ih.trans ih'
  | @heard t _ now => exact t.reaches_perform (.noteHeard now)
  | @queued t _ _ id _ payload h =>
    have hqueued := t.reaches_perform (σ := σ) (.send ⟨id, payload⟩)
    simpa only [Transport.perform_send, h] using hqueued
  | @service t sink now => exact t.reaches_perform (.service now sink)
  | @receive t sink now f => exact t.reaches_perform (.receive now f sink)
  | @reset t sink inform => exact t.reaches_perform (.reset inform sink)

/-- **An endpoint does nothing to its transport but operations of the transport.** -/
theorem reaches_run (line : δ → σ → σ) (e : Endpoint σ) (steps : List (Step δ ρ)) :
    e.transport.Reaches σ (e.run line steps).1.transport := by
  induction steps generalizing e with
  | nil => exact .refl _
  | cons s rest ih =>
    cases s with
    | operation op => exact (e.turned_perform op).reaches.trans (ih _)
    | line change => exact ih { e with sink := line change e.sink }

end Endpoint

end SerialLink
