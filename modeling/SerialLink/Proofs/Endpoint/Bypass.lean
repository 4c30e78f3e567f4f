import SerialLink.Proofs.Decoder.Push
import SerialLink.Proofs.Endpoint.Run
import SerialLink.Proofs.Transport.Callbacks

/-!
# Application frames go past the transport

The application frames that an endpoint hands over are those in the bytes that it received, whatever
its transport and its sink are doing and however the bytes were cut. An endpoint that does not use
its transport does nothing else with what it receives.

`Hears` is what an operation does with the bytes that it receives: they go through the decoder, and
`applications`, of `Proofs.Transport.Callbacks`, picks out what is handed over. It composes by
`Hears.append`, as `Decoder.feed` does, so that a run hears what one `feed` of all bytes would find
(`hears_run`). `Detached` and `Listens` are for an endpoint without transport; there the counters of
frames are compared with the one of the decoder, through `uncounted`. `Proofs.Endpoint.Silence`
follows the same bytes for the times at which they arrive.
-/

namespace SerialLink

namespace Endpoint

variable {σ ε ρ ε' δ : Type} [ByteSink σ ε] [ByteSource ρ ε']

/-! ## The bytes received -/

/-- The bytes that an operation is given or reads. A failed read gives none. -/
def Operation.received : Operation ρ → List UInt8
  | .poll _ bytes => bytes
  | .pollSource _ source =>
    match ByteSource.read source chunkSize with
    | (.ok r, _) => readBytes r
    | (.error _, _) => []
  | .sendReliable _ _ | .sendUnreliable _ _ | .resetTransport _ => []

def Step.received : Step δ ρ → List UInt8
  | .operation op => op.received
  | .line _ => []

/-- All bytes that arrive in the course of steps, in order. A change of the sink brings none. -/
def received (steps : List (Step δ ρ)) : List UInt8 := steps.flatMap Step.received

/-! ## What comes of them -/

section hears

variable {e e' : Endpoint σ} {bytes bytes' : List UInt8} {events : List (Event ε)}
  {done : Endpoint σ × List (Event ε)}

/-- The bytes went through the decoder, and the application frames in them were handed over. -/
structure Hears (e : Endpoint σ) (bytes : List UInt8) (done : Endpoint σ × List (Event ε)) :
    Prop where
  decoder : done.1.decoder = (e.decoder.feed bytes).1
  applications : applications done.2 = (e.decoder.feed bytes).2.filter Frame.isApp

omit [ByteSink σ ε] in
theorem Hears.append (h : e.Hears bytes (e', events)) (h' : e'.Hears bytes' done) :
    e.Hears (bytes ++ bytes') (done.1, events ++ done.2) where
  decoder := by rw [h'.decoder, h.decoder, Decoder.feed_append]
  applications := by
    rw [applications_append, h.applications, h'.applications, h.decoder, Decoder.feed_append,
      List.filter_append]

/-- No turn of a transport hands over an application frame, by `Effect.of_delivered`. -/
theorem hears_turn {t : Transport} {op : Transport.Operation σ} {turn : Transport.Turn σ ε}
    (h : t.Effect op turn.events turn.transport) : e.Hears [] (e.withTurn turn) where
  decoder := rfl
  applications := applications_eq_nil fun _ hf => (h.of_delivered hf).1

/-- Of all frames that `dispatch` is given, only an application frame is handed over as one. -/
theorem applications_dispatch (e : Endpoint σ) (now : UInt32) (f : Frame) :
    (e.dispatch now f).1.decoder = e.decoder ∧
      applications (e.dispatch now f).2 = [f].filter Frame.isApp := by
  unfold dispatch
  split
  · next a hid =>
    simp [applications, Event.application?, Frame.isApp_of_app hid]
  · next hother =>
    have happ := Frame.isApp_of_other hother
    rw [List.filter_cons_of_neg (by simp [happ])]
    dsimp only
    split
    · have hturn := hears_turn (e := { e with transport := e.transport.noteHeard now })
        ((e.transport.noteHeard now).receive_effect now f e.sink)
      exact ⟨hturn.decoder, hturn.applications⟩
    · exact ⟨rfl, rfl⟩

/-- A byte goes through the decoder, and the frame that it completes is dispatched. -/
theorem hears_receiveByte (e : Endpoint σ) (now : UInt32) (b : UInt8) :
    e.Hears [b] (e.receiveByte now b) := by
  have hfeed : e.decoder.feed [b] = ((e.decoder.push b).1, (e.decoder.push b).2.frame?.toList) := by
    have hchunk := e.decoder.takeChunk_eq_feed (.single b)
    exact hchunk.symm
  unfold receiveByte
  dsimp only
  split
  · next f hf =>
    obtain ⟨hdecoder, happs⟩ :=
      applications_dispatch { e with decoder := (e.decoder.push b).1 } now f
    exact ⟨by rw [hdecoder, hfeed], by rw [happs, hfeed, hf]; rfl⟩
  · next hnone =>
    have hframe := Progress.frame?_eq_none hnone
    exact ⟨by rw [hfeed], by rw [hfeed, hframe]; rfl⟩

theorem hears_receive (e : Endpoint σ) (now : UInt32) (bytes : List UInt8) :
    e.Hears bytes (e.receive now bytes) := by
  induction bytes generalizing e with
  | nil => exact ⟨rfl, rfl⟩
  | cons b rest ih => exact (e.hears_receiveByte now b).append (ih _)

theorem hears_tick (e : Endpoint σ) (now : UInt32) : e.Hears [] (e.tick now) := by
  unfold tick
  split
  · exact hears_turn (e.transport.service_effect now e.sink)
  · exact ⟨rfl, rfl⟩

theorem hears_poll (e : Endpoint σ) (now : UInt32) (bytes : List UInt8) :
    e.Hears bytes (e.poll now bytes) := by
  have h := (e.hears_receive now bytes).append (hears_tick (e.receive now bytes).1 now)
  rwa [List.append_nil] at h

/-- **An operation hands over the application frames in the bytes that it receives.** -/
theorem hears_perform (e : Endpoint σ) (op : Operation ρ) :
    e.Hears op.received (e.perform op) := by
  cases op with
  | poll now bytes => exact e.hears_poll now bytes
  | pollSource now source =>
    simp only [perform, pollSource, Operation.received]
    -- If the read fails nothing is received, and nothing happens.
    rcases ByteSource.read source chunkSize with ⟨failure | r, source'⟩
    · exact ⟨rfl, rfl⟩
    · exact e.hears_poll now (readBytes r)
  | sendReliable id payload =>
    simp only [perform]
    obtain ⟨failure, h⟩ | ⟨seq, t', -, -, h⟩ := submit_cases (ε := ε) e id payload
    · rw [h]
      exact ⟨rfl, rfl⟩
    · rw [h]
      exact ⟨rfl, rfl⟩
  | sendUnreliable id payload =>
    simp only [perform, sendUnreliable]
    cases Frame.app id payload <;> exact ⟨rfl, rfl⟩
  | resetTransport inform =>
    simp only [perform, resetTransport]
    split
    · exact hears_turn (e.transport.reset_effect inform e.sink)
    · exact ⟨rfl, rfl⟩

/-- **A run hands over the application frames in all bytes `received`.** -/
theorem hears_run (line : δ → σ → σ) (e : Endpoint σ) (steps : List (Step δ ρ)) :
    e.Hears (received steps) (e.run line steps) := by
  induction steps generalizing e with
  | nil => exact ⟨rfl, rfl⟩
  | cons s rest ih =>
    have hstep : e.Hears s.received (e.step line s) := by
      cases s with
      | operation op => exact e.hears_perform op
      | line change => exact ⟨rfl, rfl⟩
    exact hstep.append (ih _)

end hears

/-! ## Without a transport -/

section detached

variable {e e' : Endpoint σ} {events : List (Event ε)} {done : Endpoint σ × List (Event ε)}

/-- How many frames the decoder has counted that the endpoint has not. -/
def uncounted (e : Endpoint σ) : UInt32 :=
  e.decoder.stats.frames - (e.framesReceived + e.framesDropped)

/-- The transport was left alone, and the application got application frames only. -/
structure Detached (e : Endpoint σ) (done : Endpoint σ × List (Event ε)) : Prop where
  config : done.1.config = e.config
  transport : ∃ heard, done.1.transport = { e.transport with lastHeard := heard }
  callbacks : callbacks done.2 = (applications done.2).map .delivered
  uncounted : done.1.uncounted = e.uncounted

omit [ByteSink σ ε] in
theorem Detached.append (h : e.Detached (e', events)) (h' : e'.Detached done) :
    e.Detached (done.1, events ++ done.2) where
  config := h'.config.trans h.config
  transport := by
    obtain ⟨heard, ht⟩ := h.transport
    obtain ⟨heard', ht'⟩ := h'.transport
    exact ⟨heard', by rw [ht', ht]⟩
  callbacks := by
    rw [callbacks_append, h.callbacks, h'.callbacks, applications_append, List.map_append]
  uncounted := h'.uncounted.trans h.uncounted

/-- `Detached`, and moreover nothing was done to the sink. -/
structure Listens (e : Endpoint σ) (done : Endpoint σ × List (Event ε)) : Prop
    extends e.Detached done where
  sink : done.1.sink = e.sink
  events : done.2 = (applications done.2).map .delivered

omit [ByteSink σ ε] in
theorem Listens.append (h : e.Listens (e', events)) (h' : e'.Listens done) :
    e.Listens (done.1, events ++ done.2) where
  toDetached := h.toDetached.append h'.toDetached
  sink := h'.sink.trans h.sink
  events := by
    have happend := congr (congrArg HAppend.hAppend h.events) h'.events
    simpa using happend

omit [ByteSink σ ε] in
theorem listens_nothing (e : Endpoint σ) : e.Listens (e, ([] : List (Event ε))) :=
  ⟨⟨rfl, ⟨_, rfl⟩, rfl, rfl⟩, rfl, rfl⟩

/-- Without transport, `receiveByte` counts a frame as received or as dropped, and does no more. -/
theorem listens_receiveByte (h : e.config.transport = false) (now : UInt32) (b : UInt8) :
    e.Listens (e.receiveByte now b) := by
  have hframes := e.decoder.frames_push b
  -- Every frame is counted by the decoder, and once more when it is handed over or dropped.
  have hsub : ∀ a b c : UInt32, a + 1 - (b + 1 + c) = a - (b + c) ∧
      a + 1 - (b + (c + 1)) = a - (b + c) := by
    intro a b c
    constructor <;> grind
  unfold receiveByte
  dsimp only
  split
  · next f hf =>
    rw [hf] at hframes
    unfold dispatch
    dsimp only
    split
    -- An application frame is handed over, any other one is dropped.
    · next a hid =>
      have happs : applications [Event.delivered (ε := ε) f] = [f] := by
        simp [applications, Event.application?, Frame.isApp_of_app hid]
      refine ⟨⟨rfl, ⟨some now, rfl⟩, by rw [happs]; rfl, ?_⟩, rfl, by rw [happs]; rfl⟩
      exact (congrArg (· - _) hframes).trans (hsub _ _ _).1
    · rw [if_neg (by simp [h])]
      refine ⟨⟨rfl, ⟨some now, rfl⟩, rfl, ?_⟩, rfl, rfl⟩
      exact (congrArg (· - _) hframes).trans (hsub _ _ _).2
  · next hnone =>
    have hframe := Progress.frame?_eq_none hnone
    rw [hframe] at hframes
    refine ⟨⟨rfl, ⟨_, rfl⟩, rfl, ?_⟩, rfl, rfl⟩
    exact congrArg (· - _) (hframes.trans (UInt32.add_zero _))

theorem listens_receive (h : e.config.transport = false) (now : UInt32) (bytes : List UInt8) :
    e.Listens (e.receive now bytes) := by
  induction bytes generalizing e with
  | nil => exact e.listens_nothing
  | cons b rest ih =>
    have hfirst := listens_receiveByte h now b
    have hoff : (e.receiveByte now b).1.config.transport = false := by rw [hfirst.config, h]
    exact hfirst.append (ih hoff)

/-- **A poll that does not concern the transport leaves the sink alone.** -/
theorem listens_poll (h : e.config.transport = false) (now : UInt32) (bytes : List UInt8) :
    e.Listens (e.poll now bytes) := by
  have hreceived := listens_receive h now bytes
  have hoff : (e.receive now bytes).1.config.transport = false := by rw [hreceived.config, h]
  have htick : (e.receive now bytes).1.tick now = ((e.receive now bytes).1, []) := by
    rw [tick, if_neg (by simp [hoff])]
  unfold poll
  dsimp only
  rw [htick]
  exact hreceived.append (listens_nothing _)

theorem listens_pollSource (h : e.config.transport = false) (now : UInt32) (source : ρ) :
    e.Listens (e.pollSource now source).2.2 := by
  unfold pollSource
  rcases ByteSource.read source chunkSize with ⟨failure | r, source'⟩
  · exact e.listens_nothing
  · exact listens_poll h now (readBytes r)

/-- **Without transport every operation leaves the endpoint `Detached`.** -/
theorem detached_perform (h : e.config.transport = false) (op : Operation ρ) :
    e.Detached (e.perform op) := by
  have hnothing := (e.listens_nothing (ε := ε)).toDetached
  cases op with
  | poll now bytes => exact (listens_poll h now bytes).toDetached
  | pollSource now source => exact (listens_pollSource h now source).toDetached
  | sendReliable id payload =>
    obtain ⟨failure, hsubmit⟩ | ⟨seq, t', hon, -, -⟩ := submit_cases (ε := ε) e id payload
    · simp only [perform, hsubmit]
      exact hnothing
    · -- Nothing is queued where the transport is not used.
      exact absurd hon (by simp [h])
  | sendUnreliable id payload =>
    simp only [perform, sendUnreliable]
    cases Frame.app id payload with
    | error failure => exact hnothing
    | ok f => exact ⟨rfl, ⟨_, rfl⟩, rfl, rfl⟩
  | resetTransport inform =>
    simp only [perform, resetTransport, h]
    exact hnothing

theorem detached_run (line : δ → σ → σ) (h : e.config.transport = false)
    (steps : List (Step δ ρ)) : e.Detached (e.run line steps) := by
  induction steps generalizing e with
  | nil => exact e.listens_nothing.toDetached
  | cons s rest ih =>
    have hstep : e.Detached (e.step line s) := by
      cases s with
      | operation op => exact detached_perform h op
      | line change => exact ⟨rfl, ⟨_, rfl⟩, rfl, rfl⟩
    have hoff : (e.step line s).1.config.transport = false := by rw [hstep.config, h]
    exact hstep.append (ih hoff)

end detached

/-! ## Runs -/

/-- **Application frames go past the transport.** Whatever an endpoint is put through, it hands over
the application frames that a decoder finds in all the bytes received, so that any other endpoint
that receives the same bytes hands over the same ones. If the transport is not used, the application
is not called for anything else, the transport only notes when a frame was heard, a poll leaves the
sink alone, and every frame is counted as received or as dropped. -/
theorem application_frames_bypass (label : UInt8) (config : Config) (sink : σ) (line : δ → σ → σ)
    (steps : List (Step δ ρ)) :
    let out := ({ label, config, sink } : Endpoint σ).run line steps
    applications out.2 = (Decoder.fresh.feed (received steps)).2.filter Frame.isApp ∧
      (∀ {σ₂ ε₂ ρ₂ ε₃ δ₂ : Type} [ByteSink σ₂ ε₂] [ByteSource ρ₂ ε₃] (label₂ : UInt8)
        (config₂ : Config) (sink₂ : σ₂) (line₂ : δ₂ → σ₂ → σ₂) (steps₂ : List (Step δ₂ ρ₂)),
        received steps₂ = received steps →
          applications (({ label := label₂, config := config₂, sink := sink₂ } :
            Endpoint σ₂).run line₂ steps₂).2 = applications out.2) ∧
      (config.transport = false →
        callbacks out.2 = (applications out.2).map .delivered ∧
          (∃ heard, out.1.transport = { Transport.ofConfig config with lastHeard := heard }) ∧
          out.1.decoder.stats.frames = out.1.framesReceived + out.1.framesDropped ∧
          (∀ now bytes, (out.1.poll now bytes).1.sink = out.1.sink ∧
            (out.1.poll now bytes).2 =
              (applications (out.1.poll now bytes).2).map .delivered) ∧
          ∀ now (source : ρ), (out.1.pollSource now source).2.2.1.sink = out.1.sink ∧
            (out.1.pollSource now source).2.2.2 =
              (applications (out.1.pollSource now source).2.2.2).map .delivered) := by
  intro out
  have hheard := hears_run line ({ label, config, sink } : Endpoint σ) steps
  refine ⟨hheard.applications, ?_, ?_⟩
  · -- The other endpoint hands over what the same decoder finds in the same bytes.
    intro σ₂ ε₂ ρ₂ ε₃ δ₂ _ _ label₂ config₂ sink₂ line₂ steps₂ hsame
    have hheard₂ := hears_run line₂
      ({ label := label₂, config := config₂, sink := sink₂ } : Endpoint σ₂) steps₂
    rw [hheard₂.applications, hsame]
    exact hheard.applications.symm
  · intro hoff
    have hdetached := detached_run (e := { label, config, sink }) line hoff steps
    have hoff' : out.1.config.transport = false := by rw [hdetached.config, hoff]
    refine ⟨hdetached.callbacks, hdetached.transport, ?_, ?_, ?_⟩
    · -- Nothing was uncounted at first.
      have hfresh : ({ label, config, sink } : Endpoint σ).uncounted = 0 := by
        simp [uncounted, Decoder.fresh]
      have hzero : out.1.uncounted = 0 := hdetached.uncounted.trans hfresh
      unfold uncounted at hzero
      grind
    · intro now bytes
      have hlistens := listens_poll hoff' now bytes
      exact ⟨hlistens.sink, hlistens.events⟩
    · intro now source
      have hlistens := listens_pollSource hoff' now source
      exact ⟨hlistens.sink, hlistens.events⟩

/-- A source that hands over its bytes, as many of them as are asked for. -/
instance : ByteSource (List UInt8) Empty where
  read bytes n := (.ok ⟨bytes.take n, min n bytes.length⟩, bytes.drop n)

/-- An application frame and a data frame behind it. -/
def mixed : List UInt8 :=
  Frame.wire ⟨.app 2, 0, .singleton 7⟩ ++ Frame.wire ⟨.data 1, 0, .singleton 8⟩

/-- They arrive in two pieces, while other things go on. -/
def inPieces : List (Step (TxQueue 64) (List UInt8)) :=
  [.operation (.poll 0 (mixed.take 5)), .operation (.resetTransport true),
    .operation (.sendUnreliable 3 [1]), .line .empty,
    .operation (.pollSource 1 (mixed.drop 5))]

def atOnce : List (Step (TxQueue 64) (List UInt8)) := [.operation (.poll 0 mixed)]

theorem application_frames_bypass_inPieces :
    ∃ out other : Endpoint (TxQueue 64) × List (Event Empty),
      out = run (fun q _ => q) { label := 0, config := .unreliable, sink := .empty } inPieces ∧
      other = run (fun q _ => q) { label := 1, config := .standard, sink := .empty } atOnce ∧
      received atOnce = received inPieces ∧ Config.unreliable.transport = false ∧
      applications out.2 = [⟨.app 2, 0, .singleton 7⟩] ∧
      applications other.2 = applications out.2 ∧
      callbacks out.2 = (applications out.2).map .delivered ∧
      out.1.decoder.stats.frames = out.1.framesReceived + out.1.framesDropped ∧
      (out.1.poll 2 mixed).1.sink = out.1.sink := by
  have hsame : received atOnce = received inPieces := by decide +kernel
  have hfeed : (Decoder.fresh.feed (received inPieces)).2.filter Frame.isApp =
      [⟨.app 2, 0, .singleton 7⟩] := by decide +kernel
  obtain ⟨happs, hothers, hoff⟩ :=
    application_frames_bypass 0 .unreliable (.empty : TxQueue 64) (fun q _ => q) inPieces
  have hother := hothers 1 .standard (.empty : TxQueue 64) (fun q _ => q) atOnce hsame
  obtain ⟨hcallbacks, -, hframes, hpoll, -⟩ := hoff rfl
  have hsink := (hpoll 2 mixed).1
  exact ⟨_, _, rfl, rfl, hsame, rfl, happs.trans hfeed, hother, hcallbacks, hframes, hsink⟩

end Endpoint

end SerialLink
