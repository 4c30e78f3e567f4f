import SerialLink.Proofs.Clock
import SerialLink.Proofs.Endpoint.Bypass
import SerialLink.Proofs.Transport.Hearing

/-!
# A peer that fell silent

An endpoint remembers when a valid frame and when a data frame last arrived, by the wrapping clock
and for as long as nothing else arrives. So it takes the silence of a peer for what is left of it
after whole turns of the clock: it notices a silence that is longer than the idle timeout, and it
takes the peer for connected again when the clock comes round to the time of the last frame.

`arrivals` are the frames that a decoder finds, with the true times of the steps, and `Remembers`
says what of them is known: the times of the last ones, wrapped. It is an invariant of a transport,
by the lemmas of `Proofs.Transport.Hearing`, and then of an endpoint, function by function up to
`Remembers.run`. What an endpoint concludes from the times is `Remembers.isConnected_eq` and
`Remembers.active_of_tick`, both in terms of `elapsed`; `elapsed_lt_iff` from `Proofs.Clock` says by
`SeemsShort` what that means for the true ones.
-/

namespace SerialLink

/-! ## What a transport remembers -/

namespace Transport

variable {σ ε : Type} [ByteSink σ ε] {t t' : Transport} {c : Config} {heard : List (Nat × Frame)}

/-- The transport remembers the time of the last of the frames heard. If it is in use, it also
remembers that of the last data frame. -/
structure Remembers (t : Transport) (c : Config) (heard : List (Nat × Frame)) : Prop where
  idleTimeout : t.idleTimeout = c.idleTimeout
  lastHeard : t.lastHeard = heard.getLast?.map fun x => x.1.toUInt32
  lastData : c.transport →
    t.lastData = (heard.filter fun x => x.2.isData).getLast?.map fun x => x.1.toUInt32

theorem remembers_ofConfig (c : Config) : (ofConfig c).Remembers c [] :=
  ⟨rfl, rfl, fun _ => rfl⟩

/-- What is `Unheard` is not to be remembered. -/
theorem Remembers.unheard (h : t.Remembers c heard) (hu : t.Unheard t') : t'.Remembers c heard where
  idleTimeout := hu.idleTimeout.trans h.idleTimeout
  lastHeard := hu.lastHeard.trans h.lastHeard
  lastData hon := hu.lastData.trans (h.lastData hon)

/-- `noteHeard` notes any frame when it arrives. Nothing else is to be remembered of one that is not
data. -/
theorem Remembers.noteHeard (h : t.Remembers c heard) (time : Nat) {f : Frame}
    (hdata : c.transport → ¬ f.isData) :
    (t.noteHeard time.toUInt32).Remembers c (heard ++ [(time, f)]) where
  idleTimeout := h.idleTimeout
  lastHeard := by simp [Transport.noteHeard]
  lastData hon := by
    have hsame : (heard ++ [(time, f)]).filter (fun x => x.2.isData) =
        heard.filter fun x => x.2.isData := by
      simp [List.filter_append, hdata hon]
    rw [hsame]
    exact h.lastData hon

/-- `receive` notes a data frame that arrives as such. -/
theorem Remembers.receive (h : t.Remembers c heard) (time : Nat) (f : Frame) (sink : σ) :
    ((t.noteHeard time.toUInt32).receive time.toUInt32 f sink).transport.Remembers c
      (heard ++ [(time, f)]) := by
  by_cases hdata : f.isData
  · obtain ⟨-, hidle, hheard, hlast, -⟩ :=
      (t.noteHeard time.toUInt32).receive_data_heard hdata time.toUInt32 sink
    refine ⟨hidle.trans h.idleTimeout, hheard.trans ?_, fun _ => hlast.trans ?_⟩
    · simp [Transport.noteHeard]
    · simp [List.filter_append, hdata]
  · exact (h.noteHeard time fun _ => hdata).unheard (unheard_receive hdata _ _ sink)

end Transport

namespace Endpoint

variable {σ ε ρ ε' δ : Type} [ByteSink σ ε] [ByteSource ρ ε']

/-! ## Steps at true times -/

/-- What an operation is told the time to be. -/
def Operation.now? : Operation ρ → Option UInt32
  | .poll now _ | .pollSource now _ => some now
  | .sendReliable _ _ | .sendUnreliable _ _ | .resetTransport _ => none

def Step.now? : Step δ ρ → Option UInt32
  | .operation op => op.now?
  | .line _ => none

/-- In each step the endpoint is told the true time, modulo 2³²: what `now?` gives is the time of
the step, wrapped. -/
def Told (steps : List (Nat × Step δ ρ)) : Prop :=
  ∀ s ∈ steps, ∀ now ∈ s.2.now?, now = s.1.toUInt32

/-- The valid frames in the bytes received, each with the time when it arrived. -/
def arrivals (d : Decoder) : List (Nat × Step δ ρ) → List (Nat × Frame)
  | [] => []
  | s :: rest => (d.feed s.2.received).2.map (s.1, ·) ++ arrivals (d.feed s.2.received).1 rest

/-- One more step goes on with the decoder that has taken all bytes `received` before. -/
theorem arrivals_concat (d : Decoder) (steps : List (Nat × Step δ ρ)) (s : Nat × Step δ ρ) :
    arrivals d (steps ++ [s]) = arrivals d steps ++
      ((d.feed (received (steps.map Prod.snd))).1.feed s.2.received).2.map (s.1, ·) := by
  induction steps generalizing d with
  | nil => exact List.append_nil _
  | cons x rest ih =>
    have hfeed := d.feed_append x.2.received (received (rest.map Prod.snd))
    have hbytes : received ((x :: rest).map Prod.snd) =
        x.2.received ++ received (rest.map Prod.snd) := rfl
    rw [hbytes, hfeed, List.cons_append, arrivals, arrivals, ih, List.append_assoc]

/-- The times of `arrivals` are times of the steps. -/
theorem time_of_mem_arrivals {d : Decoder} {steps : List (Nat × Step δ ρ)} {x : Nat × Frame}
    (hx : x ∈ arrivals d steps) : ∃ s ∈ steps, s.1 = x.1 := by
  induction steps generalizing d with
  | nil => exact absurd hx List.not_mem_nil
  | cons s rest ih =>
    rcases List.mem_append.mp hx with hx | hx
    · obtain ⟨f, -, rfl⟩ := List.mem_map.mp hx
      exact ⟨s, List.mem_cons_self .., rfl⟩
    · obtain ⟨s', hs', htime⟩ := ih hx
      exact ⟨s', List.mem_cons_of_mem s hs', htime⟩

/-! ## What an endpoint remembers -/

section remembers

variable {e : Endpoint σ} {c : Config} {heard : List (Nat × Frame)}

/-- The transport of the endpoint remembers what was heard. -/
structure Remembers (e : Endpoint σ) (c : Config) (heard : List (Nat × Frame)) : Prop where
  config : e.config = c
  transport : e.transport.Remembers c heard

theorem Remembers.dispatch (h : e.Remembers c heard) (time : Nat) (f : Frame) :
    (e.dispatch time.toUInt32 f).1.Remembers c (heard ++ [(time, f)]) := by
  unfold Endpoint.dispatch
  split
  · next a hid =>
    have hdata : ¬ f.isData := by simp [Frame.isData, hid]
    exact ⟨h.config, h.transport.noteHeard time fun _ => hdata⟩
  · dsimp only
    split
    · exact ⟨h.config, h.transport.receive time f e.sink⟩
    · next hoff =>
      -- A transport that is not used need not remember data frames.
      exact ⟨h.config, h.transport.noteHeard time fun hon => absurd (h.config ▸ hon) hoff⟩

/-- Bytes that are received together bring frames of the same time. -/
theorem Remembers.receive (h : e.Remembers c heard) (time : Nat) (bytes : List UInt8) :
    (e.receive time.toUInt32 bytes).1.Remembers c
      (heard ++ (e.decoder.feed bytes).2.map (time, ·)) := by
  induction bytes generalizing e heard with
  | nil => simpa [Endpoint.receive, Decoder.feed] using h
  | cons b rest ih =>
    have hchunk : ((e.decoder.push b).1, (e.decoder.push b).2.frame?.toList) = e.decoder.feed [b] :=
      e.decoder.takeChunk_eq_feed (.single b)
    have hfeed := e.decoder.feed_append [b] rest
    have hdecoder := (e.hears_receiveByte time.toUInt32 b).decoder
    -- The byte completes a frame, which is dispatched, or it does not.
    have hpushed : ({ e with decoder := (e.decoder.push b).1 } : Endpoint σ).Remembers c heard :=
      ⟨h.config, h.transport⟩
    have hfirst : (e.receiveByte time.toUInt32 b).1.Remembers c
        (heard ++ (e.decoder.feed [b]).2.map (time, ·)) := by
      rw [← hchunk]
      unfold receiveByte
      dsimp only
      split
      · next f hf =>
        rw [hf]
        exact hpushed.dispatch time f
      · next hnone =>
        rw [Progress.frame?_eq_none hnone]
        exact (List.append_nil heard).symm ▸ hpushed
    have hothers := ih hfirst
    rw [hdecoder] at hothers
    rw [List.singleton_append] at hfeed
    rw [hfeed, List.map_append, ← List.append_assoc]
    exact hothers

theorem Remembers.poll (h : e.Remembers c heard) (time : Nat) (bytes : List UInt8) :
    (e.poll time.toUInt32 bytes).1.Remembers c
      (heard ++ (e.decoder.feed bytes).2.map (time, ·)) := by
  have hreceived := h.receive time bytes
  unfold Endpoint.poll
  dsimp only
  generalize (e.receive time.toUInt32 bytes).1 = received at hreceived ⊢
  unfold tick
  split
  · exact ⟨hreceived.config, hreceived.transport.unheard (received.transport.unheard_service _ _)⟩
  · exact hreceived

/-- **Every operation is remembered by the frames in the bytes that it receives.** -/
theorem Remembers.perform (h : e.Remembers c heard) {time : Nat} {op : Operation ρ}
    (htold : ∀ now ∈ op.now?, now = time.toUInt32) :
    (e.perform op).1.Remembers c (heard ++ (e.decoder.feed op.received).2.map (time, ·)) := by
  have hnothing : heard ++ (e.decoder.feed []).2.map (time, ·) = heard := by
    simp [Decoder.feed]
  -- Only a poll receives bytes; the other operations leave what the transport heard.
  cases op with
  | poll now bytes =>
    obtain rfl := htold now rfl
    exact h.poll time bytes
  | pollSource now source =>
    obtain rfl := htold now rfl
    simp only [Endpoint.perform, pollSource, Operation.received]
    rcases ByteSource.read source chunkSize with ⟨failure | r, source'⟩
    · exact hnothing.symm ▸ h
    · exact h.poll time (readBytes r)
  | sendReliable id payload =>
    refine hnothing.symm ▸ ?_
    simp only [Endpoint.perform]
    obtain ⟨failure, hsubmit⟩ | ⟨seq, t', -, hsend, hsubmit⟩ := submit_cases (ε := ε) e id payload
    · rw [hsubmit]
      exact h
    · rw [hsubmit]
      exact ⟨h.config, h.transport.unheard (Transport.unheard_enqueue hsend)⟩
  | sendUnreliable id payload =>
    refine hnothing.symm ▸ ?_
    simp only [Endpoint.perform, sendUnreliable]
    cases Frame.app id payload with
    | error failure => exact h
    | ok f => exact ⟨h.config, h.transport⟩
  | resetTransport inform =>
    refine hnothing.symm ▸ ?_
    simp only [Endpoint.perform, resetTransport]
    split
    · exact ⟨h.config, h.transport.unheard (e.transport.unheard_reset inform e.sink)⟩
    · exact h

/-- **An endpoint remembers when the last frames arrived, whatever it is put through.** -/
theorem Remembers.run (line : δ → σ → σ) (h : e.Remembers c heard)
    {steps : List (Nat × Step δ ρ)} (htold : Told steps) :
    (e.run line (steps.map Prod.snd)).1.Remembers c (heard ++ arrivals e.decoder steps) := by
  induction steps generalizing e heard with
  | nil => simpa [arrivals, Endpoint.run] using h
  | cons s rest ih =>
    have hrest : Told rest := fun x hx => htold x (List.mem_cons_of_mem s hx)
    have hnow := htold s (List.mem_cons_self ..)
    obtain ⟨time, s⟩ := s
    cases s with
    | operation op =>
      have hdecoder := (e.hears_perform op).decoder
      have hothers := ih (h.perform hnow) hrest
      rw [hdecoder, List.append_assoc] at hothers
      exact hothers
    | line change =>
      have hline : ({ e with sink := line change e.sink } : Endpoint σ).Remembers c heard :=
        ⟨h.config, h.transport⟩
      exact ih hline hrest

/-- `isConnected` goes by the time of the last frame. -/
theorem Remembers.isConnected_eq (h : e.Remembers c heard) (now : UInt32) :
    e.isConnected now =
      heard.getLast?.any fun x => elapsed now x.1.toUInt32 < c.idleTimeout := by
  unfold Endpoint.isConnected Transport.isConnected
  rw [h.transport.lastHeard, h.transport.idleTimeout]
  cases heard.getLast? <;> rfl

/-- A `tick` repeats an acknowledgement by the time of the last data frame. -/
theorem Remembers.active_of_tick (h : e.Remembers c heard) {now : UInt32} {f : Frame}
    {r : Except (SendError ε) Nat} (hf : .attempted f r ∈ (e.tick now).2) (hid : f.id = .ack) :
    ∃ t g, (heard.filter fun x => x.2.isData).getLast? = some (t, g) ∧
      elapsed now t.toUInt32 < c.idleTimeout := by
  unfold tick at hf
  split at hf
  · next hon =>
    obtain ⟨since, hdata, hshort⟩ := Transport.active_of_service hf hid
    rw [h.transport.lastData (h.config ▸ hon)] at hdata
    rw [h.transport.idleTimeout] at hshort
    obtain ⟨⟨t, g⟩, hlast, rfl⟩ := Option.map_eq_some_iff.mp hdata
    exact ⟨t, g, hlast, hshort⟩
  · -- Without a transport there is nothing to acknowledge.
    exact absurd hf List.not_mem_nil

end remembers

/-! ## How long a silence seems -/

/-- The last one of some arrivals is in the past. -/
theorem time_of_last {steps : List (Nat × Step δ ρ)} {time : Nat}
    (hpast : ∀ s ∈ steps, s.1 ≤ time) {d : Decoder} {x : Nat × Frame}
    (hx : x ∈ arrivals d steps) : x.1 ≤ time := by
  obtain ⟨s, hs, htime⟩ := time_of_mem_arrivals hx
  exact htime ▸ hpast s hs

/-- **A silent peer counts as connected while its silence seems short.** Whatever an endpoint is put
through, it takes its peer for connected just when the time since the last valid frame seems shorter
than the idle timeout, and a tick repeats an acknowledgement only when the time since the last data
frame does. Less than one turn of the clock after that frame this is the time that really passed. -/
theorem silence_of_run {steps : List (Nat × Step δ ρ)} (htold : Told steps) {time : Nat}
    (hpast : ∀ s ∈ steps, s.1 ≤ time) (label : UInt8) (c : Config) (sink : σ)
    (line : δ → σ → σ) :
    let e := (({ label, config := c, sink } : Endpoint σ).run line (steps.map Prod.snd)).1
    let now := time.toUInt32
    (arrivals .fresh steps = [] → ¬ e.isConnected now) ∧
      (∀ t f, (arrivals .fresh steps).getLast? = some (t, f) →
        t ≤ time ∧ (e.isConnected now ↔ SeemsShort (time - t) c.idleTimeout) ∧
          (time - t < UInt32.size → (e.isConnected now ↔ time - t < c.idleTimeout.toNat))) ∧
      ∀ bytes f r, .attempted f r ∈ ((e.receive now bytes).1.tick now).2 → f.id = .ack →
        let heard := arrivals .fresh (steps ++ [(time, .operation (.poll now bytes))])
        ∃ t g, (heard.filter fun x => x.2.isData).getLast? = some (t, g) ∧
          t ≤ time ∧ SeemsShort (time - t) c.idleTimeout ∧
            (time - t < UInt32.size → time - t < c.idleTimeout.toNat) := by
  intro e now
  have hfresh : ({ label, config := c, sink } : Endpoint σ).Remembers c [] :=
    ⟨rfl, Transport.remembers_ofConfig c⟩
  have hremembers : e.Remembers c (arrivals .fresh steps) := hfresh.run line htold
  have hconnected := hremembers.isConnected_eq now
  refine ⟨?_, ?_, ?_⟩
  · intro hnone
    simp [hconnected, hnone]
  · intro t f hlast
    have hle : t ≤ time := time_of_last hpast (List.mem_of_getLast? hlast)
    have hiff : e.isConnected now ↔ SeemsShort (time - t) c.idleTimeout := by
      rw [hconnected, hlast]
      simp only [Option.any_some, decide_eq_true_eq]
      exact elapsed_lt_iff hle c.idleTimeout
    refine ⟨hle, hiff, fun hturn => hiff.trans ?_⟩
    exact ⟨fun h => h.lt hturn, .inl⟩
  · intro bytes f r hf hid heard
    -- The bytes of the poll itself arrive before its tick.
    have hreceived := hremembers.receive time bytes
    have hdecoder : e.decoder = (Decoder.fresh.feed (received (steps.map Prod.snd))).1 :=
      (hears_run line ({ label, config := c, sink } : Endpoint σ) (steps.map Prod.snd)).decoder
    have hheard : heard = arrivals .fresh steps ++ (e.decoder.feed bytes).2.map (time, ·) := by
      rw [hdecoder]
      exact arrivals_concat .fresh steps _
    rw [← hheard] at hreceived
    obtain ⟨t, g, hlast, hshort⟩ := hreceived.active_of_tick hf hid
    have hpast' : ∀ s ∈ steps ++ [(time, .operation (.poll now bytes))], s.1 ≤ time :=
      List.forall_mem_append.mpr ⟨hpast, List.forall_mem_singleton.mpr (Nat.le_refl time)⟩
    have hmem := (List.mem_filter.mp (List.mem_of_getLast? hlast)).1
    have hle : t ≤ time := time_of_last hpast' hmem
    have hseems := (elapsed_lt_iff hle c.idleTimeout).mp hshort
    exact ⟨t, g, hlast, hle, hseems, fun hturn => hseems.lt hturn⟩

/-- One data frame arrives and nothing more. The endpoint is polled now and then. -/
def oneThenSilence : List (Nat × Step (TxQueue 64) (List UInt8)) :=
  [(0, .operation (.poll 0 (Frame.wire ⟨.data 1, 0, .singleton 0x11⟩))),
    (1000, .operation (.poll 1000 [])), (3000000000, .operation (.poll 3000000000 []))]

theorem told_oneThenSilence : Told oneThenSilence := by
  simp [Told, oneThenSilence, Step.now?, Operation.now?]

theorem silence_of_run_atFirst :
    let steps := oneThenSilence.take 1
    let now := Nat.toUInt32 300
    let e := (({ label := 0, config := .standard, sink := .empty } : Endpoint (TxQueue 64)).run
      (fun q _ => q) (steps.map Prod.snd)).1
    let events : List (Event Empty) := ((e.receive now []).1.tick now).2
    let heard := arrivals .fresh (steps ++ [(300, .operation (.poll now []))])
    Told steps ∧ (∀ s ∈ steps, s.1 ≤ 300) ∧
      arrivals .fresh steps = [(0, ⟨.data 1, 0, .singleton 0x11⟩)] ∧ e.isConnected now ∧
      (∃ r, .attempted (Frame.ack 1) r ∈ events) ∧
      ∃ t g, (heard.filter fun x => x.2.isData).getLast? = some (t, g) ∧
        SeemsShort (300 - t) Config.standard.idleTimeout := by
  intro steps now e events heard
  have htold : Told steps := fun s hs => told_oneThenSilence s (List.mem_of_mem_take hs)
  have hpast : ∀ s ∈ steps, s.1 ≤ 300 := by decide +kernel
  have hheard : arrivals .fresh steps = [(0, ⟨.data 1, 0, .singleton 0x11⟩)] := by decide +kernel
  have hwritten : Frame.ack 1 ∈ written events := by decide +kernel
  obtain ⟨-, hconnected, hacked⟩ := silence_of_run htold hpast 0 .standard
    (TxQueue.empty : TxQueue 64) (fun q _ => q)
  obtain ⟨-, -, hiff⟩ := hconnected 0 _ (congrArg List.getLast? hheard)
  obtain ⟨n, hattempted⟩ := exists_attempted hwritten
  obtain ⟨t, g, hlast, -, hshort, -⟩ := hacked [] _ _ hattempted rfl
  exact ⟨htold, hpast, hheard, (hiff (by decide)).mpr (by decide), ⟨.ok n, hattempted⟩,
    t, g, hlast, hshort⟩

/-- **The clock comes round, and the peer counts as connected again.** Some seven weeks after
the last frame it is taken for active, and an acknowledgement is repeated. -/
theorem connected_after_turn :
    let e := (({ label := 0, config := .standard, sink := .empty } : Endpoint (TxQueue 64)).run
      (fun q _ => q) (oneThenSilence.map Prod.snd)).1
    let time := UInt32.size + 300
    Config.standard.validate = .ok () ∧ Told oneThenSilence ∧
      oneThenSilence.Pairwise (fun s s' => s.1 ≤ s'.1) ∧ (∀ s ∈ oneThenSilence, s.1 ≤ time) ∧
      arrivals .fresh oneThenSilence = [(0, ⟨.data 1, 0, .singleton 0x11⟩)] ∧
      ¬ time - 0 < Config.standard.idleTimeout.toNat ∧
      e.isConnected time.toUInt32 ∧ written (e.poll time.toUInt32 []).2 = [Frame.ack 1] := by
  intro e time
  exact ⟨rfl, told_oneThenSilence, by decide +kernel, by decide +kernel, by decide +kernel,
    by decide +kernel, by decide +kernel, by decide +kernel⟩

end Endpoint

end SerialLink
