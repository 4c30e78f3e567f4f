import SerialLink.Proofs.Endpoint.Bypass
import SerialLink.Proofs.Transport.Settled

/-!
# Polls at the same time

A poll without bytes is a tick. Where the sink takes what it is offered, a second one at the same
time does nothing, or sends what the first one kept when it gave up frames; a third one never does
anything.

`Regular.settles` from `Proofs.Transport.Settled` has the argument; here it is applied to every
transport that operations lead to, and through `poll_nil` to the polls of an endpoint. Two things
are needed besides. The times of the settings are not zero, which `Config.validate` sees to. And the
sink takes what it is offered: `Taken` says so of the events of the tick, and
`Reaches.taken_service` and `taken_poll_run` give it for any sink with room for as many frames as a
turn can have, `RoomFor framesPerTurn`.
-/

namespace SerialLink

/-- The times in settings that pass `validate` are not zero. -/
theorem Config.pos_of_validate {c : Config} (h : c.validate = .ok ()) {t : UInt32}
    (ht : t ∈ c.timeouts) : 0 < t := by
  unfold validate at h
  split at h
  · exact absurd h (by simp)
  · split at h
    · exact absurd h (by simp)
    · next hshort =>
      have hne : t ≠ 0 := fun hzero => hshort ⟨t, ht, .inl hzero⟩
      exact UInt32.pos_iff_ne_zero.mpr hne

namespace Transport

variable {σ ε : Type} [ByteSink σ ε]

/-- The settings by which a transport in use tells what is due, the retry timeout and the
`ackInterval`, are not zero. -/
theorem Reaches.pos_of_validate {c : Config} (hvalid : c.validate = .ok ()) {t : Transport}
    (h : (ofConfig c).Reaches σ t) : 0 < t.policy.timeout ∧ 0 < t.ackInterval := by
  obtain ⟨ops, rfl⟩ := h
  have hpolicy := (settings_run (ε := ε) (ofConfig c) ops).1
  have hinterval := (counts_run (ε := ε) (ofConfig c) ops).ackInterval
  rw [hpolicy, hinterval]
  exact ⟨Config.pos_of_validate hvalid (by simp [Config.timeouts, ofConfig, Config.retryPolicy]),
    Config.pos_of_validate hvalid (by simp [Config.timeouts, ofConfig])⟩

/-- A sink with room takes a tick whole in every state that a transport can reach. -/
theorem Reaches.taken_service {σ₀ ε₀ : Type} [ByteSink σ₀ ε₀] {c : Config} {t : Transport}
    (h : (ofConfig c).Reaches σ₀ t) {sink : σ} (hroom : RoomFor framesPerTurn sink)
    (now : UInt32) : Taken (t.service now sink).events :=
  ((regular_ofConfig c).reaches h).taken_service hroom now

end Transport

namespace Endpoint

variable {σ ε ρ ε' δ : Type} [ByteSink σ ε] [ByteSource ρ ε'] {e : Endpoint σ}

/-- A `poll` without bytes is a `service` of the transport. -/
theorem poll_nil (h : e.config.transport) (now : UInt32) :
    e.poll now [] = e.withTurn (e.transport.service now e.sink) := by
  unfold poll receive tick
  dsimp only
  rw [if_pos h]
  rfl

/-- A `poll` without bytes does nothing on a `Settled` transport, in whatever state the sink is. -/
theorem poll_settled (h : e.config.transport) {now : UInt32} (hsettled : e.transport.Settled now)
    (sink : σ) :
    ({ e with sink } : Endpoint σ).poll now [] = ({ e with sink }, []) := by
  rw [poll_nil (e := { e with sink }) h, hsettled.service_eq]
  rfl

/-- A sink with room takes a poll without bytes whole in every state that an endpoint can reach. -/
theorem taken_poll_run (label : UInt8) (c : Config) (sink : σ) (line : δ → σ → σ)
    (steps : List (Step δ ρ)) (now : UInt32) :
    let e := (({ label, config := c, sink } : Endpoint σ).run line steps).1
    RoomFor Transport.framesPerTurn e.sink → Taken (e.poll now []).2 := by
  intro e hroom
  by_cases hon : e.config.transport
  · have hreaches : (Transport.ofConfig c).Reaches σ e.transport := reaches_run line _ steps
    rw [poll_nil hon]
    exact hreaches.taken_service hroom now
  · -- Without the transport there is no tick, and no bytes arrived.
    have hnothing : e.poll now [] = (e, []) := by
      unfold poll receive tick
      dsimp only
      rw [if_neg hon]
      rfl
    rw [hnothing]
    exact fun x hx => absurd hx List.not_mem_nil

/-- **A second tick at the same time does nothing.** Where the sink takes what it is offered, a tick
that gives nothing up leaves a transport that a further tick at that time does not touch. Where the
first one gives up frames, the second one sends those that were kept, under their new numbers, each
of them once; the third one does nothing. With the transport in use the same holds of polls without
bytes. That the sink takes it, `Taken`, holds of every sink with `RoomFor framesPerTurn`, by
`Reaches.taken_service` and `taken_poll_run`. -/
theorem second_tick_idle {c : Config} (hvalid : c.validate = .ok ()) :
    (∀ {σ₀ ε₀ : Type} [ByteSink σ₀ ε₀] (ops : List (Transport.Operation σ₀)) (now : UInt32)
      (sink : σ),
      let t := (Transport.ofConfig c).run (ε := ε₀) ops
      let first := t.service now sink
      Taken first.events →
        (failures first.events = [] → ∀ sink' : σ,
          first.transport.service now sink' = ⟨first.transport, sink', []⟩) ∧
        (failures first.events ≠ [] → ∀ sink' : σ,
          let second := first.transport.service now sink'
          Taken second.events →
            second.events = (keptFrames t.queue).map (fun f => .attempted f (.ok f.wire.length)) ∧
              ∀ sink'' : σ,
                second.transport.service now sink'' = ⟨second.transport, sink'', []⟩)) ∧
      (c.transport → ∀ (label : UInt8) (sink : σ) (line : δ → σ → σ) (steps : List (Step δ ρ))
        (now : UInt32),
        let e := (({ label, config := c, sink } : Endpoint σ).run line steps).1
        let first := e.poll now []
        Taken first.2 →
          (failures first.2 = [] → ∀ sink' : σ,
            ({ first.1 with sink := sink' } : Endpoint σ).poll now [] =
              ({ first.1 with sink := sink' }, [])) ∧
          (failures first.2 ≠ [] → ∀ sink' : σ,
            let second := ({ first.1 with sink := sink' } : Endpoint σ).poll now []
            Taken second.2 →
              second.2 =
                  (keptFrames e.transport.queue).map (fun f => .attempted f (.ok f.wire.length)) ∧
                ∀ sink'' : σ, ({ second.1 with sink := sink'' } : Endpoint σ).poll now [] =
                  ({ second.1 with sink := sink'' }, []))) := by
  constructor
  · intro σ₀ ε₀ _ ops now sink t first htaken
    have hreaches : (Transport.ofConfig c).Reaches σ₀ t := ⟨ops, rfl⟩
    have hregular : t.Regular := (Transport.regular_ofConfig c).reaches hreaches
    obtain ⟨htimeout, hinterval⟩ := hreaches.pos_of_validate hvalid
    obtain ⟨hnone, hgave⟩ := hregular.settles htimeout hinterval htaken
    constructor
    · intro h
      exact (hnone h).service_eq
    · intro h sink' second htaken'
      obtain ⟨hevents, hsettled⟩ := hgave h sink' htaken'
      exact ⟨hevents, hsettled.service_eq⟩
  · intro htransport label sink line steps now e first htaken
    have hreaches : (Transport.ofConfig c).Reaches σ e.transport := reaches_run line _ steps
    have hregular : e.transport.Regular := (Transport.regular_ofConfig c).reaches hreaches
    obtain ⟨htimeout, hinterval⟩ := hreaches.pos_of_validate hvalid
    have hon : e.config.transport := by
      rw [config_run line _ steps]
      exact htransport
    have hfirst : first = e.withTurn (e.transport.service now e.sink) := poll_nil hon now
    rw [hfirst] at htaken ⊢
    obtain ⟨hnone, hgave⟩ := hregular.settles htimeout hinterval htaken
    constructor
    · intro h
      exact poll_settled (e := (e.withTurn (e.transport.service now e.sink)).1) hon (hnone h)
    · intro h sink' second htaken'
      have hsecond : second = { e with sink := sink' }.withTurn
          ((e.transport.service now e.sink).transport.service now sink') :=
        poll_nil (e := { (e.withTurn (e.transport.service now e.sink)).1 with sink := sink' })
          hon now
      rw [hsecond] at htaken' ⊢
      obtain ⟨hevents, hsettled⟩ := hgave h sink' htaken'
      exact ⟨hevents, poll_settled (e := (withTurn _ _).1) hon hsettled⟩

/-- A frame runs out of retries while another one waits to be sent for the first time. -/
def oneKept : List (Transport.Operation (TxQueue 64)) :=
  [.send ⟨1, [0x11]⟩, .service 0 .empty, .send ⟨2, [0x22]⟩]

def oneSent : List (Step (TxQueue 64) (List UInt8)) := [.operation (.sendReliable 1 [0x11])]

theorem second_tick_idle_oneKept :
    let c : Config := { retransmitTimeout := 10, maxRetransmits := 0 }
    let t := (Transport.ofConfig c).run oneKept
    let first := t.service 10 (TxQueue.empty : TxQueue 64)
    let second := first.transport.service 10 (TxQueue.empty : TxQueue 64)
    (c.validate = .ok () ∧ Taken first.events ∧ Taken second.events ∧ c.transport) ∧
      failures first.events = [⟨1, 0, .singleton 0x11, .retriesExhausted⟩] ∧
      written second.events = [⟨.data 2, 0, .singleton 0x22⟩] ∧
      second.transport.service 10 (TxQueue.empty : TxQueue 64) =
        ⟨second.transport, .empty, []⟩ ∧
      ∃ polled : Endpoint (TxQueue 64) × List (Event Empty),
        polled = ((({ label := 0, config := c, sink := .empty } : Endpoint (TxQueue 64)).run
          (fun q _ => q) oneSent).1.poll 0 []) ∧
        Taken polled.2 ∧ written polled.2 = [⟨.data 1, 0, .singleton 0x11⟩] ∧
        ({ polled.1 with sink := .empty } : Endpoint (TxQueue 64)).poll 0 [] =
          ({ polled.1 with sink := .empty }, []) := by
  intro c t first second
  have hvalid : c.validate = .ok () := rfl
  have htaken : Taken first.events := by decide +kernel
  have htaken' : Taken second.events := by decide +kernel
  have hgave : failures first.events = [⟨1, 0, .singleton 0x11, .retriesExhausted⟩] := by
    decide +kernel
  have hne : failures first.events ≠ [] := hgave ▸ List.cons_ne_nil _ _
  obtain ⟨hticks, hpolls⟩ := second_tick_idle (σ := TxQueue 64) (ρ := List UInt8)
    (δ := TxQueue 64) hvalid
  obtain ⟨hevents, hthird⟩ := (hticks oneKept 10 .empty htaken).2 hne .empty htaken'
  have hsent : written second.events = [⟨.data 2, 0, .singleton 0x22⟩] :=
    (congrArg written hevents).trans (by decide +kernel)
  refine ⟨⟨hvalid, htaken, htaken', rfl⟩, hgave, hsent, hthird .empty, _, rfl, ?_, ?_, ?_⟩
  · decide +kernel
  · decide +kernel
  · exact (hpolls rfl 0 .empty (fun q _ => q) oneSent 0 (by decide +kernel)).1 (by decide +kernel)
      .empty

end Endpoint

end SerialLink
