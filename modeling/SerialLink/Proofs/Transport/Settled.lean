import SerialLink.Proofs.Clock
import SerialLink.Proofs.Transport.Callbacks
import SerialLink.Proofs.Transport.Hearing
import SerialLink.Proofs.Transport.Room
import SerialLink.Proofs.Transport.Space

/-!
# A tick leaves nothing to do

A tick whose frames the sink takes does all that is due at its time: after it every queued frame
waits for its timeout, no reset is pending, and no acknowledgement is to be repeated. Another tick
at the same time then does nothing at all. Only a tick that gives up frames leaves work behind: the
frames never sent, which restart under new numbers and are sent by the next tick.

`Settled` is that nothing is due, and has one field for each part of a tick; `Settled.service_eq`
says that such a tick is the identity. That a tick leaves the transport so is put together from
`flushed_service`, `waiting_sweep` and `acked_service`, and `Regular.settles` has both ticks of the
case in which frames are given up. `Taken` is what is asked of the sink. Since every frame of a
transport has a wire form, it amounts to `Unrefused` (`Wired.unrefused`), and by
`Proofs.Transport.Space` a sink with room satisfies it (`Regular.taken_service`).
`Proofs.Endpoint.Settled` has the same of the calls of an endpoint.
-/

namespace SerialLink

variable {σ ε : Type}

/-! ## Sinks that take what they are offered -/

/-- The sink was asked to take the frame and did not take it whole. A frame without a wire form
fails before a sink is asked. -/
def Event.isTurnedDown : Event ε → Bool
  | .attempted _ (.error (.frame _)) => false
  | event => event.isRefused

/-- The sink had room for every frame that it was asked to take, and took it whole. -/
def Taken (events : List (Event ε)) : Prop := ∀ x ∈ events, ¬ x.isTurnedDown

instance (events : List (Event ε)) : Decidable (Taken events) :=
  inferInstanceAs (Decidable (∀ x ∈ events, ¬ x.isTurnedDown))

theorem taken_cons {e : Event ε} {events : List (Event ε)} :
    Taken (e :: events) ↔ ¬ e.isTurnedDown ∧ Taken events :=
  List.forall_mem_cons

/-- Only a frame that `isRefused` can have been turned down. -/
theorem Unrefused.taken {events : List (Event ε)} (h : Unrefused events) : Taken events := by
  intro x hx hdown
  unfold Event.isTurnedDown at hdown
  split at hdown
  · exact absurd hdown Bool.false_ne_true
  · exact h x hx hdown

section sendResult

variable {f : Frame} {expected : Nat} {result : Except ε Nat}

/-- A write that is accepted in part or fails is the doing of the sink: of what `sendResult` makes
of it, all that is refused is turned down. -/
theorem isTurnedDown_sendResult :
    Event.isTurnedDown (.attempted f (sendResult expected result)) =
      Event.isRefused (.attempted f (sendResult expected result)) := by
  unfold sendResult
  cases result with
  | error failure => rfl
  | ok n =>
    dsimp only
    split <;> rfl

theorem sendResult_of_unrefused
    (h : ¬ Event.isRefused (.attempted f (sendResult expected result))) :
    sendResult expected result = .ok expected := by
  unfold sendResult at h ⊢
  cases result with
  | error failure => exact absurd rfl h
  | ok n =>
    dsimp only at h ⊢
    split at h
    · next hn => rw [if_pos hn]
    · exact absurd rfl h

end sendResult

namespace Wired

variable [ByteSink σ ε] {sink sink' : σ} {events : List (Event ε)}

/-- All frames of a transport have a wire form, so none fails but for the sink, and `Taken` is
enough for `Unrefused`. -/
theorem unrefused (h : Wired sink events sink') (htaken : Taken events) : Unrefused events := by
  induction h with
  | done => simp [Unrefused]
  | refused => exact absurd rfl (taken_cons.mp htaken).1
  | delivered _ ih | abandoned _ ih =>
    exact unrefused_cons.mpr ⟨Bool.false_ne_true, ih (taken_cons.mp htaken).2⟩
  | offered _ _ _ ih =>
    obtain ⟨hfirst, hothers⟩ := taken_cons.mp htaken
    rw [isTurnedDown_sendResult] at hfirst
    exact unrefused_cons.mpr ⟨hfirst, ih hothers⟩

/-- Where the application is not called and nothing is refused, frames are sent and nothing else
is done. -/
theorem events_eq (h : Wired sink events sink') (hsent : Unrefused events)
    (hcalls : callbacks events = []) :
    events = (written events).map fun f => .attempted f (.ok f.wire.length) := by
  induction h with
  | done => rfl
  | refused => exact absurd rfl (unrefused_cons.mp hsent).1
  | delivered | abandoned => exact absurd hcalls (by simp [callbacks, Event.isCallback])
  | offered hencode _ _ ih =>
    obtain ⟨hfirst, hothers⟩ := unrefused_cons.mp hsent
    rw [sendResult_of_unrefused hfirst, written_attempted_ok, List.map_cons,
      Frame.eq_wire_of_encode hencode, ← ih hothers hcalls]

end Wired

/-! ## Frames that are kept, and frames that were just sent -/

/-- The frames that a restart keeps: those never sent, in order, numbered from zero. -/
def keptFrames (q : List Entry) : List Frame :=
  (q.filter fun e => !e.isSent).mapIdx fun i e => ⟨.data e.id, i.toUInt8, e.payload⟩

/-- A frame that is sent now waits, unless it is never waited for. -/
theorem Entry.action_markSent (e : Entry) {policy : RetryPolicy} (h : 0 < policy.timeout)
    (now : UInt32) : (e.markSent now).action policy now = .wait := by
  simp [action, RetryPolicy.action, markSent, h]

namespace Transport

variable [ByteSink σ ε] {t : Transport} {policy : RetryPolicy} {now : UInt32}
  {stats : TransportStats} {sink : σ} {q : List Entry}

/-- A `sweep` over frames that wait does nothing. -/
theorem sweep_waiting (h : ∀ e ∈ q, e.action policy now = .wait) :
    sweep policy now stats sink q = ⟨q, stats, sink, [], none⟩ := by
  induction q with
  | nil => rfl
  | cons e rest ih =>
    have he := h e (List.mem_cons_self ..)
    have hrest := ih fun x hx => h x (List.mem_cons_of_mem e hx)
    simp only [sweep, he, hrest, Option.map_none]

/-- A pass that is neither refused nor stopped leaves frames that wait. -/
theorem waiting_sweep (htimeout : 0 < policy.timeout)
    (hsent : Unrefused (sweep policy now stats sink q).events)
    (hnone : (sweep policy now stats sink q).exhausted = none) :
    ∀ e ∈ (sweep policy now stats sink q).queue, e.action policy now = .wait := by
  induction q generalizing stats sink with
  | nil => simp [sweep]
  | cons e rest ih =>
    -- The first frame waits, would stop the pass, waits once it is sent, or was refused.
    obtain ⟨hact, h⟩ | ⟨-, h⟩ | ⟨-, n, sink', h⟩ | ⟨failure, sink', h⟩ :=
      sweep_cases policy now stats sink e rest
    · rw [h] at hsent hnone ⊢
      have hrest := ih hsent (Option.map_eq_none_iff.mp hnone)
      exact List.forall_mem_cons.mpr ⟨hact, hrest⟩
    · rw [h] at hnone
      exact absurd hnone (by simp)
    · rw [h] at hsent hnone ⊢
      simp only [Sweep.cons, List.singleton_append, unrefused_cons] at hsent
      have hrest := ih hsent.2 (Option.map_eq_none_iff.mp hnone)
      exact List.forall_mem_cons.mpr ⟨e.action_markSent htimeout now, hrest⟩
    · rw [h] at hsent
      simp [Unrefused, Event.isRefused] at hsent

/-- A pass over frames that were never sent stops at none of them. -/
theorem exhausted_unsent (h : ∀ e ∈ q, ¬ e.isSent) :
    (sweep policy now stats sink q).exhausted = none := by
  cases hk : (sweep policy now stats sink q).exhausted with
  | none => rfl
  | some k =>
    obtain ⟨e, he, hact, -⟩ := sweep_exhausted policy now stats sink (.of_unsent h) hk
    have hne : e.action policy now ≠ .send := by simp [hact]
    exact absurd (Entry.isSent_of_action hne) (h e (List.mem_of_getElem? he))

/-! ## Transports with nothing to do -/

/-- Nothing is due: no reset is pending, every queued frame waits, and no acknowledgement is to be
repeated. -/
structure Settled (t : Transport) (now : UInt32) : Prop where
  flushed : ¬ t.resetPending
  waiting : ∀ e ∈ t.queue, e.action t.policy now = .wait
  acked : ¬ t.ackDue now

/-- Where nothing but data frames is due, a tick is a pass over the queue. -/
theorem service_eq_sweep (sink : σ) (hflushed : ¬ t.resetPending) (hacked : ¬ t.ackDue now)
    (hnone : (sweep t.policy now t.stats sink t.queue).exhausted = none) :
    t.service now sink =
      { transport := { t with
          queue := (sweep t.policy now t.stats sink t.queue).queue
          stats := (sweep t.policy now t.stats sink t.queue).stats }
        sink := (sweep t.policy now t.stats sink t.queue).sink
        events := (sweep t.policy now t.stats sink t.queue).events } := by
  have hflush : t.flushReset sink = ⟨t, sink, []⟩ := if_neg hflushed
  unfold service serviceQueue
  simp only [hflush, hnone]
  rw [if_neg hflushed]
  -- The counters and the queue do not matter for what was acknowledged.
  have hrepeat : ∀ (stats : TransportStats) (q : List Entry) (sink : σ),
      repeatAck { t with queue := q, stats } now sink = ⟨{ t with queue := q, stats }, sink, []⟩ :=
    fun _ _ _ => if_neg hacked
  rw [hrepeat]
  simp

/-- **A tick does nothing where nothing is due.** -/
theorem Settled.service_eq (h : t.Settled now) (sink : σ) :
    t.service now sink = ⟨t, sink, []⟩ := by
  have hsweep : sweep t.policy now t.stats sink t.queue = ⟨t.queue, t.stats, sink, [], none⟩ :=
    sweep_waiting h.waiting
  rw [service_eq_sweep sink h.flushed h.acked (by rw [hsweep]), hsweep]

/-! ## What a tick leaves -/

/-- A reset that was not refused is not pending any more, as the `Notice` of it says. -/
theorem Notice.settled {events : List (Event ε)} {pending : Bool} (h : Notice events pending)
    (hsent : Unrefused events) : pending = false := by
  cases h with
  | written => rfl
  | due => exact absurd rfl (unrefused_cons.mp hsent).1

/-- A tick that is not refused leaves no reset pending, not even one of its own. -/
theorem flushed_service (hsent : Unrefused (t.service now sink).events) :
    ¬ (t.service now sink).transport.resetPending := by
  have heffect := t.service_effect now sink
  generalize t.service now sink = turn at hsent heffect ⊢
  obtain ⟨u, s, events⟩ := turn
  dsimp only at hsent heffect ⊢
  cases heffect with
  | blocked _ hnotice _ => exact absurd (hnotice.settled hsent) (by simp)
  | swept _ _ _ _ hu => simp [hu.resetPending]
  | gaveUp _ _ _ hnotice _ hu =>
    simp only [unrefused_append] at hsent
    have hpending := hnotice.settled hsent.1.2.2.2
    simp [hu.resetPending, renew, hpending]

/-- An acknowledgement that is repeated now is not to be repeated again at once. -/
theorem acked_repeatAck (hinterval : 0 < t.ackInterval)
    (hsent : Unrefused (t.repeatAck now sink).events) :
    ¬ (t.repeatAck now sink).transport.ackDue now := by
  unfold repeatAck at hsent ⊢
  split
  · next hdue =>
    rw [if_pos hdue] at hsent
    simp only [sendAck] at hsent ⊢
    cases hresult : (transmit sink (Frame.ack t.expected)).1 with
    | error failure => simp [hresult, Unrefused, Event.isRefused] at hsent
    | ok n =>
      have hshort : ¬ t.ackInterval ≤ 0 := UInt32.not_le.mpr hinterval
      simp [afterAck, ackDue, hshort]
  · next hdue => exact hdue

/-- A tick that is not refused leaves no acknowledgement `ackDue` at its time. -/
theorem acked_service (hinterval : 0 < t.ackInterval)
    (hsent : Unrefused (t.service now sink).events) :
    ¬ (t.service now sink).transport.ackDue now := by
  obtain ⟨hblocked, h⟩ | ⟨-, h⟩ := t.service_cases now sink
  · -- A reset that is still pending was refused.
    have hopen := flushed_service hsent
    rw [h] at hopen
    exact absurd hblocked hopen
  · rw [h] at hsent ⊢
    have hflushed := t.unheard_flushReset sink
    generalize t.flushReset sink = flushed at hsent hflushed ⊢
    have hserved := flushed.transport.unheard_serviceQueue now flushed.sink
    generalize flushed.transport.serviceQueue now flushed.sink = served at hsent hserved ⊢
    have hkept : served.transport.ackInterval = t.ackInterval :=
      hserved.ackInterval.trans hflushed.ackInterval
    simp only [unrefused_append] at hsent
    exact acked_repeatAck (hkept ▸ hinterval) hsent.2

/-- **A tick that gives nothing up leaves nothing to do** if the sink takes what it is offered. -/
theorem settled_service (htimeout : 0 < t.policy.timeout) (hinterval : 0 < t.ackInterval)
    (hsent : Unrefused (t.service now sink).events)
    (hnone : failures (t.service now sink).events = []) :
    (t.service now sink).transport.Settled now := by
  refine ⟨flushed_service hsent, ?_, acked_service hinterval hsent⟩
  have heffect := t.service_effect now sink
  generalize t.service now sink = turn at hsent hnone heffect ⊢
  obtain ⟨u, s, events⟩ := turn
  dsimp only at hsent hnone heffect ⊢
  -- A tick that is blocked has been refused, and one that gives up has reported.
  cases heffect with
  | blocked _ hnotice _ => exact absurd (hnotice.settled hsent) (by simp)
  | swept _ hswept hstop _ hu =>
    obtain ⟨stats, sink', rfl⟩ := hswept
    simp only [unrefused_append] at hsent
    rw [hu.queue, hu.policy]
    exact waiting_sweep htimeout hsent.1.2 hstop
  | gaveUp hflush hswept hsome hnotice hacks _ =>
    obtain ⟨stats, sink', rfl⟩ := hswept
    rw [failures_gaveUp hflush hnotice hacks] at hnone
    exact absurd hnone (lost_ne_nil hsome)

/-- A tick sends frames that were never sent, all of them and nothing else, where nothing else is
due. -/
theorem service_unsent (hflushed : ¬ t.resetPending) (hacked : ¬ t.ackDue now)
    (hunsent : ∀ e ∈ t.queue, ¬ e.isSent) (hsent : Unrefused (t.service now sink).events) :
    written (t.service now sink).events = t.queue.map Entry.frame ∧
      callbacks (t.service now sink).events = [] := by
  have hservice := service_eq_sweep sink hflushed hacked (exhausted_unsent hunsent)
  rw [hservice] at hsent ⊢
  have hdue : ∀ e ∈ t.queue, e.Due t.policy now :=
    fun e he => Entry.due_of_unsent (hunsent e he) t.policy now
  obtain ⟨-, hwritten, -⟩ := sweep_due hdue hsent
  have hcalls := callbacks_of_undelivered
    (not_delivered_sweep t.policy now t.stats sink t.queue)
  rw [failures_sweep] at hcalls
  exact ⟨hwritten, hcalls⟩

/-! ## Ticks at the same time -/

/-- `keptFrames` are the frames of what is `kept`. -/
theorem map_frame_kept (q : List Entry) : (kept q).map Entry.frame = keptFrames q := by
  unfold kept keptFrames
  rw [List.mapIdx_eq_zipIdx_map, List.mapIdx_eq_zipIdx_map, List.map_map]
  rfl

/-- For a `Regular` transport, a tick that is `Taken` is not refused at all. -/
theorem Regular.unrefused_service (h : t.Regular) (htaken : Taken (t.service now sink).events) :
    Unrefused (t.service now sink).events := by
  have hid : ∀ e ∈ t.queue, e.id ≤ FrameId.maxAppId := fun e he => (h.sane e he).id_le
  exact (t.ledger_service now sink hid).wired.unrefused htaken

/-- **A sink with room takes a tick whole**, whatever the transport went through before. -/
theorem Regular.taken_service (h : t.Regular) (hroom : RoomFor framesPerTurn sink)
    (now : UInt32) : Taken (t.service now sink).events := by
  have hsent : Unrefused (t.perform (.service now sink)).2 :=
    h.unrefused_perform fun _ hsink => Option.some.inj hsink ▸ hroom
  exact hsent.taken

/-- **After one tick, or after two where the first one gives up, nothing is left to do.** The second
one sends the frames that were kept, each of them once. -/
theorem Regular.settles (h : t.Regular) (htimeout : 0 < t.policy.timeout)
    (hinterval : 0 < t.ackInterval) (htaken : Taken (t.service now sink).events) :
    let first := t.service now sink
    (failures first.events = [] → first.transport.Settled now) ∧
      (failures first.events ≠ [] → ∀ sink' : σ,
        let second := first.transport.service now sink'
        Taken second.events →
          second.events = (keptFrames t.queue).map (fun f => .attempted f (.ok f.wire.length)) ∧
            second.transport.Settled now) := by
  intro first
  have hsent : Unrefused first.events := h.unrefused_service htaken
  refine ⟨settled_service htimeout hinterval hsent, ?_⟩
  intro hgave sink' second htaken'
  have hfirst : first.transport.Regular := h.perform (.service now sink)
  have hsettings := settings_run (ε := ε) t [.service now sink]
  have hpolicy : first.transport.policy = t.policy := hsettings.1
  have hkeeps : first.transport.ackInterval = t.ackInterval :=
    (t.unheard_service now sink).ackInterval
  -- The first tick left only frames that were never sent.
  have hqueue : first.transport.queue = kept t.queue := by
    obtain ⟨hnone, -⟩ | ⟨-, -, -, -, -, hrenewed⟩ := gaveUp_of_service h.sentFirst now sink
    · exact absurd hnone hgave
    · exact hrenewed
  have hunsent : ∀ e ∈ first.transport.queue, ¬ e.isSent := by
    rw [hqueue]
    exact fun e he => not_isSent_renumbered he
  have hsent' : Unrefused second.events := hfirst.unrefused_service htaken'
  obtain ⟨hwritten, hcalls⟩ := service_unsent (flushed_service hsent)
    (acked_service hinterval hsent) hunsent hsent'
  have hid : ∀ e ∈ first.transport.queue, e.id ≤ FrameId.maxAppId :=
    fun e he => (hfirst.sane e he).id_le
  have hevents := (first.transport.ledger_service now sink' hid).wired.events_eq hsent' hcalls
  have hframes : written second.events = keptFrames t.queue := by
    rw [hwritten, hqueue]
    exact map_frame_kept t.queue
  rw [hframes] at hevents
  have hnone : failures second.events = [] := by
    rw [hevents]
    simp [failures, Event.failure?, List.filterMap_map, Function.comp_def]
  exact ⟨hevents, settled_service (hpolicy ▸ htimeout) (hkeeps ▸ hinterval) hsent' hnone⟩

end Transport

end SerialLink
