import SerialLink.Proofs.Transport.Overtaking

/-!
# Operations that no sink refuses

What the operations of a transport write when the sink takes every frame. A tick at which all queued
frames are due writes them all, in order; a data frame that arrives is answered; a reset is written
at once.

`Unrefused` is the hypothesis throughout; a sink with room brings it about, by
`Proofs.Transport.Space`. `sweep_due` is the pass over a queue, `service_due` the tick around it,
and `written_receive_data` and `reset_written` the two other operations that write.
`Proofs.Link.OneWay` and `Proofs.Link.Resync` build a round between two stations from them.
-/

namespace SerialLink

variable {σ ε : Type} [ByteSink σ ε]

/-- The `action` for the frame is to send it now, for the first time or again. -/
def Entry.Due (e : Entry) (policy : RetryPolicy) (now : UInt32) : Prop :=
  e.action policy now = .send ∨ e.action policy now = .resend

instance (e : Entry) (policy : RetryPolicy) (now : UInt32) : Decidable (e.Due policy now) :=
  inferInstanceAs (Decidable (_ ∨ _))

/-- What was never sent is always `Due`. -/
theorem Entry.due_of_unsent {e : Entry} (h : ¬ e.isSent) (policy : RetryPolicy) (now : UInt32) :
    e.Due policy now := by
  have hnone : e.lastSent = none := by simpa [isSent] using h
  exact .inl (by simp [action, RetryPolicy.action, hnone])

namespace Transport

variable {t : Transport}

/-! ## A tick -/

/-- A `sweep` over frames that are all `Due` sends them all. -/
theorem sweep_due {policy : RetryPolicy} {now : UInt32} {stats : TransportStats} {sink : σ}
    {q : List Entry} (hdue : ∀ e ∈ q, e.Due policy now)
    (hsent : Unrefused (sweep policy now stats sink q).events) :
    (sweep policy now stats sink q).queue = q.map (·.markSent now) ∧
      written (sweep policy now stats sink q).events = q.map Entry.frame ∧
      (sweep policy now stats sink q).exhausted = none := by
  induction q generalizing stats sink with
  | nil => exact ⟨rfl, rfl, rfl⟩
  | cons e rest ih =>
    have he := hdue e (List.mem_cons_self ..)
    have hrest := fun x hx => hdue x (List.mem_cons_of_mem e hx)
    obtain ⟨hact, -⟩ | ⟨hact, -⟩ | ⟨-, n, sink', hs⟩ | ⟨failure, sink', hs⟩ :=
      sweep_cases policy now stats sink e rest
    · -- A frame that is due neither waits nor is it out of retries.
      rcases he with he | he <;> simp [hact] at he
    · rcases he with he | he <;> simp [hact] at he
    · rw [hs] at hsent ⊢
      simp only [Sweep.cons, List.singleton_append, unrefused_cons] at hsent
      obtain ⟨hqueue, hwritten, hnone⟩ := ih hrest hsent.2
      simp only [Sweep.cons, hqueue, hnone, List.singleton_append, written_attempted_ok, hwritten]
      exact ⟨rfl, rfl, rfl⟩
    · rw [hs] at hsent
      simp [Unrefused, Event.isRefused] at hsent

/-- What is written of a `Repeat`, an acknowledgement that is repeated if it is due. -/
theorem Repeat.written_eq {expected : UInt8} {events : List (Event ε)}
    (h : Repeat expected events) (hsent : Unrefused events) :
    SerialLink.written events = [] ∨ SerialLink.written events = [Frame.ack expected] := by
  cases h with
  | none => exact .inl rfl
  | @sent r =>
    cases r with
    | ok n => exact .inr rfl
    | error failure => simp [Unrefused, Event.isRefused] at hsent

/-- **A tick at which all queued frames are due writes them all, in order,** and perhaps repeats the
last acknowledgement. -/
theorem service_due {now : UInt32} {sink : σ} (hpending : ¬ t.resetPending)
    (hdue : ∀ e ∈ t.queue, e.Due t.policy now) (hsent : Unrefused (t.service now sink).events) :
    (∃ acks, (acks = [] ∨ acks = [Frame.ack t.expected]) ∧
      written (t.service now sink).events = t.queue.map Entry.frame ++ acks) ∧
    Unmoved { t with queue := t.queue.map (·.markSent now) } (t.service now sink).transport := by
  have heffect := t.service_effect now sink
  generalize t.service now sink = turn at hsent heffect ⊢
  obtain ⟨u, s, events⟩ := turn
  simp only at hsent heffect ⊢
  cases heffect with
  | blocked h => exact absurd h hpending
  | @swept _ _ swept flush acks _ hflush hswept hnone hacks hu =>
    obtain ⟨stats, sink', rfl⟩ := hswept
    rw [if_neg hpending] at hflush
    rw [hflush, List.nil_append, unrefused_append] at hsent
    obtain ⟨hqueue, hwritten, -⟩ := sweep_due hdue hsent.1
    rw [hflush, List.nil_append, written_append, hwritten]
    refine ⟨⟨_, hacks.written_eq hsent.2, rfl⟩, ?_⟩
    exact { hu with
      queue := hu.queue.trans hqueue
      resetPending := hu.resetPending.trans (by simpa using hpending) }
  | @gaveUp _ _ swept k _ flush notice acks _ hflush hswept hsome =>
    -- A frame that is due is not out of retries.
    obtain ⟨stats, sink', rfl⟩ := hswept
    simp only [unrefused_append] at hsent
    obtain ⟨-, -, hnone⟩ := sweep_due hdue hsent.1.2.1
    rw [hnone] at hsome
    exact absurd hsome (by simp)

/-! ## Frames that arrive -/

/-- A data frame gets its `answer`, and nothing else is written. -/
theorem written_receive_data {f : Frame} {id : UInt8} (hid : f.id = .data id) {now : UInt32}
    {sink : σ} (hsent : Unrefused (t.receive now f sink).events) :
    written (t.receive now f sink).events = [t.answer f] := by
  obtain ⟨hevents, -⟩ := t.receive_data now hid sink
  rw [hevents] at hsent
  obtain ⟨-, hsent⟩ := unrefused_append.mp hsent
  rw [t.written_answer now hid sink]
  cases hresult : (transmit sink (t.answer f)).1 with
  | ok n => rw [written_attempted_ok, written_nil]
  | error failure => simp [hresult, Event.isRefused] at hsent

/-! ## Resets -/

/-- A reset that is written at once leaves nothing of the old numbering. -/
theorem reset_written {sink : σ} {k : Nat} (hsent : (transmit sink Frame.reset).1 = .ok k) :
    written (t.reset true sink).2.events = [Frame.reset] ∧
      Unmoved (t.renew [] t.queue.length false) (t.reset true sink).2.transport := by
  simp only [reset, if_true, settleReset, hsent, afterReset, List.length_map, restart_eq,
    written_append, written_abandoned]
  exact ⟨rfl, .of_core rfl⟩

end Transport

end SerialLink
