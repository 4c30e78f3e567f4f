import SerialLink.Proofs.Transmit
import SerialLink.Proofs.Transport.Run

/-!
# Acknowledgements and pending resets

A reset that is due has to be written before any frame that carries a number of the new numbering.
A tick keeps to that: it writes the reset first or nothing at all. The answer to a data frame does
not: it is written at once, whatever is due, so the peer can take it for an acknowledgement of the
old numbering.

`AcksFollowReset` is the rule, said of the frames written. `Effect.acksFollowReset` shows it by the
cases of `Effect` for all operations but one, and `receive_data` says what that one does: it hands a
data frame over if it is the one expected, and tries to send the `answer` either way. The lemma is
used wherever data frames arrive, in `Proofs.Transport.Receiver`, `Proofs.Transport.Room` and
`Proofs.Link.OneWay`.
-/

namespace SerialLink

variable {σ ε : Type}

/-- Behind a reset stands every acknowledgement among the frames. -/
def AcksFollowReset (frames : List Frame) : Prop :=
  ∀ before f after, frames = before ++ f :: after → f.id = .ack → Frame.reset ∈ before

theorem acksFollowReset_of_no_ack {frames : List Frame} (h : ∀ f ∈ frames, f.id ≠ .ack) :
    AcksFollowReset frames := by
  intro before f after hsplit hid
  exact absurd hid (h f (by simp [hsplit]))

/-- `AcksFollowReset` for frames of which the first one is a reset, whatever the others are. -/
theorem acksFollowReset_cons (frames : List Frame) : AcksFollowReset (Frame.reset :: frames) := by
  intro before f after hsplit hid
  cases before with
  | nil =>
    obtain ⟨rfl, -⟩ := List.cons.inj hsplit
    simp [Frame.reset] at hid
  | cons g before =>
    obtain ⟨rfl, -⟩ := List.cons.inj hsplit
    exact List.mem_cons_self ..

theorem not_acksFollowReset_ack (seq : UInt8) : ¬ AcksFollowReset [Frame.ack seq] := by
  intro h
  simpa using h [] (Frame.ack seq) [] rfl rfl

namespace Transport

/-! ## The answer to a data frame -/

/-- The acknowledgement that answers a data frame. -/
def answer (t : Transport) (f : Frame) : Frame :=
  Frame.ack (if f.seq = t.expected then t.expected + 1 else t.expected)

variable [ByteSink σ ε]

/-- **A data frame is handed over when it is the one expected, and is answered in any case.** Of the
transport only the number `expected` and the link state are other ones afterwards. -/
theorem receive_data (t : Transport) (now : UInt32) {f : Frame} {id : UInt8} (hid : f.id = .data id)
    (sink : σ) :
    (t.receive now f sink).events =
        (if f.seq = t.expected then [.delivered f] else []) ++
          [.attempted (t.answer f) (transmit sink (t.answer f)).1] ∧
      Unmoved { t with
        expected := if f.seq = t.expected then t.expected + 1 else t.expected
        state := .running } (t.receive now f sink).transport := by
  have hheard : Unmoved { t with state := .running }
      ({ t with lastData := some now }.note .frameReceived) := .of_core rfl
  simp only [receive, hid, onData]
  generalize { t with lastData := some now }.note .frameReceived = heard at hheard ⊢
  have haccepted := heard.acceptData_effect (ε := ε) f
  generalize heard.acceptData f = accepted at haccepted ⊢
  obtain ⟨u, events⟩ := accepted
  obtain ⟨hacked, -⟩ := u.sendAck_effect now sink
  -- The events of an acknowledgement are those of one attempt to send it.
  have hevents : (u.sendAck now sink).events =
      [.attempted (Frame.ack u.expected) (transmit sink (Frame.ack u.expected)).1] := rfl
  unfold answer
  obtain ⟨hseq, rfl, h⟩ | ⟨hseq, rfl, h⟩ := haccepted
  · have hseq' : f.seq = t.expected := hseq.trans hheard.expected
    have hu : u.expected = t.expected + 1 := by
      rw [h.expected]
      exact congrArg (· + 1) hheard.expected
    rw [if_pos hseq', if_pos hseq', hevents, hu]
    refine ⟨rfl, Unmoved.trans ?_ (h.trans hacked)⟩
    exact { hheard with expected := by simp only [hheard.expected] }
  · have hseq' : f.seq ≠ t.expected := fun he => hseq (he.trans hheard.expected.symm)
    have hu : u.expected = t.expected := h.expected.trans hheard.expected
    rw [if_neg hseq', if_neg hseq', hevents, hu]
    exact ⟨rfl, (hheard.trans h).trans hacked⟩

/-- Whether a data frame is handed over or not, only the `answer` to it is written. -/
theorem written_answer (t : Transport) (now : UInt32) {f : Frame} {id : UInt8}
    (hid : f.id = .data id) (sink : σ) :
    written (t.receive now f sink).events =
      written [Event.attempted (t.answer f) (transmit sink (t.answer f)).1] := by
  obtain ⟨hevents, -⟩ := t.receive_data now hid sink
  rw [hevents, written_append]
  split
  · rw [written_delivered, written_nil, List.nil_append]
  · rw [written_nil, List.nil_append]

/-- A data frame arrives, and the sink takes the acknowledgement that answers it. -/
def Operation.Answered (t : Transport) : Operation σ → Prop
  | .receive _ f sink =>
    (∃ id, f.id = .data id) ∧ ∃ n, (transmit sink (t.answer f)).1 = .ok n
  | _ => False

/-! ## What is written while a reset is due -/

theorem Notice.written_eq {events : List (Event ε)} {pending : Bool} (h : Notice events pending) :
    SerialLink.written events = if pending then [] else [Frame.reset] := by
  cases h <;> rfl

/-- Every operation but the arrival of a data frame writes a reset that is due before any
acknowledgement. -/
theorem Effect.acksFollowReset {t t' : Transport} {op : Operation σ} {events : List (Event ε)}
    (he : t.Effect op events t') (hpending : t.resetPending)
    (hdata : ∀ now f sink id, op = .receive now f sink → f.id ≠ .data id) :
    AcksFollowReset (written events) := by
  -- A tick that gets beyond the reset has written it first.
  have hflushed : ∀ {flush : List (Event ε)} (more : List (Event ε)),
      (if t.resetPending then Notice flush false else flush = []) →
      AcksFollowReset (written (flush ++ more)) := by
    intro flush more hflush
    rw [if_pos hpending] at hflush
    rw [written_append, hflush.written_eq]
    exact acksFollowReset_cons _
  cases he with
  | refused | queued | heard | passed | spurious | acked =>
    exact acksFollowReset_of_no_ack (by simp)
  | blocked _ hnotice =>
    -- The reset was refused, and with it all that would have followed.
    rw [hnotice.written_eq]
    exact acksFollowReset_of_no_ack (by simp)
  | swept hflush =>
    rw [List.append_assoc]
    exact hflushed _ hflush
  | gaveUp hflush =>
    rw [List.append_assoc]
    exact hflushed _ hflush
  | delivered hid | unexpected hid => exact absurd hid (hdata _ _ _ _ rfl)
  | told | dropped =>
    rw [written_abandoned]
    exact acksFollowReset_of_no_ack (by simp)
  | @reset sink pending _ _ hnotice =>
    rw [written_append, written_abandoned, hnotice.written_eq, List.nil_append]
    cases pending with
    | true => exact acksFollowReset_of_no_ack (by simp)
    | false => exact acksFollowReset_cons _

/-- **An acknowledgement overtakes a pending reset exactly when it answers a data frame.** Whatever
was done with the transport before, and whatever the sink does, every other acknowledgement that is
written stands behind the reset. -/
theorem acks_follow_reset_iff (c : Config) (ops : List (Operation σ)) (op : Operation σ)
    (hpending : ((ofConfig c).run (ε := ε) ops).resetPending) :
    let t := (ofConfig c).run (ε := ε) ops
    AcksFollowReset (written (t.perform (ε := ε) op).2) ↔ ¬ op.Answered t := by
  intro t
  by_cases hdata : ∃ now f sink id, op = .receive now f sink ∧ f.id = .data id
  · obtain ⟨now, f, sink, id, rfl, hid⟩ := hdata
    -- All that is written is the answer, if the sink takes it.
    simp only [perform, t.written_answer now hid sink, Operation.Answered]
    cases htransmit : (transmit sink (t.answer f)).1 with
    | ok n =>
      refine iff_of_false (not_acksFollowReset_ack _) ?_
      exact not_not_intro ⟨⟨id, hid⟩, n, rfl⟩
    | error failure =>
      refine iff_of_true (acksFollowReset_of_no_ack (by simp)) ?_
      simp
  · have hfollow := (t.perform_effect (ε := ε) op).acksFollowReset hpending
      fun now f sink id hop hid => hdata ⟨now, f, sink, id, hop, hid⟩
    refine iff_of_true hfollow ?_
    intro hanswered
    cases op with
    | receive now f sink =>
      obtain ⟨⟨id, hid⟩, -⟩ := hanswered
      exact hdata ⟨now, f, sink, id, rfl, hid⟩
    | send | service | noteHeard | reset => exact hanswered

/-- A data frame was taken, and then the sink had no room for a reset. -/
def resetHeldUp : List (Operation (TxQueue 64)) :=
  [.receive 0 ⟨.data 1, 0, .singleton 0x11⟩ .empty, .reset true ⟨List.replicate 60 0, by decide⟩]

theorem acks_follow_reset_iff_resetHeldUp :
    let t := (ofConfig .standard).run resetHeldUp
    t.resetPending ∧ ¬ (Operation.service 1 .empty : Operation (TxQueue 64)).Answered t ∧
      written (t.perform (.service 1 .empty : Operation (TxQueue 64))).2 =
        [Frame.reset, Frame.ack 0] ∧
      AcksFollowReset (written (t.perform (.service 1 .empty : Operation (TxQueue 64))).2) := by
  have hpending : ((ofConfig .standard).run resetHeldUp).resetPending := by decide +kernel
  exact ⟨hpending, id, by decide +kernel,
    (acks_follow_reset_iff .standard resetHeldUp (.service 1 .empty) hpending).mpr id⟩

/-- The next data frame of the old numbering is answered before the reset is written, with a number
of the new numbering. -/
theorem ack_overtakes_reset :
    let t := (ofConfig .standard).run resetHeldUp
    let arrival : Operation (TxQueue 64) := .receive 1 ⟨.data 1, 0, .singleton 0x11⟩ .empty
    t.resetPending ∧ written (t.perform arrival).2 = [Frame.ack 1] ∧
      (t.perform arrival).1.resetPending ∧ ¬ AcksFollowReset (written (t.perform arrival).2) := by
  intro t arrival
  have hwritten : written (t.perform arrival).2 = [Frame.ack 1] := by decide +kernel
  refine ⟨by decide +kernel, hwritten, by decide +kernel, ?_⟩
  rw [hwritten]
  exact not_acksFollowReset_ack 1

end Transport

end SerialLink
