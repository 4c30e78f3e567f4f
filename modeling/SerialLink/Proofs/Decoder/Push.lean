import SerialLink.Proofs.Decoder.Stream

/-!
# What one byte does

A byte ends a header, or it is a stuff byte, or it stands where a stuff byte should, or the phase
takes it. These cases are said once, and what a byte keeps is shown by looking at each of them. The
counters grow by what the byte brings about, and by nothing else.

`PushCase` is the inversion of `push`, and `push_cases` says that it is complete;
`Phase.accept_cases` does the same for a body byte inside a frame. `push_balance` is what they come
to for the number of frames: each byte keeps the account of headers, frames and discards, which
`Proofs.Decoder.Accounting` sums up over a stream. The counters follow from `stats_push`, one lemma
for each of them. `Proofs.Decoder.Bounded` and `Proofs.Decoder.Joining` carry their invariants
through the same cases.
-/

namespace SerialLink

/-! ## A body byte -/

namespace Phase

theorem afterId_spec (id : FrameId) : afterId id ≠ .searching ∧ afterId id ≠ .awaitingId := by
  unfold afterId
  split <;> simp

theorem expectPayload_spec (id : FrameId) (seq remaining : UInt8) (received : Payload) :
    expectPayload id seq remaining received ≠ .searching ∧
      expectPayload id seq remaining received ≠ .awaitingId := by
  unfold expectPayload
  split <;> simp

/-- Inside a frame `accept` takes a body byte, or the byte completes the frame, or it discards
it. -/
theorem accept_cases {phase : Phase} (hphase : phase ≠ .searching) (b : UInt8) :
    (∃ next, phase.accept b = (next, .pending) ∧ next ≠ .searching ∧ next ≠ .awaitingId) ∨
      (∃ f, phase.accept b = (.searching, .frame f)) ∨
      ∃ reason, phase.accept b = (.searching, .discarded reason) ∧ reason ≠ .restarted := by
  cases phase with
  | searching => exact absurd rfl hphase
  | awaitingId =>
    cases hid : FrameId.ofByte? b with
    | none => exact .inr (.inr ⟨.id, by simp only [accept, hid], by simp⟩)
    | some id => exact .inl ⟨afterId id, by simp only [accept, hid], afterId_spec id⟩
  | awaitingSeq id => exact .inl ⟨.awaitingLength id b, rfl, by simp⟩
  | awaitingLength id seq =>
    refine .inl ⟨expectPayload id seq b .empty, ?_, expectPayload_spec ..⟩
    simp only [accept, if_neg (Payload.not_maxLength_lt b)]
  | readingPayload id seq remaining received =>
    -- A byte without space in the payload would be too much of it.
    cases hpush : received.push? b with
    | none => exact .inr (.inr ⟨.length, by simp only [accept, hpush], by simp⟩)
    | some p =>
      refine .inl ⟨expectPayload id seq (remaining - 1) p, ?_, expectPayload_spec ..⟩
      simp only [accept, hpush]
  | readingChecksum f count value =>
    -- Only behind the last byte of the checksum is it compared.
    simp only [accept]
    split
    · exact .inl ⟨_, rfl, by simp⟩
    · split
      · exact .inl ⟨_, rfl, by simp⟩
      · exact .inr (.inr ⟨.checksum, rfl, by simp⟩)
  | awaitingEnd f =>
    simp only [accept]
    split
    · exact .inr (.inl ⟨f, rfl⟩)
    · exact .inr (.inr ⟨.endByte, rfl, by simp⟩)

end Phase

namespace Decoder

variable {d : Decoder} {b : UInt8}

theorem inFrame_iff : d.inFrame = true ↔ d.phase ≠ .searching := by
  simp [inFrame]

/-! ## The cases -/

/-- Whether a byte is the third `marker` in a row. -/
def endsHeader (d : Decoder) (b : UInt8) : Bool := d.run = 2 ∧ b = marker

theorem endsHeader_eq_false_iff : d.endsHeader b = false ↔ (b = marker → d.run ≠ 2) := by
  simp only [endsHeader, decide_eq_false_iff_not, not_and]
  exact ⟨fun h hb hrun => h hrun hb, fun h hrun hb => h hb hrun⟩

/-- What `push` can do with a byte. -/
inductive PushCase (d : Decoder) (b : UInt8) : Prop where
  /-- A frame begins, and one that was not complete is discarded. -/
  | header (p : Progress) (hends : d.endsHeader b = true)
      (hp : p = if d.inFrame then .discarded .restarted else .pending)
      (hpush : d.push b = (count ⟨.awaitingId, 0, d.stats⟩ p, p))
  | stuffed (hends : d.endsHeader b = false) (hrun : d.run = 2) (hb : b = stuffByte)
      (hpush : d.push b = (⟨d.phase, 0, d.stats⟩, .pending))
  /-- Another byte stands where a stuff byte should. -/
  | broken (hends : d.endsHeader b = false) (hrun : d.run = 2) (hb : b ≠ stuffByte)
      (hin : d.inFrame = true)
      (hpush : d.push b =
        (count ⟨.searching, 0, d.stats⟩ (.discarded .stuffing), .discarded .stuffing))
  /-- Between frames this may be any byte but the end of a header. -/
  | taken (hends : d.endsHeader b = false) (hfree : d.inFrame = true → d.run ≠ 2)
      (hpush : d.push b = (count ⟨(d.phase.accept b).1, if b = marker then d.run + 1 else 0, d.stats⟩
        (d.phase.accept b).2, (d.phase.accept b).2))

theorem push_cases (d : Decoder) (b : UInt8) : d.PushCase b := by
  -- Only behind two marker bytes is a byte not simply taken.
  by_cases hrun : d.run = 2
  · have hstep : d.push b = ((d.takeAfterMarkers b).1.count (d.takeAfterMarkers b).2,
        (d.takeAfterMarkers b).2) := by
      rw [push, step, if_pos hrun]
    by_cases hb : b = marker
    · apply PushCase.header _ (by simp [endsHeader, hrun, hb]) rfl
      rw [hstep, takeAfterMarkers, if_pos hb]
    · have hends : d.endsHeader b = false := by simp [endsHeader, hb]
      -- A stuff byte is dropped; any other byte discards the frame, if there is one.
      by_cases hstuff : b = stuffByte
      · apply PushCase.stuffed hends hrun hstuff
        rw [hstep, takeAfterMarkers, if_neg hb, if_pos hstuff]
        rfl
      · cases hin : d.inFrame with
        | true =>
          apply PushCase.broken hends hrun hstuff hin
          simp [hstep, takeAfterMarkers, hb, hstuff, hin, reset]
        | false =>
          apply PushCase.taken hends (by simp [hin])
          simp [hstep, takeAfterMarkers, hb, hstuff, hin, take]
  · apply PushCase.taken (by simp [endsHeader, hrun]) fun _ => hrun
    rw [push, step, if_neg hrun]
    rfl

/-- A header is waited for in every phase: `endsHeader` decides alone. -/
theorem push_of_endsHeader (hends : d.endsHeader b = true) :
    (d.push b).1.phase = .awaitingId ∧ (d.push b).1.run = 0 ∧
      (d.push b).2 = if d.inFrame then .discarded .restarted else .pending := by
  rcases d.push_cases b with ⟨p, -, hp, hpush⟩ | ⟨hno, -⟩ | ⟨hno, -⟩ | ⟨hno, -⟩
  · rw [hpush, count_phase, count_run]
    exact ⟨rfl, rfl, hp⟩
  all_goals exact absurd (hends.symm.trans hno) (by simp)

theorem run_push_le (hrun : d.run ≤ 2) : (d.push b).1.run ≤ 2 := by
  rcases d.push_cases b with
    ⟨p, -, -, hpush⟩ | ⟨-, -, -, hpush⟩ | ⟨-, -, -, -, hpush⟩ | ⟨hends, -, hpush⟩
  · rw [hpush, count_run]
    exact Nat.zero_le 2
  · rw [hpush]
    exact Nat.zero_le 2
  · rw [hpush]
    exact Nat.zero_le 2
  · rw [hpush, count_run]
    dsimp only
    split
    · next hb =>
      -- A marker byte that ends no header finds a run of one at most.
      have hne := endsHeader_eq_false_iff.mp hends hb
      omega
    · exact Nat.zero_le 2

/-- **A frame that begins or is being received ends, or it is being received still.** This is one
byte of the account that is kept of a stream. -/
theorem push_balance (d : Decoder) (b : UInt8) :
    (d.endsHeader b).toNat + d.inFrame.toNat =
      (d.push b).2.frame?.toList.length + (d.push b).2.discard?.toList.length +
        (d.push b).1.inFrame.toNat := by
  rcases d.push_cases b with
    ⟨p, hends, hp, hpush⟩ | ⟨hends, -, -, hpush⟩ | ⟨hends, -, -, hin, hpush⟩ | ⟨hends, -, hpush⟩
  all_goals rw [hends, hpush]
  · -- The header begins a frame, and discards the one before if there is one.
    rw [hp, inFrame, inFrame, count_phase]
    split
    · next hin => simp [inFrame_iff.mp hin, Progress.frame?, Progress.discard?]
    · next hout =>
      have hphase : d.phase = .searching := by simpa [inFrame] using hout
      simp [hphase, Progress.frame?, Progress.discard?]
  · -- A stuff byte is read as nothing.
    simp [inFrame, Progress.frame?, Progress.discard?]
  · -- Another byte in its place discards the frame.
    simp [inFrame, inFrame_iff.mp hin, Progress.frame?, Progress.discard?]
  · rw [inFrame, inFrame, count_phase]
    by_cases hphase : d.phase = .searching
    · simp [hphase, Phase.accept, Progress.frame?, Progress.discard?]
    · -- The frame goes on, or it is completed, or it is discarded.
      rcases Phase.accept_cases hphase b with
        ⟨next, haccept, hnext, -⟩ | ⟨f, haccept⟩ | ⟨reason, haccept, -⟩
      · simp [haccept, hphase, hnext, Progress.frame?, Progress.discard?]
      · simp [haccept, hphase, Progress.frame?, Progress.discard?]
      · simp [haccept, hphase, Progress.frame?, Progress.discard?]

/-- Only the end of a header brings a decoder into a frame. -/
theorem inFrame_of_push (hends : d.endsHeader b = false) (hin : (d.push b).1.inFrame = true) :
    d.inFrame = true := by
  have hbalance := d.push_balance b
  rw [hends, hin, Bool.toNat_false, Bool.toNat_true] at hbalance
  cases hframe : d.inFrame with
  | true => rfl
  | false =>
    rw [hframe, Bool.toNat_false] at hbalance
    omega

/-- Only inside a frame is anything discarded, and a frame is there afterwards only if the byte
began one. -/
theorem inFrame_of_discarded {reason : Discard} (h : (d.push b).2 = .discarded reason) :
    d.inFrame = true ∧ ((d.push b).1.inFrame = true ↔ reason = .restarted) := by
  rw [inFrame_iff, inFrame_iff]
  rcases d.push_cases b with
    ⟨p, hends, hp, hpush⟩ | ⟨hends, -, -, hpush⟩ | ⟨hends, -, -, hin, hpush⟩ | ⟨hends, -, hpush⟩
  all_goals rw [hpush] at h ⊢
  · -- A header discards the frame that it finds open, and only this one is followed by another.
    rw [hp] at h
    split at h
    · next hin =>
      obtain rfl := Progress.discarded.inj h
      exact ⟨inFrame_iff.mp hin, by simp⟩
    · exact absurd h (by simp)
  · exact absurd h (by simp)
  · obtain rfl := Progress.discarded.inj h
    exact ⟨inFrame_iff.mp hin, by simp⟩
  · by_cases hphase : d.phase = .searching
    · -- Between frames nothing is discarded.
      rw [hphase] at h
      exact absurd h (by simp [Phase.accept])
    · refine ⟨hphase, ?_⟩
      rcases Phase.accept_cases hphase b with
        ⟨next, haccept, -, -⟩ | ⟨f, haccept⟩ | ⟨reason', haccept, hreason⟩
      all_goals rw [haccept] at h ⊢
      · exact absurd h (by simp)
      · exact absurd h (by simp)
      · obtain rfl := Progress.discarded.inj h
        simp [hreason]

/-! ## The counters -/

theorem stats_step (d : Decoder) (b : UInt8) : (d.step b).1.stats = d.stats := by
  unfold step takeAfterMarkers take
  split
  · split
    · rfl
    · split
      · rfl
      · split <;> rfl
  · rfl

/-- `count` is all that is done to the counters. -/
theorem stats_push (d : Decoder) (b : UInt8) :
    (d.push b).1.stats = (d.count (d.push b).2).stats := by
  -- The counters that the count goes to are those from before the byte.
  have hstats := d.stats_step b
  unfold push
  dsimp only
  generalize d.step b = next at hstats
  obtain ⟨d', p⟩ := next
  dsimp only at hstats
  cases p <;> simp [count, hstats]

/-- The counter `frames` counts the frames. -/
theorem frames_push (d : Decoder) (b : UInt8) :
    (d.push b).1.stats.frames = d.stats.frames + (d.push b).2.frame?.toList.length.toUInt32 := by
  rw [stats_push]
  cases (d.push b).2 with
  | pending => simp [count, Progress.frame?]
  | frame f => simp [count, DecoderStats.countFrame, Progress.frame?]
  | discarded reason =>
    cases reason <;> simp [count, DecoderStats.countDiscard, Progress.frame?]

/-- Each of the other counters counts what is discarded for its reason; `discards` selects it. -/
theorem discards_push (d : Decoder) (b : UInt8) (reason : Discard) :
    (d.push b).1.stats.discards reason =
      d.stats.discards reason + ((d.push b).2.discard?.toList.count reason).toUInt32 := by
  rw [stats_push]
  cases (d.push b).2 with
  | pending => simp [count, Progress.discard?]
  | frame f => simp [count, DecoderStats.countFrame, DecoderStats.discards, Progress.discard?]
  | discarded reason' =>
    cases reason <;> cases reason' <;>
      simp [count, DecoderStats.countDiscard, DecoderStats.discards, Progress.discard?]

/-- All that is discarded is counted once, in one of the counters that `dropped` adds up. -/
theorem dropped_push (d : Decoder) (b : UInt8) :
    (d.push b).1.stats.dropped =
      d.stats.dropped + (d.push b).2.discard?.toList.length.toUInt32 := by
  rw [stats_push]
  cases (d.push b).2 with
  | pending => simp [count, Progress.discard?]
  | frame f => simp [count, DecoderStats.countFrame, DecoderStats.dropped, Progress.discard?]
  | discarded reason =>
    cases reason <;>
      simp [count, DecoderStats.countDiscard, DecoderStats.dropped, Progress.discard?] <;> grind

end Decoder

end SerialLink
