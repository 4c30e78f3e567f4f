import SerialLink.Proofs.Decoder.Bounded
import SerialLink.Proofs.Decoder.Burst

/-!
# Every started frame is accounted for

A header starts a frame. Until the next one it is completed, or discarded, or it is being received
still; so there are as many headers as frames that were completed, frames that were discarded, and
the one that the decoder is in. The counters say the same, and they wrap.

`headers` counts the headers that a decoder finds, and `pushAll_balance` sums up over a stream what
`push_balance` from `Proofs.Decoder.Push` says of one byte. Each counter follows from
`counter_pushAll`, one induction for all of them. That a header is found wherever its bytes stand is
`headers_eq_zero_iff`, by the `Headerless` of `Proofs.Decoder.Joining`; that one is found only where
an identifier is awaited next is `awaitingId_iff`, by the invariant of `Proofs.Decoder.Bounded`. The
verdict on a window comes from `firstFrame_eq_error`.
-/

namespace SerialLink

namespace Decoder

variable {d : Decoder} {bytes : List UInt8}

/-! ## Headers -/

/-- The number of headers that end within the bytes that a decoder takes next. -/
def headers (d : Decoder) : List UInt8 → Nat
  | [] => 0
  | b :: rest => (d.endsHeader b).toNat + (d.push b).1.headers rest

/-- A decoder counts no `headers` exactly if the bytes are `Headerless` behind its run. -/
theorem headers_eq_zero_iff (hrun : d.run ≤ 2) :
    d.headers bytes = 0 ↔ Headerless d.run bytes := by
  -- The run of the decoder is all that a byte has to know of those before it.
  induction bytes generalizing d with
  | nil => exact iff_of_true rfl trivial
  | cons b rest ih =>
    rw [headers, Nat.add_eq_zero_iff, ih (run_push_le hrun), Bool.toNat_eq_zero,
      endsHeader_eq_false_iff]
    constructor
    · rintro ⟨hends, hrest⟩
      have hquiet : b = marker → d.run < 2 := fun hb => Nat.lt_of_le_of_ne hrun (hends hb)
      rw [(push_headerless hquiet).1] at hrest
      unfold Headerless
      split
      · next hb =>
        rw [if_pos hb] at hrest
        exact ⟨hquiet hb, hrest⟩
      · next hb => rwa [if_neg hb] at hrest
    · intro h
      exact ⟨fun hb => Nat.ne_of_lt (h.lt_two hb), (headerless_push h).1⟩

/-- A byte leads to `awaitingId` if it `endsHeader`, and not otherwise. -/
theorem awaitingId_iff (inputs : List Input) (b : UInt8) :
    ((ofInputs inputs).push b).1.phase = .awaitingId ↔ (ofInputs inputs).endsHeader b = true := by
  constructor
  · intro hphase
    apply Decidable.byContradiction
    intro hno
    -- The phase behind a byte of another kind was there before, or is never `awaitingId`.
    rcases (ofInputs inputs).push_cases b with
      ⟨p, hends, -, -⟩ | ⟨-, hrun, -, hpush⟩ | ⟨-, -, -, -, hpush⟩ | ⟨-, -, hpush⟩
    · exact hno hends
    · -- There is no stuff byte right behind a header.
      rw [hpush] at hphase
      have hzero := run_of_awaitingId hphase
      omega
    · rw [hpush] at hphase
      exact absurd hphase (by simp)
    · rw [hpush, count_phase] at hphase
      by_cases hout : (ofInputs inputs).phase = .searching
      · rw [hout] at hphase
        exact absurd hphase (by simp [Phase.accept])
      · rcases Phase.accept_cases hout b with
          ⟨next, haccept, -, hnext⟩ | ⟨f, haccept⟩ | ⟨reason, haccept, -⟩
        all_goals rw [haccept] at hphase
        · exact hnext hphase
        · exact absurd hphase (by simp)
        · exact absurd hphase (by simp)
  · exact fun hends => (push_of_endsHeader hends).1

/-! ## Runs -/

theorem filterMap_cons_eq {α β : Type} (f : α → Option β) (a : α) (rest : List α) :
    (a :: rest).filterMap f = (f a).toList ++ rest.filterMap f := by
  rw [List.filterMap_cons]
  cases f a <;> rfl

/-- **As many frames end or are being received as began or were being received.** -/
theorem pushAll_balance (d : Decoder) (bytes : List UInt8) :
    d.headers bytes + d.inFrame.toNat =
      ((d.pushAll bytes).2.filterMap Progress.frame?).length +
        ((d.pushAll bytes).2.filterMap Progress.discard?).length +
          (d.pushAll bytes).1.inFrame.toNat := by
  -- What one byte leaves in the frame is what the rest begins with, so the terms telescope.
  induction bytes generalizing d with
  | nil => simp [headers, pushAll]
  | cons b rest ih =>
    have hfirst := d.push_balance b
    have hrest := ih (d.push b).1
    rw [headers, pushAll, filterMap_cons_eq, filterMap_cons_eq, List.length_append,
      List.length_append]
    dsimp only
    omega

/-- A `fresh` decoder is in no frame, so all that ends began within the bytes. -/
theorem headers_fresh (bytes : List UInt8) :
    fresh.headers bytes =
      ((fresh.pushAll bytes).2.filterMap Progress.frame?).length +
        ((fresh.pushAll bytes).2.filterMap Progress.discard?).length +
          (fresh.pushAll bytes).1.inFrame.toNat :=
  pushAll_balance fresh bytes

/-- A counter that grows with each byte by what it brings about has in the end grown by all that
they bring about. -/
theorem counter_pushAll (counter : DecoderStats → UInt32) (size : List Progress → Nat)
    (hadd : ∀ xs ys, size (xs ++ ys) = size xs + size ys)
    (hpush : ∀ (d : Decoder) (b : UInt8),
      counter (d.push b).1.stats = counter d.stats + (size [(d.push b).2]).toUInt32)
    (d : Decoder) (bytes : List UInt8) :
    counter (d.pushAll bytes).1.stats =
      counter d.stats + (size (d.pushAll bytes).2).toUInt32 := by
  -- Adding up and wrapping may be done in any order.
  induction bytes generalizing d with
  | nil =>
    have hnil : size [] = 0 := by simpa using hadd [] []
    simp [pushAll, hnil]
  | cons b rest ih =>
    have hrest := ih (d.push b).1
    rw [hpush] at hrest
    have hcons := hadd [(d.push b).2] ((d.push b).1.pushAll rest).2
    rw [List.singleton_append] at hcons
    rw [pushAll, hcons]
    simpa [Nat.toUInt32_eq, UInt32.ofNat_add, UInt32.add_assoc] using hrest

theorem frames_pushAll (d : Decoder) (bytes : List UInt8) :
    (d.pushAll bytes).1.stats.frames = d.stats.frames +
      ((d.pushAll bytes).2.filterMap Progress.frame?).length.toUInt32 := by
  apply counter_pushAll DecoderStats.frames fun ps => (ps.filterMap Progress.frame?).length
  · simp
  · intro d b
    simpa [filterMap_cons_eq] using d.frames_push b

theorem discards_pushAll (d : Decoder) (bytes : List UInt8) (reason : Discard) :
    (d.pushAll bytes).1.stats.discards reason = d.stats.discards reason +
      (((d.pushAll bytes).2.filterMap Progress.discard?).count reason).toUInt32 := by
  apply counter_pushAll (DecoderStats.discards · reason) fun ps =>
    (ps.filterMap Progress.discard?).count reason
  · simp
  · intro d b
    simpa [filterMap_cons_eq] using d.discards_push b reason

theorem dropped_pushAll (d : Decoder) (bytes : List UInt8) :
    (d.pushAll bytes).1.stats.dropped = d.stats.dropped +
      ((d.pushAll bytes).2.filterMap Progress.discard?).length.toUInt32 := by
  apply counter_pushAll DecoderStats.dropped fun ps => (ps.filterMap Progress.discard?).length
  · simp
  · intro d b
    simpa [filterMap_cons_eq] using d.dropped_push b

/-- **The counters balance**, up to wrapping: `frames`, `dropped` and the open frame make up the
`headers`. -/
theorem stats_balance (bytes : List UInt8) :
    (fresh.headers bytes).toUInt32 =
      (fresh.pushAll bytes).1.stats.frames + (fresh.pushAll bytes).1.stats.dropped +
        (fresh.pushAll bytes).1.inFrame.toNat.toUInt32 := by
  have hframes : fresh.stats.frames = 0 := rfl
  have hdropped : fresh.stats.dropped = 0 := by decide
  rw [headers_fresh, frames_pushAll, dropped_pushAll, hframes, hdropped]
  simp only [Nat.toUInt32_eq, UInt32.ofNat_add, UInt32.zero_add]

/-! ## The verdict on a window -/

/-- The verdict of `decodeFrame` where there is no frame: something was discarded, unless the last
frame is being received or there is none. -/
theorem decodeFrame_of_no_frame
    (hnone : (fresh.pushAll bytes).2.filterMap Progress.frame? = []) :
    (decodeFrame bytes = .error .incomplete ↔
        (fresh.pushAll bytes).1.inFrame = true ∨ fresh.headers bytes = 0) ∧
      ((fresh.pushAll bytes).1.inFrame = false → fresh.headers bytes ≠ 0 → ∃ reason,
        ((fresh.pushAll bytes).2.filterMap Progress.discard?).getLast? = some reason ∧
        decodeFrame bytes = .error (.discarded reason)) := by
  have hfeed : (fresh.feed bytes).2 = [] := by rw [feed_eq_pushAll, hnone]
  rw [decodeFrame, firstFrame_eq_error .incomplete hfeed, headers_fresh, hnone]
  cases hin : (fresh.pushAll bytes).1.inFrame with
  | true => simp
  | false =>
    -- Now there are as many discards as headers.
    cases hlast : ((fresh.pushAll bytes).2.filterMap Progress.discard?).getLast? with
    | none => simp [List.getLast?_eq_none_iff.mp hlast]
    | some reason =>
      have hne : (fresh.pushAll bytes).2.filterMap Progress.discard? ≠ [] := by
        rintro hnil
        simp [hnil] at hlast
      simp [hne]

/-- `decodeFrame` gives the first frame that `pushAll` brings about. -/
theorem toOption_decodeFrame (bytes : List UInt8) :
    (decodeFrame bytes).toOption = ((fresh.pushAll bytes).2.filterMap Progress.frame?).head? := by
  have hread : ∀ f, decodeFrame bytes = .ok f ↔ (fresh.feed bytes).2.head? = some f :=
    fun f => firstFrame_eq_ok_iff
  rw [feed_eq_pushAll] at hread
  apply Option.ext
  intro f
  rw [← hread]
  cases decodeFrame bytes <;> simp [Except.toOption]

/-! ## Nothing is lost -/

/-- **Every started frame is accounted for exactly once.** There are as many headers as frames that
come out, frames that are discarded, and the one that is being received, in what the bytes bring
about and, up to wrapping, in the counters, each of which counts what is called after it. Behind a
discard the decoder is in a frame only if a header brought it about, and nothing is discarded
between frames. So where no frame is found, the verdict is that a frame is incomplete if the bytes
end inside one or hold no header, and else the reason for the last discard. -/
theorem frames_accounted (bytes : List UInt8) :
    let d := (fresh.pushAll bytes).1
    let frames := (fresh.pushAll bytes).2.filterMap Progress.frame?
    let discards := (fresh.pushAll bytes).2.filterMap Progress.discard?
    fresh.headers bytes = frames.length + discards.length + d.inFrame.toNat ∧
      (fresh.headers bytes).toUInt32 =
        d.stats.frames + d.stats.dropped + d.inFrame.toNat.toUInt32 ∧
      d.stats.frames = frames.length.toUInt32 ∧
      (∀ reason, d.stats.discards reason = (discards.count reason).toUInt32) ∧
      (∀ b, ((d.push b).1.phase = .awaitingId ↔ d.endsHeader b = true) ∧
        ∀ reason, (d.push b).2 = .discarded reason →
          d.inFrame = true ∧ ((d.push b).1.inFrame = true ↔ reason = .restarted)) ∧
      (fresh.headers bytes = 0 ↔ ¬ List.replicate Frame.headerLength marker <:+: bytes) ∧
      (decodeFrame bytes).toOption = frames.head? ∧
      (frames = [] →
        (decodeFrame bytes = .error .incomplete ↔
          d.inFrame = true ∨ fresh.headers bytes = 0) ∧
        (d.inFrame = false → fresh.headers bytes ≠ 0 → ∃ reason,
          discards.getLast? = some reason ∧ decodeFrame bytes = .error (.discarded reason))) := by
  have hinputs : ofInputs (bytes.map .byte) = (fresh.pushAll bytes).1 := ofInputs_append [] bytes
  refine ⟨headers_fresh bytes, stats_balance bytes, ?_, ?_, ?_, ?_, toOption_decodeFrame bytes,
    decodeFrame_of_no_frame⟩
  · rw [frames_pushAll]
    exact UInt32.zero_add _
  · intro reason
    have hzero : fresh.stats.discards reason = 0 := by cases reason <;> rfl
    rw [discards_pushAll, hzero, UInt32.zero_add]
  · intro b
    have hawaits := awaitingId_iff (bytes.map .byte) b
    rw [hinputs] at hawaits
    exact ⟨hawaits, fun reason => inFrame_of_discarded⟩
  · rw [headers_eq_zero_iff (Nat.zero_le 2)]
    exact headerless_iff bytes

/-- A frame that another header cuts off; one that a stray byte behind two marker bytes discards;
and one that cannot begin, as its identifier is reserved. -/
def noise : List UInt8 :=
  [marker, marker, marker, 0x81] ++ [marker, marker, marker, 0x81, 7, marker, marker, 0] ++
    [marker, marker, marker, stuffByte, 3]

theorem frames_accounted_noise :
    (fresh.pushAll noise).2.filterMap Progress.frame? = [] ∧
      (fresh.pushAll noise).1.inFrame = false ∧
      fresh.headers noise = 3 ∧
      (fresh.pushAll noise).2.filterMap Progress.discard? = [.restarted, .stuffing, .id] ∧
      decodeFrame noise = .error (.discarded .id) := by
  have hnone : (fresh.pushAll noise).2.filterMap Progress.frame? = [] := by decide +kernel
  have hout : (fresh.pushAll noise).1.inFrame = false := by decide +kernel
  have hdiscards : (fresh.pushAll noise).2.filterMap Progress.discard? =
      [.restarted, .stuffing, .id] := by
    decide +kernel
  obtain ⟨hcount, -, -, -, -, -, -, hverdict⟩ := frames_accounted noise
  rw [hnone, hdiscards, hout] at hcount
  refine ⟨hnone, hout, hcount, hdiscards, ?_⟩
  obtain ⟨reason, hlast, hread⟩ := (hverdict hnone).2 hout (by rw [hcount]; decide)
  rw [hdiscards] at hlast
  obtain rfl := Option.some.inj hlast
  exact hread

end Decoder

end SerialLink
