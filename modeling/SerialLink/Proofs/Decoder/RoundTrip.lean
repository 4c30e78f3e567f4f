import SerialLink.Proofs.Decoder.Stream
import SerialLink.Proofs.Frame.Wire
import SerialLink.Proofs.Stuffing

/-!
# Reading back what was written

A decoder that has no run of marker bytes open reads back any encoded frames that come next,
whatever it was in the middle of: the header of the first frame discards what was there. Inside a
frame the decoder takes out exactly the stuff bytes that the writer put in, because both count the
same runs.

The proof follows the layout of a frame. `Phase.acceptAll` runs the phases over body bytes without
stuffing, and `acceptAll_body` puts together what they do with the identifier, the payload and the
checksum. `pushAll_stuffFrom` adds the stuffing: decoder and `stuffFrom` go through the bytes in
lockstep. With `pushAll_header` before it and `push_endByte` behind it one frame is read
(`pushAll_wire`), and any number of them by induction (`pushAll_stream`). The converse, that nothing
but an encoding is ever read as a frame, is in `Proofs.Decoder.Acceptance`.
-/

namespace SerialLink

/-- What a receiver makes of a frame. The `seq` of an application frame is not sent, and is read as
zero. -/
def Frame.readBack (f : Frame) : Frame := { f with seq := if f.id.hasSeq then f.seq else 0 }

theorem Frame.covered_readBack (f : Frame) : f.readBack.covered = f.covered := by
  unfold covered seqBytes readBack
  split <;> simp

theorem Frame.checksum_readBack (f : Frame) : f.readBack.checksum = f.checksum := by
  rw [checksum, checksum, covered_readBack]

/-! ## The parts of a body -/

/-- `ofByte?` undoes `toByte` for the identifiers that the wire can carry. -/
theorem FrameId.ofByte?_toByte {id : FrameId} (h : id.Valid) : ofByte? id.toByte = some id := by
  -- The identifiers are few enough to look at all of them.
  have hsmall : ∀ n < 64,
      ofByte? (FrameId.app (UInt8.ofNat n)).toByte = some (.app (UInt8.ofNat n)) ∧
        ofByte? (FrameId.data (UInt8.ofNat n)).toByte = some (.data (UInt8.ofNat n)) := by
    decide
  cases id with
  | ack => rfl
  | reset => rfl
  | app a =>
    rw [valid_app, UInt8.le_iff_toNat_le] at h
    simpa using (hsmall a.toNat (Nat.lt_succ_of_le h)).1
  | data a =>
    rw [valid_data, UInt8.le_iff_toNat_le] at h
    simpa using (hsmall a.toNat (Nat.lt_succ_of_le h)).2

/-- A byte is shifted in at the low end as long as none is shifted out. -/
theorem toNat_appendByte {v : UInt32} (b : UInt8) (h : v.toNat * 256 < UInt32.size) :
    ((v <<< 8) ||| b.toUInt32).toNat = v.toNat * 256 + b.toNat := by
  rw [UInt32.size] at h
  have hor := Nat.shiftLeft_add_eq_or_of_lt (i := 8) b.toNat_lt v.toNat
  have hmod : v.toNat <<< ((8 : UInt32).toNat % 32) % 2 ^ 32 = v.toNat <<< 8 := by
    have height : (8 : UInt32).toNat % 32 = 8 := rfl
    rw [height, Nat.shiftLeft_eq]
    omega
  rw [UInt32.toNat_or, UInt32.toNat_shiftLeft, UInt8.toNat_toUInt32, hmod, ← hor,
    Nat.shiftLeft_eq]

namespace Phase

/-- Takes body bytes with `accept`, as long as each of them leaves the frame `pending`. -/
def acceptAll (phase : Phase) : List UInt8 → Option Phase
  | [] => some phase
  | b :: rest =>
    match phase.accept b with
    | (next, .pending) => next.acceptAll rest
    | _ => none

theorem acceptAll_cons {phase next : Phase} {b : UInt8} (h : phase.accept b = (next, .pending))
    (rest : List UInt8) : phase.acceptAll (b :: rest) = next.acceptAll rest := by
  simp [acceptAll, h]

theorem acceptAll_append {phase next : Phase} {xs : List UInt8} (h : phase.acceptAll xs = some next)
    (ys : List UInt8) : phase.acceptAll (xs ++ ys) = next.acceptAll ys := by
  induction xs generalizing phase with
  | nil => rw [← Option.some.inj h]; rfl
  | cons b rest ih =>
    unfold acceptAll at h
    split at h
    · next mid hb =>
      rw [List.cons_append, acceptAll_cons hb]
      exact ih h
    · exact absurd h (by simp)

/-! ### Payload -/

/-- The bytes of a payload are taken in one by one, with the right number of them announced. -/
theorem acceptAll_payload (id : FrameId) (seq : UInt8) {received p : Payload} {bytes : List UInt8}
    (hp : p.bytes = received.bytes ++ bytes) :
    (expectPayload id seq bytes.length.toUInt8 received).acceptAll bytes =
      some (.readingChecksum ⟨id, seq, p⟩ 0 0) := by
  -- What was received and what is still to come make up the payload throughout.
  induction bytes generalizing received with
  | nil =>
    have heq : p = received := Payload.ext (by simpa using hp)
    rw [heq]
    rfl
  | cons b rest ih =>
    have hlen := p.length_le
    rw [hp, List.length_append, List.length_cons] at hlen
    have hnonzero : (b :: rest).length.toUInt8 ≠ 0 := by
      intro h
      have hzero := congrArg UInt8.toNat h
      simp only [List.length_cons, Nat.toUInt8_eq, UInt8.toNat_ofNat', UInt8.toNat_zero] at hzero
      omega
    -- `p` has space for one more byte than `received`, so `push?` does not fail.
    obtain ⟨next, hnext⟩ : ∃ next, received.push? b = some next := by
      cases hpush : received.push? b with
      | some next => exact ⟨next, rfl⟩
      | none =>
        rw [Payload.push?, Payload.ofList?_eq_none_iff, List.length_append] at hpush
        simp only [Payload.maxLength, List.length_singleton] at hpush
        omega
    have hbytes := Payload.push?_eq_some_iff.mp hnext
    have hremaining : (b :: rest).length.toUInt8 - 1 = rest.length.toUInt8 := by
      simp only [List.length_cons, Nat.toUInt8_eq, UInt8.ofNat_add]
      grind
    have haccept : (expectPayload id seq (b :: rest).length.toUInt8 received).accept b =
        (expectPayload id seq rest.length.toUInt8 next, .pending) := by
      rw [expectPayload, if_neg hnonzero]
      simp only [accept, hnext, hremaining]
    rw [acceptAll_cons haccept]
    exact ih (by rw [hp, hbytes, List.append_assoc]; rfl)

/-! ### Checksum -/

/-- The lowest byte of a word is the one that is missing from its upper part. -/
theorem shiftIn_lowByte (w : UInt32) : ((w >>> 8) <<< 8) ||| w.toUInt8.toUInt32 = w := by
  have hhigh : (w >>> 8).toNat = w.toNat / 2 ^ 8 := by
    simp [UInt32.toNat_shiftRight, Nat.shiftRight_eq_div_pow]
  have hlow : w.toUInt8.toNat = w.toNat % 256 := by simp
  have hlt := w.toNat_lt
  have hsize : UInt32.size = 2 ^ 32 := rfl
  apply UInt32.toNat_inj.mp
  rw [toNat_appendByte _ (by omega), hhigh, hlow]
  omega

/-- The first three bytes of any word are taken in as its upper part. The fourth one is the one
behind which `accept` compares. -/
theorem acceptAll_word (f : Frame) (w : UInt32) :
    (readingChecksum f 0 0).acceptAll ((Frame.bigEndian w).take 3) =
      some (.readingChecksum f 3 (w >>> 8)) := by
  have hbytes : (w >>> 24).toUInt8.toNat = w.toNat / 2 ^ 24 % 256 ∧
      (w >>> 16).toUInt8.toNat = w.toNat / 2 ^ 16 % 256 ∧
      (w >>> 8).toUInt8.toNat = w.toNat / 2 ^ 8 % 256 ∧ (w >>> 8).toNat = w.toNat / 2 ^ 8 := by
    simp [UInt32.toNat_shiftRight, Nat.shiftRight_eq_div_pow]
  obtain ⟨h₁, h₂, h₃, h₄⟩ := hbytes
  have hlt := w.toNat_lt
  -- After `i` bytes the value is the word without its last `4 - i` bytes.
  generalize hv₁ : ((0 : UInt32) <<< 8) ||| (w >>> 24).toUInt8.toUInt32 = v₁
  generalize hv₂ : (v₁ <<< 8) ||| (w >>> 16).toUInt8.toUInt32 = v₂
  have hsize : UInt32.size = 2 ^ 32 := rfl
  have hn₁ : v₁.toNat = w.toNat / 2 ^ 24 := by
    rw [← hv₁, toNat_appendByte _ (by decide), h₁, UInt32.toNat_zero]
    omega
  have hn₂ : v₂.toNat = w.toNat / 2 ^ 16 := by
    rw [← hv₂, toNat_appendByte _ (by omega), hn₁, h₂]
    omega
  have hn₃ : (v₂ <<< 8) ||| (w >>> 8).toUInt8.toUInt32 = w >>> 8 := by
    apply UInt32.toNat_inj.mp
    rw [toNat_appendByte _ (by omega), hn₂, h₃, h₄]
    omega
  have ha₁ : (readingChecksum f 0 0).accept (w >>> 24).toUInt8 =
      (.readingChecksum f 1 v₁, .pending) := by
    simp only [accept, hv₁]
    rfl
  have ha₂ : (readingChecksum f 1 v₁).accept (w >>> 16).toUInt8 =
      (.readingChecksum f 2 v₂, .pending) := by
    simp only [accept, hv₂]
    rfl
  have ha₃ : (readingChecksum f 2 v₂).accept (w >>> 8).toUInt8 =
      (.readingChecksum f 3 (w >>> 8), .pending) := by
    simp only [accept, hn₃]
    rfl
  have hfirst : (Frame.bigEndian w).take 3 =
      [(w >>> 24).toUInt8, (w >>> 16).toUInt8, (w >>> 8).toUInt8] := rfl
  rw [hfirst, acceptAll_cons ha₁, acceptAll_cons ha₂, acceptAll_cons ha₃]
  rfl

/-- The four bytes of `bigEndian` make up the checksum again. -/
theorem acceptAll_checksum (f : Frame) :
    (readingChecksum f 0 0).acceptAll (Frame.bigEndian f.checksum) = some (.awaitingEnd f) := by
  have hsplit : Frame.bigEndian f.checksum =
      (Frame.bigEndian f.checksum).take 3 ++ [f.checksum.toUInt8] := rfl
  have hlast : (readingChecksum f 3 (f.checksum >>> 8)).accept f.checksum.toUInt8 =
      (.awaitingEnd f, .pending) := by
    simp only [accept, shiftIn_lowByte]
    rfl
  rw [hsplit, acceptAll_append (acceptAll_word f f.checksum), acceptAll_cons hlast]
  rfl

/-! ### The whole body -/

/-- All that the checksum covers, `Frame.covered`, is taken in, whatever checksum follows. -/
theorem acceptAll_covered {f : Frame} (h : f.id.Valid) :
    awaitingId.acceptAll f.covered = some (.readingChecksum f.readBack 0 0) := by
  have hid : awaitingId.accept f.id.toByte = (afterId f.id, .pending) := by
    simp [accept, FrameId.ofByte?_toByte h]
  -- An application frame has no sequence number, and is read as numbered zero.
  have hseq : (afterId f.id).acceptAll f.seqBytes =
      some (.awaitingLength f.id f.readBack.seq) := by
    unfold afterId Frame.seqBytes Frame.readBack
    split
    · next hseq => simp [acceptAll, accept]
    · rfl
  have hlen : f.payload.length ≤ 255 := f.payload.length_le
  have hlength : (awaitingLength f.id f.readBack.seq).accept f.payload.lengthByte =
      (expectPayload f.id f.readBack.seq f.payload.bytes.length.toUInt8 .empty, .pending) := by
    simp only [accept, if_neg (Payload.not_maxLength_lt _)]
    rfl
  have hbytes : f.payload.bytes = Payload.empty.bytes ++ f.payload.bytes := rfl
  rw [Frame.covered, acceptAll_cons hid, acceptAll_append hseq, acceptAll_cons hlength]
  exact acceptAll_payload f.id f.readBack.seq hbytes

/-- **The body of a frame with a valid identifier leads to its end byte**: all of it is taken in,
and `awaitingEnd` holds what is read back. -/
theorem acceptAll_body {f : Frame} (h : f.id.Valid) :
    awaitingId.acceptAll f.body = some (.awaitingEnd f.readBack) := by
  rw [Frame.body, acceptAll_append (acceptAll_covered h), ← f.checksum_readBack]
  exact acceptAll_checksum f.readBack

/-! ### Marker bytes -/

/-- What `accept` does with a `marker`: it may discard a frame, but never completes one, and leaves
no frame from before. -/
theorem accept_marker (phase : Phase) :
    (∃ next, phase.accept marker = (next, .pending) ∧ (next = .searching ↔ phase = .searching)) ∨
      ∃ reason, phase.accept marker = (.searching, .discarded reason) ∧ phase ≠ .searching := by
  cases phase with
  | searching => exact .inl ⟨.searching, rfl, Iff.rfl⟩
  -- As an identifier byte the marker names a data frame, as a length it is one that is allowed.
  | awaitingId => exact .inl ⟨.awaitingSeq (.data 0x2A), by decide, by simp⟩
  | awaitingSeq id => exact .inl ⟨.awaitingLength id marker, rfl, by simp⟩
  | awaitingLength id seq => exact .inl ⟨.readingPayload id seq marker .empty, by rfl, by simp⟩
  | readingPayload id seq remaining received =>
    cases hpush : received.push? marker with
    | none => exact .inr ⟨.length, by simp only [accept, hpush], by simp⟩
    | some next =>
      refine .inl ⟨expectPayload id seq (remaining - 1) next, by simp only [accept, hpush], ?_⟩
      -- Whether or not it was the last byte of the payload, the frame goes on.
      unfold expectPayload
      split <;> simp
  | readingChecksum f count value =>
    simp only [accept]
    split
    · exact .inl ⟨_, rfl, by simp⟩
    · split
      · exact .inl ⟨_, rfl, by simp⟩
      · exact .inr ⟨_, rfl, by simp⟩
  | awaitingEnd f => exact .inr ⟨.endByte, by rfl, by simp⟩

end Phase

/-! ## The decoder and the writer in lockstep -/

namespace Decoder

open Stuffing

variable {d : Decoder}

theorem push_of_accept {b : UInt8} {next : Phase} (hrun : d.run ≤ 1)
    (h : d.phase.accept b = (next, .pending)) :
    d.push b = (⟨next, if b = marker then d.run + 1 else 0, d.stats⟩, .pending) := by
  have hne : d.run ≠ 2 := by omega
  simp [push, step, hne, take, h, count]

theorem push_stuffByte (hrun : d.run = 2) : d.push stuffByte = ({ d with run := 0 }, .pending) := by
  have hne : stuffByte ≠ marker := by decide
  simp [push, step, hrun, takeAfterMarkers, hne, count]

/-- **The decoder takes out the stuff bytes that the writer put in.** It goes where `acceptAll` goes
on the bytes themselves, and has the run open that `runAfter` says. -/
theorem pushAll_stuffFrom {phase : Phase} {bytes : List UInt8} (hrun : d.run ≤ 1)
    (h : d.phase.acceptAll bytes = some phase) :
    d.pushAll (stuffFrom d.run bytes) = (⟨phase, runAfter d.run bytes, d.stats⟩,
      List.replicate (stuffFrom d.run bytes).length .pending) := by
  -- The induction is on the bytes before stuffing: one step is one or two bytes of the wire.
  induction bytes generalizing d with
  | nil =>
    rw [← Option.some.inj h]
    rfl
  | cons b rest ih =>
    unfold Phase.acceptAll at h
    split at h
    · next next hb =>
      have hpush := push_of_accept hrun hb
      -- Both sides count the byte in the same way.
      by_cases hmarker : b = marker
      · by_cases hone : d.run = 1
        · -- The second marker byte of a run: a stuff byte follows, and is taken out.
          have hstuff := push_stuffByte (d := ⟨next, 2, d.stats⟩) rfl
          have hall := ih (d := ⟨next, 0, d.stats⟩) (Nat.zero_le 1) h
          simp [stuffFrom, runAfter, hmarker, hone] at hpush hall ⊢
          simp [pushAll, hpush, hstuff, hall, List.replicate_succ]
        · have hzero : d.run = 0 := by omega
          have hall := ih (d := ⟨next, 1, d.stats⟩) (Nat.le_refl 1) h
          simp [stuffFrom, runAfter, hmarker, hzero] at hpush hall ⊢
          simp [pushAll, hpush, hall, List.replicate_succ]
      · have hall := ih (d := ⟨next, 0, d.stats⟩) (Nat.zero_le 1) h
        simp [stuffFrom, runAfter, hmarker] at hpush hall ⊢
        simp [pushAll, hpush, hall, List.replicate_succ]
    · exact absurd h (by simp)

/-! ## The header -/

/-- A `marker` in front of the third one: if it discards a frame, none is left. -/
theorem push_marker (hrun : d.run ≤ 1) :
    ∃ d' p, d.push marker = (d', p) ∧ d'.run = d.run + 1 ∧ p.frame? = none ∧
      p.discard?.toList.length + d'.inFrame.toNat = d.inFrame.toNat := by
  have hne : d.run ≠ 2 := by omega
  rcases d.phase.accept_marker with ⟨next, h, hiff⟩ | ⟨reason, h, hphase⟩
  · refine ⟨_, _, push_of_accept hrun h, by simp, rfl, ?_⟩
    simp [inFrame, hiff, Progress.discard?]
  · refine ⟨⟨.searching, d.run + 1, d.stats.countDiscard reason⟩, .discarded reason, ?_, rfl, rfl,
      ?_⟩
    · simp [push, step, hne, take, h, count]
    · simp [inFrame, hphase, Progress.discard?]

theorem push_third_marker (hrun : d.run = 2) :
    ∃ stats p, d.push marker = (⟨.awaitingId, 0, stats⟩, p) ∧ p.frame? = none ∧
      p.discard?.toList.length = d.inFrame.toNat := by
  -- Only a decoder inside a frame has anything to discard.
  by_cases h : d.inFrame
  · refine ⟨d.stats.countDiscard .restarted, .discarded .restarted, ?_, rfl,
      by simp [h, Progress.discard?]⟩
    simp [push, step, hrun, takeAfterMarkers, h, count]
  · refine ⟨d.stats, .pending, ?_, rfl, by simp [h, Progress.discard?]⟩
    simp [push, step, hrun, takeAfterMarkers, h, count]

/-- **Three `marker` bytes start a frame and discard the one that was in the making, if any.** -/
theorem pushAll_header (hrun : d.run = 0) :
    ∃ stats first, d.pushAll (List.replicate Frame.headerLength marker) =
        (⟨.awaitingId, 0, stats⟩, first) ∧ first.length = Frame.headerLength ∧
      first.filterMap Progress.frame? = [] ∧
      (first.filterMap Progress.discard?).length = d.inFrame.toNat := by
  -- A frame that the first two markers leave is discarded by the third one.
  obtain ⟨d₁, p₁, h₁, hrun₁, hframe₁, hdiscard₁⟩ := push_marker (d := d) (by omega)
  obtain ⟨d₂, p₂, h₂, hrun₂, hframe₂, hdiscard₂⟩ := push_marker (d := d₁) (by omega)
  obtain ⟨stats, p₃, h₃, hframe₃, hdiscard₃⟩ := push_third_marker (d := d₂) (by omega)
  refine ⟨stats, [p₁, p₂, p₃], ?_, rfl, ?_, ?_⟩
  · simp [Frame.headerLength, List.replicate_succ, pushAll, h₁, h₂, h₃]
  · simp [hframe₁, hframe₂, hframe₃]
  · have hsum : ([p₁, p₂, p₃].filterMap Progress.discard?).length =
        p₁.discard?.toList.length + (p₂.discard?.toList.length + p₃.discard?.toList.length) := by
      cases h₁ : p₁.discard? <;> cases h₂ : p₂.discard? <;> cases h₃ : p₃.discard? <;>
        simp [h₁, h₂, h₃]
    omega

/-! ## Whole frames -/

/-- Behind the body, the `endByte` completes the frame. -/
theorem push_endByte {f : Frame} (hrun : d.run ≤ 1) (h : d.phase = .awaitingEnd f) :
    d.push endByte = (⟨.searching, 0, d.stats.countFrame⟩, .frame f) := by
  have hne : d.run ≠ 2 := by omega
  have haccept : d.phase.accept endByte = (.searching, .frame f) := by
    rw [h]
    rfl
  have hmarker : endByte ≠ marker := by decide
  simp [push, step, hne, take, haccept, hmarker, count]

/-- Behind a header, the stuffed `body` and the `endByte` complete the frame. -/
theorem pushAll_body {f : Frame} (h : f.id.Valid) (stats : DecoderStats) :
    ∃ n, pushAll ⟨.awaitingId, 0, stats⟩ (stuff f.body ++ [endByte]) =
      (⟨.searching, 0, stats.countFrame⟩,
        List.replicate n .pending ++ [.frame f.readBack]) := by
  have hbody := pushAll_stuffFrom (d := ⟨.awaitingId, 0, stats⟩) (Nat.zero_le 1)
    (Phase.acceptAll_body h)
  have hend := push_endByte (d := ⟨.awaitingEnd f.readBack, runAfter 0 f.body, stats⟩)
    (runAfter_le (Nat.zero_le 1) f.body) rfl
  simp only at hbody
  refine ⟨(stuffFrom 0 f.body).length, ?_⟩
  rw [stuff, pushAll_append, hbody]
  simp [pushAll, hend]

/-- **One frame is read back** from its `wire`. Its header discards what was in the making, and
nothing else is discarded. -/
theorem pushAll_wire {f : Frame} (hrun : d.run = 0) (h : f.id.Valid) :
    ∃ stats first rest, d.pushAll f.wire = (⟨.searching, 0, stats⟩, first ++ rest) ∧
      first.length = Frame.headerLength ∧ first.filterMap Progress.frame? = [] ∧
      (first.filterMap Progress.discard?).length = d.inFrame.toNat ∧
      rest.filterMap Progress.frame? = [f.readBack] ∧ rest.filterMap Progress.discard? = [] := by
  obtain ⟨stats, first, hheader, hlength, hframe, hdiscard⟩ := pushAll_header hrun
  obtain ⟨n, hbody⟩ := pushAll_body h stats
  refine ⟨stats.countFrame, first, List.replicate n .pending ++ [.frame f.readBack], ?_, hlength,
    hframe, hdiscard, ?_, ?_⟩
  · rw [Frame.wire, List.append_assoc, pushAll_append, hheader, hbody]
  · simp [Progress.frame?]
  · simp [Progress.discard?]

/-- Between frames nothing is discarded, however many come in a row. -/
theorem pushAll_wires {frames : List Frame} (h : ∀ f ∈ frames, f.id.Valid) (stats : DecoderStats) :
    ∃ stats' steps, pushAll ⟨.searching, 0, stats⟩ (frames.flatMap Frame.wire) =
        (⟨.searching, 0, stats'⟩, steps) ∧
      steps.filterMap Progress.frame? = frames.map Frame.readBack ∧
      steps.filterMap Progress.discard? = [] := by
  induction frames generalizing stats with
  | nil => exact ⟨stats, [], rfl, rfl, rfl⟩
  | cons f frames ih =>
    obtain ⟨stats₁, first, rest, hwire, -, hframe, hdiscard, hread, hquiet⟩ :=
      pushAll_wire (d := ⟨.searching, 0, stats⟩) rfl (h f (List.mem_cons_self ..))
    obtain ⟨stats₂, steps, hwires, hreads, hquiets⟩ :=
      ih (fun g hg => h g (List.mem_cons_of_mem f hg)) stats₁
    -- A searching decoder has nothing that the header could discard.
    have hnone : first.filterMap Progress.discard? = [] := List.eq_nil_of_length_eq_zero hdiscard
    refine ⟨stats₂, first ++ rest ++ steps, ?_, ?_, ?_⟩
    · rw [List.flatMap_cons, pushAll_append, hwire, hwires]
    · simp [hframe, hread, hreads]
    · simp [hnone, hquiet, hquiets]

/-- The frames of any list are read back like a first one, by `pushAll_wire`, and others behind it,
by `pushAll_wires`. -/
theorem pushAll_stream {frames : List Frame} (hrun : d.run = 0) (hne : frames ≠ [])
    (h : ∀ f ∈ frames, f.id.Valid) :
    ∃ stats first rest, d.pushAll (frames.flatMap Frame.wire) =
        (⟨.searching, 0, stats⟩, first ++ rest) ∧
      first.length = Frame.headerLength ∧ first.filterMap Progress.frame? = [] ∧
      (first.filterMap Progress.discard?).length = d.inFrame.toNat ∧
      rest.filterMap Progress.frame? = frames.map Frame.readBack ∧
      rest.filterMap Progress.discard? = [] := by
  cases frames with
  | nil => exact absurd rfl hne
  | cons f frames =>
    obtain ⟨stats₁, first, rest, hwire, hlength, hframe, hdiscard, hread, hquiet⟩ :=
      pushAll_wire hrun (h f (List.mem_cons_self ..))
    obtain ⟨stats₂, steps, hwires, hreads, hquiets⟩ :=
      pushAll_wires (fun g hg => h g (List.mem_cons_of_mem f hg)) stats₁
    refine ⟨stats₂, first, rest ++ steps, ?_, hlength, hframe, hdiscard, ?_, ?_⟩
    · rw [List.flatMap_cons, pushAll_append, hwire, hwires, List.append_assoc]
    · simp [hread, hreads]
    · simp [hquiet, hquiets]

theorem mapM_encode {frames : List Frame} (h : ∀ f ∈ frames, f.id.Valid) :
    frames.mapM Frame.encode = .ok (frames.map Frame.wire) := by
  induction frames with
  | nil => rfl
  | cons f frames ih =>
    have hf := Frame.encode_eq_wire (h f (List.mem_cons_self ..))
    have hrest := ih fun g hg => h g (List.mem_cons_of_mem f hg)
    rw [List.mapM_cons, hf, hrest]
    rfl

theorem feed_stream {frames : List Frame} (hrun : d.run = 0) (hne : frames ≠ [])
    (h : ∀ f ∈ frames, f.id.Valid) :
    (d.feed (frames.flatMap Frame.wire)).2 = frames.map Frame.readBack := by
  obtain ⟨stats, first, rest, hall, -, hframe, -, hread, -⟩ := pushAll_stream hrun hne h
  rw [feed_eq_pushAll, hall, List.filterMap_append, hframe, hread, List.nil_append]

/-- **Frames survive the stream.** A decoder without an open run of marker bytes, as it is behind
any other byte, reads back what was encoded, however the bytes are cut. All it discards is the frame
it was in the middle of, within the first header. Noise therefore costs one frame at most. -/
theorem reads_back {frames : List Frame} (hrun : d.run = 0) (hne : frames ≠ [])
    (hid : ∀ f ∈ frames, f.id.Valid) :
    ∃ wires, frames.mapM Frame.encode = .ok wires ∧
      (∀ chunks : List Chunk, chunks.flatMap Chunk.toList = wires.flatten →
        (d.takeChunks chunks).2 = frames.map Frame.readBack ∧
        (d.takeChunks chunks).1 = (d.pushAll wires.flatten).1 ∧
        (d.takeChunks chunks).1.phase = .searching ∧ (d.takeChunks chunks).1.run = 0) ∧
      (∃ first rest, (d.pushAll wires.flatten).2 = first ++ rest ∧
        first.length = 3 ∧
        (first.filterMap Progress.discard?).length = (if d.inFrame then 1 else 0) ∧
        rest.filterMap Progress.discard? = []) ∧
      (∀ (e : Decoder) (bytes : List UInt8) (b : UInt8), b ≠ marker →
        (e.pushAll (bytes ++ [b])).1.run = 0) ∧
      ∀ (e : Decoder) (noise : List UInt8) (g : Frame), g.id.Valid →
        ∃ wire, g.encode = .ok wire ∧ ∀ chunks : List Chunk,
          chunks.flatMap Chunk.toList = noise ++ wire ++ wires.flatten →
          (e.takeChunks chunks).2 = (e.feed (noise ++ wire)).2 ++ frames.map Frame.readBack := by
  obtain ⟨stats, first, rest, hall, hlength, -, hdiscard, -, hquiet⟩ := pushAll_stream hrun hne hid
  rw [List.flatMap_def] at hall
  refine ⟨frames.map Frame.wire, mapM_encode hid, ?_, ⟨first, rest, ?_, hlength, ?_, hquiet⟩,
    fun e bytes b => run_pushAll_eq_zero e bytes, ?_⟩
  · intro chunks hchunks
    have hfeed := feed_stream hrun hne hid
    rw [List.flatMap_def] at hfeed
    rw [takeChunks_eq_feed, hchunks, hfeed, feed_eq_pushAll, hall]
    exact ⟨rfl, rfl, rfl, rfl⟩
  · rw [hall]
  · rw [hdiscard]
    cases d.inFrame <;> rfl
  · -- Behind noise the run need not be closed, but behind one whole frame it is.
    intro e noise g hg
    refine ⟨g.wire, Frame.encode_eq_wire hg, ?_⟩
    intro chunks hchunks
    -- The end byte of `g` closes any run of marker bytes that the noise left open.
    have hclosed : (e.feed (noise ++ g.wire)).1.run = 0 := by
      rw [feed_eq_pushAll, Frame.wire, ← List.append_assoc]
      exact run_pushAll_eq_zero e _ (by decide)
    have hfeed := feed_stream hclosed hne hid
    rw [List.flatMap_def] at hfeed
    rw [takeChunks_eq_feed, hchunks, feed_append, hfeed]

/-- A decoder that has seen a header and an identifier. -/
def interrupted : Decoder := (fresh.pushAll [marker, marker, marker, 0x80]).1

/-- Two frames whose payloads hold runs of marker bytes. -/
def marked : List Frame :=
  [⟨.data 1, 7, ⟨[marker, marker, marker, marker], by decide⟩⟩, ⟨.app 2, 0, ⟨[marker], by decide⟩⟩]

theorem reads_back_marked :
    interrupted.run = 0 ∧ interrupted.inFrame ∧ marked ≠ [] ∧ (∀ f ∈ marked, f.id.Valid) ∧
      ∃ wires, marked.mapM Frame.encode = .ok wires ∧
        (interrupted.takeChunks [.single marker, .many (wires.flatten.drop 1)]).2 = marked ∧
        ∃ first rest, (interrupted.pushAll wires.flatten).2 = first ++ rest ∧ first.length = 3 ∧
          (first.filterMap Progress.discard?).length = 1 ∧
          rest.filterMap Progress.discard? = [] := by
  have hrun : interrupted.run = 0 := by decide +kernel
  have hinFrame : interrupted.inFrame = true := by decide +kernel
  have hid : ∀ f ∈ marked, f.id.Valid := by decide +kernel
  obtain ⟨wires, hencode, hchunks, ⟨first, rest, hall, hlength, hdiscard, hquiet⟩, -⟩ :=
    reads_back hrun (by decide) hid
  have hwires : wires = marked.map Frame.wire :=
    Except.ok.inj (hencode.symm.trans (mapM_encode hid))
  have hcut : [.single marker, .many (wires.flatten.drop 1)].flatMap Chunk.toList =
      wires.flatten := by
    simp [hwires, marked, Frame.wire, Frame.headerLength, List.replicate_succ, Chunk.toList]
  refine ⟨hrun, hinFrame, by decide, hid, wires, hencode, ?_, first, rest, hall, hlength, ?_,
    hquiet⟩
  · rw [(hchunks _ hcut).1]
    rfl
  · rw [hdiscard, hinFrame]
    rfl

end Decoder

end SerialLink
