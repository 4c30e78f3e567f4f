import SerialLink.Proofs.Decoder.Joining
import SerialLink.Proofs.Frame.Body

/-!
# Frames with another checksum

A frame that stands on the wire with a checksum other than its own is taken in up to the last byte
of this checksum, and discarded there. So it is with every frame of which up to four bytes in a row
of the payload were changed, since no such change leaves the checksum as it was. The stuff bytes
need not stand where they stood before.

`Frame.wireWith` is `Frame.wire` with the checksum as a parameter, and `pushAll_wireWith` says what
a decoder makes of it if the parameter is not the checksum of the frame. That a `Crc32.Burst`
changes the checksum is `Crc32.Burst.checksum_ne` from `Proofs.Crc32`; here it is said of frames.
The lemmas about a decoder between frames, `pushAll_searching` and `firstFrame_eq_error`, are used
by `Proofs.Decoder.Accounting` too.
-/

namespace SerialLink

/-! ## The wire form -/

/-- What would be written for a frame if its checksum were `sum`. -/
def Frame.wireWith (f : Frame) (sum : UInt32) : List UInt8 :=
  List.replicate headerLength marker ++ Stuffing.stuff (f.covered ++ bigEndian sum) ++ [endByte]

theorem Frame.wireWith_checksum (f : Frame) : f.wireWith f.checksum = f.wire := rfl

/-- A `Crc32.Burst` in the payload changes the checksum of a frame. -/
theorem Frame.checksum_ne {f : Frame} {q : Payload} (h : Crc32.Burst f.payload.bytes q.bytes)
    (hne : q ≠ f.payload) : f.checksum ≠ ({ f with payload := q } : Frame).checksum := by
  have hbytes : f.payload.bytes ≠ q.bytes := fun heq => hne (Payload.ext heq.symm)
  have hhead : ({ f with payload := q } : Frame).head = f.head := by
    simp only [Frame.head, Frame.seqBytes, Payload.lengthByte, Payload.length, h.1]
  rw [Frame.checksum, Frame.checksum, Frame.covered_eq, Frame.covered_eq, hhead]
  exact h.checksum_ne hbytes _

namespace Decoder

open Stuffing

variable {d : Decoder}

/-! ## Bytes that change no more than the run -/

/-- A decoder that is `searching` takes a byte that ends no header for nothing but its run. -/
theorem push_searching {b : UInt8} (hphase : d.phase = .searching) (h : b = marker → d.run < 2) :
    d.push b = (⟨.searching, if b = marker then d.run + 1 else 0, d.stats⟩, .pending) := by
  by_cases hb : b = marker
  · have hne : d.run ≠ 2 := Nat.ne_of_lt (h hb)
    simp [push, step, hne, take, hphase, Phase.accept, hb, count]
  · by_cases htwo : d.run = 2
    · by_cases hstuff : b = stuffByte
      · simp [push, step, htwo, takeAfterMarkers, hstuff, hphase, count,
          show stuffByte ≠ marker by decide]
      · simp [push, step, htwo, takeAfterMarkers, hb, hstuff, inFrame, hphase, take,
          Phase.accept, count]
    · simp [push, step, htwo, take, hphase, Phase.accept, hb, count]

/-- A decoder that is `searching` stays so before the next header, and counts nothing. -/
theorem pushAll_searching {bytes : List UInt8} (h : Headerless d.run bytes)
    (hphase : d.phase = .searching) :
    ∃ run, d.pushAll bytes =
      (⟨.searching, run, d.stats⟩, List.replicate bytes.length .pending) := by
  induction bytes generalizing d with
  | nil => exact ⟨d.run, by rw [← hphase]; rfl⟩
  | cons b rest ih =>
    have hpush := push_searching hphase h.lt_two
    have hrest := (headerless_push h).1
    rw [hpush] at hrest
    obtain ⟨run, hothers⟩ := ih hrest rfl
    exact ⟨run, by rw [pushAll, hpush, hothers]; rfl⟩

/-! ## The verdict on a window -/

/-- Where there is no frame, the verdict of `firstFrame` is that a frame is incomplete, or else the
last discard. -/
theorem firstFrame_eq_error {window : List UInt8} (failure : DecodeError)
    (h : (d.feed window).2 = []) :
    d.firstFrame failure window =
      .error (if (d.pushAll window).1.inFrame then .incomplete
        else (((d.pushAll window).2.filterMap Progress.discard?).getLast?.map .discarded).getD
          failure) := by
  -- The failure that is carried along is the last discard so far.
  induction window generalizing d failure with
  | nil => rfl
  | cons b rest ih =>
    unfold feed at h
    unfold firstFrame
    rcases hpush : d.push b with ⟨d', _ | f | reason⟩
    · rw [hpush] at h
      simp only [ih failure h, pushAll, hpush]
      rfl
    · rw [hpush] at h
      exact absurd h (by simp)
    · rw [hpush] at h
      simp only [ih (.discarded reason) h, pushAll, hpush]
      -- A later discard takes the place of this one.
      cases hlast : ((d'.pushAll rest).2.filterMap Progress.discard?).getLast? with
      | none => simp [Progress.discard?, List.getLast?_cons, hlast]
      | some last => simp [Progress.discard?, List.getLast?_cons, hlast]

/-! ## A frame with another checksum -/

/-- In `readingChecksum`, the last byte of a checksum that is not the one of the frame discards it,
and what is left of the frame is passed over. -/
theorem pushAll_lastByte {g : Frame} {sum : UInt32} (hrun : d.run ≤ 1)
    (hphase : d.phase = .readingChecksum g 3 (sum >>> 8)) (hsum : g.checksum ≠ sum) :
    ∃ n, d.pushAll (stuffFrom d.run [sum.toUInt8] ++ [endByte]) =
      (⟨.searching, 0, d.stats.countDiscard .checksum⟩,
        .discarded .checksum :: List.replicate n .pending) := by
  have hpush : d.push sum.toUInt8 =
      (⟨.searching, if sum.toUInt8 = marker then d.run + 1 else 0,
        d.stats.countDiscard .checksum⟩, .discarded .checksum) := by
    have hne : d.run ≠ 2 := by omega
    have hreject : d.phase.accept sum.toUInt8 = (.searching, .discarded .checksum) := by
      rw [hphase]
      simp only [Phase.accept, Phase.shiftIn_lowByte, if_neg hsum]
      rfl
    simp [push, step, hne, take, hreject, count]
  -- Behind it stand at most a stuff byte and the end byte, and no header.
  have hzero := d.run_pushAll_eq_zero (b := endByte) (stuffFrom d.run [sum.toUInt8]) (by decide)
  have hquiet := headerless_stuffFrom hrun [sum.toUInt8]
  rw [stuffFrom_cons, List.cons_append] at hquiet hzero ⊢
  obtain ⟨run, hrest⟩ := pushAll_searching (d := ⟨.searching,
    if sum.toUInt8 = marker then d.run + 1 else 0, d.stats.countDiscard .checksum⟩) hquiet.tail rfl
  simp only [pushAll, hpush, hrest] at hzero ⊢
  obtain rfl : run = 0 := hzero
  exact ⟨_, rfl⟩

/-- **A frame with another checksum is discarded**, and so is what the decoder was in the middle of.
Both are told apart: the header discards what was before, the last checksum byte the frame
itself. -/
theorem pushAll_wireWith {f : Frame} {sum : UInt32} (hrun : d.run = 0) (hid : f.id.Valid)
    (hsum : f.checksum ≠ sum) :
    ∃ stats first rest, d.pushAll (f.wireWith sum) = (⟨.searching, 0, stats⟩, first ++ rest) ∧
      first.filterMap Progress.frame? = [] ∧
      (first.filterMap Progress.discard?).length = d.inFrame.toNat ∧
      rest.filterMap Progress.frame? = [] ∧
      rest.filterMap Progress.discard? = [.checksum] := by
  obtain ⟨stats, first, hheader, -, hframe, hdiscard⟩ := pushAll_header hrun
  -- All but the last byte of the checksum is taken in.
  let upper := f.covered ++ (Frame.bigEndian sum).take 3
  have hsplit : f.covered ++ Frame.bigEndian sum = upper ++ [sum.toUInt8] := by
    simp [upper, Frame.bigEndian]
  have haccept : Phase.awaitingId.acceptAll upper =
      some (.readingChecksum f.readBack 3 (sum >>> 8)) := by
    rw [Phase.acceptAll_append (Phase.acceptAll_covered hid)]
    exact Phase.acceptAll_word f.readBack sum
  have hupper := pushAll_stuffFrom (d := ⟨.awaitingId, 0, stats⟩) (Nat.zero_le 1) haccept
  obtain ⟨n, hlast⟩ := pushAll_lastByte
    (d := ⟨.readingChecksum f.readBack 3 (sum >>> 8), runAfter 0 upper, stats⟩)
    (runAfter_le (Nat.zero_le 1) upper) rfl (f.checksum_readBack ▸ hsum)
  dsimp only at hupper hlast
  refine ⟨stats.countDiscard .checksum, first,
    List.replicate (stuffFrom 0 upper).length .pending ++
      (.discarded .checksum :: List.replicate n .pending), ?_, hframe, hdiscard, ?_, ?_⟩
  · rw [Frame.wireWith, hsplit, stuff, stuffFrom_append, List.append_assoc, List.append_assoc,
      pushAll_append, hheader, pushAll_append, hupper, hlast]
  · simp [Progress.frame?]
  · have hnone : Progress.discard? .pending = none := rfl
    simp [Progress.discard?, List.filterMap_replicate_of_none hnone]

/-! ## Bursts -/

/-- **Bursts in the payload are detected.** If up to four bytes in a row of a payload are changed,
in any way, the checksum is another one; a frame that comes with the old checksum is discarded for
it, and no frame is read. -/
theorem bursts_detected {f : Frame} {q : Payload} (hburst : Crc32.Burst f.payload.bytes q.bytes)
    (hne : q ≠ f.payload) :
    let torn : Frame := { f with payload := q }
    torn.checksum ≠ f.checksum ∧
      (f.id.Valid →
        f.encode = .ok (f.wireWith f.checksum) ∧ torn.encode = .ok (torn.wireWith torn.checksum) ∧
        decodeFrame (torn.wireWith f.checksum) = .error (.discarded .checksum) ∧
        (fresh.feed (torn.wireWith f.checksum)).2 = [] ∧
        (fresh.pushAll (torn.wireWith f.checksum)).2.filterMap Progress.discard? = [.checksum]) := by
  intro torn
  have hsum := (Frame.checksum_ne hburst hne).symm
  refine ⟨hsum, fun hid => ?_⟩
  have hid' : torn.id.Valid := hid
  obtain ⟨stats, first, rest, hall, hframe, hdiscard, hnone, honly⟩ :=
    pushAll_wireWith (d := fresh) rfl hid' hsum
  -- A decoder between frames has nothing that the header could discard.
  have hfirst : first.filterMap Progress.discard? = [] := List.eq_nil_of_length_eq_zero hdiscard
  have hfeed : (fresh.feed (torn.wireWith f.checksum)).2 = [] := by
    rw [feed_eq_pushAll, hall, List.filterMap_append, hframe, hnone, List.append_nil]
  have hdiscards : (fresh.pushAll (torn.wireWith f.checksum)).2.filterMap Progress.discard? =
      [.checksum] := by
    rw [hall, List.filterMap_append, hfirst, honly, List.nil_append]
  rw [Frame.wireWith_checksum, Frame.wireWith_checksum]
  refine ⟨Frame.encode_eq_wire hid, Frame.encode_eq_wire hid', ?_, hfeed, hdiscards⟩
  rw [decodeFrame, firstFrame_eq_error .incomplete hfeed, hdiscards, hall]
  rfl

/-- A data frame of six bytes. -/
def unbroken : Frame := ⟨.data 5, 1, ⟨[1, 2, marker, 3, 4, 5], by decide⟩⟩

/-- Its payload when the second byte, the fourth and the fifth have become marker bytes. -/
def markedBurst : Payload := ⟨[1, marker, marker, marker, marker, 5], by decide⟩

/-- Two stuff bytes stand in the payload that was changed, and none in the one that was sent. -/
theorem bursts_detected_markedBurst :
    unbroken.id.Valid ∧ markedBurst ≠ unbroken.payload ∧
      ({ unbroken with payload := markedBurst } : Frame).checksum ≠ unbroken.checksum ∧
      decodeFrame (({ unbroken with payload := markedBurst } : Frame).wireWith
        unbroken.checksum) = .error (.discarded .checksum) := by
  have hid : unbroken.id.Valid := FrameId.valid_data.mpr (by decide)
  have hne : markedBurst ≠ unbroken.payload := by decide
  have hburst : Crc32.Burst unbroken.payload.bytes markedBurst.bytes :=
    @Crc32.burst_append [1] [5] [2, marker, 3, 4] [marker, marker, marker, marker] rfl (by decide)
  obtain ⟨hsum, hread⟩ := bursts_detected hburst hne
  exact ⟨hid, hne, hsum, (hread hid).2.2.1⟩

end Decoder

end SerialLink
