import SerialLink.Proofs.Decoder.RoundTrip

/-!
# What a decoder accepts

A decoder that completes a frame has just been given the encoding of that frame, byte for byte:
whatever else came before, no other bytes complete a frame. Behind each phase stand the body bytes
that lead to it, and a decoder inside a frame has seen exactly their stuffed form since the last
header.

The invariant has two layers. `Phase.Follows` relates a phase to the body bytes that lead to it, one
constructor for each phase, and `Follows.accept` is its step lemma. `Saw` relates a decoder to all
bytes that it was given, and `Saw.push` is its step lemma; from it `Saw.pushAll` and `Saw.mem_feed`
follow by induction on the bytes. `Within` is the part of `Saw` behind a header.
`Proofs.Decoder.Joining` and `Proofs.Decoder.Changed` reuse both layers for streams that were cut or
damaged, and `Proofs.Decoder.Bounded` for the length of a frame.
-/

namespace SerialLink

/-! ## The parts of a frame -/

/-- Every byte that is not reserved is the identifier byte of what it is read as: `toByte` undoes
`ofByte?`. -/
theorem FrameId.toByte_of_ofByte? {b : UInt8} {id : FrameId} (h : ofByte? b = some id) :
    id.Valid ∧ id.toByte = b := by
  have hmask : b &&& maxAppId ≤ maxAppId := by
    rw [UInt8.le_iff_toNat_le, UInt8.toNat_and]
    exact Nat.and_le_right
  -- A byte without the reserved bit is one flag and an identifier.
  have hparts : ∀ n < 256, UInt8.ofNat n &&& reservedBit = 0 →
      UInt8.ofNat n = (UInt8.ofNat n &&& sequencedBit) ||| (UInt8.ofNat n &&& maxAppId) ∧
        (UInt8.ofNat n &&& sequencedBit = 0 ∨ UInt8.ofNat n &&& sequencedBit = sequencedBit) := by
    decide +kernel
  have hbyte := hparts b.toNat b.toNat_lt
  rw [UInt8.ofNat_toNat] at hbyte
  unfold ofByte? at h
  split at h
  · next hack =>
    obtain rfl := Option.some.inj h
    exact ⟨valid_ack, hack.symm⟩
  · split at h
    · next hreset =>
      obtain rfl := Option.some.inj h
      exact ⟨valid_reset, hreset.symm⟩
    · split at h
      · exact absurd h (by simp)
      · next hreserved =>
        obtain ⟨hb, hflag⟩ := hbyte (Decidable.not_not.mp hreserved)
        split at h
        · next hsequenced =>
          obtain rfl := Option.some.inj h
          refine ⟨valid_data.mpr hmask, ?_⟩
          rw [hflag.resolve_left hsequenced] at hb
          simp only [toByte, UInt8.and_assoc, UInt8.and_self]
          exact hb.symm
        · next happ =>
          obtain rfl := Option.some.inj h
          rw [Decidable.not_not.mp happ, UInt8.zero_or] at hb
          exact ⟨valid_app.mpr (hb ▸ hmask), hb.symm⟩

namespace Frame

/-- A frame of which the wire tells all: its identifier is `Valid`, and it has no number where none
is sent. It is its own `readBack`. -/
def Plain (f : Frame) : Prop := f.id.Valid ∧ ∀ a, f.id = .app a → f.seq = 0

theorem Plain.readBack {f : Frame} (h : f.Plain) : f.readBack = f := by
  obtain ⟨id, seq, payload⟩ := f
  cases id with
  | app a => exact Frame.ext rfl (h.2 a rfl).symm rfl
  | data | ack | reset => rfl

/-- Shifting a byte into a word moves its other bytes up. -/
theorem bigEndian_append (v : UInt32) (b : UInt8) :
    bigEndian ((v <<< 8) ||| b.toUInt32) = (bigEndian v).drop 1 ++ [b] := by
  -- The highest byte of the word is lost, and the others move up.
  have hshift : (v <<< 8).toNat = (v.toNat % 2 ^ 24) <<< 8 := by
    have height : (8 : UInt32).toNat % 32 = 8 := rfl
    rw [UInt32.toNat_shiftLeft, height, Nat.shiftLeft_eq, Nat.shiftLeft_eq]
    omega
  have hword : ((v <<< 8) ||| b.toUInt32).toNat = v.toNat % 2 ^ 24 * 2 ^ 8 + b.toNat := by
    rw [UInt32.toNat_or, UInt8.toNat_toUInt32, hshift,
      ← Nat.shiftLeft_add_eq_or_of_lt b.toNat_lt, Nat.shiftLeft_eq]
  have hb := b.toNat_lt
  simp only [bigEndian, List.drop_succ_cons, List.drop_zero, List.cons_append, List.nil_append,
    List.cons.injEq, and_true]
  refine ⟨?_, ?_, ?_, ?_⟩ <;> apply UInt8.toNat_inj.mp
  · simp [UInt32.toNat_shiftRight, Nat.shiftRight_eq_div_pow, hword]
    omega
  · simp [UInt32.toNat_shiftRight, Nat.shiftRight_eq_div_pow, hword]
    omega
  · simp [UInt32.toNat_shiftRight, Nat.shiftRight_eq_div_pow, hword]
    omega
  · rw [UInt32.toNat_toUInt8, hword]
    omega

end Frame

namespace Phase

/-- The phase of a receiver that was given just these body bytes since `awaitingId`. -/
inductive Follows : Phase → List UInt8 → Prop where
  | awaitingId : Follows .awaitingId []
  | awaitingSeq {id : FrameId} (hid : id.Valid) (hseq : id.hasSeq) :
      Follows (.awaitingSeq id) [id.toByte]
  | awaitingLength {f : Frame} (hplain : f.Plain) :
      Follows (.awaitingLength f.id f.seq) (f.id.toByte :: f.seqBytes)
  | readingPayload {f : Frame} {length remaining : UInt8} (hplain : f.Plain)
      (hlength : length.toNat = f.payload.length + remaining.toNat) (hpos : remaining ≠ 0) :
      Follows (.readingPayload f.id f.seq remaining f.payload)
        (f.id.toByte :: (f.seqBytes ++ length :: f.payload.bytes))
  | readingChecksum {f : Frame} {count : Nat} {value : UInt32} (hplain : f.Plain)
      (hcount : count < Frame.checksumLength) :
      Follows (.readingChecksum f count value)
        (f.covered ++ (Frame.bigEndian value).drop (Frame.checksumLength - count))
  | awaitingEnd {f : Frame} (hplain : f.Plain) : Follows (.awaitingEnd f) f.body

namespace Follows

variable {phase : Phase} {part : List UInt8}

theorem ne_searching (h : phase.Follows part) : phase ≠ .searching := by
  rintro rfl
  cases h

theorem afterId {id : FrameId} (hid : id.Valid) : (afterId id).Follows [id.toByte] := by
  unfold Phase.afterId
  cases hseq : id.hasSeq with
  | true => exact .awaitingSeq hid hseq
  | false =>
    have hbytes : (⟨id, 0, .empty⟩ : Frame).seqBytes = [] := by simp [Frame.seqBytes, hseq]
    have h := awaitingLength (f := ⟨id, 0, .empty⟩) ⟨hid, fun _ _ => rfl⟩
    rw [hbytes] at h
    exact h

/-- The phase `expectPayload` follows the bytes received so far: behind its last byte a payload has
the length that was announced. -/
theorem expectPayload {f : Frame} {length remaining : UInt8} (hplain : f.Plain)
    (hlength : length.toNat = f.payload.length + remaining.toNat) :
    (expectPayload f.id f.seq remaining f.payload).Follows
      (f.id.toByte :: (f.seqBytes ++ length :: f.payload.bytes)) := by
  unfold Phase.expectPayload
  split
  · next hzero =>
    have hbyte : length = f.payload.lengthByte := by
      apply UInt8.toNat_inj.mp
      have hlt := length.toNat_lt
      rw [hzero] at hlength
      simp only [UInt8.toNat_zero] at hlength
      simp only [Payload.lengthByte, Nat.toUInt8_eq, UInt8.toNat_ofNat']
      omega
    have h : Follows (.readingChecksum f 0 0) _ := readingChecksum hplain (by decide)
    simpa [Frame.covered, hbyte, Frame.bigEndian, Frame.checksumLength] using h
  · next hpos => exact .readingPayload hplain hlength hpos

/-- **What one more byte does inside a frame.** It is taken, or it is the end byte behind a whole
body, or the frame is discarded. -/
theorem accept (h : phase.Follows part) (b : UInt8) :
    (∃ next, phase.accept b = (next, .pending) ∧ next.Follows (part ++ [b])) ∨
      (∃ f : Frame, phase.accept b = (.searching, .frame f) ∧ f.Plain ∧ part = f.body ∧
        b = endByte) ∨
      ∃ reason, phase.accept b = (.searching, .discarded reason) := by
  cases h with
  | awaitingId =>
    cases hid : FrameId.ofByte? b with
    | none => exact .inr (.inr ⟨.id, by simp only [Phase.accept, hid]⟩)
    | some id =>
      obtain ⟨hvalid, hbyte⟩ := FrameId.toByte_of_ofByte? hid
      refine .inl ⟨Phase.afterId id, by simp only [Phase.accept, hid], ?_⟩
      rw [← hbyte]
      exact afterId hvalid
  | @awaitingSeq id hid hseq =>
    have hplain : (⟨id, b, .empty⟩ : Frame).Plain :=
      ⟨hid, fun a (ha : id = .app a) => by simp [ha, FrameId.hasSeq] at hseq⟩
    refine .inl ⟨_, rfl, ?_⟩
    have h := awaitingLength hplain
    rwa [Frame.seqBytes, if_pos hseq] at h
  | @awaitingLength f hplain =>
    refine .inl ⟨Phase.expectPayload f.id f.seq b .empty,
      by simp only [Phase.accept, if_neg (Payload.not_maxLength_lt b)], ?_⟩
    exact expectPayload (f := ⟨f.id, f.seq, .empty⟩) hplain (by simp [Payload.length])
  | @readingPayload f length remaining hplain hlength hpos =>
    -- Received and missing bytes together stay what was announced.
    cases hpush : f.payload.push? b with
    | none => exact .inr (.inr ⟨.length, by simp only [Phase.accept, hpush]⟩)
    | some received =>
      have hbytes := Payload.push?_eq_some_iff.mp hpush
      refine .inl ⟨Phase.expectPayload f.id f.seq (remaining - 1) received,
        by simp only [Phase.accept, hpush], ?_⟩
      have hlength' : length.toNat = received.length + (remaining - 1).toNat := by
        have hlen := congrArg List.length hbytes
        have hpos' : remaining.toNat ≠ 0 := fun h => hpos (UInt8.toNat_inj.mp h)
        have hsub : (remaining - 1).toNat = remaining.toNat - 1 :=
          UInt8.toNat_sub_of_le _ _ (UInt8.le_iff_toNat_le.mpr (by simp; omega))
        simp only [List.length_append, List.length_singleton] at hlen
        simp only [Payload.length] at hlength ⊢
        omega
      have h := expectPayload (f := ⟨f.id, f.seq, received⟩) hplain hlength'
      simpa [hbytes, Frame.seqBytes] using h
  | @readingChecksum f count value hplain hcount =>
    -- The value holds the last `count` bytes, and one more when `b` is shifted in.
    have hbytes : f.covered ++ (Frame.bigEndian value).drop (Frame.checksumLength - count) ++ [b] =
        f.covered ++ (Frame.bigEndian ((value <<< 8) ||| b.toUInt32)).drop
          (Frame.checksumLength - (count + 1)) := by
      have hdrop : 1 + (Frame.checksumLength - (count + 1)) = Frame.checksumLength - count := by
        omega
      rw [Frame.bigEndian_append, List.drop_append_of_le_length, List.drop_drop, hdrop,
        List.append_assoc]
      simp only [Frame.bigEndian, Frame.checksumLength, List.length_drop, List.length_cons,
        List.length_nil]
      omega
    rw [hbytes]
    by_cases hmore : count + 1 < Frame.checksumLength
    · exact .inl ⟨_, by simp only [Phase.accept, if_pos hmore], .readingChecksum hplain hmore⟩
    · by_cases hsum : f.checksum = (value <<< 8) ||| b.toUInt32
      · refine .inl ⟨.awaitingEnd f, by simp only [Phase.accept, if_neg hmore, if_pos hsum], ?_⟩
        have hlast : Frame.checksumLength - (count + 1) = 0 := by omega
        rw [hlast, List.drop_zero, ← hsum]
        exact .awaitingEnd hplain
      · exact .inr (.inr ⟨.checksum, by simp only [Phase.accept, if_neg hmore, if_neg hsum]⟩)
  | @awaitingEnd f hplain =>
    by_cases hend : b = endByte
    · exact .inr (.inl ⟨f, by simp only [Phase.accept, if_pos hend], hplain, rfl, hend⟩)
    · exact .inr (.inr ⟨.endByte, by simp only [Phase.accept, if_neg hend]⟩)

end Follows

end Phase

/-! ## What a decoder has seen -/

namespace Decoder

open Stuffing

variable {d : Decoder} {lead seen : List UInt8}

/-- Behind `lead`, a decoder has seen the stuffed form of just the body bytes that its phase
`Follows`. Behind the second marker byte of a run the stuff byte is still missing. -/
def Within (d : Decoder) (lead seen : List UInt8) : Prop :=
  ∃ part, d.phase.Follows part ∧
    seen ++ (if d.run = 2 then [stuffByte] else []) = lead ++ stuff part ∧
    runAfter 0 part = d.run % 2

/-- `Decoder.take` on a byte inside a frame: it joins the body, ends it or discards it. -/
theorem Within.take (h : d.Within lead seen) (hrun : d.run < 2) (b : UInt8) :
    ((d.take b).2 = .pending ∧ (d.take b).1.Within lead (seen ++ [b])) ∨
      (∃ f : Frame, (d.take b).2 = .frame f ∧ (d.take b).1.phase = .searching ∧ f.Plain ∧
        seen ++ [b] = lead ++ stuff f.body ++ [endByte]) ∨
      ∃ reason, (d.take b).2 = .discarded reason ∧ (d.take b).1.phase = .searching := by
  obtain ⟨part, hpart, hseen, hafter⟩ := h
  rw [if_neg (by omega), List.append_nil] at hseen
  rw [Nat.mod_eq_of_lt hrun] at hafter
  rcases hpart.accept b with
    ⟨next, haccept, hnext⟩ | ⟨f, haccept, hplain, hbody, hend⟩ | ⟨reason, haccept⟩
  · refine .inl ⟨by rw [Decoder.take, haccept], part ++ [b], by rwa [Decoder.take, haccept], ?_⟩
    rw [hseen, stuff, stuff, stuffFrom_append, runAfter_append, hafter]
    simp only [Decoder.take]
    -- The second marker byte of a run is the one behind which the stuff byte is missing.
    by_cases hb : b = marker
    · by_cases hone : d.run = 1
      · simp [stuffFrom, runAfter, hb, hone]
      · have hzero : d.run = 0 := by omega
        simp [stuffFrom, runAfter, hb, hzero]
    · simp [stuffFrom, runAfter, hb]
  · refine .inr (.inl ⟨f, by rw [Decoder.take, haccept], by rw [Decoder.take, haccept], hplain, ?_⟩)
    rw [hseen, hend, hbody]
  · exact .inr (.inr ⟨reason, by rw [Decoder.take, haccept], by rw [Decoder.take, haccept]⟩)

/-- What a decoder knows of the bytes it was given: the marker bytes at their end and, inside a
frame, a header and the stuffed form of the body bytes that led to its phase. Behind the second
marker byte of a run the stuff byte is still missing. -/
structure Saw (d : Decoder) (seen : List UInt8) : Prop where
  run_le : d.run ≤ 2
  markers : List.replicate d.run marker <:+ seen
  body : d.phase ≠ .searching → ∃ before part, d.phase.Follows part ∧
    seen ++ (if d.run = 2 then [stuffByte] else []) =
      before ++ List.replicate Frame.headerLength marker ++ stuff part ∧
    runAfter 0 part = d.run % 2

/-- A decoder between frames without an open run knows nothing. -/
theorem saw_of_searching (hphase : d.phase = .searching) (hrun : d.run = 0) (seen : List UInt8) :
    d.Saw seen where
  run_le := by omega
  markers := by simp [hrun]
  body := fun h => absurd hphase h

namespace Saw

/-- What is counted does not matter to `Saw`. -/
theorem count (h : d.Saw seen) (p : Progress) : (d.count p).Saw seen := by
  cases p <;> exact ⟨h.run_le, h.markers, h.body⟩

/-- `Decoder.take` keeps `Saw`, and completes only a frame that was just seen. -/
theorem take (h : d.Saw seen) (hrun : d.run ≠ 2) (b : UInt8) :
    (d.take b).1.Saw (seen ++ [b]) ∧
      ∀ f, (d.take b).2 = .frame f → f.Plain ∧ f.wire <:+ seen ++ [b] := by
  have hle := h.run_le
  have hrun' : (d.take b).1.run ≤ 2 := by
    simp only [Decoder.take]
    split <;> omega
  have hmarkers : List.replicate (d.take b).1.run marker <:+ seen ++ [b] := by
    simp only [Decoder.take]
    split
    · next hb =>
      obtain ⟨before, hbefore⟩ := h.markers
      exact ⟨before, by rw [hb, List.replicate_succ', ← hbefore, List.append_assoc]⟩
    · exact List.nil_suffix
  have hout : (d.take b).1.phase = .searching → (d.take b).1.Saw (seen ++ [b]) :=
    fun hnext => ⟨hrun', hmarkers, fun hne => absurd hnext hne⟩
  by_cases hphase : d.phase = .searching
  · -- Between frames no byte starts or completes one by itself.
    have hquiet : (d.take b).1.phase = .searching ∧ (d.take b).2 = .pending := by
      simp [Decoder.take, hphase, Phase.accept]
    exact ⟨hout hquiet.1, fun f hf => absurd (hquiet.2.symm.trans hf) (by simp)⟩
  · obtain ⟨before, part, hpart⟩ := h.body hphase
    rcases Within.take ⟨part, hpart⟩ (by omega) b with
      ⟨hpending, hnext⟩ | ⟨f, hframe, hnext, hplain, hseen⟩ | ⟨reason, hdiscard, hnext⟩
    · refine ⟨⟨hrun', hmarkers, fun _ => ⟨before, hnext⟩⟩, fun f hf => ?_⟩
      exact absurd (hpending.symm.trans hf) (by simp)
    · -- What was seen since the header and the header itself make up the encoding.
      refine ⟨hout hnext, fun g hg => ?_⟩
      obtain rfl := Progress.frame.inj (hframe.symm.trans hg)
      refine ⟨hplain, before, ?_⟩
      rw [hseen, Frame.wire]
      simp only [List.append_assoc]
    · exact ⟨hout hnext, fun f hf => absurd (hdiscard.symm.trans hf) (by simp)⟩

/-- `Decoder.takeAfterMarkers` keeps `Saw`: behind two marker bytes a third one completes a header,
and a stuff byte belongs to the body. -/
theorem takeAfterMarkers (h : d.Saw seen) (hrun : d.run = 2) (b : UInt8) :
    (d.takeAfterMarkers b).1.Saw (seen ++ [b]) ∧
      ∀ f, (d.takeAfterMarkers b).2 = .frame f → f.Plain ∧ f.wire <:+ seen ++ [b] := by
  unfold Decoder.takeAfterMarkers
  split
  · next hb =>
    -- The header that ends here is the one that `Saw` asks for, with nothing behind it.
    refine ⟨⟨Nat.zero_le 2, List.nil_suffix, fun _ => ?_⟩, fun f hf => ?_⟩
    · obtain ⟨before, hbefore⟩ := h.markers
      rw [hrun] at hbefore
      refine ⟨before, [], .awaitingId, ?_, rfl⟩
      simp [← hbefore, hb, Frame.headerLength, List.replicate_succ, stuff, stuffFrom]
    · dsimp only at hf
      split at hf <;> exact absurd hf (by simp)
  · split
    · next hb =>
      -- The stuff byte that was missing is there now.
      refine ⟨⟨Nat.zero_le 2, List.nil_suffix, fun hne => ?_⟩, fun f hf => absurd hf (by simp)⟩
      obtain ⟨before, part, hpart, hseen, hafter⟩ := h.body hne
      rw [if_pos hrun] at hseen
      rw [hrun] at hafter
      exact ⟨before, part, hpart, by simpa [hb] using hseen, by simpa using hafter⟩
    · split
      · exact ⟨saw_of_searching rfl rfl _, fun f hf => absurd hf (by simp)⟩
      · next hout =>
        have hphase : d.phase = .searching := by simpa [inFrame] using hout
        exact (saw_of_searching (d := { d with run := 0 }) hphase rfl seen).take (by simp) b

/-- **One byte.** `push` keeps `Saw`, and a frame that the byte completes has just been seen: its
`wire` ends with this byte. -/
theorem push (h : d.Saw seen) (b : UInt8) :
    (d.push b).1.Saw (seen ++ [b]) ∧
      ∀ f, (d.push b).2 = .frame f → f.Plain ∧ f.wire <:+ seen ++ [b] := by
  have hstep : (d.step b).1.Saw (seen ++ [b]) ∧
      ∀ f, (d.step b).2 = .frame f → f.Plain ∧ f.wire <:+ seen ++ [b] := by
    unfold step
    split
    · next hrun => exact h.takeAfterMarkers hrun b
    · next hrun => exact h.take hrun b
  exact ⟨hstep.1.count _, hstep.2⟩

theorem pushAll (h : d.Saw seen) (bytes : List UInt8) :
    (d.pushAll bytes).1.Saw (seen ++ bytes) := by
  induction bytes generalizing d seen with
  | nil => simpa [Decoder.pushAll] using h
  | cons b rest ih =>
    have hrest := ih (h.push b).1
    rwa [List.append_assoc] at hrest

/-- The encoding of a frame that `feed` reads stands among the bytes that were given. -/
theorem mem_feed {bytes : List UInt8} {f : Frame} (h : d.Saw seen) (hf : f ∈ (d.feed bytes).2) :
    f.Plain ∧ f.wire <:+: seen ++ bytes := by
  induction bytes generalizing d seen with
  | nil => simp [feed] at hf
  | cons b rest ih =>
    obtain ⟨hnext, hframe⟩ := h.push b
    have hsplit : seen ++ b :: rest = seen ++ [b] ++ rest := by simp
    rw [hsplit]
    unfold feed at hf
    rcases hpush : d.push b with ⟨d', _ | g | reason⟩
    all_goals rw [hpush] at hf hnext hframe
    · exact ih hnext hf
    · rcases List.mem_cons.mp hf with rfl | hf
      · obtain ⟨hplain, hsuffix⟩ := hframe f rfl
        exact ⟨hplain, hsuffix.isInfix.trans (List.prefix_append _ rest).isInfix⟩
      · exact ih hnext hf
    · exact ih hnext hf

end Saw

/-! ## The first frame in a window -/

theorem firstFrame_eq_ok_iff {failure : DecodeError} {window : List UInt8} {f : Frame} :
    d.firstFrame failure window = .ok f ↔ (d.feed window).2.head? = some f := by
  induction window generalizing d failure with
  | nil => simp [firstFrame, feed]
  | cons b rest ih =>
    unfold firstFrame feed
    rcases d.push b with ⟨d', _ | g | reason⟩
    · exact ih
    · simp
    · exact ih

/-- `feed` can be split at the byte that completes the first frame: up to it none is completed. -/
theorem exists_split_of_feed {window : List UInt8} {f : Frame} {others : List Frame}
    (h : (d.feed window).2 = f :: others) :
    ∃ before b after, window = before ++ b :: after ∧ (d.feed before).2 = [] ∧
      ((d.pushAll before).1.push b).2 = .frame f := by
  induction window generalizing d with
  | nil => exact absurd h (by simp [feed])
  | cons b rest ih =>
    -- A byte that completes no frame is put in front of the split of the rest.
    have hskip : ∀ d' p, d.push b = (d', p) → p.frame? = none → (d'.feed rest).2 = f :: others →
        ∃ before c after, b :: rest = before ++ c :: after ∧ (d.feed before).2 = [] ∧
          ((d.pushAll before).1.push c).2 = .frame f := by
      intro d' p hpush hp hrest
      obtain ⟨before, c, after, hsplit, hnone, hframe⟩ := ih hrest
      refine ⟨b :: before, c, after, by rw [hsplit]; rfl, ?_, ?_⟩
      · rw [feed_eq_pushAll] at hnone ⊢
        simpa [pushAll, hpush, hp] using hnone
      · simpa [pushAll, hpush] using hframe
    unfold feed at h
    rcases hpush : d.push b with ⟨d', _ | g | reason⟩
    · rw [hpush] at h
      exact hskip d' _ hpush rfl h
    · rw [hpush] at h
      obtain ⟨rfl, -⟩ := List.cons.inj h
      exact ⟨[], b, rest, rfl, rfl, by simp [pushAll, hpush]⟩
    · rw [hpush] at h
      exact hskip d' _ hpush rfl h

/-! ## Acceptance -/

/-- The encoding of a `Plain` frame gives that frame and nothing else. -/
theorem feed_wire {f : Frame} (hrun : d.run = 0) (h : f.Plain) : (d.feed f.wire).2 = [f] := by
  have hid : ∀ g ∈ [f], g.id.Valid := by simpa using h.1
  have hstream := feed_stream hrun (by simp) hid
  simpa [h.readBack] using hstream

/-- **A decoder accepts exactly what the encoder writes.** If a byte completes a frame, the bytes
given since the decoder was new or reset end with the encoding of this frame; and the first frame
found in a window is encoded as the bytes that it was read from. -/
theorem accepts_exactly_encodings (hd : d = .fresh ∨ ∃ e : Decoder, d = e.reset) :
    (∀ (bytes : List UInt8) (last : UInt8) (f : Frame),
      ((d.pushAll bytes).1.push last).2 = .frame f →
        f.id.Valid ∧ (∀ a, f.id = .app a → f.seq = 0) ∧
          ∃ wire, f.encode = .ok wire ∧ wire <:+ bytes ++ [last]) ∧
    (∀ (window : List UInt8) (f : Frame), decodeFrame window = .ok f →
      ∃ before wire after, f.encode = .ok wire ∧ window = before ++ wire ++ after ∧
        (fresh.feed window).2.head? = some f ∧ (fresh.feed (before ++ wire)).2 = [f]) ∧
    ∀ f : Frame, f.id.Valid → (∀ a, f.id = .app a → f.seq = 0) →
      ∃ wire, f.encode = .ok wire ∧ (d.feed wire).2 = [f] ∧ decodeFrame wire = .ok f := by
  have hstart : d.phase = .searching ∧ d.run = 0 := by
    rcases hd with rfl | ⟨e, rfl⟩ <;> exact ⟨rfl, rfl⟩
  refine ⟨?_, ?_, ?_⟩
  · intro bytes last f hf
    have hsaw := (saw_of_searching hstart.1 hstart.2 []).pushAll bytes
    obtain ⟨hplain, hsuffix⟩ := (hsaw.push last).2 f hf
    exact ⟨hplain.1, hplain.2, f.wire, Frame.encode_eq_wire hplain.1, hsuffix⟩
  · intro window f hf
    have hhead := firstFrame_eq_ok_iff.mp hf
    obtain ⟨others, hfeed⟩ := List.head?_eq_some_iff.mp hhead
    obtain ⟨before, b, after, hsplit, hnone, hframe⟩ := exists_split_of_feed hfeed
    -- The byte that completes the frame is the last one of its encoding.
    have hsaw := (saw_of_searching (d := fresh) rfl rfl []).pushAll before
    obtain ⟨hplain, front, hfront⟩ := (hsaw.push b).2 f hframe
    rw [List.nil_append] at hfront
    refine ⟨front, f.wire, after, Frame.encode_eq_wire hplain.1, ?_, hhead, ?_⟩
    · rw [hsplit, hfront, List.append_assoc]
      rfl
    · rw [hfront, feed_append, hnone, feed_eq_pushAll, feed_eq_pushAll]
      simp [pushAll, hframe, Progress.frame?]
  · intro f hid hseq
    have hplain : f.Plain := ⟨hid, hseq⟩
    refine ⟨f.wire, Frame.encode_eq_wire hid, feed_wire hstart.2 hplain, ?_⟩
    rw [decodeFrame, firstFrame_eq_ok_iff, feed_wire rfl hplain]
    rfl

/-- A frame that was cut off, and one that is whole but for its end byte. -/
def cutOff : List UInt8 :=
  [marker, marker, marker, 0x81, 7] ++ (Frame.wire ⟨.app 2, 0, .singleton marker⟩).dropLast

theorem accepts_exactly_encodings_cutOff :
    ((interrupted.reset.pushAll cutOff).1.push endByte).2 =
        .frame ⟨.app 2, 0, .singleton marker⟩ ∧
      (∃ wire, Frame.encode ⟨.app 2, 0, .singleton marker⟩ = .ok wire ∧
        wire <:+ cutOff ++ [endByte]) ∧
      decodeFrame (cutOff ++ [endByte, 0]) = .ok ⟨.app 2, 0, .singleton marker⟩ ∧
      (∃ before wire after, Frame.encode ⟨.app 2, 0, .singleton marker⟩ = .ok wire ∧
        cutOff ++ [endByte, 0] = before ++ wire ++ after ∧
        (fresh.feed (before ++ wire)).2 = [⟨.app 2, 0, .singleton marker⟩]) ∧
      (FrameId.data 1).Valid ∧
      ∃ wire, Frame.encode ⟨.data 1, 7, .empty⟩ = .ok wire ∧
        (interrupted.reset.feed wire).2 = [⟨.data 1, 7, .empty⟩] := by
  have hpush : ((interrupted.reset.pushAll cutOff).1.push endByte).2 =
      .frame ⟨.app 2, 0, .singleton marker⟩ := by decide +kernel
  have hdecode : decodeFrame (cutOff ++ [endByte, 0]) = .ok ⟨.app 2, 0, .singleton marker⟩ :=
    firstFrame_eq_ok_iff.mpr (by decide +kernel)
  have hid : (FrameId.data 1).Valid := FrameId.valid_data.mpr (by decide)
  obtain ⟨haccept, hwindow, hread⟩ :=
    accepts_exactly_encodings (d := interrupted.reset) (.inr ⟨interrupted, rfl⟩)
  obtain ⟨-, -, hsuffix⟩ := haccept _ _ _ hpush
  obtain ⟨before, wire, after, hencode, hsplit, -, hfeed⟩ := hwindow _ _ hdecode
  obtain ⟨wire', hencode', hfeed', -⟩ := hread ⟨.data 1, 7, .empty⟩ hid (by simp)
  exact ⟨hpush, hsuffix, hdecode, ⟨before, wire, after, hencode, hsplit, hfeed⟩, hid, wire',
    hencode', hfeed'⟩

end Decoder

end SerialLink
