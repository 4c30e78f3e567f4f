import SerialLink.Proofs.Decoder.Joining

/-!
# Encodings as a code

What the writer makes of a body holds no header and can be taken apart again. So a decoder that is
given an encoding has read the frame when the encoding ends, whatever comes behind it; and of two
encodings one begins with the other only if the same frame is read from both.

The proof of the latter is by the decoder and not by the layout: `Decoder.feed_wires` gives one
frame for each of the two encodings, and the longer one cannot yield a second. What is read is
`readBack`, the frame without a sequence number that is not sent; `readBack_eq_iff` says it by
fields. Freedom from headers is `headerless_stuffFrom`, from `Proofs.Decoder.Joining`, and taking
stuff bytes out again is `Stuffing.unstuff_stuff`.
-/

namespace SerialLink

namespace Frame

variable {f g : Frame}

/-! ## Frames that are read back as the same one -/

/-- Two frames have the same `readBack` if they agree in all that is sent: the sequence number
counts only where `hasSeq` says so. -/
theorem readBack_eq_iff :
    f.readBack = g.readBack ↔
      f.id = g.id ∧ f.payload = g.payload ∧ (f.id.hasSeq = true → f.seq = g.seq) := by
  rw [Frame.ext_iff]
  unfold readBack
  constructor
  · rintro ⟨hid, hseq, hpayload⟩
    refine ⟨hid, hpayload, fun hsent => ?_⟩
    dsimp only at hid hseq
    rwa [← hid, if_pos hsent, if_pos hsent] at hseq
  · rintro ⟨hid, hpayload, hseq⟩
    refine ⟨hid, ?_, hpayload⟩
    dsimp only
    rw [← hid]
    split
    · next hsent => exact hseq hsent
    · rfl

theorem wire_readBack (f : Frame) : f.readBack.wire = f.wire := by
  rw [wire, wire, body, body, covered_readBack, checksum_readBack]

theorem wire_congr (h : f.readBack = g.readBack) : f.wire = g.wire := by
  rw [← wire_readBack f, h, wire_readBack]

/-! ## Prefixes -/

/-- **An encoding begins with no other one**, but for that of a frame with the same `readBack`. -/
theorem wire_prefix_iff (hf : f.id.Valid) (hg : g.id.Valid) :
    f.wire <+: g.wire ↔ f.readBack = g.readBack := by
  constructor
  · rintro ⟨behind, hwire⟩
    -- A fresh decoder makes one frame of an encoding.
    have hread : ∀ h : Frame, h.id.Valid → (Decoder.fresh.feed h.wire).2 = [h.readBack] := by
      intro h hid
      have hwires : (Decoder.fresh.feed ([h].flatMap wire)).2 = [h].map readBack := by
        apply Decoder.feed_wires rfl
        simpa using hid
      simpa using hwires
    -- The decoder has read one frame where the first encoding ends, and there is no other one.
    have hboth := hread g hg
    rw [← hwire, Decoder.feed_append, hread f hf] at hboth
    exact (List.cons.inj hboth).1
  · exact fun h => (wire_congr h) ▸ List.prefix_rfl

/-! ## The code -/

/-- **Stuffing makes a prefix code of the frames.** Whatever bytes the writer stuffs, there is no
header in what it writes, nor does the end byte behind them make one; and they are given back by a
reader that takes out what stands behind two marker bytes. The encoding of a frame is the beginning
of another one only if the frames are the same, but for a sequence number that is not sent, and then
the encodings are the same. -/
theorem stuffing_prefix_code :
    (∀ bytes : List UInt8,
      (∀ out, (bytes.foldl FrameWriter.stuffed ⟨out, 0⟩).out = out.putAll (Stuffing.stuff bytes)) ∧
        (¬ List.replicate headerLength marker <:+: Stuffing.stuff bytes) ∧
        (¬ List.replicate headerLength marker <:+: Stuffing.stuff bytes ++ [endByte]) ∧
        Stuffing.unstuff (Stuffing.stuff bytes) = bytes) ∧
      ∀ f g : Frame, f.id.Valid → g.id.Valid → ∃ wf wg,
        f.encode = .ok wf ∧ g.encode = .ok wg ∧
          (wf <+: wg ↔ f.id = g.id ∧ f.payload = g.payload ∧
            (f.id.hasSeq = true → f.seq = g.seq)) ∧
          (wf <+: wg → wf = wg) := by
  constructor
  · intro bytes
    have hbehind : ¬ List.replicate headerLength marker <:+: Stuffing.stuff bytes ++ [endByte] :=
      (headerless_iff _).mp (headerless_stuffFrom (Nat.zero_le 1) bytes)
    refine ⟨fun out => FrameWriter.out_foldl_stuffed ⟨out, 0⟩ bytes, ?_, hbehind,
      Stuffing.unstuff_stuff bytes⟩
    exact fun hin => hbehind (hin.trans (List.prefix_append ..).isInfix)
  · intro f g hf hg
    refine ⟨f.wire, g.wire, encode_eq_wire hf, encode_eq_wire hg, ?_, ?_⟩
    · rw [wire_prefix_iff hf hg]
      exact readBack_eq_iff
    · exact fun hbegins => wire_congr ((wire_prefix_iff hf hg).mp hbegins)

/-- An application frame whose payload is a pair of marker bytes. -/
def pairOnly (seq : UInt8) : Frame := ⟨.app 2, seq, ⟨[marker, marker], by decide⟩⟩

/-- The same with a payload byte that looks like the stuff byte behind the pair. -/
def pairAndStuff : Frame := ⟨.app 2, 0, ⟨[marker, marker, stuffByte], by decide⟩⟩

theorem stuffing_prefix_code_pairs :
    Stuffing.unstuff (Stuffing.stuff pairAndStuff.payload.bytes) =
        [marker, marker, stuffByte] ∧
      (pairOnly 0).id.Valid ∧ pairAndStuff.id.Valid ∧
      (∃ wf wg, (pairOnly 3).encode = .ok wf ∧ (pairOnly 9).encode = .ok wg ∧ wf = wg) ∧
      ∃ wf wg, (pairOnly 0).encode = .ok wf ∧ pairAndStuff.encode = .ok wg ∧ ¬ wf <+: wg := by
  have hid : FrameId.Valid (.app 2) := FrameId.valid_app.mpr (by decide)
  obtain ⟨hbytes, hcode⟩ := stuffing_prefix_code
  refine ⟨(hbytes _).2.2.2, hid, hid, ?_, ?_⟩
  · obtain ⟨wf, wg, hf, hg, hiff, heq⟩ := hcode (pairOnly 3) (pairOnly 9) hid hid
    exact ⟨wf, wg, hf, hg, heq (hiff.mpr ⟨rfl, rfl, by decide⟩)⟩
  · obtain ⟨wf, wg, hf, hg, hiff, -⟩ := hcode (pairOnly 0) pairAndStuff hid hid
    refine ⟨wf, wg, hf, hg, fun hbegins => ?_⟩
    exact absurd (hiff.mp hbegins).2.1 (by decide)

end Frame

end SerialLink
