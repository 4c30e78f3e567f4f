import SerialLink.Frame.Wire

/-!
# What the writer writes

Encoding a frame with a valid identifier always succeeds, and gives `Frame.wire`: the writer's own
count of marker bytes agrees with the one of `Stuffing.stuff`, and the largest frame fits the
buffer.

From here on `encode` and the `FrameWriter` behind it need not be looked at again. A frame that is
`Valid` is encoded as its `wire` (`encode_eq_wire`), one that is not has no encoding
(`valid_of_encode`), and the decoder, the sinks and the bounds on lengths are about `wire`.
`Proofs.Frame.Buffer` comes back to the writer for buffers of other sizes.
-/

namespace SerialLink

/-! ## The writer and the stuffed form -/

namespace FrameWriter

theorem out_foldl_plain (w : FrameWriter) (bytes : List UInt8) :
    bytes.foldl plain w = { w with out := w.out.putAll bytes } := by
  induction bytes generalizing w with
  | nil => rfl
  | cons b rest ih =>
    rw [List.foldl_cons, ih]
    rfl

/-- Writing a body with `stuffed` puts its `stuffFrom` into the buffer, for the run that the writer
has counted. -/
theorem out_foldl_stuffed (w : FrameWriter) (bytes : List UInt8) :
    (bytes.foldl stuffed w).out = w.out.putAll (Stuffing.stuffFrom w.run bytes) := by
  induction bytes generalizing w with
  | nil => rfl
  | cons b rest ih =>
    rw [List.foldl_cons, ih]
    by_cases hb : b = marker
    · by_cases hrun : w.run = 1
      · simp [stuffed, Stuffing.stuffFrom, hb, hrun]
      · simp [stuffed, Stuffing.stuffFrom, hb, hrun]
    · simp [stuffed, Stuffing.stuffFrom, hb]

/-- The writer puts the whole `wire` of a frame into its buffer. -/
theorem out_frame (w : FrameWriter) (f : Frame) (hrun : w.run = 0) :
    (w.frame f).out = w.out.putAll f.wire := by
  simp only [frame, out_foldl_plain, plain, out_foldl_stuffed, hrun]
  rw [Frame.wire, OutBuffer.putAll_append, OutBuffer.putAll_append]
  rfl

end FrameWriter

/-! ## Sizes -/

namespace Stuffing

/-- At most every second byte is followed by a `stuffByte`. -/
theorem length_stuffFrom_le {run : Nat} (hrun : run ≤ 1) (bytes : List UInt8) :
    (stuffFrom run bytes).length ≤ bytes.length + (bytes.length + run) / 2 := by
  induction bytes generalizing run with
  | nil => simp [stuffFrom]
  | cons b rest ih =>
    have h₀ := ih (Nat.zero_le 1)
    have h₁ := ih (Nat.le_refl 1)
    -- A pair makes up for its stuff byte, since the run is back at zero behind it.
    unfold stuffFrom
    split
    · split
      · next h =>
        simp only [List.length_cons, h]
        omega
      · next h =>
        have hzero : run = 0 := by omega
        subst hzero
        simp only [List.length_cons, Nat.zero_add]
        omega
    · simp only [List.length_cons]
      omega

end Stuffing

namespace Frame

theorem length_body_le (f : Frame) : f.body.length ≤ maxBodyLength := by
  have hseq : f.seqBytes.length ≤ 1 := by
    unfold seqBytes
    split <;> simp
  have hpayload := f.payload.length_le
  simp only [body, covered, bigEndian, maxBodyLength, Payload.maxLength, checksumLength,
    List.length_append, List.length_cons, List.length_nil]
  omega

theorem length_wire_le (f : Frame) : f.wire.length ≤ maxWireLength := by
  have hbody := f.length_body_le
  have hstuff := Stuffing.length_stuffFrom_le (Nat.zero_le 1) f.body
  simp only [wire, Stuffing.stuff, maxWireLength, List.length_append, List.length_replicate,
    List.length_singleton]
  omega

/-! ## Encoding -/

/-- **A frame with a valid identifier is encoded as its `wire`.** -/
theorem encode_eq_wire {f : Frame} (h : f.id.Valid) : f.encode = .ok f.wire := by
  have hfit := f.length_wire_le
  have hout : ((⟨.ofList (List.replicate maxWireLength 0), 0⟩ : FrameWriter).frame f).out =
      ⟨f.wire, List.replicate (maxWireLength - f.wire.length) 0, false⟩ := by
    rw [FrameWriter.out_frame _ f rfl, OutBuffer.putAll_eq]
    have htake : f.wire.take maxWireLength = f.wire := List.take_of_length_le hfit
    simp only [OutBuffer.ofList, List.length_replicate, htake, List.drop_replicate,
      List.nil_append, Bool.false_or, decide_eq_false (Nat.not_lt.mpr hfit)]
  simp [encode, encodeInto, h, hout, OutBuffer.contents]

/-- `encode` makes nothing of a frame whose identifier is not `Valid`. -/
theorem valid_of_encode {f : Frame} {bytes : List UInt8} (h : f.encode = .ok bytes) :
    f.id.Valid := by
  by_cases hid : f.id.Valid
  · exact hid
  · simp [encode, encodeInto, hid] at h

theorem eq_wire_of_encode {f : Frame} {bytes : List UInt8} (h : f.encode = .ok bytes) :
    bytes = f.wire := by
  rw [encode_eq_wire (valid_of_encode h)] at h
  exact (Except.ok.inj h).symm

end Frame

end SerialLink
