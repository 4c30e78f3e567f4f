import SerialLink.Proofs.Frame.Wire
import SerialLink.Transmit
import Mathlib.Algebra.GroupWithZero.Nat

/-!
# Encoding into a buffer of any size

A frame with a valid identifier stands for one byte string, whose length is known before anything is
written: stuffing adds one byte for every two marker bytes of a run. A buffer with that much space
gets the whole string in front of its old contents, and a smaller one is filled with the bytes that
it has space for.

`Proofs.Frame.Wire` treats the one buffer that frames are sent from; here the buffer is any. What is
written comes from `FrameWriter.out_frame` and `OutBuffer.putAll_eq`, and is stated in
`encodeInto_eq`. The length is that of the parts, `plainLength`, and of the stuff bytes, which
`length_stuffFrom` counts by the runs of marker bytes. That no frame on its way to a sink is ever
found too large is `encode_ne_bufferTooSmall`, carried over by `encode_of_transmit`.
-/

namespace SerialLink

/-! ## The number of stuff bytes -/

namespace Stuffing

/-- The maximal runs of `marker` bytes. Between two other bytes in a row there is an empty one. -/
def markerRuns (bytes : List UInt8) : List (List UInt8) := bytes.splitOnP (· ≠ marker)

/-- The number of pairs of marker bytes, counted within each of the `markerRuns`. -/
def markerPairs (bytes : List UInt8) : Nat := ((markerRuns bytes).map (·.length / 2)).sum

/-- Any other byte ends a run. -/
theorem markerRuns_run_cons {b : UInt8} (hb : b ≠ marker) (n : Nat) (rest : List UInt8) :
    markerRuns (List.replicate n marker ++ b :: rest) =
      List.replicate n marker :: markerRuns rest := by
  apply List.splitOnP_append_cons_of_forall_mem
  · intro x hx
    simp [List.eq_of_mem_replicate hx]
  · simpa using hb

theorem markerRuns_run (n : Nat) :
    markerRuns (List.replicate n marker) = [List.replicate n marker] := by
  apply List.splitOnP_eq_singleton
  intro x hx
  simp [List.eq_of_mem_replicate hx]

theorem markerPairs_run_cons {b : UInt8} (hb : b ≠ marker) (n : Nat) (rest : List UInt8) :
    markerPairs (List.replicate n marker ++ b :: rest) = n / 2 + markerPairs rest := by
  simp [markerPairs, markerRuns_run_cons hb]

theorem markerPairs_run (n : Nat) : markerPairs (List.replicate n marker) = n / 2 := by
  simp [markerPairs, markerRuns_run]

/-- The length of `stuffFrom`: behind `n` marker bytes the run is `n % 2`, and their pairs have been
stuffed already. -/
theorem length_stuffFrom (n : Nat) (bytes : List UInt8) :
    (stuffFrom (n % 2) bytes).length + n / 2 =
      bytes.length + markerPairs (List.replicate n marker ++ bytes) := by
  -- The run that is open in front of the bytes grows with each marker byte at their head.
  induction bytes generalizing n with
  | nil => simp [stuffFrom, markerPairs_run]
  | cons b rest ih =>
    by_cases hb : b = marker
    · have hnext := ih (n + 1)
      have hrun : List.replicate n marker ++ b :: rest = List.replicate (n + 1) marker ++ rest := by
        rw [hb, List.replicate_succ', List.append_assoc]
        rfl
      rw [hrun]
      -- A stuff byte follows if this marker byte completes a pair.
      by_cases hodd : n % 2 = 1
      · have heven : (n + 1) % 2 = 0 := by omega
        rw [heven] at hnext
        rw [stuffFrom, if_pos hb, if_pos hodd]
        simp only [List.length_cons]
        omega
      · have hone : (n + 1) % 2 = n % 2 + 1 := by omega
        rw [hone] at hnext
        rw [stuffFrom, if_pos hb, if_neg hodd]
        simp only [List.length_cons]
        omega
    · have hnext : (stuffFrom 0 rest).length = rest.length + markerPairs rest := ih 0
      rw [stuffFrom, if_neg hb, markerPairs_run_cons hb]
      simp only [List.length_cons]
      omega

/-- **Stuffing adds a byte for every pair of marker bytes**, as `markerPairs` counts them. -/
theorem length_stuff (bytes : List UInt8) :
    (stuff bytes).length = bytes.length + markerPairs bytes :=
  length_stuffFrom 0 bytes

end Stuffing

/-! ## Frames in buffers -/

namespace Frame

theorem length_wire (f : Frame) :
    f.wire.length = f.plainLength + Stuffing.markerPairs f.body := by
  simp only [wire, Stuffing.length_stuff, plainLength, body, covered, bigEndian, headerLength,
    checksumLength, Payload.length, List.length_append, List.length_cons, List.length_nil,
    List.length_replicate]
  omega

/-- **What a buffer of any size gets of a frame**: all of `wire`, or as much of it as fits. -/
theorem encodeInto_eq {f : Frame} (h : f.id.Valid) (buffer : List UInt8) :
    f.encodeInto buffer =
      if f.wire.length ≤ buffer.length then
        (.ok f.wire.length, f.wire ++ buffer.drop f.wire.length)
      else (.error .bufferTooSmall, f.wire.take buffer.length) := by
  have hout : ((⟨.ofList buffer, 0⟩ : FrameWriter).frame f).out =
      ⟨f.wire.take buffer.length, buffer.drop f.wire.length,
        decide (buffer.length < f.wire.length)⟩ := by
    rw [FrameWriter.out_frame _ f rfl, OutBuffer.putAll_eq]
    rfl
  rw [encodeInto, if_pos h, hout]
  split
  · next hfit =>
    have hroom : ¬ buffer.length < f.wire.length := Nat.not_lt.mpr hfit
    simp [hroom, OutBuffer.contents, List.take_of_length_le hfit]
  · next hfit =>
    have hroom : buffer.length < f.wire.length := Nat.not_le.mp hfit
    simp [hroom, OutBuffer.contents, List.drop_eq_nil_of_le (Nat.le_of_lt hroom)]

theorem encode_eq_error {f : Frame} (h : ¬ f.id.Valid) : f.encode = .error .invalidId := by
  simp [encode, encodeInto, h]

theorem encode_ne_bufferTooSmall (f : Frame) : f.encode ≠ .error .bufferTooSmall := by
  by_cases h : f.id.Valid
  · rw [encode_eq_wire h]
    exact nofun
  · rw [encode_eq_error h]
    exact nofun

/-- `transmit` fails over a frame only where `encode` does. -/
theorem encode_of_transmit {σ ε : Type} [ByteSink σ ε] {sink : σ} {f : Frame} {e : FrameError}
    (h : (transmit sink f).1 = .error (.frame e)) : f.encode = .error e := by
  unfold transmit at h
  split at h
  · next e' hencode =>
    rw [hencode]
    simpa using h
  · next bytes hencode =>
    -- An encoding that was made fails for want of room, or at the sink.
    dsimp only at h
    split at h
    · exact absurd h (by simp)
    · unfold sendResult at h
      split at h
      · split at h <;> exact absurd h (by simp)
      · exact absurd h (by simp)

/-- **Encoding into a buffer of any size.** Behind a valid identifier stands one byte string, a
stuff byte longer than its parts for every two marker bytes of a run, and never longer than the
largest frame. A buffer gets it whole, or is filled with its first bytes and found too small; the
buffer that frames are sent from never is. An invalid identifier leaves a buffer as it was. -/
theorem encodes_into_any_buffer (f : Frame) :
    (f.id.Valid → ∃ wire : List UInt8,
      wire.length = f.plainLength +
          ((Stuffing.markerRuns f.body).map (·.length / 2)).sum ∧
        wire.length ≤ maxWireLength ∧
        (∀ buffer : List UInt8, f.encodeInto buffer =
          if wire.length ≤ buffer.length then
            (.ok wire.length, wire ++ buffer.drop wire.length)
          else (.error .bufferTooSmall, wire.take buffer.length)) ∧
        f.encode = .ok wire) ∧
      (¬ f.id.Valid → ∀ buffer : List UInt8, f.encodeInto buffer = (.error .invalidId, buffer)) ∧
      f.encode ≠ .error .bufferTooSmall ∧
      ∀ (σ ε : Type) [ByteSink σ ε] (sink : σ),
        (transmit sink f).1 ≠ .error (.frame .bufferTooSmall) := by
  refine ⟨?_, ?_, f.encode_ne_bufferTooSmall, ?_⟩
  · intro h
    exact ⟨f.wire, f.length_wire, f.length_wire_le, encodeInto_eq h, encode_eq_wire h⟩
  · intro h buffer
    rw [encodeInto, if_neg h]
  · intro σ ε _ sink hsmall
    exact f.encode_ne_bufferTooSmall (encode_of_transmit hsmall)

/-- A frame with a pair of marker bytes in its payload, next to a single one. -/
def paired : Frame := ⟨.data 1, 7, ⟨[marker, marker, marker, 0, marker], by decide⟩⟩

/-- The frame takes one byte more than its parts, whatever stood in the buffer; without its last
byte the buffer holds all but the end byte. Where the identifier does not fit, nothing is
written. -/
theorem encodes_into_any_buffer_paired :
    paired.id.Valid ∧ paired.plainLength = 16 ∧
      (∃ wire, wire.length = 17 ∧ wire.length ≤ maxWireLength ∧
        paired.encodeInto (List.replicate 19 1) = (.ok 17, wire ++ [1, 1]) ∧
        paired.encodeInto (List.replicate 16 1) = (.error .bufferTooSmall, wire.dropLast)) ∧
      ¬ FrameId.Valid (.app 64) ∧
      Frame.encodeInto ⟨.app 64, 0, .empty⟩ [1, 2, 3] = (.error .invalidId, [1, 2, 3]) := by
  have hid : paired.id.Valid := FrameId.valid_data.mpr (by decide)
  have hbad : ¬ FrameId.Valid (.app 64) := by
    rw [FrameId.valid_app]
    decide
  obtain ⟨wire, hlength, hle, hbuffer, -⟩ := (encodes_into_any_buffer paired).1 hid
  have hlong : wire.length = 17 := by
    rw [hlength]
    decide +kernel
  refine ⟨hid, rfl, ⟨wire, hlong, hle, ?_, ?_⟩, hbad,
    (encodes_into_any_buffer ⟨.app 64, 0, .empty⟩).2.1 hbad [1, 2, 3]⟩
  · rw [hbuffer, hlong]
    rfl
  · rw [hbuffer, hlong, List.dropLast_eq_take, hlong]
    rfl

end Frame

end SerialLink
