import SerialLink.Proofs.Crc32
import SerialLink.Proofs.Decoder.RoundTrip

/-!
# What tells bodies apart

The bytes up to the length byte say how long a body is, so that of two bodies with the same first
bytes neither is the beginning of the other. The checksum tells bodies apart that differ in one
byte.

`head` is the part of a body that fixes its length, and `length_covered_of_head` says so of any two
frames whose bodies begin alike. That the four bytes of the checksum determine it, `bigEndian_inj`,
is taken from the decoder, which reads them back (`Phase.acceptAll_word`, in
`Proofs.Decoder.RoundTrip`). Both halves meet in `byte_eq_of_body`, on which
`Proofs.Decoder.Changed` rests: a damaged byte in a body never gives another body of the same
length.
-/

namespace SerialLink

theorem FrameId.toByte_inj {a b : FrameId} (ha : a.Valid) (hb : b.Valid)
    (h : a.toByte = b.toByte) : a = b := by
  have hread := ofByte?_toByte ha
  rw [h, ofByte?_toByte hb] at hread
  exact (Option.some.inj hread).symm

namespace Frame

/-! ## The length of a body -/

/-- The `body` up to the length byte. -/
def head (f : Frame) : List UInt8 := f.id.toByte :: (f.seqBytes ++ [f.payload.lengthByte])

theorem covered_eq (f : Frame) : f.covered = f.head ++ f.payload.bytes := by
  simp [covered, head]

theorem body_eq (f : Frame) : f.body = f.head ++ (f.payload.bytes ++ bigEndian f.checksum) := by
  rw [body, covered_eq, List.append_assoc]

theorem length_head_congr {f g : Frame} (h : f.id = g.id) : f.head.length = g.head.length := by
  have hseq : f.seqBytes.length = g.seqBytes.length := by
    unfold seqBytes
    rw [h]
    split <;> rfl
  simp [head, hseq]

theorem length_payload_congr {p q : Payload} (h : p.lengthByte = q.lengthByte) :
    p.length = q.length := by
  have hp : p.length ≤ 255 := p.length_le
  have hq : q.length ≤ 255 := q.length_le
  have hnat := congrArg UInt8.toNat h
  simp only [Payload.lengthByte, Nat.toUInt8_eq, UInt8.toNat_ofNat'] at hnat
  omega

theorem length_covered_congr {f g : Frame} (h : f.head = g.head) (hid : f.id = g.id) :
    f.covered.length = g.covered.length := by
  have hlength : f.payload.lengthByte = g.payload.lengthByte := by
    have hlast := congrArg List.getLast? h
    simpa [head, List.getLast?_cons] using hlast
  have hpayload := length_payload_congr hlength
  have hhead := length_head_congr hid
  unfold Payload.length at hpayload
  rw [covered_eq, covered_eq, List.length_append, List.length_append]
  omega

/-- **The bytes up to the length byte say how long a body is.** -/
theorem length_covered_of_head {f g : Frame} {bytes : List UInt8} (hf : f.id.Valid)
    (hg : g.id.Valid) (hhead : f.head <+: bytes) (hbody : g.body <+: bytes) :
    f.covered.length = g.covered.length := by
  have hg_head : g.head <+: bytes := by
    rw [body_eq] at hbody
    exact (List.prefix_append ..).trans hbody
  -- The identifier byte is the first one of both heads, and says whether a sequence byte follows.
  have hid : f.id = g.id := by
    cases bytes with
    | nil => exact absurd (List.prefix_nil.mp hhead) (by simp [head])
    | cons b rest =>
      have hfirst := (List.cons_prefix_cons.mp hhead).1
      exact FrameId.toByte_inj hf hg (hfirst.trans (List.cons_prefix_cons.mp hg_head).1.symm)
  have hlen := length_head_congr hid
  have heq : f.head = g.head :=
    (List.prefix_of_prefix_length_le hhead hg_head (Nat.le_of_eq hlen)).eq_of_length hlen
  exact length_covered_congr heq hid

theorem length_body (f : Frame) : f.body.length = f.covered.length + checksumLength := by
  simp [body, bigEndian, checksumLength]

/-! ## One byte -/

theorem bigEndian_inj {v w : UInt32} (h : bigEndian v = bigEndian w) : v = w := by
  -- A decoder that is given the four bytes has read all but the lowest byte of the word.
  have hv := Phase.acceptAll_word Frame.reset v
  rw [h, Phase.acceptAll_word] at hv
  have hhigh : w >>> 8 = v >>> 8 := by
    injection hv with hphase
    injection hphase
  have hlow : v.toUInt8 = w.toUInt8 := by
    simp only [bigEndian, List.cons.injEq] at h
    exact h.2.2.2.1
  rw [← Phase.shiftIn_lowByte v, ← hhigh, hlow, Phase.shiftIn_lowByte]

theorem take_body (f : Frame) : f.body.take f.covered.length = f.covered := List.take_left

theorem drop_body (f : Frame) : f.body.drop f.covered.length = bigEndian f.checksum :=
  List.drop_left

/-- **No two bodies differ in one byte**, if the checksum covers as much of both. -/
theorem byte_eq_of_body {f g : Frame} (hlen : f.covered.length = g.covered.length)
    {front back : List UInt8} {b b' : UInt8} (hf : f.body = front ++ b :: back)
    (hg : g.body = front ++ b' :: back) : b = b' := by
  have hf_covered := f.take_body
  have hf_checksum := f.drop_body
  have hg_covered := g.take_body
  have hg_checksum := g.drop_body
  rw [hf] at hf_covered hf_checksum
  rw [hg, ← hlen] at hg_covered hg_checksum
  by_cases hplace : front.length < f.covered.length
  · -- The byte is covered, and the checksum is the same.
    obtain ⟨n, hn⟩ : ∃ n, f.covered.length = front.length + (n + 1) :=
      ⟨f.covered.length - front.length - 1, by omega⟩
    rw [hn] at hf_covered hf_checksum hg_covered hg_checksum
    simp only [List.take_length_add_append, List.take_succ_cons] at hf_covered hg_covered
    simp only [List.drop_length_add_append, List.drop_succ_cons] at hf_checksum hg_checksum
    have hsum : f.checksum = g.checksum := bigEndian_inj (hf_checksum.symm.trans hg_checksum)
    rw [checksum, checksum, ← hf_covered, ← hg_covered] at hsum
    have hlen : [b].length = [b'].length := rfl
    have hbyte : [b] = [b'] :=
      Crc32.eq_of_checksum front (back.take n) hlen (by simp) (by simpa using hsum)
    exact (List.cons.inj hbyte).1
  · -- All that is covered is the same, and so is the checksum.
    have hle : f.covered.length ≤ front.length := Nat.le_of_not_lt hplace
    rw [List.take_append_of_le_length hle] at hf_covered hg_covered
    have hcovered : f.covered = g.covered := hf_covered.symm.trans hg_covered
    have hbody : f.body = g.body := by rw [body, body, checksum, checksum, hcovered]
    rw [hf, hg] at hbody
    exact (List.cons.inj (List.append_cancel_left hbody)).1

end Frame

end SerialLink
