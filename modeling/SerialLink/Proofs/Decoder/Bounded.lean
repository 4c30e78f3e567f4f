import SerialLink.Proofs.Decoder.Acceptance
import SerialLink.Proofs.Decoder.Push
import Mathlib.Data.List.Induction

/-!
# How long a frame may take

A decoder inside a frame has read, since it awaited the identifier, just the body bytes that lead to
its phase, without the stuff bytes. So the length byte says how many payload bytes are missing, no
payload is too long, and each byte that is taken brings the end of the frame nearer. Behind two
marker bytes a stuff byte is taken in addition. Whatever comes, a decoder is therefore inside one
frame for no more bytes than the largest frame has behind its header.

`Decoder.Sound` is the invariant: a decoder that is in a frame `Began` it with the last header, and
`Phase.Follows` from `Proofs.Decoder.Acceptance` relates its phase to the bytes since. `sound` shows
it for every list of `Input`s by induction from the back, with `PushCase` for the single byte. From
it come `Phase.Keeps`, which says the same in terms of what the phase holds, and the measure
`budget`, which each byte lowers (`budget_push`). `Proofs.Decoder.Accounting` uses that behind a
header no run is open (`run_of_awaitingId`).
-/

namespace SerialLink

namespace Phase

/-! ## What a phase keeps -/

/-- The identifier of the frame that is being received, once `awaitingId` is left. -/
def id? : Phase → Option FrameId
  | .searching | .awaitingId => none
  | .awaitingSeq id | .awaitingLength id _ | .readingPayload id _ _ _ => some id
  | .readingChecksum f _ _ | .awaitingEnd f => some f.id

/-- The largest number of body bytes that may still come. `accept` makes it smaller with each byte
that it takes (`Follows.missing_accept`). -/
def missing : Phase → Nat
  | .searching | .awaitingEnd _ => 0
  | .awaitingId => Frame.maxBodyLength
  | .awaitingSeq _ => Frame.maxBodyLength - 1
  | .awaitingLength _ _ => Frame.maxBodyLength - 2
  | .readingPayload _ _ remaining _ => remaining.toNat + Frame.checksumLength
  | .readingChecksum _ count _ => Frame.checksumLength - count

/-- `expectPayload` goes straight to the checksum if no payload is missing, and to the same number
of bytes that are. -/
theorem missing_expectPayload (id : FrameId) (seq remaining : UInt8) (received : Payload) :
    (expectPayload id seq remaining received).missing =
      remaining.toNat + Frame.checksumLength := by
  unfold expectPayload
  split
  · next hzero => simp [missing, hzero]
  · rfl

theorem toNat_sub_one {n : UInt8} (h : n ≠ 0) : (n - 1).toNat + 1 = n.toNat := by
  have hpos : n.toNat ≠ 0 := fun hzero => h (UInt8.toNat_inj.mp hzero)
  have hsub : (n - 1).toNat = n.toNat - 1 :=
    UInt8.toNat_sub_of_le _ _ (UInt8.le_iff_toNat_le.mpr (by simp; omega))
  omega

/-- What holds of a phase inside a frame of which `body` was read. -/
structure Keeps (phase : Phase) (body : List UInt8) : Prop where
  /-- The identifier is the one that the first byte names. -/
  id : ∀ id, phase.id? = some id →
    FrameId.ofByte? id.toByte = some id ∧ body.head? = some id.toByte
  /-- The bytes received and the bytes that are missing are as many as the length byte announced. -/
  payload : ∀ id seq remaining received, phase = .readingPayload id seq remaining received →
    1 ≤ remaining.toNat ∧ ∃ length : UInt8,
      body = id.toByte :: (Frame.seqBytes ⟨id, seq, received⟩ ++ length :: received.bytes) ∧
        received.length + remaining.toNat = length.toNat
  /-- One byte less is missing behind the next byte, and there is room for it. -/
  room : ∀ id seq remaining received, phase = .readingPayload id seq remaining received →
    (remaining - 1).toNat + 1 = remaining.toNat ∧ ∀ b, received.push? b ≠ none
  checksum : ∀ f count value, phase = .readingChecksum f count value → count ≤ 3

namespace Follows

variable {phase next : Phase} {part : List UInt8} {b : UInt8}

/-- The identifier that is kept is the one that was read. -/
theorem id_spec (h : phase.Follows part) {id : FrameId} (hid : phase.id? = some id) :
    FrameId.ofByte? id.toByte = some id ∧ part.head? = some id.toByte := by
  cases h with
  | awaitingId => exact absurd hid (by simp [id?])
  | awaitingSeq hvalid hseq =>
    obtain rfl := Option.some.inj hid
    exact ⟨FrameId.ofByte?_toByte hvalid, rfl⟩
  | awaitingLength hplain | readingPayload hplain | readingChecksum hplain | awaitingEnd hplain =>
    obtain rfl := Option.some.inj hid
    exact ⟨FrameId.ofByte?_toByte hplain.1, rfl⟩

/-- In `readingPayload` what was received and what is missing make up the length byte, so the
payload is never longer than announced. -/
theorem payload_spec {id : FrameId} {seq remaining : UInt8} {received : Payload}
    (h : (Phase.readingPayload id seq remaining received).Follows part) :
    remaining ≠ 0 ∧ ∃ length : UInt8,
      part = id.toByte :: (Frame.seqBytes ⟨id, seq, received⟩ ++ length :: received.bytes) ∧
        received.length + remaining.toNat = length.toNat := by
  generalize hphase : Phase.readingPayload id seq remaining received = phase at h
  cases h with
  | @readingPayload f length remaining' hplain hlength hpos =>
    obtain ⟨rfl, rfl, rfl, rfl⟩ := Phase.readingPayload.inj hphase
    exact ⟨hpos, length, rfl, hlength.symm⟩
  | _ => exact absurd hphase (by simp)

/-- In `readingChecksum` a byte of the checksum is missing still. -/
theorem count_lt {f : Frame} {count : Nat} {value : UInt32}
    (h : (Phase.readingChecksum f count value).Follows part) : count < Frame.checksumLength := by
  generalize hphase : Phase.readingChecksum f count value = phase at h
  cases h with
  | readingChecksum hplain hcount =>
    obtain ⟨-, rfl, -⟩ := Phase.readingChecksum.inj hphase
    exact hcount
  | _ => exact absurd hphase (by simp)

/-- There is room for every byte that was announced: `push?` does not fail. -/
theorem push?_ne_none {id : FrameId} {seq remaining : UInt8} {received : Payload}
    (h : (Phase.readingPayload id seq remaining received).Follows part) (b : UInt8) :
    received.push? b ≠ none := by
  -- A length byte announces no more than a payload can hold.
  obtain ⟨hpos, length, -, hlength⟩ := h.payload_spec
  have hlt := length.toNat_lt
  have hsub := toNat_sub_one hpos
  rw [Payload.push?, ne_eq, Payload.ofList?_eq_none_iff, List.length_append]
  simp only [Payload.length] at hlength
  simp only [Payload.maxLength, List.length_singleton]
  omega

/-- A phase that `Follows` the body bytes `Keeps` them. -/
theorem keeps (h : phase.Follows part) : phase.Keeps part where
  id := fun _ hid => h.id_spec hid
  payload := by
    rintro id seq remaining received rfl
    obtain ⟨hpos, length, hpart, hlength⟩ := h.payload_spec
    have hsub := toNat_sub_one hpos
    exact ⟨by omega, length, hpart, hlength⟩
  room := by
    rintro id seq remaining received rfl
    exact ⟨toNat_sub_one h.payload_spec.1, h.push?_ne_none⟩
  checksum := by
    rintro f count value rfl
    have hcount := h.count_lt
    exact Nat.le_of_lt_succ hcount

/-! ## One body byte -/

/-- No frame is discarded for its length. -/
theorem accept_ne_length (h : phase.Follows part) (b : UInt8) :
    (phase.accept b).2 ≠ .discarded .length := by
  intro hlength
  -- Two phases check a length: one cannot fail for a byte, the other has the room it needs.
  cases phase with
  | searching | awaitingSeq => exact absurd hlength (by simp [Phase.accept])
  | awaitingId => cases hid : FrameId.ofByte? b <;> simp [Phase.accept, hid] at hlength
  | awaitingLength id seq =>
    simp only [Phase.accept] at hlength
    rw [if_neg (Payload.not_maxLength_lt b)] at hlength
    exact absurd hlength (by simp)
  | readingPayload id seq remaining received =>
    cases hpush : received.push? b with
    | none => exact h.push?_ne_none b hpush
    | some p => simp [Phase.accept, hpush] at hlength
  | readingChecksum f count value =>
    simp only [Phase.accept] at hlength
    split at hlength
    · exact absurd hlength (by simp)
    · split at hlength <;> exact absurd hlength (by simp)
  | awaitingEnd f =>
    simp only [Phase.accept] at hlength
    split at hlength <;> exact absurd hlength (by simp)

/-- A body byte that is taken is `missing` no more. -/
theorem missing_accept (h : phase.Follows part) (haccept : phase.accept b = (next, .pending)) :
    next.missing < phase.missing := by
  -- A frame without sequence number skips a phase, and so does one without payload.
  cases phase with
  | searching => exact absurd rfl h.ne_searching
  | awaitingId =>
    cases hid : FrameId.ofByte? b with
    | none => simp [Phase.accept, hid] at haccept
    | some id =>
      simp only [Phase.accept, hid, Prod.mk.injEq, and_true] at haccept
      rw [← haccept, Phase.afterId]
      split
      · exact (by decide : Frame.maxBodyLength - 1 < Frame.maxBodyLength)
      · exact (by decide : Frame.maxBodyLength - 2 < Frame.maxBodyLength)
  | awaitingSeq id =>
    obtain ⟨rfl, -⟩ := Prod.mk.inj haccept
    exact (by decide : Frame.maxBodyLength - 2 < Frame.maxBodyLength - 1)
  | awaitingLength id seq =>
    have hlt := b.toNat_lt
    simp only [Phase.accept] at haccept
    split at haccept
    · exact absurd haccept (by simp)
    · obtain ⟨rfl, -⟩ := Prod.mk.inj haccept
      rw [missing_expectPayload]
      simp only [missing, Frame.maxBodyLength, Frame.checksumLength, Payload.maxLength]
      omega
  | readingPayload id seq remaining received =>
    -- The counter of missing bytes wraps only at zero, where this phase is left.
    have hsub := toNat_sub_one h.payload_spec.1
    simp only [Phase.accept] at haccept
    split at haccept
    · obtain ⟨rfl, -⟩ := Prod.mk.inj haccept
      rw [missing_expectPayload]
      simp only [missing]
      omega
    · exact absurd haccept (by simp)
  | readingChecksum f count value =>
    have hcount := h.count_lt
    simp only [Phase.accept] at haccept
    split at haccept
    · obtain ⟨rfl, -⟩ := Prod.mk.inj haccept
      simp only [missing]
      omega
    · split at haccept
      · obtain ⟨rfl, -⟩ := Prod.mk.inj haccept
        simp only [missing]
        omega
      · exact absurd haccept (by simp)
  | awaitingEnd f =>
    simp only [Phase.accept] at haccept
    split at haccept <;> exact absurd haccept (by simp)

end Follows

end Phase

namespace Decoder

open Stuffing

/-! ## What a decoder was given -/

/-- A byte for `push`, or the order to `reset`. -/
inductive Input where
  | byte (b : UInt8)
  | reset
  deriving DecidableEq

def handle (d : Decoder) : Input → Decoder
  | .byte b => (d.push b).1
  | .reset => d.reset

/-- A `fresh` decoder that was given all of this. -/
def ofInputs (inputs : List Input) : Decoder := inputs.foldl handle fresh

theorem ofInputs_concat (inputs : List Input) (input : Input) :
    ofInputs (inputs ++ [input]) = (ofInputs inputs).handle input := by
  simp [ofInputs]

theorem ofInputs_append (inputs : List Input) (wire : List UInt8) :
    ofInputs (inputs ++ wire.map .byte) = ((ofInputs inputs).pushAll wire).1 := by
  induction wire generalizing inputs with
  | nil => simp [pushAll]
  | cons b rest ih =>
    have hcons : inputs ++ (b :: rest).map .byte = inputs ++ [.byte b] ++ rest.map .byte := by
      simp
    rw [hcons, ih, ofInputs_concat]
    rfl

variable {d : Decoder} {wire : List UInt8} {b : UInt8}

/-- Since it awaited an identifier the decoder was given `wire`, which brought nothing about and is
read as the body bytes that lead to its phase; and it counts marker bytes as their reader does. -/
structure Began (d : Decoder) (wire : List UInt8) : Prop where
  start : d.phase = .awaitingId
  quiet : ∀ p ∈ (d.pushAll wire).2, p = .pending
  body : (d.pushAll wire).1.phase.Follows (unstuff wire)
  run : readRun 0 wire = (d.pushAll wire).1.run

namespace Began

theorem nil (hphase : d.phase = .awaitingId) (hrun : d.run = 0) : d.Began [] where
  start := hphase
  quiet := by simp [Decoder.pushAll]
  body := by
    rw [Decoder.pushAll, hphase]
    exact .awaitingId
  run := hrun.symm

/-- A byte that does not leave the frame is a `stuffByte` or belongs to the body. Either way it is
`pending`, and the phase still `Follows` the bytes without the stuff bytes. -/
theorem push_spec (h : d.Began wire) (hends : (d.pushAll wire).1.endsHeader b = false)
    (hin : ((d.pushAll wire).1.push b).1.inFrame = true) :
    ((d.pushAll wire).1.push b).2 = .pending ∧
      ((d.pushAll wire).1.push b).1.phase.Follows (unstuff (wire ++ [b])) ∧
      readRun 0 (wire ++ [b]) = ((d.pushAll wire).1.push b).1.run := by
  rw [inFrame_iff] at hin
  rw [unstuff, unstuffFrom_append, readRun_append, h.run]
  rcases (d.pushAll wire).1.push_cases b with
    ⟨p, hheader, -, -⟩ | ⟨-, hrun, -, hpush⟩ | ⟨-, -, -, -, hpush⟩ | ⟨-, hfree, hpush⟩
  · exact absurd (hheader.symm.trans hends) (by simp)
  · -- A stuff byte is read as nothing.
    rw [hpush, hrun]
    refine ⟨rfl, ?_, rfl⟩
    exact (List.append_nil (unstuffFrom 0 wire)).symm ▸ h.body
  · -- A missing stuff byte ends the frame.
    rw [hpush] at hin
    exact absurd rfl hin
  · -- A byte of the body is read as it is.
    have hne := hfree (inFrame_iff.mpr h.body.ne_searching)
    have hread : unstuffFrom (d.pushAll wire).1.run [b] = [b] := by
      rw [unstuffFrom, if_neg hne]
      rfl
    rw [hpush, count_phase] at hin
    rw [hread, hpush, count_phase, count_run]
    rcases h.body.accept b with ⟨next, haccept, hfollows⟩ | ⟨f, haccept, -⟩ | ⟨reason, haccept⟩
    · rw [haccept]
      exact ⟨rfl, hfollows, by simp [readRun, hne]⟩
    · exact absurd (by rw [haccept]) hin
    · exact absurd (by rw [haccept]) hin

/-- What `Began` with `wire` goes on with a byte that does not leave the frame. -/
theorem concat (h : d.Began wire) (hends : (d.pushAll wire).1.endsHeader b = false)
    (hin : ((d.pushAll wire).1.push b).1.inFrame = true) : d.Began (wire ++ [b]) := by
  obtain ⟨hpending, hbody, hrun⟩ := h.push_spec hends hin
  refine ⟨h.start, ?_, ?_, ?_⟩
  · rw [pushAll_append]
    intro p hp
    rcases List.mem_append.mp hp with hp | hp
    · exact h.quiet p hp
    · rwa [List.mem_singleton.mp hp]
  · rwa [pushAll_append]
  · rwa [pushAll_append]

end Began

/-- What holds of a decoder at any time: its frame, if it is in one, `Began` with the last header.
`byte` and `reset` are its steps. -/
structure Sound (inputs : List Input) : Prop where
  run_le : (ofInputs inputs).run ≤ 2
  began : (ofInputs inputs).inFrame = true → ∃ earlier wire,
    inputs = earlier ++ wire.map .byte ∧ (ofInputs earlier).Began wire

namespace Sound

variable {inputs : List Input}

theorem byte (h : Sound inputs) (b : UInt8) : Sound (inputs ++ [.byte b]) where
  run_le := by
    rw [ofInputs_concat]
    exact run_push_le h.run_le
  began := by
    intro hin
    -- A header begins a frame whatever came before, and any other byte goes on with the old one.
    cases hends : (ofInputs inputs).endsHeader b with
    | true =>
      obtain ⟨hphase, hrun, -⟩ := push_of_endsHeader hends
      refine ⟨inputs ++ [.byte b], [], by simp, ?_⟩
      rw [ofInputs_concat]
      exact .nil hphase hrun
    | false =>
      rw [ofInputs_concat] at hin
      obtain ⟨earlier, wire, rfl, hbegan⟩ := h.began (inFrame_of_push hends hin)
      rw [ofInputs_append] at hends hin
      exact ⟨earlier, wire ++ [b], by simp, hbegan.concat hends hin⟩

theorem reset (inputs : List Input) : Sound (inputs ++ [.reset]) := by
  constructor
  · rw [ofInputs_concat]
    exact Nat.zero_le 2
  · rw [ofInputs_concat]
    exact fun hin => absurd rfl (inFrame_iff.mp hin)

end Sound

/-- **Every decoder is `Sound`**, whatever it was given. -/
theorem sound (inputs : List Input) : Sound inputs := by
  -- The last input is the step, so the induction takes it off at the back.
  induction inputs using List.reverseRecOn with
  | nil => exact ⟨Nat.zero_le 2, fun hin => absurd rfl (inFrame_iff.mp hin)⟩
  | append_singleton inputs input ih =>
    cases input with
    | byte b => exact ih.byte b
    | reset => exact .reset inputs

/-! ## The bytes that a frame may take -/

variable {inputs : List Input}

/-- Behind a header, in `awaitingId`, no marker byte is open. -/
theorem run_of_awaitingId (hphase : (ofInputs inputs).phase = .awaitingId) :
    (ofInputs inputs).run = 0 := by
  obtain ⟨earlier, wire, rfl, hbegan⟩ := (sound inputs).began (inFrame_iff.mpr (by simp [hphase]))
  rw [ofInputs_append] at hphase ⊢
  have hbody := hbegan.body
  have hrun := hbegan.run
  rw [hphase] at hbody
  cases wire with
  | nil => exact hrun.symm
  | cons b rest =>
    -- The first byte behind a header is read as a byte of the body, so another phase follows it.
    generalize hpart : unstuff (b :: rest) = part at hbody
    cases hbody
    exact absurd hpart (by simp [unstuff, unstuffFrom])

/-- How many more bytes a frame may take, stuff bytes and the end byte included. Of the body bytes
that are `missing`, and the ones in the open run, every two may be marker bytes. -/
def budget (d : Decoder) : Nat := d.phase.missing + (d.phase.missing + d.run) / 2 + 1

/-- The `budget` is at most the length of the longest frame behind its header. -/
theorem budget_le (inputs : List Input) : (ofInputs inputs).budget ≤ 394 := by
  -- The most is missing where an identifier is awaited, and there no run is open.
  have hrun := (sound inputs).run_le
  have hzero := @run_of_awaitingId inputs
  unfold budget
  generalize ofInputs inputs = d at *
  cases hphase : d.phase with
  | awaitingId =>
    rw [hzero hphase]
    decide
  | searching | awaitingSeq | awaitingLength | awaitingEnd =>
    simp only [Phase.missing, Frame.maxBodyLength, Frame.checksumLength, Payload.maxLength]
    omega
  | readingPayload id seq remaining received =>
    have hlt := remaining.toNat_lt
    simp only [Phase.missing, Frame.checksumLength]
    omega
  | readingChecksum f count value =>
    simp only [Phase.missing, Frame.checksumLength]
    omega

/-- **A byte that brings nothing about lowers the `budget`**, and leaves the decoder in its
frame. -/
theorem budget_push {part : List UInt8} (hpart : d.phase.Follows part)
    (hquiet : (d.push b).2 = .pending) :
    (d.push b).1.inFrame = true ∧ (d.push b).1.budget < d.budget := by
  have hphase := hpart.ne_searching
  have hin := inFrame_iff.mpr hphase
  rw [inFrame_iff]
  rcases d.push_cases b with
    ⟨p, -, hp, hpush⟩ | ⟨-, hrun, -, hpush⟩ | ⟨-, -, -, -, hpush⟩ | ⟨-, hfree, hpush⟩
  · rw [hpush, hp, if_pos hin] at hquiet
    exact absurd hquiet (by simp)
  · -- A stuff byte is taken at most once for two marker bytes.
    rw [hpush]
    refine ⟨hphase, ?_⟩
    simp only [budget]
    omega
  · rw [hpush] at hquiet
    exact absurd hquiet (by simp)
  · rcases hpart.accept b with ⟨next, haccept, hnext⟩ | ⟨f, haccept, -⟩ | ⟨reason, haccept⟩
    -- A byte of the body is missing no more, and makes the run longer by at most one.
    · have hless := hpart.missing_accept haccept
      rw [hpush, haccept]
      refine ⟨hnext.ne_searching, ?_⟩
      simp only [budget, count]
      split <;> omega
    all_goals
      rw [hpush, haccept] at hquiet
      exact absurd hquiet (by simp)

/-- As long as nothing is brought about, all bytes are bytes of one frame, fewer than its
`budget`. -/
theorem length_lt_budget (hin : (ofInputs inputs).inFrame = true) {bytes : List UInt8}
    (hquiet : ∀ p ∈ ((ofInputs inputs).pushAll bytes).2, p = .pending) :
    bytes.length < (ofInputs inputs).budget := by
  -- Each of the bytes is one more input, and leaves less for the others.
  induction bytes generalizing inputs with
  | nil => exact Nat.succ_pos _
  | cons b rest ih =>
    obtain ⟨earlier, wire, hinputs, hbegan⟩ := (sound inputs).began hin
    have hbody := hbegan.body
    rw [← ofInputs_append, ← hinputs] at hbody
    rw [pushAll] at hquiet
    obtain ⟨hin', hless⟩ := budget_push hbody (hquiet _ List.mem_cons_self)
    have hrest := @ih (inputs ++ [.byte b])
    rw [ofInputs_concat] at hrest
    have hlt := hrest hin' fun p hp => hquiet p (List.mem_cons_of_mem _ hp)
    rw [handle] at hlt
    rw [List.length_cons]
    omega

/-! ## Lengths -/

/-- No frame is discarded for its length: what `Follows.accept_ne_length` says of the bytes of a
body holds of all. -/
theorem push_ne_length (inputs : List Input) (b : UInt8) :
    ((ofInputs inputs).push b).2 ≠ .discarded .length := by
  rcases (ofInputs inputs).push_cases b with
    ⟨p, -, hp, hpush⟩ | ⟨-, -, -, hpush⟩ | ⟨-, -, -, -, hpush⟩ | ⟨-, -, hpush⟩
  all_goals rw [hpush]
  · rw [hp]
    split <;> simp
  · simp
  · simp
  · cases hin : (ofInputs inputs).inFrame with
    | true =>
      obtain ⟨earlier, wire, rfl, hbegan⟩ := (sound inputs).began hin
      rw [ofInputs_append]
      exact hbegan.body.accept_ne_length b
    | false =>
      -- Between frames nothing is discarded.
      have hphase : (ofInputs inputs).phase = .searching := by simpa [inFrame] using hin
      rw [hphase]
      simp [Phase.accept]

/-- So the counter for it stays at zero. -/
theorem lengthErrors_ofInputs (inputs : List Input) : (ofInputs inputs).stats.lengthErrors = 0 := by
  induction inputs using List.reverseRecOn with
  | nil => rfl
  | append_singleton inputs input ih =>
    rw [ofInputs_concat]
    cases input with
    | reset => exact ih
    | byte b =>
      -- The counter grows by the discards with this reason, and there are none.
      have hcount := (ofInputs inputs).discards_push b .length
      have hnone : ((ofInputs inputs).push b).2.discard?.toList.count .length = 0 := by
        have hne := push_ne_length inputs b
        cases hp : ((ofInputs inputs).push b).2 with
        | pending | frame => rfl
        | discarded reason =>
          have hreason : reason ≠ .length := fun heq => hne (heq ▸ hp)
          simp [Progress.discard?, hreason]
      rw [hnone] at hcount
      simpa [handle, DecoderStats.discards, ih] using hcount

/-! ## Frames without end -/

/-- **No frame goes on for ever.** Whatever a decoder is given, bytes and resets in any order, what
it keeps of a frame is what stands behind the header of this frame; the length byte allows just the
payload that is kept, so no frame is discarded for its length; and among as many bytes as the
largest frame has behind its header, one completes or discards the frame. -/
theorem frames_bounded (inputs : List Input) :
    let d := ofInputs inputs
    d.run ≤ 2 ∧
      (d.inFrame = true → ∃ earlier wire, inputs = earlier ++ wire.map .byte ∧
        (ofInputs earlier).phase = .awaitingId ∧
        (∀ p ∈ ((ofInputs earlier).pushAll wire).2, p = .pending) ∧
        d.phase.Keeps (unstuff wire)) ∧
      (∀ b, (d.push b).2 ≠ .discarded .length) ∧
      d.stats.lengthErrors = 0 ∧
      (d.inFrame = true → ∀ bytes : List UInt8, bytes.length = 394 →
        ∃ p ∈ (d.pushAll bytes).2, p ≠ .pending) := by
  refine ⟨(sound inputs).run_le, ?_, push_ne_length inputs, lengthErrors_ofInputs inputs, ?_⟩
  · intro hin
    obtain ⟨earlier, wire, hinputs, hbegan⟩ := (sound inputs).began hin
    refine ⟨earlier, wire, hinputs, hbegan.start, hbegan.quiet, ?_⟩
    rw [hinputs, ofInputs_append]
    exact hbegan.body.keeps
  · intro hin bytes hlength
    -- Otherwise all of them would be bytes of one frame.
    apply Decidable.byContradiction
    intro hnone
    have hquiet : ∀ p ∈ ((ofInputs inputs).pushAll bytes).2, p = .pending := by
      intro p hp
      exact Decidable.byContradiction fun hne => hnone ⟨p, hp, hne⟩
    have hlt := length_lt_budget hin hquiet
    have hle := budget_le inputs
    omega

/-- A frame that was cut off by a reset, and one of which two payload bytes have come. The stuff
byte behind them has not. -/
def halfRead : List Input :=
  [marker, marker, marker, 0x81, 7].map .byte ++ .reset ::
    [marker, marker, marker, 0x81, 7, 3, marker, marker].map .byte

theorem frames_bounded_halfRead :
    (ofInputs halfRead).phase =
        .readingPayload (.data 1) 7 1 ⟨[marker, marker], by decide⟩ ∧
      (ofInputs halfRead).inFrame = true ∧
      (∃ earlier wire, halfRead = earlier ++ wire.map .byte ∧
        (ofInputs earlier).phase = .awaitingId ∧
        (ofInputs halfRead).phase.Keeps (unstuff wire)) ∧
      (List.replicate 394 marker).length = 394 ∧
      ∃ p ∈ ((ofInputs halfRead).pushAll (List.replicate 394 marker)).2, p ≠ .pending := by
  have hin : (ofInputs halfRead).inFrame = true := by decide +kernel
  obtain ⟨-, hframe, -, -, hends⟩ := frames_bounded halfRead
  obtain ⟨earlier, wire, hsplit, hstart, -, hkeeps⟩ := hframe hin
  refine ⟨by decide +kernel, hin, ⟨earlier, wire, hsplit, hstart, hkeeps⟩,
    List.length_replicate, ?_⟩
  exact hends hin _ List.length_replicate

end Decoder

end SerialLink
