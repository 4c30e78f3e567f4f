import SerialLink.Decoder.Stats
import SerialLink.Frame.Wire

/-!
# The parts of a frame

Where a receiver stands within a frame, together with all it needs to remember of the frame so far,
and what one body byte does there. Stuff bytes and headers are dealt with before a byte comes here,
by `Decoder.step`.

Each `Phase` holds the fields that were read already and no others, so that no stale field of an
earlier frame can be seen. `accept` runs through the phases in the order of the fields; wherever it
gives a frame up it goes back to `searching`. `Proofs.Decoder.RoundTrip` shows that the body of a
frame leads from `awaitingId` to `awaitingEnd`, and `Proofs.Decoder.Acceptance` that nothing else
does.
-/

namespace SerialLink

/-- What a byte brought about. -/
inductive Progress where
  | pending
  /-- The byte completed a frame. -/
  | frame (f : Frame)
  /-- The byte ended a frame that is not valid. -/
  | discarded (reason : Discard)
  deriving DecidableEq

/-- The part of a frame that comes next. -/
inductive Phase where
  /-- No frame has started. -/
  | searching
  | awaitingId
  | awaitingSeq (id : FrameId)
  | awaitingLength (id : FrameId) (seq : UInt8)
  /-- The payload, of which `remaining` bytes are missing. -/
  | readingPayload (id : FrameId) (seq : UInt8) (remaining : UInt8) (received : Payload)
  /-- The checksum of an otherwise complete frame; `value` holds its first `count` bytes. -/
  | readingChecksum (f : Frame) (count : Nat) (value : UInt32)
  /-- The byte behind a frame whose checksum matched. -/
  | awaitingEnd (f : Frame)
  deriving DecidableEq

namespace Phase

/-- Behind the identifier: a frame without sequence number counts as numbered zero. -/
def afterId (id : FrameId) : Phase :=
  if id.hasSeq then .awaitingSeq id else .awaitingLength id 0

/-- With `remaining` payload bytes to come. Behind the last of them the checksum is next. -/
def expectPayload (id : FrameId) (seq remaining : UInt8) (received : Payload) : Phase :=
  if remaining = 0 then .readingChecksum ⟨id, seq, received⟩ 0 0
  else .readingPayload id seq remaining received

/-- The phase behind one body byte, and the `Progress` that the byte brought about. The checksum is
compared when its last byte is in, before the end byte is looked at. -/
def accept (phase : Phase) (b : UInt8) : Phase × Progress :=
  match phase with
  | .searching => (.searching, .pending)
  | .awaitingId =>
    match FrameId.ofByte? b with
    | some id => (afterId id, .pending)
    | none => (.searching, .discarded .id)
  | .awaitingSeq id => (.awaitingLength id b, .pending)
  | .awaitingLength id seq =>
    if Payload.maxLength < b.toNat then (.searching, .discarded .length)
    else (expectPayload id seq b .empty, .pending)
  | .readingPayload id seq remaining received =>
    match received.push? b with
    | some received => (expectPayload id seq (remaining - 1) received, .pending)
    | none => (.searching, .discarded .length)
  | .readingChecksum f count value =>
    let value := (value <<< 8) ||| b.toUInt32
    if count + 1 < Frame.checksumLength then (.readingChecksum f (count + 1) value, .pending)
    else if f.checksum = value then (.awaitingEnd f, .pending)
    else (.searching, .discarded .checksum)
  | .awaitingEnd f =>
    (.searching, if b = endByte then .frame f else .discarded .endByte)

end Phase

end SerialLink
