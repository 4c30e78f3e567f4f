import SerialLink.FrameId
import SerialLink.Payload
import SerialLink.Crc32

/-!
# Frames

A frame on the wire is the header, the body and an end byte. The body holds the identifier byte,
the sequence number (unless the frame is an application frame), the payload's length, the payload,
and the checksum of all of these, highest byte first.

This module has a `Frame` as a value and its `body` as bytes, and the sizes that follow from the
layout. Four kinds of frame are made here: `app` and `data` check what an application hands over,
with `make`; `ack` and `reset` cannot fail. `SerialLink.Frame.Wire` puts header, stuffing and end
byte around the body, and `SerialLink.Decoder.Basic` reads it again. `Proofs.Frame.Body` shows what
tells two bodies apart.
-/

namespace SerialLink

/-- Why a frame cannot be made or written. -/
inductive FrameError where
  /-- The application identifier does not fit six bits. -/
  | invalidId
  /-- There are more than 255 payload bytes. -/
  | payloadTooLarge
  /-- The frame does not fit the output buffer. -/
  | bufferTooSmall
  deriving DecidableEq

/-- A frame. The sequence number of an application frame is not sent, and reads back as zero; of
every other frame `seq` is part of the `body`. -/
@[ext]
structure Frame where
  id : FrameId
  /-- The sequence number; in an acknowledgement the next one expected. -/
  seq : UInt8
  payload : Payload
  deriving DecidableEq

namespace Frame

/-! ## Making frames -/

/-- A frame with checked identifier and payload. Whether `id` is `Valid` is looked at first. -/
def make (id : FrameId) (seq : UInt8) (payload : List UInt8) : Except FrameError Frame :=
  if id.Valid then
    match Payload.ofList? payload with
    | some payload => .ok ⟨id, seq, payload⟩
    | none => .error .payloadTooLarge
  else .error .invalidId

def app (id : UInt8) (payload : List UInt8) : Except FrameError Frame :=
  make (.app id) 0 payload

def data (id seq : UInt8) (payload : List UInt8) : Except FrameError Frame :=
  make (.data id) seq payload

/-- The acknowledgement of every data frame before `expected`, which is also its payload. -/
def ack (expected : UInt8) : Frame := ⟨.ack, expected, .singleton expected⟩

/-- The request to restart sequence numbering. -/
def reset : Frame := ⟨.reset, 0, .empty⟩

/-! ## The body -/

/-- The sequence number as it stands in the `body`: one byte or none. -/
def seqBytes (f : Frame) : List UInt8 :=
  if f.id.hasSeq then [f.seq] else []

/-- The part of the `body` that the `checksum` covers. -/
def covered (f : Frame) : List UInt8 :=
  f.id.toByte :: (f.seqBytes ++ f.payload.lengthByte :: f.payload.bytes)

def checksum (f : Frame) : UInt32 := Crc32.checksum f.covered

/-- The four bytes of a word, highest first. -/
def bigEndian (w : UInt32) : List UInt8 :=
  [(w >>> 24).toUInt8, (w >>> 16).toUInt8, (w >>> 8).toUInt8, w.toUInt8]

/-- All that stands between header and end byte, before `Stuffing.stuff`. -/
def body (f : Frame) : List UInt8 := f.covered ++ bigEndian f.checksum

/-! ## Sizes -/

def headerLength : Nat := 3

def checksumLength : Nat := 4

/-- The number of bytes in the largest `body`. -/
def maxBodyLength : Nat := 1 + 1 + 1 + Payload.maxLength + checksumLength

/-- The number of bytes in the largest frame, when a `stuffByte` follows every second body byte. -/
def maxWireLength : Nat := headerLength + maxBodyLength + maxBodyLength / 2 + 1

/-- The number of bytes of a frame on the wire, stuff bytes apart. -/
def plainLength (f : Frame) : Nat :=
  headerLength + 1 + f.seqBytes.length + 1 + f.payload.length + checksumLength + 1

end Frame

end SerialLink
