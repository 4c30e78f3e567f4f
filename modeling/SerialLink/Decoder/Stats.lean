/-!
# What a decoder has seen

The reasons for which a decoder discards a frame, and the counters it keeps. All counters wrap.

There is one counter for each reason and one for the frames that were completed; `countDiscard` and
`discards` go through the reasons in parallel. `Decoder.count` is the only caller, once per byte at
most, from which `Proofs.Decoder.Accounting` derives that the counters agree with what the decoder
yielded.
-/

namespace SerialLink

/-- Why a started frame was discarded. -/
inductive Discard where
  | checksum
  | length
  /-- Two marker bytes are followed by neither a stuff byte nor a third one. -/
  | stuffing
  /-- The identifier byte is reserved: `FrameId.ofByte?` makes nothing of it. -/
  | id
  /-- The checksum matches, but another byte stands where the end byte belongs. -/
  | endByte
  /-- A new header arrived before the frame was complete. -/
  | restarted
  deriving DecidableEq

/-- The counters of a decoder. -/
@[ext]
structure DecoderStats where
  frames : UInt32 := 0
  checksumErrors : UInt32 := 0
  lengthErrors : UInt32 := 0
  stuffingErrors : UInt32 := 0
  idErrors : UInt32 := 0
  endErrors : UInt32 := 0
  restarts : UInt32 := 0
  deriving DecidableEq

namespace DecoderStats

/-- The number of frames discarded for the given reason. -/
def discards (s : DecoderStats) : Discard → UInt32
  | .checksum => s.checksumErrors
  | .length => s.lengthErrors
  | .stuffing => s.stuffingErrors
  | .id => s.idErrors
  | .endByte => s.endErrors
  | .restarted => s.restarts

/-- The number of frames discarded, for whichever reason: the sum of all `discards`. -/
def dropped (s : DecoderStats) : UInt32 :=
  s.checksumErrors + s.lengthErrors + s.stuffingErrors + s.idErrors + s.endErrors + s.restarts

def countFrame (s : DecoderStats) : DecoderStats := { s with frames := s.frames + 1 }

def countDiscard (s : DecoderStats) : Discard → DecoderStats
  | .checksum => { s with checksumErrors := s.checksumErrors + 1 }
  | .length => { s with lengthErrors := s.lengthErrors + 1 }
  | .stuffing => { s with stuffingErrors := s.stuffingErrors + 1 }
  | .id => { s with idErrors := s.idErrors + 1 }
  | .endByte => { s with endErrors := s.endErrors + 1 }
  | .restarted => { s with restarts := s.restarts + 1 }

end DecoderStats

end SerialLink
