import SerialLink.Decoder.Phase

/-!
# The stream decoder

Finds frames in a stream of bytes that may be cut anywhere and may hold anything. Three marker bytes
in a row start a frame wherever they stand. Inside a frame two of them must be followed by a stuff
byte, which is dropped; any other byte there discards the frame.

A `Decoder` is a `Phase`, the length of the run of marker bytes just seen, and counters. `step`
decides by the run what a byte is, and passes the bytes of a body on to `Phase.accept`; `push`
counts the outcome. `pushAll`, `feed`, `feedUpTo` and `decodeFrame` are four ways to push many
bytes, which differ in what they tell of the outcome and in where they stop.
`Proofs.Decoder.Stream` shows that it does not matter how the bytes are cut, and
`Proofs.Decoder.Push` splits one `push` into its cases; the theorems on what a decoder accepts,
counts and misses start from these two.
-/

namespace SerialLink

/-- A receiver of bytes. -/
@[ext]
structure Decoder where
  phase : Phase := .searching
  /-- The number of marker bytes just seen in a row, counted from the last stuff byte or header. -/
  run : Nat := 0
  stats : DecoderStats := {}
  deriving DecidableEq

namespace Decoder

def fresh : Decoder := {}

/-- Drops any partial frame; the counters in `stats` are kept. -/
def reset (d : Decoder) : Decoder := { d with phase := .searching, run := 0 }

/-- Whether a frame is partially received. -/
def inFrame (d : Decoder) : Bool := d.phase ≠ .searching

/-! ## One byte -/

/-- Takes a byte that is neither a `stuffByte` nor the end of a header: it goes to
`Phase.accept`. -/
def take (d : Decoder) (b : UInt8) : Decoder × Progress :=
  let next := d.phase.accept b
  ({ d with phase := next.1, run := if b = marker then d.run + 1 else 0 }, next.2)

/-- Takes the byte behind two marker bytes. -/
def takeAfterMarkers (d : Decoder) (b : UInt8) : Decoder × Progress :=
  if b = marker then
    -- A header starts a frame in any phase, and discards a frame that is not complete.
    ({ d with phase := .awaitingId, run := 0 },
      if d.inFrame then .discarded .restarted else .pending)
  else if b = stuffByte then ({ d with run := 0 }, .pending)
  else if d.inFrame then (d.reset, .discarded .stuffing)
  else { d with run := 0 }.take b

/-- Takes a byte without counting what it brings about; `push` does both. -/
def step (d : Decoder) (b : UInt8) : Decoder × Progress :=
  if d.run = 2 then d.takeAfterMarkers b else d.take b

/-- Counts what a byte brought about. -/
def count (d : Decoder) : Progress → Decoder
  | .pending => d
  | .frame _ => { d with stats := d.stats.countFrame }
  | .discarded reason => { d with stats := d.stats.countDiscard reason }

/-- Takes one byte of the stream. -/
def push (d : Decoder) (b : UInt8) : Decoder × Progress :=
  let next := d.step b
  (next.1.count next.2, next.2)

/-! ## Many bytes -/

/-- Takes bytes in order, and lists the `Progress` that each of them brought about. -/
def pushAll (d : Decoder) : List UInt8 → Decoder × List Progress
  | [] => (d, [])
  | b :: rest =>
    let first := d.push b
    let others := first.1.pushAll rest
    (others.1, first.2 :: others.2)

/-- Takes bytes in order until `limit` frames are complete, and lists the frames. The bytes behind
the last of them are not looked at. -/
def feedUpTo (d : Decoder) : (limit : Nat) → List UInt8 → Decoder × List Frame
  | 0, _ => (d, [])
  | _ + 1, [] => (d, [])
  | limit + 1, b :: rest =>
    match d.push b with
    | (d, .frame f) =>
      let others := d.feedUpTo limit rest
      (others.1, f :: others.2)
    | (d, _) => d.feedUpTo (limit + 1) rest

/-- Takes bytes in order, and lists the frames they complete. Of `pushAll` it keeps the frames. -/
def feed (d : Decoder) : List UInt8 → Decoder × List Frame
  | [] => (d, [])
  | b :: rest =>
    match d.push b with
    | (d, .frame f) =>
      let others := d.feed rest
      (others.1, f :: others.2)
    | (d, _) => d.feed rest

end Decoder

/-! ## One frame in a window -/

/-- Why no frame was found. -/
inductive DecodeError where
  /-- The bytes end inside a frame, or hold no header. -/
  | incomplete
  /-- Every started frame was discarded; this is the reason for the last of them. -/
  | discarded (reason : Discard)
  deriving DecidableEq

/-- Looks for a frame in the bytes that the decoder takes next, `failure` being the verdict if none
of them changes it. -/
def Decoder.firstFrame (d : Decoder) (failure : DecodeError) :
    List UInt8 → Except DecodeError Frame
  | [] => .error (if d.inFrame then .incomplete else failure)
  | b :: rest =>
    match d.push b with
    | (_, .frame f) => .ok f
    | (d, .pending) => d.firstFrame failure rest
    | (d, .discarded reason) => d.firstFrame (.discarded reason) rest

/-- The first frame in a byte string, or why there is none: `firstFrame` of a `fresh` decoder. -/
def decodeFrame (window : List UInt8) : Except DecodeError Frame :=
  Decoder.fresh.firstFrame .incomplete window

end SerialLink
