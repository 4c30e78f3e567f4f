import SerialLink.Frame.Wire
import SerialLink.Sink

/-!
# Sending a frame

A frame is encoded first and handed to the sink in one write, and only when the sink says that it
has room for all of it.

Every frame that leaves goes through `transmit`, those of the transport as well as those that the
application sends past it. `Proofs.Transmit` states what it does to any sink (`transmit_eq`). The
calls that it makes can also be read off its result, with `sinkCalls`.
-/

namespace SerialLink

/-- Why `transmit` did not send a frame. -/
inductive SendError (ε : Type) where
  | frame (error : FrameError)
  /-- The sink has no room for the frame now. -/
  | noRoom (needed available : Nat)
  /-- The sink accepted another number of bytes than it was given. -/
  | shortWrite (written expected : Nat)
  | sink (error : ε)
  deriving DecidableEq

variable {σ ε : Type} [ByteSink σ ε]

/-- What the result of writing `expected` bytes means for the frame: it is sent if all of them were
accepted. -/
def sendResult (expected : Nat) : Except ε Nat → Except (SendError ε) Nat
  | .ok written =>
    if written = expected then .ok expected else .error (.shortWrite written expected)
  | .error e => .error (.sink e)

/-- Sends a frame: the number of bytes sent, or a `SendError`, and the sink afterwards. Without
`room` for all of the frame the sink is left alone. -/
def transmit (sink : σ) (f : Frame) : Except (SendError ε) Nat × σ :=
  match f.encode with
  | .error e => (.error (.frame e), sink)
  | .ok bytes =>
    let available := ByteSink.room sink
    if available < bytes.length then (.error (.noRoom bytes.length available), sink)
    else
      let written := ByteSink.write (ByteSink.beginFrame sink) bytes
      (sendResult bytes.length written.1, ByteSink.endFrame written.2)

/-! ## The calls made -/

/-- A call that sending makes on a sink. -/
inductive SinkCall (ε : Type) where
  | beginFrame
  /-- These bytes were accepted. -/
  | accepted (bytes : List UInt8)
  | failed (error : ε)
  | endFrame
  deriving DecidableEq

/-- The calls that `transmit` makes on a sink, read off its result. -/
def sinkCalls (f : Frame) (result : Except (SendError ε) Nat) : List (SinkCall ε) :=
  match f.encode with
  | .error _ => []
  | .ok bytes =>
    match result with
    | .ok _ => [.beginFrame, .accepted bytes, .endFrame]
    | .error (.shortWrite written _) => [.beginFrame, .accepted (bytes.take written), .endFrame]
    | .error (.sink e) => [.beginFrame, .failed e, .endFrame]
    | .error (.noRoom _ _) | .error (.frame _) => []

end SerialLink
