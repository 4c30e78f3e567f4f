import SerialLink.Transport.Control

/-!
# Frames from the peer

What the transport does with an acknowledgement, a data frame or a reset. Every data frame is
answered by an acknowledgement, whether it was accepted or not.

`receive` dispatches on the identifier of the frame to `onAck`, `onData` and `onReset`. Only
`onData` writes anything, and at once: an answer does not wait for the next tick, nor for a pending
reset of this side to be sent. What follows from the latter is the subject of
`Proofs.Transport.Overtaking`. The effect of each case on the transport is
`Transport.receive_effect`, in `Proofs.Transport.Run`.
-/

namespace SerialLink.Transport

variable {σ ε : Type} [ByteSink σ ε]

/-- How far behind the expected number a data frame counts as a duplicate; any other unexpected
frame counts as ahead of it. -/
def duplicateHorizon : UInt8 := 128

/-- Takes the data frames before `ack` off the queue. An acknowledgement that covers frames not on
their way changes nothing, nor does one that arrives while a reset is pending: it belongs to the old
numbering. -/
def onAck (t : Transport) (ack : UInt8) : Transport :=
  let acked := (ack - t.oldestSeq).toNat
  if t.resetPending ∨ t.inFlight < acked then
    { t with stats := { t.stats with spuriousAcks := t.stats.spuriousAcks + 1 } }
  else
    -- The frames on their way are the first ones of the queue, so this drops none but them.
    { t with queue := t.queue.drop acked }.note .ackReceived

/-- Accepts a data frame with the `expected` number, and counts any other one as a duplicate or as
out of order. -/
def acceptData (t : Transport) (f : Frame) : Transport × List (Event ε) :=
  if f.seq = t.expected then
    ({ t with
        expected := t.expected + 1
        stats := { t.stats with framesDelivered := t.stats.framesDelivered + 1 } },
      [.delivered f])
  else if t.expected - f.seq ≤ duplicateHorizon then
    ({ t with stats := { t.stats with duplicates := t.stats.duplicates + 1 } }, [])
  else ({ t with stats := { t.stats with outOfOrder := t.stats.outOfOrder + 1 } }, [])

/-- Takes a data frame with `acceptData`, and then acknowledges what is expected from there on. -/
def onData (t : Transport) (now : UInt32) (f : Frame) (sink : σ) : Turn σ ε :=
  let accepted := ({ t with lastData := some now }.note .frameReceived).acceptData f
  let turn := accepted.1.sendAck now sink
  { turn with events := accepted.2 ++ turn.events }

/-- Restarts numbering with `resync`, as the peer did. A reset of this side need not be sent any
more. -/
def onReset (t : Transport) : Transport × List DeliveryFailure :=
  { t with
    stats := { t.stats with resetsReceived := t.stats.resetsReceived + 1 }
    resetPending := false }.resync none

/-- Takes a frame from the peer. Application frames do not concern the transport. -/
def receive (t : Transport) (now : UInt32) (f : Frame) (sink : σ) : Turn σ ε :=
  match f.id with
  | .ack => { transport := t.onAck f.seq, sink, events := [] }
  | .reset =>
    let restarted := t.onReset
    { transport := restarted.1, sink, events := restarted.2.map .abandoned }
  | .data _ => t.onData now f sink
  | .app _ => { transport := t, sink, events := [] }

end SerialLink.Transport
