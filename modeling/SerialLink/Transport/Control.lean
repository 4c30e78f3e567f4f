import SerialLink.Transport.Basic

/-!
# Acknowledgements and resets

The control frames of the transport, and what a restart of the numbering does to the queue.

A restart has three causes, and they share `restart`: the application asks for it (`reset`), the
peer does (`Transport.onReset`, in `SerialLink.Transport.Receive`), or a frame is out of retries
(`Transport.giveUp`, in `SerialLink.Transport.Service`). The first one empties the queue. The other
two go through `resync`, which gives up the frames that were sent, `lost`, and keeps the others
under new numbers, `kept`. Whether the peer has to be told is remembered in `resetPending` until
`settleReset` sees the reset written.
-/

namespace SerialLink.Transport

variable {σ ε : Type} [ByteSink σ ε]

/-! ## Acknowledgements -/

/-- The transport after it was tried to send an acknowledgement at `now`: only one that was sent
counts for `ackDue`. -/
def afterAck (t : Transport) (now : UInt32) : Except (SendError ε) Nat → Transport
  | .ok _ =>
    { t with lastAck := some now, stats := { t.stats with acksSent := t.stats.acksSent + 1 } }
  | .error e => t.countUnsent e

/-- Sends the acknowledgement of all data frames before the `expected` one. -/
def sendAck (t : Transport) (now : UInt32) (sink : σ) : Turn σ ε :=
  let f := Frame.ack t.expected
  let sent := transmit sink f
  { transport := t.afterAck now sent.1, sink := sent.2, events := [.attempted f sent.1] }

/-! ## Resets -/

/-- The transport after it was tried to send a reset: if that failed, `resetPending` stays. -/
def afterReset (t : Transport) : Except (SendError ε) Nat → Transport
  | .ok _ => { t with resetPending := false }
  | .error e => t.countUnsent e

/-- The turn that consists of an attempt to send a reset, `sent` being what `transmit` made of
it. -/
def settleReset (t : Transport) (sent : Except (SendError ε) Nat × σ) : Turn σ ε :=
  { transport := t.afterReset sent.1, sink := sent.2, events := [.attempted Frame.reset sent.1] }

/-- Sends a reset, which stays pending if it cannot be sent now. -/
def sendReset (t : Transport) (sink : σ) : Turn σ ε :=
  t.settleReset (transmit sink Frame.reset)

/-- The result of a restart that informs the peer. The reset waits for room in the sink, so a lack
of it is no failure. -/
def resetResult : Except (SendError ε) Nat → Except (SendError ε) Unit
  | .ok _ | .error (.noRoom _ _) => .ok ()
  | .error e => .error e

/-- Counts data frames that were given up. -/
def countFailures (t : Transport) (n : Nat) : Transport :=
  { t with stats := { t.stats with deliveryFailures := t.stats.deliveryFailures + n.toUInt32 } }

/-- Restarts numbering at zero with the given queue. The state is `running` again at once if
something is queued. -/
def restart (t : Transport) (queue : List Entry) : Transport :=
  let t := { t with queue, nextSeq := queue.length.toUInt8, expected := 0, lastAck := none }
  let t := t.note .reset
  if queue.isEmpty then t else t.note .queued

/-- The data frames that a restart loses: all that were sent. The one at `exhausted`, if there is
one, ran out of retries. -/
def lost (queue : List Entry) (exhausted : Option Nat) : List DeliveryFailure :=
  queue.zipIdx.filterMap fun (e, i) =>
    if e.isSent then
      some (e.failure (if exhausted = some i then .retriesExhausted else .linkReset))
    else none

/-- The data frames that outlast a restart: those never sent, numbered from zero. -/
def kept (queue : List Entry) : List Entry :=
  (queue.filter fun e => !e.isSent).mapIdx fun i e => e.renumber i.toUInt8

/-- Restarts numbering with the `kept` frames, and lists the `lost` ones. -/
def resync (t : Transport) (exhausted : Option Nat) : Transport × List DeliveryFailure :=
  let failures := lost t.queue exhausted
  ((t.countFailures failures.length).restart (kept t.queue), failures)

/-- Gives up the whole queue and restarts numbering. With `inform` the peer is sent a reset; the
result is that of the attempt, as `resetResult` sees it, and does not undo the restart. -/
def reset (t : Transport) (inform : Bool) (sink : σ) : Except (SendError ε) Unit × Turn σ ε :=
  let failures := t.queue.map (Entry.failure · .linkReset)
  let events := failures.map Event.abandoned
  let t := (t.countFailures failures.length).restart []
  if inform then
    let sent := transmit sink Frame.reset
    let turn := { t with resetPending := true }.settleReset sent
    (resetResult sent.1, { turn with events := events ++ turn.events })
  else (.ok (), { transport := t, sink, events })

end SerialLink.Transport
