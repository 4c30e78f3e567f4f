import SerialLink.Transport.Control

/-!
# The transport tick

A tick sends what is due: a pending reset, then the data frames that were never sent or whose time
has run out, then a repeated acknowledgement. It ends early when the sink refuses the reset; a pass
over the queue ends when the sink refuses a data frame.

`service` is these three parts in order, `flushReset`, `serviceQueue` and `repeatAck`, each a turn
on the sink that the one before left. The pass over the queue is `sweep`, a recursion over the
entries; `Proofs.Transport.Queue` gives its cases (`sweep_cases`) and its loop rule (`sweep_rule`).
What the whole tick can do to a transport is `Transport.service_effect`, in `Proofs.Transport.Run`.
-/

namespace SerialLink.Transport

variable {σ ε : Type} [ByteSink σ ε]

/-! ## One pass over the queue -/

/-- What a pass over the queue leaves. -/
structure Sweep (σ ε : Type) where
  queue : List Entry
  stats : TransportStats
  sink : σ
  /-- What was done, in order. -/
  events : List (Event ε)
  /-- The place of the data frame that ran out of retries, if one did. -/
  exhausted : Option Nat

/-- Counts a data frame that was sent, under `framesSent` or, if it was sent before, under
`framesRetransmitted`. -/
def countSent (stats : TransportStats) (again : Bool) : TransportStats :=
  if again then { stats with framesRetransmitted := stats.framesRetransmitted + 1 }
  else { stats with framesSent := stats.framesSent + 1 }

/-- Sends the data frames that are due at `now`, oldest first, until one is out of retries or cannot
be sent. -/
def sweep (policy : RetryPolicy) (now : UInt32) (stats : TransportStats) (sink : σ) :
    List Entry → Sweep σ ε
  | [] => { queue := [], stats, sink, events := [], exhausted := none }
  | e :: rest =>
    match e.action policy now with
    | .wait =>
      -- A later frame may be due although this one is not.
      let others := sweep policy now stats sink rest
      { others with queue := e :: others.queue, exhausted := others.exhausted.map (· + 1) }
    | .giveUp => { queue := e :: rest, stats, sink, events := [], exhausted := some 0 }
    | .send | .resend =>
      match transmit sink e.frame with
      | (.ok n, sink) =>
        let others := sweep policy now (countSent stats e.isSent) sink rest
        { others with
          queue := e.markSent now :: others.queue
          events := .attempted e.frame (.ok n) :: others.events
          exhausted := others.exhausted.map (· + 1) }
      | (.error failure, sink) =>
        { queue := e :: rest
          stats := stats.countUnsent failure
          sink
          events := [.attempted e.frame (.error failure)]
          exhausted := none }

/-! ## The tick -/

/-- Gives up the data frame at `exhausted`, restarts numbering with `resync` and tells the peer. -/
def giveUp (t : Transport) (exhausted : Nat) (sink : σ) : Turn σ ε :=
  let (t, failures) := t.resync (some exhausted)
  let turn := { t with resetPending := true }.sendReset sink
  { turn with events := failures.map .abandoned ++ turn.events }

/-- Sends the data frames that are due in one `sweep`, and restarts numbering if one of them is out
of retries. -/
def serviceQueue (t : Transport) (now : UInt32) (sink : σ) : Turn σ ε :=
  let swept := sweep t.policy now t.stats sink t.queue
  let t := { t with queue := swept.queue, stats := swept.stats }
  match swept.exhausted with
  | none => { transport := t, sink := swept.sink, events := swept.events }
  | some exhausted =>
    let turn := t.giveUp exhausted swept.sink
    { turn with events := swept.events ++ turn.events }

/-- Repeats the acknowledgement if `ackDue` says so. -/
def repeatAck (t : Transport) (now : UInt32) (sink : σ) : Turn σ ε :=
  if t.ackDue now then t.sendAck now sink else { transport := t, sink, events := [] }

/-- Sends a reset if `resetPending` says that one is due. -/
def flushReset (t : Transport) (sink : σ) : Turn σ ε :=
  if t.resetPending then t.sendReset sink else { transport := t, sink, events := [] }

/-- One tick. While a reset cannot be sent, nothing else is. -/
def service (t : Transport) (now : UInt32) (sink : σ) : Turn σ ε :=
  let flushed := t.flushReset sink
  -- Frames of the new numbering must not overtake the reset.
  if flushed.transport.resetPending then flushed
  else
    let served := flushed.transport.serviceQueue now flushed.sink
    let acked := served.transport.repeatAck now served.sink
    { acked with events := flushed.events ++ served.events ++ acked.events }

end SerialLink.Transport
