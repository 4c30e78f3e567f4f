import SerialLink.Config.Basic
import SerialLink.Event
import SerialLink.LinkState

/-!
# The reliable transport

Data frames are queued under consecutive sequence numbers, sent in that order and sent again until
the peer acknowledges them. An acknowledgement names the next number that the peer expects and takes
all frames before it off the queue. A receiver accepts only the number that it expects next.

A frame that was sent too often means that the two sides no longer agree on the numbers. Both then
restart at zero: one side sends a reset, and the other restarts when it arrives.

This module has the state of a `Transport`, what can be read off it, and queueing. The rest is split
by what sets it off: `SerialLink.Transport.Receive` for frames that arrive,
`SerialLink.Transport.Service` for ticks, and `SerialLink.Transport.Control` for the control frames
and restarts that both of them use. Every operation that may write or call back returns a `Turn`.
What all of them do to the state is collected in `Transport.Effect`, in `Proofs.Transport.Run`.
-/

namespace SerialLink

/-- The counters of a transport. All but the last one wrap. -/
@[ext]
structure TransportStats where
  /-- Data frames sent for the first time. -/
  framesSent : UInt32 := 0
  /-- Data frames sent again. -/
  framesRetransmitted : UInt32 := 0
  framesDelivered : UInt32 := 0
  /-- Data frames behind the expected number. -/
  duplicates : UInt32 := 0
  /-- Data frames ahead of the expected number. -/
  outOfOrder : UInt32 := 0
  /-- Acknowledgements of frames that are not on their way. -/
  spuriousAcks : UInt32 := 0
  resetsReceived : UInt32 := 0
  deliveryFailures : UInt32 := 0
  acksSent : UInt32 := 0
  /-- Frames for which the sink had no room. -/
  stalls : UInt32 := 0
  /-- Frames that could not be sent for another reason. -/
  sendErrors : UInt32 := 0
  /-- The largest number of frames queued at once. -/
  queueHighWater : UInt8 := 0
  deriving DecidableEq

namespace TransportStats

/-- Counts a frame that was not sent, under `stalls` or `sendErrors`. -/
def countUnsent {ε : Type} (s : TransportStats) : SendError ε → TransportStats
  | .noRoom _ _ => { s with stalls := s.stalls + 1 }
  | _ => { s with sendErrors := s.sendErrors + 1 }

end TransportStats

/-- One end of the reliable transport. -/
@[ext]
structure Transport where
  /-- How many data frames may be in `queue`. -/
  window : Nat
  /-- When to send a data frame again and when to give it up. -/
  policy : RetryPolicy
  /-- Milliseconds between repeated acknowledgements. -/
  ackInterval : UInt32
  /-- Milliseconds of silence after which the peer counts as gone. -/
  idleTimeout : UInt32
  /-- The data frames that are not acknowledged yet, oldest first. -/
  queue : List Entry := []
  /-- The number of the data frame that `submit` queues next. -/
  nextSeq : UInt8 := 0
  /-- The number of the data frame expected next from the peer. -/
  expected : UInt8 := 0
  state : LinkState := .idle
  /-- Whether a reset has to be sent before any data frame. -/
  resetPending : Bool := false
  lastAck : Option UInt32 := none
  lastData : Option UInt32 := none
  /-- When any valid frame last arrived. -/
  lastHeard : Option UInt32 := none
  stats : TransportStats := {}
  deriving DecidableEq

/-- What an operation of the transport leaves: the transport and the sink, and what it did on the
way. -/
structure Transport.Turn (σ ε : Type) where
  transport : Transport
  sink : σ
  /-- What was done, in order. -/
  events : List (Event ε)

/-- Why `Transport.submit` did not queue a data frame. -/
inductive QueueError where
  /-- The window is full. -/
  | full
  | frame (error : FrameError)
  deriving DecidableEq

namespace Transport

/-! ## Views -/

/-- A transport with the given settings. The window is brought into the range from one to
`Config.maxWindow`. -/
def ofConfig (c : Config) : Transport where
  window := max 1 (min c.window.toNat Config.maxWindow)
  policy := c.retryPolicy
  ackInterval := c.ackInterval
  idleTimeout := c.idleTimeout

def pending (t : Transport) : Nat := t.queue.length

/-- The number of the oldest data frame in `queue`, or `nextSeq` if there is none. -/
def oldestSeq (t : Transport) : UInt8 :=
  match t.queue with
  | [] => t.nextSeq
  | e :: _ => e.seq

/-- How many data frames are on their way: the sent ones at the front of `queue`. -/
def inFlight (t : Transport) : Nat := (t.queue.takeWhile Entry.isSent).length

/-- Whether anything was heard from the peer within the last `idleTimeout`. -/
def isConnected (t : Transport) (now : UInt32) : Bool :=
  match t.lastHeard with
  | none => false
  | some since => elapsed now since < t.idleTimeout

/-- Whether the acknowledgement has to be repeated: data frames are arriving, by `lastData` and
`idleTimeout`, and none was acknowledged for the `ackInterval`. -/
def ackDue (t : Transport) (now : UInt32) : Bool :=
  let active := match t.lastData with
    | none => false
    | some since => decide (elapsed now since < t.idleTimeout)
  let due := match t.lastAck with
    | none => true
    | some since => decide (t.ackInterval ≤ elapsed now since)
  active && due

/-! ## Small steps -/

def noteHeard (t : Transport) (now : UInt32) : Transport := { t with lastHeard := some now }

/-- Lets the link state follow an event. -/
def note (t : Transport) (event : LinkEvent) : Transport := { t with state := t.state.after event }

/-- `TransportStats.countUnsent` for the counters of a transport. -/
def countUnsent {ε : Type} (t : Transport) (e : SendError ε) : Transport :=
  { t with stats := t.stats.countUnsent e }

/-! ## Queueing -/

/-- Queues a data frame: the number that it got or a `QueueError`, and the transport afterwards,
which `submit` leaves also where it refuses the frame. Nothing is sent before the next
`Transport.service`. -/
def submit (t : Transport) (id : UInt8) (payload : List UInt8) :
    Except QueueError UInt8 × Transport :=
  if t.window ≤ t.pending then (.error .full, t)
  else
    match Frame.data id t.nextSeq payload with
    | .error e => (.error (.frame e), t)
    | .ok f =>
      let queue := t.queue ++ [{ id, seq := t.nextSeq, payload := f.payload }]
      let queueHighWater := max t.stats.queueHighWater queue.length.toUInt8
      let t := { t with queue, nextSeq := t.nextSeq + 1, stats := { t.stats with queueHighWater } }
      (.ok f.seq, t.note .queued)

/-- `submit` for a caller that goes on only behind a frame that was queued: its number together with
the transport, or the `QueueError` alone. -/
def enqueue (t : Transport) (id : UInt8) (payload : List UInt8) :
    Except QueueError (UInt8 × Transport) :=
  match t.submit id payload with
  | (.ok seq, t) => .ok (seq, t)
  | (.error e, _) => .error e

end Transport

end SerialLink
