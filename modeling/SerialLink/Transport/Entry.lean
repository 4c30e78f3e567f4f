import SerialLink.Frame.Basic
import SerialLink.Retry

/-!
# Queued data frames

A data frame stays queued until it is acknowledged or given up. A frame that is given up goes back
to the application, as a `DeliveryFailure`.

An `Entry` is a data frame with what the retry policy has to know of it: when it was last sent and
how often again. `markSent` and `renumber` are the only changes that an entry undergoes in the
queue; the first keeps the `frame`, the second all of it but its number. `Proofs.Transport.Queue`
says how both act on a whole queue.
-/

namespace SerialLink

/-- Why a data frame was given up. -/
inductive FailureReason where
  /-- It was sent as often as allowed and never acknowledged. -/
  | retriesExhausted
  /-- Numbering was restarted while it waited. -/
  | linkReset
  deriving DecidableEq

/-- A data frame that was given up. Whether the peer received it is unknown. -/
structure DeliveryFailure where
  id : UInt8
  /-- The sequence number that the frame had last. -/
  seq : UInt8
  payload : Payload
  reason : FailureReason
  deriving DecidableEq

/-- A queued data frame. -/
@[ext]
structure Entry where
  id : UInt8
  seq : UInt8
  payload : Payload
  /-- When the frame was last sent, if it was. -/
  lastSent : Option UInt32 := none
  /-- How often it was sent again. -/
  retransmits : UInt8 := 0
  deriving DecidableEq

namespace Entry

def frame (e : Entry) : Frame := ⟨.data e.id, e.seq, e.payload⟩

def isSent (e : Entry) : Bool := e.lastSent.isSome

/-- What the policy wants done with the frame at `now`. -/
def action (e : Entry) (policy : RetryPolicy) (now : UInt32) : RetryAction :=
  policy.action now e.lastSent e.retransmits

/-- Records that the frame was sent at `now`. The first time does not count as a repetition, and the
count `retransmits` stays at its largest value. -/
def markSent (e : Entry) (now : UInt32) : Entry :=
  { e with
    lastSent := some now
    retransmits := if e.isSent ∧ e.retransmits < 255 then e.retransmits + 1 else e.retransmits }

/-- The same frame under another number `seq`, as if it had never been sent. -/
def renumber (e : Entry) (seq : UInt8) : Entry :=
  { e with seq, lastSent := none, retransmits := 0 }

def failure (e : Entry) (reason : FailureReason) : DeliveryFailure :=
  ⟨e.id, e.seq, e.payload, reason⟩

end Entry

end SerialLink
