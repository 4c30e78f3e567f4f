/-!
# Time and retries

Times are milliseconds on a clock that wraps around after 2³² of them; they are only ever compared
by how long ago they were, with `elapsed`. What to do with a queued frame depends on when it was
last sent and on how often it was sent again.

`RetryPolicy.action` makes that decision for one frame, and `Transport.sweep` asks it for each frame
of the queue. A comparison by `elapsed` is right as long as less than 2³² milliseconds lie between
the two times; `Proofs.Clock` says so of a true clock, and the theorems on timing carry that
condition.
-/

namespace SerialLink

/-- Milliseconds from `since` to `now` on the wrapping clock. -/
def elapsed (now since : UInt32) : UInt32 := now - since

/-- When to send a frame again and when to give it up, see `RetryPolicy.action`. -/
structure RetryPolicy where
  /-- Milliseconds before an unacknowledged frame is sent again. -/
  timeout : UInt32
  maxRetransmits : UInt8
  deriving DecidableEq

/-- What to do with a queued frame. -/
inductive RetryAction where
  | send
  /-- Leave it until its timeout has passed. -/
  | wait
  | resend
  /-- It was sent as often as allowed. -/
  | giveUp
  deriving DecidableEq

/-- What to do at `now` with a frame that was last sent at `lastSent` and sent again `retransmits`
times. -/
def RetryPolicy.action (policy : RetryPolicy) (now : UInt32) (lastSent : Option UInt32)
    (retransmits : UInt8) : RetryAction :=
  match lastSent with
  | none => .send
  | some since =>
    if elapsed now since < policy.timeout then .wait
    else if policy.maxRetransmits ≤ retransmits then .giveUp
    else .resend

end SerialLink
