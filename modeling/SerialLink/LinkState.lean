/-!
# The state of a link

Whether sequence numbers have been used since the link was made or last reset.

The state is a summary for the application: no operation of the transport depends on it. What it
stands for is part of the invariant `Transport.Regular`, in `Proofs.Transport.Invariant`: in the
state `idle` nothing is queued and both sequence numbers are zero.
-/

namespace SerialLink

/-- Whether sequence numbers are in use. -/
inductive LinkState where
  /-- No sequenced traffic since the link was made or last reset. -/
  | idle
  | running
  deriving DecidableEq

/-- What can happen to a link. -/
inductive LinkEvent where
  | queued
  | frameReceived
  | ackReceived
  /-- Numbering was restarted. -/
  | reset
  deriving DecidableEq

namespace LinkState

/-- Whether the state is `running`. -/
def isRunning : LinkState → Bool
  | .idle => false
  | .running => true

/-- The state after an event: a `LinkEvent.reset` stops the link, anything else starts it. -/
def after (_ : LinkState) : LinkEvent → LinkState
  | .reset => .idle
  | .queued | .frameReceived | .ackReceived => .running

end LinkState

end SerialLink
