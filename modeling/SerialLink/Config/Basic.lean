import SerialLink.Retry

/-!
# Link settings

The settings of one end of a link, their defaults, and the check that they can be used.

`validate` is asked where settings enter: when an `Endpoint` is made of them (`Endpoint.ofConfig`)
and when they are loaded (`Config.load`, in `SerialLink.Config.Stored`). The transport does not rely
on it. `Transport.ofConfig` brings the window into range by itself, so that the invariants of
`Proofs.Transport.Invariant` hold for every `Config`; only `Proofs.Endpoint.Settled` needs that the
times of a usable one are not zero.
-/

namespace SerialLink

/-- Why settings cannot be used. -/
inductive ConfigError where
  /-- The window is empty or larger than `Config.maxWindow`. -/
  | window
  /-- A time is zero or longer than `Config.maxTimeout`. -/
  | timeout
  deriving DecidableEq

/-- The settings of one end of a link. Both ends must agree on whether the transport is used; the
others concern this end alone. -/
@[ext]
structure Config where
  /-- The version of the stored form. -/
  version : UInt8 := 1
  transport : Bool := true
  /-- How many data frames may wait for an acknowledgement. -/
  window : UInt8 := 16
  /-- Milliseconds before an unacknowledged data frame is sent again. -/
  retransmitTimeout : UInt32 := 1000
  /-- How often a data frame may be sent again. -/
  maxRetransmits : UInt8 := 8
  /-- Milliseconds between repeated acknowledgements while the peer is sending. -/
  ackInterval : UInt32 := 250
  /-- Milliseconds of silence after which the peer counts as gone. -/
  idleTimeout : UInt32 := 500
  deriving DecidableEq

namespace Config

/-- The version of the stored form that `Config.load` accepts. -/
def currentVersion : UInt8 := 1

def maxWindow : Nat := 16

/-- The longest time. By `elapsed` a longer one could not be told from a short one on the wrapping
clock. -/
def maxTimeout : UInt32 := 2147483647

def standard : Config := {}

/-- The default settings of a link without the reliable transport. -/
def unreliable : Config := { transport := false }

def timeouts (c : Config) : List UInt32 := [c.retransmitTimeout, c.ackInterval, c.idleTimeout]

/-- Checks the window and then the `timeouts`; an error in the window hides one in the times. -/
def validate (c : Config) : Except ConfigError Unit :=
  if c.window = 0 ∨ maxWindow < c.window.toNat then .error .window
  else if ∃ t ∈ c.timeouts, t = 0 ∨ maxTimeout < t then .error .timeout
  else .ok ()

/-- The part of the settings that `RetryPolicy.action` depends on. -/
def retryPolicy (c : Config) : RetryPolicy := ⟨c.retransmitTimeout, c.maxRetransmits⟩

@[simp] theorem validate_standard : standard.validate = .ok () := rfl

@[simp] theorem validate_unreliable : unreliable.validate = .ok () := rfl

end Config

end SerialLink
