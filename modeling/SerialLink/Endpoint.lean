import SerialLink.Decoder.Basic
import SerialLink.Transport.Receive
import SerialLink.Transport.Service

/-!
# One end of a link

A decoder for the bytes that arrive, a transport, and the sink for the bytes that leave. Application
frames go straight to the application; all others go through the transport, if it is used.

An `Endpoint` adds no protocol of its own to its parts. `receive` pushes the bytes into the decoder
and hands the frames that come out to `dispatch`; `tick` is `Transport.service`; sending is
`Transport.submit` or, past the transport, `transmit`. That nothing else happens to the parts is
shown in `Proofs.Endpoint.Run` for the transport and the sink (`turned_perform`) and in
`Proofs.Endpoint.Bypass` for the decoder (`hears_perform`), so that what holds of a transport or a
decoder in every run also holds of those inside an endpoint. Operations that can fail return the
endpoint all the same; `Proofs.Endpoint.Refusal` says what they leave.
-/

namespace SerialLink

/-- One end of a serial link. -/
structure Endpoint (σ : Type) where
  /-- A number by which the application tells its links apart. -/
  label : UInt8
  config : Config
  decoder : Decoder := .fresh
  transport : Transport := .ofConfig config
  sink : σ
  /-- Application frames received; the counter wraps. -/
  framesReceived : UInt32 := 0
  /-- Other frames dropped because the transport is not used; the counter wraps. -/
  framesDropped : UInt32 := 0

/-- Why an operation of an endpoint failed. -/
inductive LinkError (ε : Type) where
  | transportDisabled
  | queue (error : QueueError)
  | send (error : SendError ε)
  deriving DecidableEq

namespace Endpoint

variable {σ ε ρ ε' : Type} [ByteSink σ ε] [ByteSource ρ ε']

/-! ## Making endpoints -/

/-- An endpoint with the default settings, `Config.standard`. -/
def standard (label : UInt8) (sink : σ) : Endpoint σ := { label, config := .standard, sink }

/-- An endpoint with the given settings, unless `Config.validate` rejects them. -/
def ofConfig (label : UInt8) (config : Config) (sink : σ) : Except ConfigError (Endpoint σ) :=
  match config.validate with
  | .ok () => .ok { label, config, sink }
  | .error e => .error e

omit [ByteSink σ ε] in
/-- The default settings pass the check that other settings are put to. -/
theorem ofConfig_standard (label : UInt8) (sink : σ) :
    ofConfig label .standard sink = .ok (standard label sink) := by
  simp [ofConfig, standard]

/-! ## Receiving -/

/-- Puts the outcome of a transport operation, a `Transport.Turn`, back into the endpoint. -/
def withTurn (e : Endpoint σ) (turn : Transport.Turn σ ε) : Endpoint σ × List (Event ε) :=
  ({ e with transport := turn.transport, sink := turn.sink }, turn.events)

/-- Takes a frame that arrived at `now`. Every frame counts for `isConnected`; an application frame
is delivered, and any other one goes to `Transport.receive` or is dropped. -/
def dispatch (e : Endpoint σ) (now : UInt32) (f : Frame) : Endpoint σ × List (Event ε) :=
  let e := { e with transport := e.transport.noteHeard now }
  match f.id with
  | .app _ => ({ e with framesReceived := e.framesReceived + 1 }, [.delivered f])
  | _ =>
    if e.config.transport then e.withTurn (e.transport.receive now f e.sink)
    else ({ e with framesDropped := e.framesDropped + 1 }, [])

def receiveByte (e : Endpoint σ) (now : UInt32) (b : UInt8) : Endpoint σ × List (Event ε) :=
  let pushed := e.decoder.push b
  let e := { e with decoder := pushed.1 }
  match pushed.2 with
  | .frame f => e.dispatch now f
  | _ => (e, [])

def receive (e : Endpoint σ) (now : UInt32) : List UInt8 → Endpoint σ × List (Event ε)
  | [] => (e, [])
  | b :: rest =>
    let first := e.receiveByte now b
    let others := first.1.receive now rest
    (others.1, first.2 ++ others.2)

/-- The tick of the transport, `Transport.service`, if the transport is used. -/
def tick (e : Endpoint σ) (now : UInt32) : Endpoint σ × List (Event ε) :=
  if e.config.transport then e.withTurn (e.transport.service now e.sink) else (e, [])

/-- Takes bytes that arrived at `now` with `receive`, and then lets the transport `tick`. -/
def poll (e : Endpoint σ) (now : UInt32) (bytes : List UInt8) : Endpoint σ × List (Event ε) :=
  let received := e.receive now bytes
  let ticked := received.1.tick now
  (ticked.1, received.2 ++ ticked.2)

def chunkSize : Nat := 64

/-- The bytes that a read handed over: those reported, but no more than the buffer holds. Where the
source left the buffer alone it is zero. -/
def readBytes (r : Reading) : List UInt8 :=
  (r.bytes ++ List.replicate chunkSize 0).take (min r.count chunkSize)

/-- Polls with one chunk from a source, of `chunkSize` bytes at most. A failed read leaves the
endpoint as it was. -/
def pollSource (e : Endpoint σ) (now : UInt32) (source : ρ) :
    Except ε' Nat × ρ × Endpoint σ × List (Event ε) :=
  match ByteSource.read source chunkSize with
  | (.error failure, source) => (.error failure, source, e, [])
  | (.ok r, source) => (.ok (min r.count chunkSize), source, e.poll now (readBytes r))

/-! ## Sending -/

/-- Queues a payload for reliable delivery: the number that it got or a `LinkError`, and the
endpoint with whatever `Transport.submit` left of its transport. -/
def submit (e : Endpoint σ) (id : UInt8) (payload : List UInt8) :
    Except (LinkError ε) UInt8 × Endpoint σ :=
  if e.config.transport then
    let (result, transport) := e.transport.submit id payload
    let result := match result with
      | .ok seq => .ok seq
      | .error failure => .error (.queue failure)
    (result, { e with transport })
  else (.error .transportDisabled, e)

/-- `submit` for a caller that goes on only behind a payload that was queued, as `Transport.enqueue`
is for a transport. -/
def sendReliable (e : Endpoint σ) (id : UInt8) (payload : List UInt8) :
    Except (LinkError ε) (UInt8 × Endpoint σ) :=
  match e.submit id payload with
  | (.ok seq, e) => .ok (seq, e)
  | (.error failure, _) => .error failure

/-- Sends a payload once, now, in an application frame. It goes to the sink directly and does not
concern the transport. -/
def sendUnreliable (e : Endpoint σ) (id : UInt8) (payload : List UInt8) :
    Except (LinkError ε) Unit × Endpoint σ × List (Event ε) :=
  match Frame.app id payload with
  | .error failure => (.error (.send (.frame failure)), e, [])
  | .ok f =>
    let sent := transmit e.sink f
    let result := match sent.1 with
      | .ok _ => .ok ()
      | .error failure => .error (.send failure)
    (result, { e with sink := sent.2 }, [.attempted f sent.1])

/-- Gives up all queued data frames and restarts numbering, with `Transport.reset`; with `inform`
the peer is told. -/
def resetTransport (e : Endpoint σ) (inform : Bool) :
    Except (LinkError ε) Unit × Endpoint σ × List (Event ε) :=
  if e.config.transport then
    let (result, turn) := e.transport.reset inform e.sink
    let result := match result with
      | .ok () => .ok ()
      | .error failure => .error (.send failure)
    (result, e.withTurn turn)
  else (.error .transportDisabled, e, [])

/-! ## Views -/

/-- Whether any valid frame arrived within the idle timeout: `Transport.isConnected`. It is kept up
also where the transport is not used. -/
def isConnected (e : Endpoint σ) (now : UInt32) : Bool := e.transport.isConnected now

end Endpoint

end SerialLink
