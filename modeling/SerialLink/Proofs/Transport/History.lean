import SerialLink.Proofs.Transport.Invariant

/-!
# The history of a transport

What became of the messages that were handed to a transport: which of them were accepted, which left
the queue and in what way, and what was reported to the application. A log tells in order which
frames were written whole and when numbering was restarted. The transport reads none of it.

A `History` is a transport with these records beside it, and `History.perform` fills them from the
transport before an operation, the one after it and the events between; `History.run` does so for a
list of them. `Proofs.Transport.Fate` relates `accepted`, `departed` and `reported` to the queue,
and `Proofs.Transport.Discipline` the `log`. Messages go by their place among those accepted, since
their sequence numbers start anew with every restart.
-/

namespace SerialLink

variable {σ ε : Type}

/-! ## Records -/

/-- A queued frame that left the queue, as it stood there before. -/
structure Departure where
  entry : Entry
  /-- Whether an acknowledgement took it off. -/
  acked : Bool
  deriving DecidableEq

/-- What the log of a transport tells. Messages go by their place among those accepted. -/
inductive Mark where
  /-- A data frame that carries this message was written whole. -/
  | data (index : Nat) (f : Frame)
  /-- An acknowledgement took this message off the queue. -/
  | acked (index : Nat)
  /-- A frame ran out of retries. -/
  | gaveUp
  /-- The application asked for a reset. -/
  | resetCalled (inform : Bool)
  /-- A reset was written whole. -/
  | resetWritten
  /-- A reset arrived. -/
  | resetHeard
  deriving DecidableEq

namespace Event

/-- The failure that an `abandoned` event reports. -/
def failure? : Event ε → Option DeliveryFailure
  | .abandoned x => some x
  | _ => none

end Event

/-- The failures reported, in order. -/
def failures (events : List (Event ε)) : List DeliveryFailure := events.filterMap Event.failure?

namespace Transport.Operation

/-- Whether an acknowledgement arrives. -/
def isAck : Operation σ → Bool
  | .receive _ f _ => f.id = .ack
  | _ => false

/-- The message that the transport accepts in an operation: the one of a `send` that `enqueue` does
not refuse. -/
def accepted (t : Transport) : Operation σ → List Message
  | .send m =>
    match t.enqueue m.id m.bytes with
    | .ok _ => [m]
    | .error _ => []
  | _ => []

/-- What the log says of an operation, whatever comes of it. -/
def mark? : Operation σ → Option Mark
  | .receive _ f _ => if f.id = .reset then some .resetHeard else none
  | .reset inform _ => some (.resetCalled inform)
  | _ => none

end Transport.Operation

/-! ## Histories -/

/-- A `Transport` and what happened to it. -/
structure History where
  transport : Transport
  /-- The messages accepted, in order. -/
  accepted : List Message := []
  /-- The entries that left the queue, in order. -/
  departed : List Departure := []
  /-- The failures reported, in order. -/
  reported : List DeliveryFailure := []
  /-- What happened, latest first. -/
  log : List Mark := []
  deriving DecidableEq

namespace History

/-- The place among the accepted messages of the one queued under a sequence number. -/
def place (h : History) (seq : UInt8) : Nat :=
  h.departed.length + (h.transport.queue.map Entry.seq).idxOf seq

/-- What the log says of an event. The message of a data frame is looked up, by its `place`, in the
queue before the operation. -/
def mark? (h : History) : Event ε → Option Mark
  | .attempted f (.ok _) =>
    match f.id with
    | .data _ => some (.data (h.place f.seq) f)
    | .reset => some .resetWritten
    | .ack | .app _ => none
  | .abandoned x => if x.reason = .retriesExhausted then some .gaveUp else none
  | .attempted _ (.error _) | .delivered _ => none

/-- The entries that left the queue on the way to `t`: those at its front. -/
def left (h : History) (t : Transport) : List Entry :=
  h.transport.queue.take (h.transport.pending - t.pending)

/-- The marks of an operation with these events, in order. -/
def marks (h : History) (op : Transport.Operation σ) (events : List (Event ε)) (t : Transport) :
    List Mark :=
  let acked := if op.isAck then List.range' h.departed.length (h.left t).length else []
  op.mark?.toList ++ acked.map .acked ++ events.filterMap h.mark?

variable [ByteSink σ ε]

/-- Records an operation, which itself is `Transport.perform`. -/
def perform (h : History) (op : Transport.Operation σ) : History :=
  let (t, events) := h.transport.perform op
  { transport := t
    accepted := h.accepted ++ op.accepted h.transport
    departed := h.departed ++ (h.left t).map (⟨·, op.isAck⟩)
    reported := h.reported ++ failures events
    log := (h.marks op events t).reverse ++ h.log }

/-- The history of a new transport after operations in order. -/
def run (c : Config) (ops : List (Transport.Operation σ)) : History :=
  ops.foldl perform { transport := .ofConfig c }

end History

end SerialLink
