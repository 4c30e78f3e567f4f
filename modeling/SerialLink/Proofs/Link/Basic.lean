import SerialLink.Transport.Receive
import SerialLink.Transport.Service

/-!
# Two transports on a line

Two stations, each a transport together with the frames it has written that have not arrived yet.
A station acts by sending, by a tick, by a reset, or by taking the oldest frame on its way to it;
frames on the way may get lost, but they are never reordered and none is made up.

Next to its transport a station remembers its history: the messages accepted from the application,
the frames handed over to it, and what was reported as given up. Frames carry marks that no
transport reads:

- `Packet.index` says which of the writer's messages a data frame stands for,
- `Packet.epoch` and `Packet.heard` say in which numbering it was written.

A station starts a new *epoch* when it restarts numbering by itself; a reset tells the peer of it.
So the numbering that a station is in is given by its own epoch and by the last epoch of the peer
that it has heard of.

Nothing here computes anew what a transport does: `Station.send`, `Station.service`,
`Station.reset` and `Station.receive` call the operations of `Transport` and keep the books with
`Station.record`. `Link.act` is written for the left station only, and `Link.step` serves the right
one through `Link.swap`, so that a one-step lemma has to look at one end. In the modules that follow
an operation is first cut into moves, and the invariants of a `Link.run` are checked on the moves.
-/

namespace SerialLink

/-! ## Messages -/

/-- What the application hands over for reliable delivery. -/
@[ext]
structure Message where
  id : UInt8
  bytes : List UInt8
  deriving DecidableEq

/-- The message of a queued data frame, as `Station.accepted` holds it. -/
def Entry.message (e : Entry) : Message := ⟨e.id, e.payload.bytes⟩

/-- What the application gets of a frame that is handed over to it. Only a data frame is, so the
default of `FrameId.appId?` is never seen. -/
def Frame.message (f : Frame) : Message := ⟨f.id.appId?.getD 0, f.payload.bytes⟩

/-! ## Frames on the way -/

/-- A written frame and what its writer knew. -/
structure Packet where
  frame : Frame
  /-- The place of a data frame's message in the writer's `Station.accepted`; `0` for the rest. -/
  index : Nat
  /-- The writer's `Station.epoch`; a reset announces it. -/
  epoch : Nat
  /-- The last epoch of the reader that the writer had heard of, its `Station.heard`. -/
  heard : Nat
  deriving DecidableEq

/-- A `Packet` that had an effect on its reader, and what the reader knew then. -/
structure Receipt where
  packet : Packet
  /-- The reader's `Station.epoch`. -/
  epoch : Nat
  /-- The last epoch of the writer that the reader had heard of, its `Station.heard`. -/
  heard : Nat
  deriving DecidableEq

namespace Receipt

/-- The frame was written before its writer heard of the reader's last restart. Such a frame is what
makes a sequence number mean two messages. -/
def Stale (x : Receipt) : Prop := x.packet.heard < x.epoch

/-- The frame was written in the numbering that its reader was in: each of the two knew the other's
epoch. So a `Current` receipt is not `Stale`. -/
def Current (x : Receipt) : Prop := x.packet.epoch = x.heard ∧ x.packet.heard = x.epoch

instance (x : Receipt) : Decidable x.Stale := inferInstanceAs (Decidable (_ < _))

instance (x : Receipt) : Decidable x.Current := inferInstanceAs (Decidable (_ ∧ _))

end Receipt

/-! ## Stations -/

/-- A transport with its history. No operation reads the history; `Station.record` writes it. -/
structure Station where
  transport : Transport
  /-- The frames written that have not arrived yet, oldest first. -/
  outgoing : List Packet := []
  /-- The messages that the transport accepted, in order. -/
  accepted : List Message := []
  /-- The data frames handed over to the application, in order. -/
  received : List Receipt := []
  /-- The acknowledgements that took data frames off the queue. -/
  acknowledged : List Receipt := []
  /-- Which of the `accepted` messages were reported as given up, by their places. -/
  reported : List Nat := []
  /-- How many resets were written. -/
  issued : Nat := 0
  /-- The last epoch of the peer that a reset told of. -/
  heard : Nat := 0
  deriving DecidableEq

namespace Station

variable {σ ε : Type} [ByteSink σ ε]

/-- How often numbering was restarted from here: the peer was told, which `issued` counts, or still
has to be, which `resetPending` says. -/
def epoch (s : Station) : Nat := s.issued + if s.transport.resetPending then 1 else 0

/-- How many of the accepted messages are not queued any more. -/
def departed (s : Station) : Nat := s.accepted.length - s.transport.queue.length

/-- The place among the accepted messages of the one queued under a sequence number. That it is the
right one is `Station.Sound.place_eq`. -/
def place (s : Station) (seq : UInt8) : Nat :=
  s.departed + (s.transport.queue.map Entry.seq).idxOf seq

/-! ### Recording what a turn did -/

/-- Puts a frame on its way, with the marks of a `Packet`. A reset that is written is not owed any
more, so the epoch does not change by it. -/
def write (s : Station) (f : Frame) : Station :=
  match f.id with
  | .data _ => { s with outgoing := s.outgoing ++ [⟨f, s.place f.seq, s.epoch, s.heard⟩] }
  | .reset =>
    { s with
      transport := { s.transport with resetPending := false }
      issued := s.issued + 1
      outgoing := s.outgoing ++ [⟨f, 0, s.issued + 1, s.heard⟩] }
  | _ => { s with outgoing := s.outgoing ++ [⟨f, 0, s.epoch, s.heard⟩] }

/-- Records one `Event`. A frame is on its way when it was sent whole; a reset that was not is
owed from then on. -/
def observe (s : Station) : Event ε → Station
  | .attempted f (.ok _) => s.write f
  | .attempted f (.error _) =>
    if f.id = .reset then { s with transport := { s.transport with resetPending := true } } else s
  | .delivered _ => s
  | .abandoned failure => { s with reported := s.reported ++ [s.place failure.seq] }

/-- Records the effects of a turn, one `observe` each. Until its end the queue is taken to be the
one before it, so `place` looks a frame up where the turn found it. -/
def record (s : Station) (events : List (Event ε)) (t : Transport) : Station :=
  { events.foldl observe s with transport := t }

/-! ### Operations -/

def fresh (c : Config) : Station := { transport := .ofConfig c }

/-- The application hands over a message, which `Transport.enqueue` may refuse. -/
def send (s : Station) (m : Message) : Station :=
  match s.transport.enqueue m.id m.bytes with
  | .ok (_, t) => { s with transport := t, accepted := s.accepted ++ [m] }
  | .error _ => s

def service (s : Station) (now : UInt32) (sink : σ) : Station :=
  let turn := s.transport.service now sink
  s.record turn.events turn.transport

/-- A reset that informs the peer, as `Transport.reset` with `true` does. -/
def reset (s : Station) (sink : σ) : Station :=
  let turn := (s.transport.reset true sink).2
  s.record turn.events turn.transport

/-- The data frames that a turn handed over, `p` being the packet that was taken. -/
def handedOver (s : Station) (p : Packet) (events : List (Event ε)) : List Receipt :=
  events.filterMap fun
    | .delivered f => some ⟨{ p with frame := f }, s.epoch, s.heard⟩
    | _ => none

/-- The acknowledgement `p`, if it left fewer data frames queued, `t` being the transport then. -/
def acknowledging (s : Station) (p : Packet) (t : Transport) : List Receipt :=
  if p.frame.id = .ack ∧ t.pending < s.transport.pending then [⟨p, s.epoch, s.heard⟩] else []

/-- Takes a packet from the peer. `Transport.receive` sees its frame only; the marks go into the
history. -/
def receive (s : Station) (now : UInt32) (p : Packet) (sink : σ) : Station :=
  let turn := s.transport.receive now p.frame sink
  let s := { s with
    received := s.received ++ s.handedOver p turn.events
    acknowledged := s.acknowledged ++ s.acknowledging p turn.transport
    heard := if p.frame.id = FrameId.reset then p.epoch else s.heard }
  s.record turn.events turn.transport

end Station

/-! ## The line -/

/-- Two stations on a line. -/
structure Link where
  left : Station
  right : Station
  deriving DecidableEq

inductive Side where
  | left
  | right
  deriving DecidableEq

def Side.other : Side → Side
  | .left => .right
  | .right => .left

/-- What can happen at a station. An action carries the sink that it uses, so the sink may be in any
state each time. -/
inductive Action (σ : Type) where
  | send (m : Message)
  | service (now : UInt32) (sink : σ)
  /-- A reset that informs the peer. -/
  | reset (sink : σ)
  /-- The oldest frame on the way to the station arrives. -/
  | receive (now : UInt32) (sink : σ)
  /-- One of the frames on the way from the station is lost. -/
  | lose (i : Nat)

namespace Link

variable {σ ε : Type} [ByteSink σ ε]

def station (l : Link) : Side → Station
  | .left => l.left
  | .right => l.right

/-- The same line seen from the other end. -/
def swap (l : Link) : Link := ⟨l.right, l.left⟩

def fresh (c₁ c₂ : Config) : Link := ⟨.fresh c₁, .fresh c₂⟩

/-- Something happens at the left station. A frame that arrives is taken off the right station's
`outgoing`, whatever becomes of it. -/
def act (l : Link) : Action σ → Link
  | .send m => { l with left := l.left.send m }
  | .service now sink => { l with left := l.left.service now sink }
  | .reset sink => { l with left := l.left.reset sink }
  | .receive now sink =>
    match l.right.outgoing with
    | [] => l
    | p :: rest => ⟨l.left.receive now p sink, { l.right with outgoing := rest }⟩
  | .lose i => { l with left := { l.left with outgoing := l.left.outgoing.eraseIdx i } }

/-- Something happens at one of the stations, the right one being served through `swap`. -/
def step (l : Link) : Side × Action σ → Link
  | (.left, a) => l.act a
  | (.right, a) => (l.swap.act a).swap

def run (l : Link) (actions : List (Side × Action σ)) : Link := actions.foldl step l

end Link

end SerialLink
