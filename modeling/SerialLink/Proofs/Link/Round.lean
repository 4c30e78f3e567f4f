import SerialLink.Proofs.Link.Course
import SerialLink.Proofs.Transport.Space

/-!
# Clean rounds on a line

As long as no sink refuses a frame and no frame gets lost, whatever a station does takes the
messages of both ways further along their course: those that it sends and those that it is sent.

`Link.Underway` puts the `Course` of the module before on a line, with one station as the writer
and the other as the reader, and `Underway.receive` is its step lemma for a frame that arrives,
whichever station takes it. The modules on recovery and on restarting add the ticks and messages
that their rounds have.

That no sink refuses a frame is `Link.Roomy`, a condition on what happens in the course of the
actions. It is met where the sinks have room: `Spacious` asks this of the sinks alone, and
`roomy_of_spacious` derives `Roomy` from it for any line whose transports are
`Transport.Regular`, by `Regular.unrefused_perform` at each step and `regular_step` between them.
-/

namespace SerialLink

variable {σ ε : Type} [ByteSink σ ε]

/-- A side is `x` or the other one: the case split of all that is said of both sides. -/
theorem Side.eq_or_eq_other (x y : Side) : y = x ∨ y = x.other := by
  cases x <;> cases y <;> simp [Side.other]

@[simp]
theorem Side.other_other (x : Side) : x.other.other = x := by
  cases x <;> rfl

@[simp]
theorem Side.other_ne (x : Side) : x.other ≠ x := by
  cases x <;> decide

/-- An acknowledgement takes as many frames off the queue as it is ahead of `oldest`, as long as
these are on their way. -/
theorem Transport.queue_onAck {t : Transport} {oldest : UInt8} {n : Nat}
    (hpending : ¬ t.resetPending) (hnumbered : Consecutive oldest t.queue t.nextSeq)
    (hle : n ≤ t.inFlight) (hlt : n < 256) :
    (t.onAck (oldest + n.toUInt8)).queue = t.queue.drop n := by
  have hacked : (oldest + n.toUInt8 - t.oldestSeq).toNat = n := by
    have hsub : oldest + n.toUInt8 - oldest = n.toUInt8 := by grind
    rw [hnumbered.oldestSeq_eq, hsub, Nat.toUInt8_eq, UInt8.toNat_ofNat', Nat.mod_eq_of_lt hlt]
  unfold onAck
  simp only [hacked]
  rw [if_neg (not_or.mpr ⟨hpending, Nat.not_lt.mpr hle⟩)]
  rfl

namespace Station

variable {first : UInt8} {before kept : List Message} {served : Bool} {s r : Station} {p : Packet}
  {rest : List Packet} {now : UInt32} {sink : σ}

/-- The reader takes the oldest frame on its way to it: a data frame is `Course.take`, and an
acknowledgement does not concern this direction. -/
theorem reader_takes (h : Course first before kept served s.writer r.reader)
    (hs : s.Calm) (hout : s.outgoing = p :: rest)
    (hsent : Unrefused (r.transport.receive now p.frame sink).events) :
    Course first before kept served (writer { s with outgoing := rest })
      (r.receive now p sink).reader := by
  rcases hs.outgoing p (hout ▸ List.mem_cons_self ..) with ⟨id, hid⟩ | hid
  · -- A data frame arrives at the end of its way.
    obtain ⟨hwriter, -⟩ := views_data hout hid
    obtain ⟨-, hreader, -⟩ := r.receive_data_views hid hsent
    rw [hwriter] at h
    rw [hreader]
    exact h.take
  · -- The acknowledgement is of messages that go the other way.
    obtain ⟨hwriter, -⟩ := views_ack hout hid
    obtain ⟨-, hreader, -⟩ := r.receive_ack_views hid now sink
    rwa [hwriter, hreader]

/-- The writer takes the oldest frame on its way to it: an acknowledgement is `Course.release`, and
a data frame does not concern this direction. -/
theorem writer_takes (h : Course first before kept served s.writer r.reader) (hs : s.Calm)
    (hr : r.Calm) (hout : r.outgoing = p :: rest)
    (hsent : Unrefused (s.transport.receive now p.frame sink).events) :
    Course first before kept served (s.receive now p sink).writer
      (reader { r with outgoing := rest }) := by
  rcases hr.outgoing p (hout ▸ List.mem_cons_self ..) with ⟨id, hid⟩ | hid
  · obtain ⟨-, hreader⟩ := views_data hout hid
    obtain ⟨hwriter, -⟩ := s.receive_data_views hid hsent
    rwa [hwriter, hreader]
  · obtain ⟨-, hreader⟩ := views_ack hout hid
    obtain ⟨hwriter, -⟩ := s.receive_ack_views hid now sink
    rw [hreader] at h
    obtain ⟨oldest, n, hnumbered, hseq, hle, hlt, h'⟩ := h.release
    rw [hwriter, hseq, Transport.queue_onAck hs.pending hnumbered hle hlt]
    exact h'

/-- No frame that is `Numbered` makes a station owe a reset. -/
theorem calm_receive (hr : r.Calm) (hs : s.Calm) (hout : s.outgoing = p :: rest)
    (hsent : Unrefused (r.transport.receive now p.frame sink).events) :
    (r.receive now p sink).Calm := by
  rcases hs.outgoing p (hout ▸ List.mem_cons_self ..) with ⟨id, hid⟩ | hid
  · exact (r.receive_data_views hid hsent).2.2 hr
  · exact (r.receive_ack_views hid now sink).2.2 hr

end Station

namespace Station

theorem transport_reset (s : Station) (sink : σ) :
    (s.reset sink).transport = (s.transport.reset true sink).2.transport := by
  simp only [reset, record]

theorem regular_send {s : Station} (h : s.transport.Regular) (m : Message) :
    (s.send m).transport.Regular := by
  unfold send
  cases hsend : s.transport.enqueue m.id m.bytes with
  | error failure => exact h
  | ok queued =>
    have hreg := h.perform (σ := TxQueue 0) (.send m)
    simpa only [Transport.perform_send, hsend] using hreg

end Station

/-- The sink that an action is given, if it needs one. -/
def Action.sink? : Action σ → Option σ
  | .send _ | .lose _ => none
  | .service _ sink | .reset sink | .receive _ sink => some sink

namespace Link

/-! ## Sinks that refuse nothing -/

/-- What an action does at its station: the events of the turn that `Link.step` records. -/
def effects (l : Link) : Side × Action σ → List (Event ε)
  | (side, .service now sink) => ((l.station side).transport.service now sink).events
  | (side, .reset sink) => ((l.station side).transport.reset true sink).2.events
  | (side, .receive now sink) =>
    match (l.station side.other).outgoing with
    | [] => []
    | p :: _ => ((l.station side).transport.receive now p.frame sink).events
  | (_, .send _) | (_, .lose _) => []

/-- No sink refuses a frame in the course of the actions: at each step the `effects` are
`Unrefused`. Holds where there is room, by `roomy_of_spacious`. -/
def Roomy (l : Link) : List (Side × Action σ) → Prop
  | [] => True
  | a :: rest => Unrefused (l.effects a) ∧ (l.step a).Roomy rest

instance decidableRoomy (l : Link) : (actions : List (Side × Action σ)) →
    Decidable (l.Roomy actions)
  | [] => inferInstanceAs (Decidable True)
  | a :: rest =>
    have := decidableRoomy (l.step a) rest
    inferInstanceAs (Decidable (Unrefused (l.effects a) ∧ (l.step a).Roomy rest))

/-- Every sink that is used has room for whatever a transport tries to send in one operation, which
is no more than `Transport.framesPerTurn` frames. -/
def Spacious (actions : List (Side × Action σ)) : Prop :=
  ∀ a ∈ actions, ∀ sink ∈ a.2.sink?, RoomFor Transport.framesPerTurn sink

/-- `Roomy` of a round can be cut where the round has two parts. -/
theorem roomy_append {l : Link} {actions more : List (Side × Action σ)} :
    l.Roomy (actions ++ more) ↔ l.Roomy actions ∧ (l.run actions).Roomy more := by
  induction actions generalizing l with
  | nil => simp [Roomy, run]
  | cons a actions ih =>
    simp only [List.cons_append, Roomy, ih, run, List.foldl_cons, and_assoc]

/-! ## Room enough -/

section room

variable {l : Link} (h : ∀ side, (l.station side).transport.Regular)

include h

/-- Whatever happens at the left station, both transports stay `Transport.Regular`. -/
theorem regular_act (a : Action σ) : ∀ side, ((l.act a).station side).transport.Regular := by
  have hleft : l.left.transport.Regular := h .left
  have hright : l.right.transport.Regular := h .right
  -- Each action is one operation of the left transport, or none; the right one does nothing.
  cases a with
  | send m =>
    rintro (_ | _)
    · exact Station.regular_send hleft m
    · exact hright
  | service now sink =>
    rintro (_ | _)
    · exact hleft.perform (.service now sink)
    · exact hright
  | reset sink =>
    have hreset : (l.left.reset sink).transport.Regular := by
      rw [Station.transport_reset]
      exact hleft.effect (l.left.transport.reset_effect true sink)
    rintro (_ | _)
    · exact hreset
    · exact hright
  | receive now sink =>
    unfold act
    dsimp only
    split
    · exact h
    · next p rest hout =>
      rintro (_ | _)
      · exact hleft.perform (.receive now p.frame sink)
      · exact hright
  | lose i =>
    rintro (_ | _)
    · exact hleft
    · exact hright

/-- The transports stay `Transport.Regular`, at whichever station something happens. -/
theorem regular_step (a : Side × Action σ) :
    ∀ side, ((l.step a).station side).transport.Regular := by
  obtain ⟨_ | _, a⟩ := a
  · exact regular_act h a
  · -- Seen from the other end, it happens at the left station.
    have hswap : ∀ side, (l.swap.station side).transport.Regular := by
      rintro (_ | _)
      · exact h .right
      · exact h .left
    rintro (_ | _)
    · exact regular_act hswap a .right
    · exact regular_act hswap a .left

theorem regular_run (actions : List (Side × Action σ)) :
    ∀ side, ((l.run actions).station side).transport.Regular := by
  induction actions generalizing l with
  | nil => exact h
  | cons a rest ih => exact ih (regular_step h a)

/-- One action whose sink has room: an operation of the transport, or none. -/
theorem unrefused_effects {a : Side × Action σ}
    (hroom : ∀ sink ∈ a.2.sink?, RoomFor Transport.framesPerTurn sink) :
    Unrefused (l.effects a) := by
  obtain ⟨side, a⟩ := a
  cases a with
  | send m => exact fun x hx => absurd hx List.not_mem_nil
  | lose i => exact fun x hx => absurd hx List.not_mem_nil
  | service now sink =>
    have hsent : Unrefused ((l.station side).transport.perform (.service now sink)).2 :=
      (h side).unrefused_perform hroom
    exact hsent
  | reset sink =>
    have hsent : Unrefused ((l.station side).transport.perform (.reset true sink)).2 :=
      (h side).unrefused_perform hroom
    exact hsent
  | receive now sink =>
    unfold effects
    dsimp only
    split
    · exact fun x hx => absurd hx List.not_mem_nil
    · next p rest hout =>
      have hsent : Unrefused ((l.station side).transport.perform (.receive now p.frame sink)).2 :=
        (h side).unrefused_perform hroom
      exact hsent

/-- **Where there is room, no sink refuses a frame.** The condition `Spacious` is on the sinks
alone; what the two transports went through before does not matter. -/
theorem roomy_of_spacious {actions : List (Side × Action σ)} (hroom : Spacious actions) :
    l.Roomy actions := by
  -- Each action brings its sink, so only `Regular` has to be carried along.
  induction actions generalizing l with
  | nil => trivial
  | cons a rest ih =>
    obtain ⟨hfirst, hothers⟩ := List.forall_mem_cons.mp hroom
    exact ⟨unrefused_effects h hfirst, ih (regular_step h a) hothers⟩

end room

/-! ## Steps seen from the acting side -/

variable {l : Link} {x : Side} {p : Packet} {rest : List Packet}

/-- A message concerns the station that sends it only. -/
theorem step_send (l : Link) (x : Side) (m : Message) :
    (l.step (σ := σ) (x, .send m)).station x = (l.station x).send m ∧
      (l.step (σ := σ) (x, .send m)).station x.other = l.station x.other := by
  cases x <;> exact ⟨rfl, rfl⟩

theorem step_service (l : Link) (x : Side) (now : UInt32) (sink : σ) :
    (l.step (x, .service now sink)).station x = (l.station x).service now sink ∧
      (l.step (x, .service now sink)).station x.other = l.station x.other := by
  cases x <;> exact ⟨rfl, rfl⟩

/-- A frame that arrives leaves the line of the other station. -/
theorem step_receive (hout : (l.station x.other).outgoing = p :: rest) (now : UInt32) (sink : σ) :
    (l.step (x, .receive now sink)).station x = (l.station x).receive now p sink ∧
      (l.step (x, .receive now sink)).station x.other =
        { l.station x.other with outgoing := rest } := by
  cases x
  · have hout' : l.right.outgoing = p :: rest := hout
    simp only [step, act, hout']
    exact ⟨rfl, rfl⟩
  · have hout' : l.left.outgoing = p :: rest := hout
    simp only [step, act, swap, hout']
    exact ⟨rfl, rfl⟩

theorem step_receive_nil (hout : (l.station x.other).outgoing = []) (now : UInt32) (sink : σ) :
    l.step (x, .receive now sink) = l := by
  cases x
  · have hout' : l.right.outgoing = [] := hout
    simp only [step, act, hout']
  · have hout' : l.left.outgoing = [] := hout
    simp only [step, act, swap, hout']

theorem effects_receive (hout : (l.station x.other).outgoing = p :: rest) (now : UInt32)
    (sink : σ) :
    l.effects (x, .receive now sink) =
      ((l.station x).transport.receive now p.frame sink).events := by
  simp only [effects, hout]

/-! ## The course of the messages one way -/

/-- How far the messages of one station have come: the `Course` with it as the writer and the other
station as the reader. -/
def Underway (first : UInt8) (before kept : List Message) (served : Bool) (l : Link) (side : Side) :
    Prop :=
  Course first before kept served (l.station side).writer (l.station side.other).reader

/-- No reset is due or on its way at either station, so all frames on the line are `Numbered`. -/
def Calm (l : Link) : Prop := ∀ side, (l.station side).Calm

theorem Calm.of_sides {l : Link} {x : Side} (h : (l.station x).Calm)
    (h' : (l.station x.other).Calm) : l.Calm := by
  intro y
  obtain rfl | rfl := x.eq_or_eq_other y
  · exact h
  · exact h'

section receive

variable {first : UInt8} {before kept : List Message} {served : Bool} {side : Side} {now : UInt32}
  {sink : σ} (hcalm : l.Calm) (hroom : Unrefused (l.effects (x, .receive now sink)))

include hcalm hroom

theorem Calm.receive : (l.step (x, .receive now sink)).Calm := by
  cases hout : (l.station x.other).outgoing with
  | nil => rwa [step_receive_nil hout]
  | cons p rest =>
    obtain ⟨hself, hother⟩ := step_receive hout now sink
    rw [effects_receive hout] at hroom
    refine .of_sides (x := x) ?_ ?_
    · rw [hself]
      exact Station.calm_receive (hcalm x) (hcalm x.other) hout hroom
    · rw [hother]
      exact (hcalm x.other).tail hout

/-- **Whichever station takes a frame, the messages that go either way come further.** It is the
writer of the one way and the reader of the other. -/
theorem Underway.receive (h : l.Underway first before kept served side) :
    (l.step (x, .receive now sink)).Underway first before kept served side := by
  cases hout : (l.station x.other).outgoing with
  | nil => rwa [step_receive_nil hout]
  | cons p rest =>
    obtain ⟨hself, hother⟩ := step_receive hout now sink
    rw [effects_receive hout] at hroom
    unfold Underway at h ⊢
    obtain rfl | rfl := x.eq_or_eq_other side
    · rw [hself, hother]
      exact Station.writer_takes h (hcalm side) (hcalm side.other) hout hroom
    · rw [Side.other_other] at h ⊢
      rw [hself, hother]
      exact Station.reader_takes h (hcalm x.other) hout hroom

end receive

end Link

end SerialLink
