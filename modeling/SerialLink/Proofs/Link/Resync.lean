import SerialLink.Proofs.Link.Round
import SerialLink.Proofs.Transport.Fate

/-!
# Restarting a quiet line

Two transports that no longer agree on anything start anew with one reset, if no frame is on its
way: the reset leaves nothing of the old numbering at either end. What was not sent before is kept
by the side that the reset tells, and one clean round brings it across, like all that is queued
after the reset.

Unlike recovery, this assumes nothing about how the two transports came to be where they are: each
is reached by operations of its own, and only `Transport.Regular` is used of it. The reset itself is
seen as `Restarted`, a state with nothing said yet, from the views of a station that writes or takes
one (`reset_views`, `receive_reset_views`). From there both ways are `Waiting`, and `Crossing` is
the invariant of the round: both courses together, since a station sends in one way and answers in
the other. A `Round` may be interleaved in any order, and `Crossing.run` goes through it by
induction; `Course.finish` does the rest.
-/

namespace SerialLink

variable {σ ε : Type} [ByteSink σ ε]

/-! ## A round at one station -/

/-- What a station does in a round: it sends messages until it ticks, once, and takes frames at any
time. The tick is still to come unless the station has `served`, as in `Course`. -/
inductive Round {σ : Type} : Bool → List (Action σ) → Prop where
  | done : Round true []
  | send {rest : List (Action σ)} (m : Message) (h : Round false rest) :
      Round false (.send m :: rest)
  | service {rest : List (Action σ)} (now : UInt32) (sink : σ) (h : Round true rest) :
      Round false (.service now sink :: rest)
  | receive {served : Bool} {rest : List (Action σ)} (now : UInt32) (sink : σ)
      (h : Round served rest) : Round served (.receive now sink :: rest)

/-- What one of the stations does in a run of both, so that a `Round` is asked of each by itself. -/
def actionsOf {σ : Type} (side : Side) (actions : List (Side × Action σ)) : List (Action σ) :=
  actions.filterMap fun (x, a) => if x = side then some a else none

theorem actionsOf_self {σ : Type} (x : Side) (a : Action σ) (rest : List (Side × Action σ)) :
    actionsOf x ((x, a) :: rest) = a :: actionsOf x rest := by
  simp [actionsOf]

theorem actionsOf_other {σ : Type} (x : Side) (a : Action σ) (rest : List (Side × Action σ)) :
    actionsOf x.other ((x, a) :: rest) = actionsOf x.other rest := by
  simp [actionsOf, x.other_ne.symm]

namespace Link

/-! ## A round at both stations -/

variable {kept : Side → List Message} {served : Side → Bool} {l : Link} {x : Side} {now : UInt32}
  {sink : σ}

/-- The state of a line in a clean round: how far the messages of both ways have come. Numbering has
just been restarted, so both courses count from zero and nothing was read before. -/
structure Crossing (kept : Side → List Message) (served : Side → Bool) (l : Link) : Prop where
  regular : ∀ side, (l.station side).transport.Regular
  calm : l.Calm
  underway : ∀ side, l.Underway 0 [] (kept side) (served side) side

namespace Crossing

/-- A message that is sent before the tick joins those that wait. -/
theorem send (h : Crossing kept served l) (hserved : served x = false) (m : Message) :
    Crossing kept served (l.step (σ := σ) (x, .send m)) := by
  obtain ⟨hself, hother⟩ := l.step_send (σ := σ) x m
  obtain ⟨hwriter, hreader, hcalm⟩ := (l.station x).send_views m
  refine ⟨regular_step h.regular _, .of_sides (x := x) ?_ ?_, ?_⟩
  · exact hself ▸ hcalm (h.calm x)
  · exact hother ▸ h.calm x.other
  · intro side
    have hside := h.underway side
    unfold Underway at hside ⊢
    obtain rfl | rfl := x.eq_or_eq_other side
    · -- The message joins those that wait, unless it is refused.
      rw [hself, hother]
      rcases hwriter with heq | ⟨e, hseq, hunsent, hjoin⟩
      · rwa [heq]
      · rw [hserved] at hside ⊢
        rw [hjoin]
        exact .waiting (hside.toWaiting.join hseq hunsent)
    · rw [Side.other_other] at hside ⊢
      rwa [hself, hother, hreader]

/-- The tick of a station: `Course.sendAll` for what it sends, and for what it is sent at most an
answer that is repeated. -/
theorem service (h : Crossing kept served l) (hserved : served x = false)
    (hsent : Unrefused (l.effects (x, .service now sink))) :
    Crossing kept (fun y => y = x || served y) (l.step (x, .service now sink)) := by
  obtain ⟨hself, hother⟩ := l.step_service x now sink
  have hx := h.underway x
  rw [hserved] at hx
  -- All that is queued was never sent, and so it is due.
  have hdue : ∀ e ∈ (l.station x).transport.queue, e.Due (l.station x).transport.policy now :=
    fun e he => Entry.due_of_unsent (hx.toWaiting.unsent e he) _ _
  obtain ⟨hwriter, hreader, hcalm⟩ := Station.service_views (h.calm x) hdue hsent
  refine ⟨regular_step h.regular _, .of_sides (x := x) ?_ ?_, ?_⟩
  · exact hself ▸ hcalm
  · exact hother ▸ h.calm x.other
  · intro side
    have hside := h.underway side
    unfold Underway at hx hside ⊢
    obtain rfl | rfl := x.eq_or_eq_other side
    · have hlen := Nat.le_trans (h.regular side).length_le (h.regular side).window_le
      rw [hself, hother, hwriter]
      simpa using hx.sendAll hlen now
    · rw [Side.other_other] at hside ⊢
      simp only [hself, hother, x.other_ne, decide_false, Bool.false_or]
      rcases hreader with heq | heq
      · rwa [heq]
      · rw [heq]
        exact hside.answer

/-- A frame arrives: `Underway.receive` for both ways. -/
theorem receive (h : Crossing kept served l)
    (hsent : Unrefused (l.effects (x, .receive now sink))) :
    Crossing kept served (l.step (x, .receive now sink)) :=
  ⟨regular_step h.regular _, h.calm.receive hsent,
    fun side => (h.underway side).receive h.calm hsent⟩

/-- A round at both stations, in any interleaving. Which of the three steps comes next is read off
the `Round` of the station that acts. -/
theorem run {actions : List (Side × Action σ)} (h : Crossing kept served l)
    (hround : ∀ side, Round (served side) (actionsOf side actions)) (hroom : l.Roomy actions) :
    Crossing kept (fun _ => true) (l.run actions) := by
  -- By induction on the actions, `served` telling for each station whether it has had its tick.
  induction actions generalizing served l with
  | nil =>
    -- A round that is over has had its tick.
    have hserved : served = fun _ => true := by
      funext side
      have hdone : Round (served side) ([] : List (Action σ)) := hround side
      generalize served side = b at hdone
      cases hdone
      rfl
    exact hserved ▸ h
  | cons a actions ih =>
    obtain ⟨x, a⟩ := a
    obtain ⟨hsent, hroom⟩ := hroom
    have hself := hround x
    have hother := hround x.other
    rw [actionsOf_self] at hself
    rw [actionsOf_other] at hother
    -- The other station is as far in its round as before.
    have hrounds : ∀ served' : Side → Bool, served' x.other = served x.other →
        Round (served' x) (actionsOf x actions) →
        ∀ side, Round (served' side) (actionsOf side actions) := by
      intro served' heq hx side
      obtain rfl | rfl := x.eq_or_eq_other side
      · exact hx
      · exact heq ▸ hother
    generalize hb : served x = b at hself
    cases hself with
    | send m hrest => exact ih (h.send hb m) (hrounds served rfl (hb ▸ hrest)) hroom
    | service now sink hrest =>
      exact ih (h.service hb hsent) (hrounds _ (by simp) (by simpa using hrest)) hroom
    | receive now sink hrest =>
      exact ih (h.receive hsent) (hrounds served rfl (hb ▸ hrest)) hroom

end Crossing

end Link

/-! ## A reset -/

namespace Station

variable {s : Station} {p : Packet}

theorem writer_silent (s : Station) :
    writer { s with outgoing := [] } = { s.writer with data := [] } := rfl

theorem reader_silent (s : Station) :
    reader { s with outgoing := [] } = { s.reader with acks := [] } := rfl

/-- A reset that is written leaves nothing queued and nothing of the old numbering. What it writes
is known from `Transport.reset_written`. -/
theorem reset_views (s : Station) {sink : σ} {n : Nat}
    (hsent : (transmit sink Frame.reset).1 = .ok n) :
    (s.reset sink).writer = { s.writer with queue := [], nextSeq := 0 } ∧
      (s.reset sink).reader = { s.reader with expected := 0 } ∧
      ¬ (s.reset sink).transport.resetPending ∧
      (s.reset sink).outgoing.map Packet.frame = s.outgoing.map Packet.frame ++ [Frame.reset] := by
  -- The reset is all that is written, and the queue is empty behind it.
  obtain ⟨hwritten, hu⟩ := Transport.reset_written (t := s.transport) hsent
  unfold reset
  simp only
  refine ⟨?_, ?_, ?_, ?_⟩
  · rw [writer_record, hwritten, hu.queue, hu.nextSeq]
    simp [writer, Frame.isData, Frame.reset, Transport.renew]
  · rw [reader_record, hwritten, hu.expected]
    simp [reader, Frame.acked?, Frame.reset, Transport.renew]
  · have hpending := hu.resetPending
    simp only [record, hpending]
    simp [Transport.renew]
  · rw [record_outgoing, hwritten]

/-- A reset that arrives leaves what was never sent, which is `Transport.kept`, and nothing of the
old numbering. -/
theorem receive_reset_views (s : Station) (hid : p.frame.id = .reset) (now : UInt32) (sink : σ) :
    (s.receive now p sink).writer = { s.writer with
        queue := Transport.kept s.transport.queue
        nextSeq := (Transport.kept s.transport.queue).length.toUInt8 } ∧
      (s.receive now p sink).reader = { s.reader with expected := 0 } ∧
      ¬ (s.receive now p sink).transport.resetPending ∧
      (s.receive now p sink).outgoing.map Packet.frame = s.outgoing.map Packet.frame := by
  have hevents : (s.transport.receive now p.frame sink).events =
      (Transport.lost s.transport.queue none).map .abandoned := by
    simp only [Transport.receive, hid, Transport.onReset, Transport.resync]
  have hu : Transport.Unmoved (s.transport.renew (Transport.kept s.transport.queue)
      (Transport.lost s.transport.queue none).length false)
      (s.transport.receive now p.frame sink).transport := by
    simp only [Transport.receive, hid, Transport.onReset, Transport.resync, Transport.restart_eq]
    exact .of_core rfl
  -- Reports are not handed over, and nothing is written.
  have hnone : s.handedOver p (s.transport.receive now p.frame sink).events = [] := by
    rw [hevents]
    simp [handedOver]
  unfold receive
  simp only
  rw [hnone]
  refine ⟨?_, ?_, ?_, ?_⟩
  · rw [writer_record, hevents, written_abandoned, hu.queue, hu.nextSeq]
    simp [writer, Transport.renew]
  · rw [reader_record, hevents, written_abandoned, hu.expected]
    simp [reader, Transport.renew]
  · have hpending := hu.resetPending
    simp only [record, hpending]
    simp [Transport.renew]
  · rw [record_outgoing, hevents, written_abandoned, List.append_nil]

/-- Numbering has started anew with the frames `q` queued, `renumbered` from zero, and nothing was
said since. -/
structure Restarted (q : List Entry) (s : Station) : Prop where
  writer : s.writer = ⟨renumbered q, q.length.toUInt8, [], []⟩
  reader : s.reader = ⟨0, [], []⟩
  pending : ¬ s.transport.resetPending
  outgoing : s.outgoing = []

namespace Restarted

variable {q q' : List Entry} {r : Station}

theorem queue (h : Restarted q s) : s.transport.queue = renumbered q :=
  congrArg Writer.queue h.writer

theorem calm (h : Restarted q s) : s.Calm := ⟨h.pending, by simp [h.outgoing]⟩

/-- All that is queued is `Waiting`, for a reader that has restarted as well. -/
theorem waiting (h : Restarted q s) (h' : Restarted q' r) :
    Waiting 0 [] (s.transport.queue.map Entry.message) s.writer r.reader := by
  rw [h.queue, h.writer, h'.reader]
  exact
    { numbered := consecutive_renumbered q
      held := by simp
      unsent := fun _ he => not_isSent_renumbered he
      data := rfl
      expected := rfl
      messages := rfl
      acks := by simp }

end Restarted

end Station

namespace Link

/-- A line on which nothing was said yet, whatever the two transports went through before. Histories
start here, so `Station.accepted` holds what is sent from now on. -/
def quiet (a b : Transport) : Link := ⟨{ transport := a }, { transport := b }⟩

theorem regular_quiet {a b : Transport} (ha : a.Regular) (hb : b.Regular) :
    ∀ side, ((quiet a b).station side).transport.Regular := by
  rintro (_ | _)
  · exact ha
  · exact hb

/-- Whatever two transports went through before, no sink refuses a frame of a round between them
where there is room. So the hypothesis `Roomy` on a round below holds of all `Spacious` sinks. -/
theorem roomy_quiet (c₁ c₂ : Config) (ops₁ ops₂ : List (Transport.Operation σ))
    (actions : List (Side × Action σ)) {more : List (Side × Action σ)} (hroom : Spacious more) :
    ((quiet ((Transport.ofConfig c₁).run ops₁) ((Transport.ofConfig c₂).run ops₂)).run
      actions).Roomy more := by
  have ha := (Transport.regular_ofConfig c₁).run (ε := ε) ops₁
  have hb := (Transport.regular_ofConfig c₂).run (ε := ε) ops₂
  exact roomy_of_spacious (regular_run (regular_quiet ha hb) actions) hroom

section reset

variable {a b : Transport} {l : Link} {sink sink' : σ} {n : Nat} {now : UInt32}
  (hsent : (transmit sink Frame.reset).1 = .ok n)
  (hl : (quiet a b).run [(.left, .reset sink), (.right, .receive now sink')] = l)

include hsent hl

/-- The reset of the one station is what the other one takes, so after the two actions `l` consists
of the two stations that the views describe. -/
theorem stations_of_reset :
    ∃ p : Packet, p.frame = Frame.reset ∧
      l.left = { Station.reset { transport := a } sink with outgoing := [] } ∧
      l.right = Station.receive { transport := b } now p sink' := by
  obtain ⟨-, -, -, hout⟩ := Station.reset_views { transport := a } hsent
  obtain ⟨p, hp, hframe⟩ := List.map_eq_singleton_iff.mp hout
  refine ⟨p, hframe, ?_⟩
  rw [← hl]
  simp only [run, List.foldl_cons, List.foldl_nil, step, act, swap, quiet, hp]
  exact ⟨True.intro, True.intro⟩

/-- Both stations are `Restarted`, the one with nothing queued and the other with what it had not
sent. -/
theorem restarted_of_reset :
    l.left.Restarted [] ∧ l.right.Restarted (b.queue.filter fun e => !e.isSent) := by
  obtain ⟨p, hframe, hleft, hright⟩ := stations_of_reset hsent hl
  have hid : p.frame.id = .reset := by rw [hframe]; rfl
  rw [hleft, hright]
  constructor
  · -- The reset has left the line, and the station wrote nothing else.
    obtain ⟨hwriter, hreader, hpending, -⟩ := Station.reset_views { transport := a } hsent
    refine ⟨?_, ?_, hpending, rfl⟩
    · rw [Station.writer_silent, hwriter]
      rfl
    · rw [Station.reader_silent, hreader]
      rfl
  · -- A reset is not answered, so the line is quiet again.
    obtain ⟨hwriter, hreader, hpending, hout⟩ :=
      Station.receive_reset_views { transport := b } hid now sink'
    have hlen : (Transport.kept b.queue).length = (b.queue.filter fun e => !e.isSent).length :=
      length_renumbered _
    rw [hlen] at hwriter
    exact ⟨hwriter, hreader, hpending, List.map_eq_nil_iff.mp hout⟩

/-- With the reset a round begins in which nothing was sent yet: the first `Crossing`. -/
theorem crossing_of_reset (ha : a.Regular) (hb : b.Regular) :
    Crossing (fun side => (l.station side).transport.queue.map Entry.message) (fun _ => false)
      l := by
  obtain ⟨h, h'⟩ := restarted_of_reset hsent hl
  refine ⟨hl ▸ regular_run (regular_quiet ha hb) _, .of_sides (x := .left) h.calm h'.calm, ?_⟩
  rintro (_ | _)
  · exact .waiting (h.waiting h')
  · exact .waiting (h'.waiting h)

end reset

/-- **A reset on a quiet line brings any two transports together.** Whatever each of them went
through, no trace of the old numbering is left at either end, and the other side keeps just what it
had not sent. Then a clean round hands over everything that is kept or queued from then on. That no
sink refuses a frame of that round is true of sinks with room: see `Spacious` and `roomy_quiet`. -/
theorem resynchronizes (c₁ c₂ : Config) (ops₁ ops₂ : List (Transport.Operation σ)) {sink : σ}
    {n : Nat} (hsent : (transmit sink Frame.reset).1 = .ok n) (now : UInt32) (sink' : σ) :
    let a := (Transport.ofConfig c₁).run ops₁
    let b := (Transport.ofConfig c₂).run ops₂
    let l := (quiet a b).run [(.left, .reset sink), (.right, .receive now sink')]
    (∀ side, ¬ (l.station side).transport.resetPending ∧
        (l.station side).transport.expected = 0 ∧ (l.station side).transport.oldestSeq = 0 ∧
        ∀ e ∈ (l.station side).transport.queue, ¬ e.isSent) ∧
      l.left.transport.queue = [] ∧
      l.right.transport.queue.map Entry.message =
        (b.queue.filter fun e => !e.isSent).map Entry.message ∧
      ∀ actions : List (Side × Action σ),
        (∀ side, Round false (actionsOf side actions)) → l.Roomy actions →
        (∀ side, ((l.run actions).station side).outgoing = []) →
        ∀ side,
          ((l.run actions).station side.other).received.map (·.packet.frame.message) =
              (l.station side).transport.queue.map Entry.message ++
                ((l.run actions).station side).accepted ∧
            ((l.run actions).station side).transport.queue = [] ∧
            ((l.run actions).station side).transport.oldestSeq =
              ((l.run actions).station side.other).transport.expected := by
  intro a b l
  have ha := (Transport.regular_ofConfig c₁).run (ε := ε) ops₁
  have hb := (Transport.regular_ofConfig c₂).run (ε := ε) ops₂
  have h := crossing_of_reset (l := l) hsent rfl ha hb
  obtain ⟨hleft, hright⟩ := restarted_of_reset (l := l) hsent rfl
  -- Of each way one end is at either station.
  have hwaiting : ∀ side, (l.station side).transport.expected = 0 ∧
      (l.station side).transport.oldestSeq = 0 ∧
      ∀ e ∈ (l.station side).transport.queue, ¬ e.isSent := by
    intro side
    have hwriter := (h.underway side).toWaiting
    have hreader := (h.underway side.other).toWaiting
    rw [Side.other_other] at hreader
    exact ⟨hreader.expected, hwriter.numbered.oldestSeq_eq, hwriter.unsent⟩
  refine ⟨fun side => ⟨(h.calm side).pending, hwaiting side⟩, hleft.queue, ?_, ?_⟩
  · rw [hright.queue]
    exact map_message_renumbered _
  · intro actions hround hroom hquiet side
    have hfinal := (h.run hround hroom).underway side
    obtain ⟨hqueue, hexpected, hmessages⟩ :=
      hfinal.finish (Station.views_nil (hquiet side)).1 (Station.views_nil (hquiet side.other)).2
    have hqueue : ((l.run actions).station side).transport.queue = [] := hqueue
    refine ⟨hmessages, hqueue, ?_⟩
    rw [Transport.oldestSeq, hqueue]
    exact hexpected.symm

/-- One frame was sent, and two were read. -/
def readTwo : List (Transport.Operation (TxQueue 400)) :=
  [.send ⟨1, [0x11]⟩, .service 0 .empty, .receive 1 ⟨.data 5, 0, .empty⟩ .empty,
    .receive 2 ⟨.data 6, 1, .empty⟩ .empty]

/-- One frame was sent, another one was not, and one was read. -/
def keepOne : List (Transport.Operation (TxQueue 400)) :=
  [.send ⟨2, [0x22]⟩, .service 0 .empty, .send ⟨3, [0x33]⟩,
    .receive 1 ⟨.data 5, 0, .empty⟩ .empty]

/-- After the reset one side has a message kept, and the other one gets a new one. -/
def bothWays : List (Side × Action (TxQueue 400)) :=
  [(.left, .send ⟨4, [0x44]⟩), (.right, .service 10 .empty), (.left, .receive 11 .empty),
    (.left, .service 12 .empty), (.left, .receive 13 .empty), (.right, .receive 14 .empty),
    (.right, .receive 15 .empty), (.left, .receive 16 .empty)]

theorem resynchronizes_bothWays :
    let a := (Transport.ofConfig .standard).run readTwo
    let b := (Transport.ofConfig .standard).run keepOne
    let l := (quiet a b).run [(.left, .reset (.empty : TxQueue 400)), (.right, .receive 9 .empty)]
    (transmit (.empty : TxQueue 400) Frame.reset).1 = .ok Frame.reset.wire.length ∧
      (∀ side, Round false (actionsOf side bothWays)) ∧ l.Roomy bothWays ∧
      (∀ side, ((l.run bothWays).station side).outgoing = []) ∧
      (a.expected = 2 ∧ b.nextSeq = 2 ∧ b.expected = 1 ∧ a.nextSeq = 1) ∧
      (l.run bothWays).left.received.length = 1 ∧ (l.run bothWays).right.received.length = 1 ∧
      (∀ side, ¬ (l.station side).transport.resetPending ∧
        (l.station side).transport.expected = 0 ∧ (l.station side).transport.oldestSeq = 0 ∧
        ∀ e ∈ (l.station side).transport.queue, ¬ e.isSent) ∧
      l.left.transport.queue = [] ∧
      l.right.transport.queue.map Entry.message =
        (b.queue.filter fun e => !e.isSent).map Entry.message ∧
      ∀ side,
        ((l.run bothWays).station side.other).received.map (·.packet.frame.message) =
            (l.station side).transport.queue.map Entry.message ++
              ((l.run bothWays).station side).accepted ∧
          ((l.run bothWays).station side).transport.queue = [] ∧
          ((l.run bothWays).station side).transport.oldestSeq =
            ((l.run bothWays).station side.other).transport.expected := by
  intro a b l
  have hsent : (transmit (.empty : TxQueue 400) Frame.reset).1 = .ok Frame.reset.wire.length := by
    rw [transmit_txQueue FrameId.valid_reset, if_neg (by decide +kernel)]
  have hround : ∀ side, Round false (actionsOf side bothWays) := by
    intro side
    cases side with
    | left =>
      exact .send _ (.receive _ _ (.service _ _ (.receive _ _ (.receive _ _ .done))))
    | right => exact .service _ _ (.receive _ _ (.receive _ _ .done))
  have hroom : l.Roomy bothWays := by decide +kernel
  have hquiet : ∀ side, ((l.run bothWays).station side).outgoing = [] := by
    intro side
    cases side <;> decide +kernel
  obtain ⟨hclean, hleft, hright, hcrossing⟩ :=
    resynchronizes .standard .standard readTwo keepOne hsent 9 .empty
  refine ⟨hsent, hround, hroom, hquiet, by decide +kernel, by decide +kernel, by decide +kernel,
    ?_⟩
  with_reducible
    exact ⟨hclean, hleft, hright, hcrossing bothWays hround hroom hquiet⟩

end Link

end SerialLink
