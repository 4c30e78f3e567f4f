import SerialLink.Proofs.Link.Reliable
import SerialLink.Proofs.Link.Round

/-!
# Recovery from losses

Whatever was lost before, one clean round brings everything across. In a clean round a station sends
all that it has queued, nothing gets lost any more, and no sink refuses a frame.

Two lines of argument meet here. From the invariants of a run between resets (`Link.Quiet`,
`Awaits`) comes the state in which a round starts: `Standstill` says what two stations know of each
other when nothing is on its way, and `standstill_run` finds every lossy run there. From then on the
round goes along a `Course`: `Standstill.service` sends the queue, `Underway.taking` lets one
station take all frames on their way to it, and `Course.finish` reads off the result.

A round is written out as three parts, a tick and the visits of either station. Its sinks must not
refuse a frame (`Link.Roomy`), which `roomy_silenced` derives from room in the sinks.
-/

namespace SerialLink

namespace Station

variable {s r : Station}

/-- The queue of a sound station is `Consecutive`: what `Sound.numbered` says of places, said of
neighbours. -/
theorem Sound.consecutive (h : s.Sound) :
    Consecutive (s.number s.departed) s.transport.queue s.transport.nextSeq := by
  have hnext : ∀ k, s.number (k + 1) = s.number k + 1 := fun k => s.number_add k 1
  have hconsecutive := consecutive_of_seqs hnext h.numbered
  rw [h.departed_add_length] at hconsecutive
  have hlast : s.number s.accepted.length = s.transport.nextSeq := by
    simp only [number]
    grind
  rwa [hlast] at hconsecutive

/-- Nothing is on its way. The reader has read what left the queue of the writer, and the first
`read` frames of the queue; it may be ahead of the writer because answers were lost. -/
structure Standstill (s r : Station) (first : UInt8) (read : Nat) : Prop where
  numbered : Consecutive first s.transport.queue s.transport.nextSeq
  length_le : s.transport.queue.length ≤ 16
  held : s.transport.queue.map Entry.message = s.accepted.drop s.departed
  read_le : read ≤ s.transport.queue.length
  expected : r.transport.expected = first + read.toUInt8
  messages : r.received.map (fun x => x.packet.frame.message) =
    s.accepted.take s.departed ++ (s.transport.queue.take read).map Entry.message
  calm : s.Calm
  outgoing : s.outgoing = []
  calm' : r.Calm
  outgoing' : r.outgoing = []

/-- Between resets the two stations agree, so a line without frames stands still. Here
`Agreed.inStep` becomes a count of frames: the message awaited is `read` places behind the oldest
one queued. -/
theorem standstill_of_quiet (hs : s.Sound) (ho : Ordered s r) (hqs : s.Quiet) (hqr : r.Quiet)
    (h : Agreed s r) (hreported : s.reported = []) :
    ∃ read, Standstill { s with outgoing := [] } { r with outgoing := [] }
      (s.number s.departed) read := by
  obtain ⟨k, hk⟩ := h.inStep (hqr.heard.trans hqs.epoch_eq.symm)
    (hqs.heard.trans hqr.epoch_eq.symm)
  obtain ⟨read, rfl⟩ : ∃ read, k = s.departed + read :=
    ⟨k - s.departed, (Nat.add_sub_of_le hk.departed_le).symm⟩
  -- Nothing was reported, so what has left the queue was handed over.
  have hgot : ∀ j < s.departed + read, r.Got j := by
    intro j hj
    by_cases hlt : j < s.departed
    · exact (h.complete j hlt).resolve_left (by simp [hreported])
    · exact hk.got j (Nat.le_of_not_lt hlt) hj
  have hmessages := messages_eq_take ho (indices_eq_range ho hqr hk hgot)
  have hread : read ≤ s.transport.queue.length := by
    have hle := hk.le_sent
    have hinFlight := s.transport.inFlight_le
    simp only [sent] at hle
    omega
  have hexpected : r.transport.expected = s.number s.departed + read.toUInt8 := by
    rw [hk.expected, number_add]
  exact ⟨read, hs.consecutive, hs.length_le_16, hs.held, hread, hexpected,
    by rw [hmessages, List.take_add, List.map_take, hs.held]; rfl,
    ⟨hqs.pending, by simp⟩, rfl, ⟨hqr.pending, by simp⟩, rfl⟩

/-- A tick that sends the whole queue ends a `Standstill` and begins a `Course`. -/
theorem Standstill.service {first : UInt8} {read : Nat} {σ ε : Type} [ByteSink σ ε]
    (h : Standstill s r first read) {now : UInt32} {sink : σ}
    (hdue : ∀ e ∈ s.transport.queue, e.Due s.transport.policy now)
    (hsent : Unrefused (s.transport.service now sink).events) :
    Course first (s.accepted.take s.departed) [] true (s.service now sink).writer r.reader := by
  obtain ⟨hwriter, -⟩ := service_views h.calm hdue hsent
  rw [hwriter]
  have hheld : s.accepted.take s.departed ++ s.transport.queue.map Entry.message =
      [] ++ s.accepted := by
    rw [h.held, List.take_append_drop, List.nil_append]
  have hdata := (views_nil h.outgoing).1
  have hacks : ∀ a ∈ r.reader.acks, a = first := by simp [(views_nil h.outgoing').2]
  exact .sent (Sent.of_sendAll h.numbered h.length_le hheld hdata h.read_le h.expected h.messages
    hacks now) (by simp)

end Station

namespace Link

variable {σ ε : Type} [ByteSink σ ε]

/-- All frames on their way are lost, which is the worst that losses can do. -/
def silenced (l : Link) : Link :=
  ⟨{ l.left with outgoing := [] }, { l.right with outgoing := [] }⟩

/-- A station takes one frame at each of these times, with the sink as it is then: one
`Action.receive` for each visit. -/
def taking (side : Side) (visits : List (UInt32 × σ)) : List (Side × Action σ) :=
  visits.map fun visit => (side, .receive visit.1 visit.2)

/-- Whatever happened on a line and was lost of it, no sink refuses a frame of a round after it
where there is room. So the hypothesis `Roomy` on a round below holds of all `Spacious` sinks. -/
theorem roomy_silenced (c₁ c₂ : Config) (actions : List (Side × Action σ))
    {more : List (Side × Action σ)} (hroom : Spacious more) :
    ((fresh c₁ c₂).run actions).silenced.Roomy more := by
  have hfresh : ∀ side, ((fresh c₁ c₂).station side).transport.Regular := by
    rintro (_ | _)
    · exact Transport.regular_ofConfig c₁
    · exact Transport.regular_ofConfig c₂
  have hrun := regular_run hfresh actions
  refine roomy_of_spacious ?_ hroom
  rintro (_ | _)
  · exact hrun .left
  · exact hrun .right

/-- Between resets a line that loses all frames stands still, in either direction. -/
theorem standstill_run (c₁ c₂ : Config) (actions : List (Side × Action σ))
    (hno : ∀ a ∈ actions, ∀ sink, a.2 ≠ .reset sink)
    (hreported : ∀ side, (((fresh c₁ c₂).run actions).station side).reported = []) (side : Side) :
    let l := ((fresh c₁ c₂).run actions).silenced
    ∃ first read, (l.station side).Standstill (l.station side.other) first read := by
  obtain ⟨hs, ho⟩ := ordered_run c₁ c₂ actions
  have hquiet := quiet_run c₁ c₂ actions hno hreported
  cases side with
  | left =>
    exact ⟨_, Station.standstill_of_quiet hs.1 ho.1 hquiet.left hquiet.right hquiet.agreed.1
      (hreported .left)⟩
  | right =>
    exact ⟨_, Station.standstill_of_quiet hs.2 ho.2 hquiet.right hquiet.left hquiet.agreed.2
      (hreported .right)⟩

/-! ## A clean round -/

/-- A station takes all frames on their way to it, and sends no data frame meanwhile, only answers.
The messages of either way come further by it. -/
theorem Underway.taking {l : Link} {first : UInt8} {before kept : List Message} {served : Bool}
    {side x : Side} {visits : List (UInt32 × σ)} (hcalm : l.Calm)
    (hroom : l.Roomy (taking x visits))
    (hlen : visits.length = (l.station x.other).outgoing.length)
    (h : l.Underway first before kept served side) :
    let l' := l.run (taking x visits)
    l'.Calm ∧ l'.Underway first before kept served side ∧ (l'.station x.other).outgoing = [] ∧
      (l'.station x).writer.data = (l.station x).writer.data := by
  intro l'
  -- By induction on the visits, each of which takes the oldest frame: `Underway.receive`.
  induction visits generalizing l with
  | nil => exact ⟨hcalm, h, List.eq_nil_of_length_eq_zero hlen.symm, rfl⟩
  | cons visit visits ih =>
    obtain ⟨now, sink⟩ := visit
    obtain ⟨hsent, hroom⟩ := hroom
    cases hout : (l.station x.other).outgoing with
    | nil =>
      rw [hout] at hlen
      exact absurd hlen (by simp)
    | cons p rest =>
      obtain ⟨hself, hother⟩ := step_receive hout now sink
      have hrest : visits.length =
          ((l.step (x, .receive now sink)).station x.other).outgoing.length := by
        rw [hout] at hlen
        rw [hother]
        exact Nat.succ.inj hlen
      obtain ⟨hcalm', h', hnil, hdata⟩ :=
        ih (hcalm.receive hsent) hroom hrest (h.receive hcalm hsent)
      refine ⟨hcalm', h', hnil, hdata.trans ?_⟩
      -- What is sent meanwhile is no more than answers.
      rw [effects_receive hout] at hsent
      rw [hself]
      rcases (hcalm x.other).outgoing p (hout ▸ List.mem_cons_self ..) with ⟨id, hid⟩ | hid
      · rw [((l.station x).receive_data_views hid hsent).1]
      · rw [((l.station x).receive_ack_views hid now sink).1]

/-- **One clean round recovers from any loss.** Whatever happened between resets, and whatever of it
was lost, the round leaves nothing queued: the other station expects what comes next, and was handed
every message that was accepted, in order and once. That no sink refuses a frame of the round is
true of sinks with room, whatever the two stations went through: see `Spacious` and
`roomy_silenced`. -/
theorem recovers (c₁ c₂ : Config) (actions : List (Side × Action σ))
    (hno : ∀ a ∈ actions, ∀ sink, a.2 ≠ .reset sink)
    (hreported : ∀ side, (((fresh c₁ c₂).run actions).station side).reported = [])
    (side : Side) (now : UInt32) (sink : σ) (visits visits' : List (UInt32 × σ)) :
    let l := ((fresh c₁ c₂).run actions).silenced
    let served := l.step (side, .service now sink)
    let heard := served.run (taking side.other visits)
    let final := heard.run (taking side visits')
    (∀ e ∈ (l.station side).transport.queue, e.Due (l.station side).transport.policy now) →
    visits.length = (served.station side).outgoing.length →
    visits'.length = (heard.station side.other).outgoing.length →
    l.Roomy ((side, .service now sink) :: (taking side.other visits ++ taking side visits')) →
    (final.station side).transport.pending = 0 ∧
      (final.station side).transport.oldestSeq = (final.station side.other).transport.expected ∧
      (final.station side.other).received.map (fun x => x.packet.frame.message) =
        (final.station side).accepted := by
  intro l served heard final hdue hlen hlen' hroom
  obtain ⟨first, read, h⟩ := standstill_run c₁ c₂ actions hno hreported side
  obtain ⟨hsent, hroom⟩ := hroom
  obtain ⟨hroom, hroom'⟩ := roomy_append.mp hroom
  -- The tick sends the queue, the other station answers, and the answers arrive.
  obtain ⟨hself, hpeer⟩ := step_service l side now sink
  have hserved : served.Underway first
      ((l.station side).accepted.take (l.station side).departed) [] true side := by
    unfold Underway
    rw [hself, hpeer]
    exact h.service hdue hsent
  have hcalm : served.Calm := by
    refine .of_sides (x := side) ?_ ?_
    · rw [hself]
      exact (Station.service_views h.calm hdue hsent).2.2
    · rw [hpeer]
      exact h.calm'
  have hlen : visits.length = (served.station side.other.other).outgoing.length := by
    rwa [Side.other_other]
  obtain ⟨hcalm, hheard, hnil, -⟩ := hserved.taking hcalm hroom hlen
  rw [Side.other_other] at hnil
  obtain ⟨-, hfinal, hnil', hdata⟩ := hheard.taking hcalm hroom' hlen'
  have hacks := (Station.views_nil hnil').2
  obtain ⟨hqueue, hexpected, hmessages⟩ :=
    hfinal.finish (hdata.trans (Station.views_nil hnil).1) hacks
  have hqueue : (final.station side).transport.queue = [] := hqueue
  refine ⟨?_, ?_, hmessages⟩
  · rw [Transport.pending, hqueue, List.length_nil]
  · rw [Transport.oldestSeq, hqueue]
    exact hexpected.symm

/-- Two frames are sent. The first one is delivered but its answer is lost, and so are the second
one and a frame that goes the other way. -/
def bothLost : List (Side × Action (TxQueue 400)) :=
  [(.left, .send ⟨1, [0x11]⟩), (.left, .send ⟨2, [0x22]⟩), (.left, .service 0 .empty),
    (.right, .receive 1 .empty), (.right, .send ⟨3, [0x33]⟩), (.right, .service 2 .empty)]

theorem recovers_bothLost :
    let l := ((fresh .standard .standard).run bothLost).silenced
    let visits : List (UInt32 × TxQueue 400) := [(1001, .empty), (1002, .empty)]
    let served := l.step (.left, .service 1000 (.empty : TxQueue 400))
    let heard := served.run (taking (Side.other .left) visits)
    let final := heard.run (taking .left visits)
    (∀ a ∈ bothLost, ∀ sink, a.2 ≠ .reset sink) ∧
      (∀ side, (((fresh .standard .standard).run bothLost).station side).reported = []) ∧
      (∀ e ∈ (l.station .left).transport.queue, e.Due (l.station .left).transport.policy 1000) ∧
      visits.length = (served.station .left).outgoing.length ∧
      visits.length = (heard.station (Side.other .left)).outgoing.length ∧
      l.Roomy ((.left, .service 1000 (.empty : TxQueue 400)) ::
        (taking (Side.other .left) visits ++ taking .left visits)) ∧
      (l.station .left).transport.pending = 2 ∧ (l.station .right).received.length = 1 ∧
      (final.station .left).transport.pending = 0 ∧
      (final.station .left).transport.oldestSeq =
        (final.station (Side.other .left)).transport.expected ∧
      (final.station (Side.other .left)).received.map (fun x => x.packet.frame.message) =
        (final.station .left).accepted := by
  intro l visits served heard final
  have hno : ∀ a ∈ bothLost, ∀ sink, a.2 ≠ .reset sink := by simp [bothLost]
  have hreported : ∀ side,
      (((fresh .standard .standard).run bothLost).station side).reported = [] := by
    intro side
    cases side <;> decide +kernel
  have hdue : ∀ e ∈ (l.station .left).transport.queue,
      e.Due (l.station .left).transport.policy 1000 := by decide +kernel
  have hlen : visits.length = (served.station .left).outgoing.length := by decide +kernel
  have hlen' : visits.length = (heard.station (Side.other .left)).outgoing.length := by
    decide +kernel
  have hroom : l.Roomy ((.left, .service 1000 (.empty : TxQueue 400)) ::
      (taking (Side.other .left) visits ++ taking .left visits)) := by decide +kernel
  have h := recovers .standard .standard bothLost hno hreported .left 1000 .empty visits visits
    hdue hlen hlen' hroom
  refine ⟨hno, hreported, hdue, hlen, hlen', hroom, by decide +kernel, by decide +kernel, ?_⟩
  with_reducible exact h

end Link

end SerialLink
