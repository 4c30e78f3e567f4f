import SerialLink.Proofs.Link.Agreement
import Mathlib.Data.List.Perm.Basic

/-!
# Delivery between resets

As long as the application resets neither station and nothing is given up, each station hands over
just what the other accepted, in order and once. What has left a queue was handed over, and no
acknowledgement ever makes no sense. Frames may get lost and sinks may refuse them; the 8-bit
sequence numbers may wrap any number of times.

`Station.Quiet` says that there is one numbering only, so every epoch is zero and whatever takes
effect is `Receipt.Current`. With that the condition of `agreed_of_move` is met at each step, and
`Link.Quiet` carries `Agreed` along: the two stations are in step all the time. What was handed over
then follows from `Awaits` and from the order of frames: the indices are `0, 1, 2, …`
(`indices_eq_range`), and their messages are the first ones accepted (`messages_eq_take`). Both
lemmas serve the module on recovery as well.

That nothing was reported is assumed of the end of a run; reports are never taken back, so it holds
all along, and `invariant_run_while` applies.
-/

namespace SerialLink

namespace Station

variable {s s' r r' : Station} {p : Packet}

/-! ## The invariant -/

/-- Numbering was never restarted, neither here nor as far as the station has heard, and every
`Receipt` was `Current`. -/
structure Quiet (s : Station) : Prop where
  issued : s.issued = 0
  pending : ¬ s.transport.resetPending
  heard : s.heard = 0
  outgoing : ∀ p ∈ s.outgoing, ¬ p.IsReset ∧ p.epoch = 0 ∧ p.heard = 0
  received : ∀ x ∈ s.received, x.Current
  acknowledged : ∀ x ∈ s.acknowledged, x.Current
  spurious : s.transport.stats.spuriousAcks = 0

namespace Quiet

theorem epoch_eq (h : s.Quiet) : s.epoch = 0 := by
  simp [epoch, h.issued, h.pending]

/-- `Quiet` asks of each frame on its way separately. -/
theorem lose {out : List Packet} (h : s.Quiet) (hout : out.Sublist s.outgoing) :
    Quiet { s with outgoing := out } :=
  { h with outgoing := fun p hp => h.outgoing p (hout.mem hp) }

/-- A frame other than a reset is written, with both marks zero. -/
theorem write (h : s.Quiet) (hissued : s'.issued = s.issued)
    (hpending : s'.transport.resetPending = s.transport.resetPending) (hheard : s'.heard = s.heard)
    (hout : s'.outgoing = s.outgoing ++ [p]) (hp : ¬ p.IsReset ∧ p.epoch = 0 ∧ p.heard = 0)
    (hreceived : s'.received = s.received) (hacknowledged : s'.acknowledged = s.acknowledged)
    (hspurious : s'.transport.stats.spuriousAcks = s.transport.stats.spuriousAcks) : s'.Quiet where
  issued := hissued.trans h.issued
  pending := hpending ▸ h.pending
  heard := hheard.trans h.heard
  outgoing q hq := by
    rw [hout] at hq
    rcases List.mem_append.mp hq with hq | hq
    · exact h.outgoing q hq
    · exact List.mem_singleton.mp hq ▸ hp
  received := hreceived ▸ h.received
  acknowledged := hacknowledged ▸ h.acknowledged
  spurious := hspurious.trans h.spurious

/-- A station's own moves keep `Quiet`. Resets are ruled out by `Move False`, and giving up by the
lack of reports. -/
theorem move (h : s.Quiet) (hs : s.Sound) (hm : s.Move False s') (hreported : s'.reported = []) :
    s'.Quiet := by
  cases hm with
  | rest halike =>
    exact ⟨h.issued, halike.resetPending ▸ h.pending, h.heard, h.outgoing, h.received,
      h.acknowledged, halike.spuriousAcks.trans h.spurious⟩
  | send => exact ⟨h.issued, h.pending, h.heard, h.outgoing, h.received, h.acknowledged, h.spurious⟩
  | ack =>
    exact h.write rfl rfl rfl rfl ⟨by simp [Packet.IsReset, Frame.ack], h.epoch_eq, h.heard⟩
      rfl rfl rfl
  | announce hp => exact absurd hp h.pending
  | transmit hqueue _ hp =>
    exact h.write rfl rfl rfl (outgoing_launch hs hqueue hp)
      ⟨by simp [Packet.IsReset, Entry.frame], h.issued, h.heard⟩ rfl rfl rfl
  | giveUp hsent =>
    -- What was on its way would be reported.
    simp only [restart, List.append_eq_nil_iff, List.range'_eq_nil_iff] at hreported
    omega
  | reset hmay => exact hmay.elim

/-- A packet that arrives keeps `Quiet`. That no acknowledgement makes no sense is the field
`Agreed.answered`: what is acknowledged was sent. -/
theorem takes {rest : List Packet} (h : s.Quiet) (hr : r.Quiet) (hagreed : Agreed s r)
    (hout : r.outgoing = p :: rest) (ht : s.Takes p s') : s'.Quiet := by
  obtain ⟨hreset, hepoch, hheard⟩ := hr.outgoing p (hout ▸ List.mem_cons_self ..)
  -- All epochs are zero, so whatever takes effect is current.
  have hcurrent : p.epoch = s.heard ∧ p.heard = s.epoch :=
    ⟨hepoch.trans h.heard.symm, hheard.trans h.epoch_eq.symm⟩
  cases ht with
  | accepted =>
    refine { h with received := ?_ }
    intro x hx
    rcases List.mem_append.mp hx with hx | hx
    · exact h.received x hx
    · exact List.mem_singleton.mp hx ▸ hcurrent
  | acked =>
    refine { h with acknowledged := ?_ }
    intro x hx
    rcases List.mem_append.mp hx with hx | hx
    · exact h.acknowledged x hx
    · exact List.mem_singleton.mp hx ▸ hcurrent
  | spurious hid hbad =>
    -- Acknowledgements in the present numbering are of frames that were sent.
    have hle := (hagreed.answered p (hout ▸ List.mem_cons_self ..) ⟨hid, hcurrent⟩).1
    have hlt := hbad.resolve_left h.pending
    simp only [position, sent] at hle
    omega
  | told hid => exact absurd hid hreset

end Quiet

theorem quiet_fresh (c : Config) : (fresh c).Quiet where
  issued := rfl
  pending := by simp [fresh, Transport.ofConfig]
  heard := rfl
  outgoing := by simp [fresh]
  received := by simp [fresh]
  acknowledged := by simp [fresh]
  spurious := rfl

/-! ## What a quiet station hands over -/

/-- The messages are handed over one after the other. By `Ordered.once` their indices increase,
since no frame is `Stale`, and `Awaits` says which ones there are. -/
theorem indices_eq_range (ho : Ordered s r) (hr : r.Quiet) {k : Nat} (hk : Awaits s r k)
    (hgot : ∀ j < k, r.Got j) :
    r.received.map (fun x => x.packet.index) = List.range k := by
  have hincreasing : (r.received.map fun x => x.packet.index).Pairwise (· < ·) := by
    rw [List.pairwise_map]
    apply ho.once.imp_of_mem
    intro x y _ hy h
    -- A frame in the only numbering there is cannot be stale.
    apply h.resolve_right
    intro hstale
    have hcurrent := (hr.received y hy).2
    simp only [Receipt.Stale] at hstale
    omega
  -- Two increasing lists with the same members are equal.
  refine List.Perm.eq_of_pairwise (fun a b _ _ hab hba => by omega) hincreasing
    List.pairwise_lt_range ?_
  rw [List.perm_ext_iff_of_nodup (hincreasing.imp Nat.ne_of_lt) List.nodup_range]
  intro j
  rw [List.mem_map, List.mem_range]
  exact ⟨fun ⟨x, hx, hxj⟩ => hxj ▸ hk.below x hx, fun hj => hgot j hj⟩

/-- So they are the first ones that the peer accepted: `Logged.message` tells the message of each
index. -/
theorem messages_eq_take (ho : Ordered s r) {k : Nat}
    (hrange : r.received.map (fun x => x.packet.index) = List.range k) :
    r.received.map (fun x => x.packet.frame.message) = s.accepted.take k := by
  have hlen : r.received.length = k := by simpa using congrArg List.length hrange
  apply List.ext_getElem?
  intro i
  by_cases hi : i < r.received.length
  · have hindex := congrArg (·[i]?) hrange
    simp only [List.getElem?_map, List.getElem?_eq_getElem hi, Option.map_some,
      List.getElem?_range (hlen ▸ hi), Option.some.injEq] at hindex
    have hmessage := (ho.logged_received (List.getElem_mem hi)).message
    rw [hindex] at hmessage
    rw [List.getElem?_map, List.getElem?_eq_getElem hi, Option.map_some, List.getElem?_take,
      if_pos (hlen ▸ hi), hmessage]
  · rw [List.getElem?_take, if_neg (hlen ▸ hi), List.getElem?_eq_none (by simpa using hi)]

end Station

namespace Link

/-- Neither station restarted its numbering, and they agree on it. The parts need each other:
`Agreed` is kept because all is `Current`, and no acknowledgement is spurious because they agree. -/
structure Quiet (l : Link) : Prop where
  left : l.left.Quiet
  right : l.right.Quiet
  agreed : l.Agreed

/-- The step lemma. Only the moving station can report anything. -/
theorem Quiet.move {l l' : Link} (hs : l.Sound) (ho : l.Ordered) (h : l.Quiet)
    (hm : Move False l l') (hleft : l'.left.reported = []) : l'.Quiet := by
  obtain ⟨hq₁, hq₂⟩ : l'.left.Quiet ∧ l'.right.Quiet := by
    cases hm with
    | own hm => exact ⟨h.left.move hs.1 hm hleft, h.right⟩
    | take hout ht =>
      exact ⟨h.left.takes h.right h.agreed.1 hout ht,
        h.right.lose (hout ▸ List.sublist_cons_self ..)⟩
    | lose hl hr => exact ⟨h.left.lose hl, h.right.lose hr⟩
  obtain ⟨hnext₁, hnext₂⟩ := agreed_of_move hs ho hm
  exact ⟨hq₁, hq₂, hnext₁ h.agreed.1 ⟨hq₂.received, hq₁.acknowledged⟩,
    hnext₂ h.agreed.2 ⟨hq₁.received, hq₂.acknowledged⟩⟩

/-- Reports are never taken back (`Move.reported`, `Takes.reported`). -/
theorem reported_nil_of_move {mayReset : Prop} {l l' : Link} (hm : Move mayReset l l')
    (h : l'.left.reported = []) : l.left.reported = [] := by
  cases hm with
  | own hm => exact List.prefix_nil.mp (h ▸ hm.reported)
  | take _ ht => exact List.prefix_nil.mp (h ▸ ht.reported)
  | lose => exact h

theorem right_reported_of_move {mayReset : Prop} {l l' : Link} (hm : Move mayReset l l') :
    l'.right.reported = l.right.reported := by
  cases hm <;> rfl

variable {σ ε : Type} [ByteSink σ ε]

/-- A run without resets and reports is quiet all along, by `invariant_run_while`. -/
theorem quiet_run (c₁ c₂ : Config) (actions : List (Side × Action σ))
    (hno : ∀ a ∈ actions, ∀ sink, a.2 ≠ .reset sink)
    (hreported : ∀ side, (((fresh c₁ c₂).run actions).station side).reported = []) :
    ((fresh c₁ c₂).run actions).Quiet := by
  have hnone : ((fresh c₁ c₂).run actions).left.reported = [] ∧
      ((fresh c₁ c₂).run actions).right.reported = [] := ⟨hreported .left, hreported .right⟩
  refine invariant_run_while (C := fun l => l.left.reported = [] ∧ l.right.reported = [])
    ?_ ?_ ?_ ?_ ?_ hno hnone
  · intro l hl
    exact ⟨hl.2, hl.1⟩
  · intro l h
    exact ⟨h.right, h.left, h.agreed.2, h.agreed.1⟩
  · intro l l' hm hl
    exact ⟨reported_nil_of_move hm hl.1, right_reported_of_move hm ▸ hl.2⟩
  · intro l l' hs ho h hm hl
    exact h.move hs ho hm hl.1
  · exact ⟨Station.quiet_fresh c₁, Station.quiet_fresh c₂, Station.agreed_fresh c₁ c₂,
      Station.agreed_fresh c₂ c₁⟩

/-- **Between resets a station hands over a prefix of what the other accepted, in order and once.**
What has left the queue was handed over, and every acknowledgement made sense. -/
theorem hands_over_prefix (c₁ c₂ : Config) (actions : List (Side × Action σ))
    (hno : ∀ a ∈ actions, ∀ sink, a.2 ≠ .reset sink)
    (hreported : ∀ side, (((fresh c₁ c₂).run actions).station side).reported = []) (side : Side) :
    let s := ((fresh c₁ c₂).run actions).station side
    let r := ((fresh c₁ c₂).run actions).station side.other
    r.received.map (fun x => x.packet.index) = List.range r.received.length ∧
      r.received.map (fun x => x.packet.frame.message) <+: s.accepted ∧
      (∃ gone, s.accepted = gone ++ s.transport.queue.map Entry.message ∧
        gone <+: r.received.map fun x => x.packet.frame.message) ∧
      s.transport.stats.spuriousAcks = 0 := by
  intro s r
  obtain ⟨hs, ho⟩ := ordered_run c₁ c₂ actions
  have hq := quiet_run c₁ c₂ actions hno hreported
  obtain ⟨hs, ho, hqs, hqr, h⟩ :
      s.Sound ∧ s.Ordered r ∧ s.Quiet ∧ r.Quiet ∧ s.Agreed r := by
    cases side with
    | left => exact ⟨hs.1, ho.1, hq.left, hq.right, hq.agreed.1⟩
    | right => exact ⟨hs.2, ho.2, hq.right, hq.left, hq.agreed.2⟩
  obtain ⟨k, hk⟩ := h.inStep (hqr.heard.trans hqs.epoch_eq.symm)
    (hqs.heard.trans hqr.epoch_eq.symm)
  -- Nothing was reported, so what has left the queue was handed over, like all before `k`.
  have hgot : ∀ j < k, r.Got j := by
    intro j hj
    by_cases hlt : j < s.departed
    · have hnone : s.reported = [] := hreported side
      exact (h.complete j hlt).resolve_left (by simp [hnone])
    · exact hk.got j (by omega) hj
  have hrange := Station.indices_eq_range ho hqr hk hgot
  have hmessages := Station.messages_eq_take ho hrange
  have hlen : r.received.length = k := by simpa using congrArg List.length hrange
  refine ⟨hlen ▸ hrange, hmessages ▸ List.take_prefix .., ?_, hqs.spurious⟩
  refine ⟨s.accepted.take s.departed, ?_, ?_⟩
  · rw [hs.held, List.take_append_drop]
  · rw [hmessages]
    exact List.take_prefix_take_left hk.departed_le

/-- The first of two frames is lost, so the second one comes too early; both are sent again.
Meanwhile a message goes the other way. -/
def frameLost : List (Side × Action (TxQueue 400)) :=
  [(.left, .send ⟨1, [0x11]⟩), (.left, .send ⟨2, [0x22]⟩), (.left, .service 0 .empty),
    (.left, .lose 0), (.right, .receive 1 .empty), (.right, .send ⟨3, [0x33]⟩),
    (.right, .service 2 .empty), (.left, .receive 3 .empty), (.left, .receive 3 .empty),
    (.left, .service 1000 .empty), (.right, .receive 1001 .empty), (.right, .receive 1001 .empty),
    (.right, .receive 1001 .empty), (.left, .receive 1002 .empty)]

theorem hands_over_prefix_frameLost :
    let l := (fresh .standard .standard).run frameLost
    let s := l.station .left
    let r := l.station (Side.other .left)
    (∀ a ∈ frameLost, ∀ sink, a.2 ≠ .reset sink) ∧ (∀ side, (l.station side).reported = []) ∧
      r.received.length = 2 ∧ s.transport.queue.length = 1 ∧
      r.received.map (fun x => x.packet.index) = List.range r.received.length ∧
      r.received.map (fun x => x.packet.frame.message) <+: s.accepted ∧
      (∃ gone, s.accepted = gone ++ s.transport.queue.map Entry.message ∧
        gone <+: r.received.map fun x => x.packet.frame.message) ∧
      s.transport.stats.spuriousAcks = 0 := by
  have hno : ∀ a ∈ frameLost, ∀ sink, a.2 ≠ .reset sink := by simp [frameLost]
  have hreported : ∀ side, (((fresh .standard .standard).run frameLost).station side).reported =
      [] := by
    intro side
    cases side <;> decide +kernel
  exact ⟨hno, hreported, by decide +kernel, by decide +kernel,
    hands_over_prefix .standard .standard frameLost hno hreported .left⟩

end Link

end SerialLink
