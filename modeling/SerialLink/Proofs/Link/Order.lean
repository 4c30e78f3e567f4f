import SerialLink.Proofs.Link.Turn

/-!
# The order of frames

What a station hands over comes in the order in which the peer accepted it, each message once,
unless a frame is stale: written before its writer heard of the last restart of the station. Losses,
refused frames and resets on either side make no difference to this.

The argument compares frames by the numbering that they were written in. Within one numbering the
sequence numbers tell frames apart, because no frame on the line is further behind than the window.
Across numberings the messages are different ones.

`Packet.Before` is this comparison of two frames of one writer, `Station.Logged` is what the writer
knows of one of them, and `Station.Ordered` is the invariant about a writer and a reader: all frames
handed over or on their way are in the order of `Packet.Before`. There is one lemma for each move of
the writer and of the reader, and `Ordered.move` puts them together for `Link.invariant_run`. The
crucial one is `reader_accepted`: that the frame which is expected belongs to a later message than
all those handed over since the restart comes from `index_lt_of_seq`.

The module on agreement builds on `Ordered` and uses `invariant_run_while`, which is stated here
because it takes `Ordered` for granted.
-/

namespace SerialLink

/-! ## Frames of one writer -/

namespace Packet

def IsData (p : Packet) : Prop := ∃ id, p.frame.id = .data id

def IsReset (p : Packet) : Prop := p.frame.id = .reset

def IsAck (p : Packet) : Prop := p.frame.id = .ack

/-- Both were written in the same numbering, which is told by `epoch` and `heard` together. -/
def SameEra (q p : Packet) : Prop := q.epoch = p.epoch ∧ q.heard = p.heard

theorem IsData.not_isReset {p : Packet} (h : p.IsData) : ¬ p.IsReset := by
  obtain ⟨id, hid⟩ := h
  simp [IsReset, hid]

theorem IsData.not_isAck {p : Packet} (h : p.IsData) : ¬ p.IsAck := by
  obtain ⟨id, hid⟩ := h
  simp [IsAck, hid]

theorem IsReset.not_isAck {p : Packet} (h : p.IsReset) : ¬ p.IsAck := by
  rw [IsReset] at h
  simp [IsAck, h]

/-- What holds of a frame and a later one of the same writer. Resets come with growing epochs; data
frames of the `SameEra` share the offset between number and index, and of two eras the later one has
the later messages. -/
structure Before (q p : Packet) : Prop where
  epoch_lt : q.IsData ∨ q.IsReset → p.IsReset → q.epoch < p.epoch
  epoch_le : q.IsReset → p.IsData → q.epoch ≤ p.epoch
  same : q.IsData → p.IsData → q.SameEra p →
    q.frame.seq - q.index.toUInt8 = p.frame.seq - p.index.toUInt8 ∧ q.index ≤ p.index + 15
  differ : q.IsData → p.IsData → ¬ q.SameEra p → q.index < p.index

/-- Nothing is asked of acknowledgements, so one may be written at any time. -/
theorem before_ack (q : Packet) {p : Packet} (h : p.IsAck) : q.Before p where
  epoch_lt _ hp := absurd h hp.not_isAck
  epoch_le _ hp := absurd h hp.not_isAck
  same _ hp := absurd h hp.not_isAck
  differ _ hp := absurd h hp.not_isAck

end Packet

namespace Station

variable {s s' r r' : Station} {p q : Packet}

/-! ## What the writer knows of a data frame -/

/-- The frame is in the numbering that the station is in: compare `Receipt.Current`, which says the
same of the reader. -/
def Live (s : Station) (p : Packet) : Prop := p.epoch = s.epoch ∧ p.heard = s.heard

/-- The data frame was written by the station, and carries the message that it stands for. While it
is `Live` its number is the one of its message; once it is not, the message has left the queue. -/
structure Logged (s : Station) (p : Packet) : Prop where
  epoch_le : p.epoch ≤ s.issued
  heard_le : p.heard ≤ s.heard
  message : s.accepted[p.index]? = some p.frame.message
  live : s.Live p → p.frame.seq = s.number p.index ∧ p.index < s.sent
  old : ¬ s.Live p → p.index < s.departed

/-- The numbering goes on, so the same frames are `Live`. -/
theorem Logged.mono (h : s.Logged p) (hepoch : s'.epoch = s.epoch) (hissued : s.issued ≤ s'.issued)
    (hheard : s'.heard = s.heard) (hnumber : s'.number = s.number) (hsent : s.sent ≤ s'.sent)
    (hdeparted : s.departed ≤ s'.departed) (haccepted : s.accepted <+: s'.accepted) :
    s'.Logged p := by
  have hlive : s'.Live p ↔ s.Live p := by simp only [Live, hepoch, hheard]
  refine ⟨h.epoch_le.trans hissued, hheard ▸ h.heard_le, ?_, ?_, ?_⟩
  · obtain ⟨more, hmore⟩ := haccepted
    rw [← hmore, List.getElem?_append_left (List.getElem?_eq_some_iff.mp h.message).1, h.message]
  · intro hl
    obtain ⟨hseq, hindex⟩ := h.live (hlive.mp hl)
    exact ⟨hnumber ▸ hseq, hindex.trans_le hsent⟩
  · intro hl
    exact (h.old (mt hlive.mpr hl)).trans_le hdeparted

/-- A new numbering begins, in which no frame is `Live` yet. What was `sent` has left the queue. -/
theorem Logged.renew (h : s.Logged p) (hnew : ¬ s'.Live p) (hissued : s'.issued = s.issued)
    (hheard : s.heard ≤ s'.heard) (hsent : s.sent ≤ s'.departed)
    (haccepted : s'.accepted = s.accepted) : s'.Logged p := by
  refine ⟨hissued ▸ h.epoch_le, h.heard_le.trans hheard, haccepted ▸ h.message,
    fun hl => absurd hl hnew, ?_⟩
  intro _
  by_cases hl : s.Live p
  · exact (h.live hl).2.trans_le hsent
  · have hle : s.departed ≤ s.sent := Nat.le_add_right ..
    exact (h.old hl).trans_le (hle.trans hsent)

theorem issued_le_epoch (s : Station) : s.issued ≤ s.epoch := Nat.le_add_right ..

/-- A restart that takes at least the frames in flight off the queue renews the numbering. -/
theorem Logged.restart (h : s.Logged p) (hs : s.Sound) {n : Nat} (hsent : s.transport.inFlight ≤ n)
    (hn : n ≤ s.transport.queue.length) : (s.restart n true).Logged p := by
  refine h.renew (fun hl => ?_) rfl le_rfl ?_ rfl
  · -- The new epoch was not announced yet, so no frame can be of it.
    have hepoch : (s.restart n true).epoch = s.issued + 1 := rfl
    have hle := h.epoch_le
    have hlive := hl.1
    omega
  · rw [departed_restart hs hn]
    exact Nat.add_le_add_left hsent _

/-! ### Along the moves of the writer -/

/-- Writing a reset that is owed settles the debt: the epoch was counted when it arose. -/
theorem epoch_announce (hp : s.transport.resetPending) :
    (s.write Frame.reset).epoch = s.epoch := by
  simp [epoch, write, Frame.reset, hp]

/-- Whatever a station does, what it wrote before stays on its log. -/
theorem Logged.move {mayReset : Prop} (h : s.Logged p) (hs : s.Sound) (hm : s.Move mayReset s') :
    s'.Logged p := by
  cases hm with
  | rest halike =>
    exact h.mono (epoch_alike halike) le_rfl rfl (number_congr halike.nextSeq rfl)
      (sent_alike halike).ge (departed_alike halike).ge (List.prefix_refl _)
  | @send e =>
    exact h.mono rfl le_rfl rfl (number_join s e) (sent_le_join s e) (departed_join s e).ge
      (List.prefix_append ..)
  | ack => exact h.mono rfl le_rfl rfl rfl le_rfl le_rfl (List.prefix_refl _)
  | announce hp =>
    exact h.mono (epoch_announce hp) (Nat.le_succ _) rfl rfl le_rfl le_rfl (List.prefix_refl _)
  | transmit hqueue hfront =>
    exact h.mono rfl le_rfl rfl rfl (sent_le_launch hqueue hfront).1 (departed_launch hqueue).ge
      (List.prefix_refl _)
  | giveUp => exact h.restart hs le_rfl s.transport.inFlight_le
  | reset => exact h.restart hs s.transport.inFlight_le le_rfl

/-- The same for a packet that arrives. `hreset` says that a reset tells of an epoch that was not
heard of before, which `Ordered.reset` provides for the other direction. -/
theorem Logged.takes (h : s.Logged q) (hs : s.Sound) (ht : s.Takes p s')
    (hreset : p.IsReset → s.heard < p.epoch) : s'.Logged q := by
  cases ht with
  | accepted => exact h.mono rfl le_rfl rfl rfl le_rfl le_rfl (List.prefix_refl _)
  | acked _ _ _ _ hle =>
    -- More messages have left the queue, and as many are sent as before.
    have hdeparted := departed_release hs (hle.trans s.transport.inFlight_le) p
    exact h.mono rfl le_rfl rfl rfl (sent_release hs hle p).ge
      (hdeparted ▸ Nat.le_add_right ..) (List.prefix_refl _)
  | spurious => exact h.mono rfl le_rfl rfl rfl le_rfl le_rfl (List.prefix_refl _)
  | told hid =>
    have hlt := hreset hid
    have hle := h.heard_le
    refine h.renew ?_ rfl hlt.le ?_ rfl
    · -- No frame was written with knowledge of an epoch that is only heard of now.
      intro hl
      have hlive : q.heard = p.epoch := hl.2
      omega
    · have hdeparted := departed_restart hs s.transport.inFlight_le false
      exact hdeparted.ge

/-! ### The frame that is written -/

section launch

variable {front back : List Entry} {e : Entry} {now : UInt32}
  (hs : s.Sound) (hqueue : s.transport.queue = front ++ e :: back)

include hs hqueue

/-- The packet that `launch` puts on its way, with its marks. -/
theorem outgoing_launch (hp : ¬ s.transport.resetPending) :
    (s.launch front e back now).outgoing =
      s.outgoing ++ [⟨e.frame, s.departed + front.length, s.issued, s.heard⟩] := by
  have hplace := hs.place_eq hqueue
  simp [Station.launch, write, Entry.frame, hplace, epoch, hp]

/-- A frame that is written is on the log, and `Live`. -/
theorem logged_launch (hfront : ∀ x ∈ front, x.isSent) (hp : ¬ s.transport.resetPending) :
    (s.launch front e back now).Logged
      ⟨e.frame, s.departed + front.length, s.issued, s.heard⟩ where
  epoch_le := le_rfl
  heard_le := le_rfl
  message := hs.message_eq hqueue
  live _ := ⟨hs.seq_eq hqueue, (sent_le_launch hqueue hfront).2⟩
  old hl := absurd ⟨by simp [Station.launch, write, Entry.frame, epoch, hp], rfl⟩ hl

/-- A frame that is written follows all frames written before, in the sense of `Packet.Before`. -/
theorem before_launch (hp : ¬ s.transport.resetPending) (hq : q.IsData → s.Logged q)
    (hreset : q.IsReset → q.epoch ≤ s.issued) :
    q.Before ⟨e.frame, s.departed + front.length, s.issued, s.heard⟩ := by
  have hepoch : s.epoch = s.issued := by simp [epoch, hp]
  refine ⟨?_, fun hr _ => hreset hr, ?_, ?_⟩
  · intro _ hr
    simp [Packet.IsReset, Entry.frame] at hr
  · intro hd _ hsame
    -- In the present numbering the offset is the same for all messages.
    obtain ⟨hseq, hindex⟩ := (hq hd).live ⟨hsame.1.trans hepoch.symm, hsame.2⟩
    have hle := hs.sent_le_departed
    refine ⟨?_, ?_⟩
    · have heq := hs.seq_eq hqueue
      simp only [Entry.frame, hseq, heq, number]
      grind
    · simp only
      omega
  · intro hd _ hne
    -- The message of any other numbering has left the queue.
    have hindex := (hq hd).old fun hl => hne ⟨hl.1.trans hepoch, hl.2⟩
    simp only
    omega

end launch

/-! ## The invariant -/

/-- What was handed over since the station restarted, and the number that it expects next: zero, or
the one behind the number of the last message. -/
structure Recent (r : Station) (recent : List Receipt) : Prop where
  increasing : recent.Pairwise fun x y => x.packet.index < y.packet.index
  expected : recent = [] ∧ r.transport.expected = 0 ∨
    ∃ x ∈ recent, (∀ y ∈ recent, y.packet.index ≤ x.packet.index) ∧
      r.transport.expected = x.packet.frame.seq + 1

/-- What `r` was handed by `s`, and what is on its way to it. The field `once` is what the module is
about; `before`, `logged` and `split` are needed to keep it, and the rest to keep those. -/
structure Ordered (s r : Station) : Prop where
  before : (r.received.map Receipt.packet ++ s.outgoing).Pairwise Packet.Before
  isData : ∀ x ∈ r.received, x.packet.IsData
  logged : ∀ p ∈ r.received.map Receipt.packet ++ s.outgoing, p.IsData → s.Logged p
  heard_le : ∀ p ∈ s.outgoing, p.heard ≤ s.heard
  reset : ∀ p ∈ s.outgoing, p.IsReset → r.heard < p.epoch ∧ p.epoch ≤ s.issued
  data : ∀ p ∈ s.outgoing, p.IsData → r.heard ≤ p.epoch
  heard : r.heard ≤ s.issued
  /-- Frames from before the last restart are of another numbering than those still to come, or all
  frames of their numbering are stale. -/
  split : ∃ past recent, r.received = past ++ recent ∧ r.Recent recent ∧
    ∀ x ∈ past, x.packet.heard < r.epoch ∨ x.packet.epoch < r.heard
  once : r.received.Pairwise fun x y => x.packet.index < y.packet.index ∨ y.Stale

namespace Ordered

theorem logged_received (h : Ordered s r) {x : Receipt} (hx : x ∈ r.received) :
    s.Logged x.packet :=
  h.logged x.packet (List.mem_append_left _ (List.mem_map_of_mem hx)) (h.isData x hx)

theorem logged_outgoing (h : Ordered s r) (hp : p ∈ s.outgoing) (hd : p.IsData) : s.Logged p :=
  h.logged p (List.mem_append_right _ hp) hd

/-! ### Moves of the writer -/

/-- Nothing is written: only the log and the counters of the writer may have changed. -/
theorem writer (h : Ordered s r) (hout : s'.outgoing = s.outgoing) (hissued : s.issued ≤ s'.issued)
    (hheard : s.heard ≤ s'.heard) (hlogged : ∀ q, s.Logged q → s'.Logged q) : Ordered s' r where
  before := hout ▸ h.before
  isData := h.isData
  logged p hp hd := hlogged p (h.logged p (hout ▸ hp) hd)
  heard_le p hp := (h.heard_le p (hout ▸ hp)).trans hheard
  reset p hp hr := (h.reset p (hout ▸ hp) hr).imp_right hissued.trans'
  data p hp hd := h.data p (hout ▸ hp) hd
  heard := h.heard.trans hissued
  split := h.split
  once := h.once

/-- A frame `p` is written. It has to follow all others (`hbefore`), and be on the log if it is a
data frame and of a new epoch if it is a reset. -/
theorem write (h : Ordered s r) (hout : s'.outgoing = s.outgoing ++ [p])
    (hissued : s.issued ≤ s'.issued) (hheard : s.heard ≤ s'.heard)
    (hlogged : ∀ q, s.Logged q → s'.Logged q)
    (hbefore : ∀ q, (q.IsData → s.Logged q) → (q.IsReset → q.epoch ≤ s.issued) → q.Before p)
    (hheard' : p.heard ≤ s'.heard) (hdata : p.IsData → s'.Logged p ∧ s.issued ≤ p.epoch)
    (hreset : p.IsReset → s.issued < p.epoch ∧ p.epoch ≤ s'.issued) : Ordered s' r := by
  have hlog := h.logged
  -- A frame on the way is an old one or the new one.
  have hmem : ∀ q ∈ s'.outgoing, q ∈ s.outgoing ∨ q = p := by
    intro q hq
    rw [hout] at hq
    simpa using hq
  constructor
  · rw [hout, ← List.append_assoc, List.pairwise_append]
    refine ⟨h.before, List.pairwise_singleton .., ?_⟩
    intro q hq x hx
    rw [List.mem_singleton.mp hx]
    apply hbefore q (hlog q hq)
    intro hr
    rcases List.mem_append.mp hq with hq | hq
    · -- Only data frames are handed over.
      obtain ⟨x, hx, rfl⟩ := List.mem_map.mp hq
      exact absurd hr (h.isData x hx).not_isReset
    · exact (h.reset q hq hr).2
  · exact h.isData
  · intro q hq hd
    rcases List.mem_append.mp hq with hq | hq
    · exact hlogged q (hlog q (List.mem_append_left _ hq) hd)
    · rcases hmem q hq with hq | rfl
      · exact hlogged q (hlog q (List.mem_append_right _ hq) hd)
      · exact (hdata hd).1
  · intro q hq
    rcases hmem q hq with hq | rfl
    · exact (h.heard_le q hq).trans hheard
    · exact hheard'
  · intro q hq hr
    rcases hmem q hq with hq | rfl
    · exact (h.reset q hq hr).imp_right hissued.trans'
    · -- The reader cannot have heard of a reset that is written only now.
      exact ⟨h.heard.trans_lt (hreset hr).1, (hreset hr).2⟩
  · intro q hq hd
    rcases hmem q hq with hq | rfl
    · exact h.data q hq hd
    · exact h.heard.trans (hdata hd).2
  · exact h.heard.trans hissued
  · exact h.split
  · exact h.once

/-- The step lemma for the writer's own moves, one case for each constructor of `Station.Move`. -/
theorem writer_move {mayReset : Prop} (h : Ordered s r) (hs : s.Sound) (hm : s.Move mayReset s') :
    Ordered s' r := by
  have hlogged : ∀ q, s.Logged q → s'.Logged q := fun q hq => hq.move hs hm
  cases hm with
  | rest => exact h.writer rfl le_rfl le_rfl hlogged
  | send => exact h.writer rfl le_rfl le_rfl hlogged
  | ack =>
    refine h.write rfl le_rfl le_rfl hlogged (fun q _ _ => q.before_ack rfl) le_rfl ?_ ?_
    · rintro ⟨id, hid⟩
      simp [Frame.ack] at hid
    · intro hr
      simp [Packet.IsReset, Frame.ack] at hr
  | announce =>
    refine h.write rfl (Nat.le_succ _) le_rfl hlogged ?_ le_rfl ?_
      fun _ => ⟨Nat.lt_succ_self _, le_rfl⟩
    · intro q hq hr
      -- A reset is no data frame, so only the order of epochs is at stake.
      refine ⟨fun hdr _ => ?_, fun _ hd => ?_, fun _ hd => ?_, fun _ hd => ?_⟩
      · apply Nat.lt_succ_of_le
        rcases hdr with hd | hr'
        · exact (hq hd).epoch_le
        · exact hr hr'
      all_goals exact absurd rfl hd.not_isReset
    · intro hd
      exact absurd rfl hd.not_isReset
  | @transmit front back e now hqueue hfront hp =>
    refine h.write (outgoing_launch hs hqueue hp) le_rfl le_rfl hlogged
      (fun q hq hr => before_launch hs hqueue hp hq hr) le_rfl
      (fun _ => ⟨logged_launch hs hqueue hfront hp, le_rfl⟩) ?_
    intro hr
    simp [Packet.IsReset, Entry.frame] at hr
  | giveUp => exact h.writer rfl le_rfl le_rfl hlogged
  | reset => exact h.writer rfl le_rfl le_rfl hlogged

/-- A packet that the writer takes does not concern the frames it wrote, apart from `Live`. -/
theorem writer_takes (h : Ordered s r) (hs : s.Sound) (ht : s.Takes p s')
    (hreset : p.IsReset → s.heard < p.epoch) : Ordered s' r := by
  have hlogged : ∀ q, s.Logged q → s'.Logged q := fun q hq => hq.takes hs ht hreset
  cases ht with
  | accepted => exact h.writer rfl le_rfl le_rfl hlogged
  | acked => exact h.writer rfl le_rfl le_rfl hlogged
  | spurious => exact h.writer rfl le_rfl le_rfl hlogged
  | told hid => exact h.writer rfl le_rfl (hreset hid).le hlogged

/-! ### Moves of the reader -/

/-- The invariant speaks of four things of the reader only. -/
theorem reader (h : Ordered s r) (hreceived : r'.received = r.received)
    (hexpected : r'.transport.expected = r.transport.expected) (hepoch : r'.epoch = r.epoch)
    (hheard : r'.heard = r.heard) : Ordered s r' := by
  obtain ⟨past, recent, hsplit, hrecent, hpast⟩ := h.split
  exact {
    before := hreceived ▸ h.before
    isData := hreceived ▸ h.isData
    logged := hreceived ▸ h.logged
    heard_le := h.heard_le
    reset := hheard ▸ h.reset
    data := hheard ▸ h.data
    heard := hheard ▸ h.heard
    split := ⟨past, recent, hreceived.trans hsplit,
      ⟨hrecent.increasing, hexpected ▸ hrecent.expected⟩, by rwa [hepoch, hheard]⟩
    once := hreceived ▸ h.once }

/-- The reader restarts by itself: whatever was written so far is `Receipt.Stale` from now on, and
nothing was handed over in the new numbering. -/
theorem reader_restart (h : Ordered s r) (hheard : s.heard ≤ r.issued) (n : Nat) :
    Ordered s (r.restart n true) where
  before := h.before
  isData := h.isData
  logged := h.logged
  heard_le := h.heard_le
  reset := h.reset
  data := h.data
  heard := h.heard
  split := by
    refine ⟨r.received, [], (List.append_nil _).symm, ⟨.nil, .inl ⟨rfl, rfl⟩⟩, ?_⟩
    intro x hx
    left
    have hepoch : (r.restart n true).epoch = r.issued + 1 := rfl
    have hle := (h.logged_received hx).heard_le
    omega
  once := h.once

/-- The step lemma for the reader's own moves. -/
theorem reader_move {mayReset : Prop} (h : Ordered s r) (hheard : s.heard ≤ r.issued)
    (hm : r.Move mayReset r') : Ordered s r' := by
  cases hm with
  | rest halike => exact h.reader rfl halike.expected (epoch_alike halike) rfl
  | send => exact h.reader rfl rfl rfl rfl
  | ack => exact h.reader rfl rfl rfl rfl
  | announce hp => exact h.reader rfl rfl (epoch_announce hp) rfl
  | transmit => exact h.reader rfl rfl rfl rfl
  | giveUp => exact h.reader_restart hheard _
  | reset => exact h.reader_restart hheard _

/-- Frames may be lost, since the invariant asks of each frame and each pair only. -/
theorem lose {out : List Packet} (h : Ordered s r) (hout : out.Sublist s.outgoing) :
    Ordered { s with outgoing := out } r where
  before := h.before.sublist (hout.append_left _)
  isData := h.isData
  logged p hp hd := by
    have hp' : p ∈ r.received.map Receipt.packet ++ s.outgoing :=
      (hout.append_left _).mem hp
    obtain ⟨hepoch, hheard, hmessage, hlive, hold⟩ := h.logged p hp' hd
    exact ⟨hepoch, hheard, hmessage, hlive, hold⟩
  heard_le p hp := h.heard_le p (hout.mem hp)
  reset p hp := h.reset p (hout.mem hp)
  data p hp := h.data p (hout.mem hp)
  heard := h.heard
  split := h.split
  once := h.once

variable {rest : List Packet}

/-- A reset from the writer: no frame behind it is of a numbering before it. -/
theorem reader_told (h : Ordered s r) (hout : s.outgoing = p :: rest) (hid : p.IsReset) (n : Nat) :
    Ordered { s with outgoing := rest } { r.restart n false with heard := p.epoch } := by
  have hbefore := h.before
  rw [hout, List.pairwise_append, List.pairwise_cons] at hbefore
  obtain ⟨-, ⟨hrest, -⟩, hreceived⟩ := hbefore
  have hlost := h.lose (hout ▸ List.sublist_cons_self p rest)
  refine { hlost with reset := ?_, data := ?_, heard := ?_, split := ?_ }
  · -- Every frame behind the reset was written in the epoch that it tells of, or later.
    intro q hq hr
    exact ⟨(hrest q hq).epoch_lt (.inr hid) hr, (hlost.reset q hq hr).2⟩
  · intro q hq hd
    exact (hrest q hq).epoch_le hid hd
  · exact (h.reset p (hout ▸ List.mem_cons_self ..) hid).2
  · refine ⟨r.received, [], (List.append_nil _).symm, ⟨.nil, .inl ⟨rfl, rfl⟩⟩, ?_⟩
    intro x hx
    right
    exact (hreceived x.packet (List.mem_map_of_mem hx) p (List.mem_cons_self ..)).epoch_lt
      (.inl (h.isData x hx)) hid

/-- A frame with the number that follows another one's number is of a later message. This is where
the 8-bit numbers are compared: an index that is one more modulo 256 and at most 15 less is more. -/
theorem index_lt_of_seq {q p : Packet} (h : q.Before p) (hq : q.IsData) (hp : p.IsData)
    (hseq : p.frame.seq = q.frame.seq + 1) : q.index < p.index := by
  by_cases hsame : q.SameEra p
  · -- The indices agree up to a multiple of 256, and the later frame is at most 15 behind.
    obtain ⟨hoffset, hle⟩ := h.same hq hp hsame
    have hnext : p.index.toUInt8 = (q.index + 1).toUInt8 := by
      rw [hseq] at hoffset
      simp only [Nat.toUInt8_eq, UInt8.ofNat_add] at hoffset ⊢
      grind
    have hmod := congrArg UInt8.toNat hnext
    simp only [Nat.toUInt8_eq, UInt8.toNat_ofNat'] at hmod
    omega
  · exact h.differ hq hp hsame

/-- The reader hands over the frame that it expects, and `once` is kept: against a frame of the same
numbering by `index_lt_of_seq`, against one from before the restart by `split`. -/
theorem reader_accepted (h : Ordered s r) (hout : s.outgoing = p :: rest) (hd : p.IsData)
    (hseq : p.frame.seq = r.transport.expected) :
    Ordered { s with outgoing := rest } (r.accept p) := by
  have hlist : (r.accept p).received.map Receipt.packet ++ rest =
      r.received.map Receipt.packet ++ s.outgoing := by
    simp [Station.accept, hout]
  have hbefore : ∀ x ∈ r.received, x.packet.Before p := by
    have hall := h.before
    rw [hout, List.pairwise_append] at hall
    exact fun x hx => hall.2.2 x.packet (List.mem_map_of_mem hx) p (List.mem_cons_self ..)
  have hlost := h.lose (hout ▸ List.sublist_cons_self p rest)
  obtain ⟨past, recent, hsplit, ⟨hincreasing, hexpected⟩, hpast⟩ := h.split
  have hmem : ∀ x ∈ past ++ recent, x ∈ r.received := fun x hx => hsplit ▸ hx
  have hrecent : ∀ x ∈ recent, x.packet.index < p.index := by
    intro x hx
    -- The number expected follows that of the last one handed over.
    rcases hexpected with ⟨rfl, -⟩ | ⟨y, hy, hmax, hy'⟩
    · exact absurd hx (List.not_mem_nil)
    · have hyr := hmem y (List.mem_append_right _ hy)
      have hlt := index_lt_of_seq (hbefore y hyr) (h.isData y hyr) hd (hseq.trans hy')
      exact (hmax x hx).trans_lt hlt
  -- A frame from before the restart is of an earlier message, or the new one is stale.
  have hold : ∀ x ∈ past, x.packet.index < p.index ∨ p.heard < r.epoch := by
    intro x hx
    have hxr := hmem x (List.mem_append_left _ hx)
    by_cases hsame : x.packet.SameEra p
    · rcases hpast x hx with hlt | hlt
      · exact .inr (hsame.2 ▸ hlt)
      · have hle := h.data p (hout ▸ List.mem_cons_self ..) hd
        have hepoch := hsame.1
        omega
    · exact .inl ((hbefore x hxr).differ (h.isData x hxr) hd hsame)
  have hlast : ∀ x ∈ (r.accept p).received, x ∈ r.received ∨ x = ⟨p, r.epoch, r.heard⟩ := by
    intro x hx
    simpa [Station.accept] using hx
  refine { hlost with before := ?_, isData := ?_, logged := ?_, split := ?_, once := ?_ }
  · rw [hlist]; exact h.before
  · intro x hx
    rcases hlast x hx with hx | rfl
    · exact h.isData x hx
    · exact hd
  · intro q hq hdq
    obtain ⟨hepoch, hheard, hmessage, hlive, holdq⟩ := h.logged q (hlist ▸ hq) hdq
    exact ⟨hepoch, hheard, hmessage, hlive, holdq⟩
  · -- The new frame joins those handed over since the restart, as the last of them.
    refine ⟨past, recent ++ [⟨p, r.epoch, r.heard⟩], ?_,
      ⟨?_, .inr ⟨⟨p, r.epoch, r.heard⟩, ?_, ?_, ?_⟩⟩, hpast⟩
    · simp [Station.accept, hsplit]
    · rw [List.pairwise_append]
      refine ⟨hincreasing, List.pairwise_singleton .., ?_⟩
      intro x hx y hy
      rw [List.mem_singleton.mp hy]
      exact hrecent x hx
    · exact List.mem_append_right _ (List.mem_singleton_self _)
    · intro y hy
      rcases List.mem_append.mp hy with hy | hy
      · exact (hrecent y hy).le
      · rw [List.mem_singleton.mp hy]
    · simp [Station.accept, hseq]
  · -- Against each one handed over before, the new frame is of a later message or stale.
    simp only [Station.accept]
    rw [List.pairwise_append]
    refine ⟨h.once, List.pairwise_singleton .., ?_⟩
    intro x hx y hy
    rw [List.mem_singleton.mp hy]
    rw [hsplit] at hx
    rcases List.mem_append.mp hx with hx | hx
    · exact hold x hx
    · exact .inl (hrecent x hx)

/-- The step lemma for the packets that the reader takes, one case for each constructor of
`Station.Takes`. -/
theorem reader_takes (h : Ordered s r) (hout : s.outgoing = p :: rest) (ht : r.Takes p r') :
    Ordered { s with outgoing := rest } r' := by
  have hlost := h.lose (hout ▸ List.sublist_cons_self p rest)
  cases ht with
  | accepted hid hseq => exact h.reader_accepted hout ⟨_, hid⟩ hseq
  | acked => exact hlost.reader rfl rfl rfl rfl
  | spurious => exact hlost.reader rfl rfl rfl rfl
  | told hid => exact h.reader_told hout hid _

end Ordered

theorem ordered_fresh (c₁ c₂ : Config) : Ordered (fresh c₁) (fresh c₂) where
  before := .nil
  isData := by simp [fresh]
  logged := by simp [fresh]
  heard_le := by simp [fresh]
  reset := by simp [fresh]
  data := by simp [fresh]
  heard := le_rfl
  split := ⟨[], [], rfl, ⟨.nil, .inl ⟨rfl, rfl⟩⟩, by simp⟩
  once := .nil

end Station

namespace Link

/-- Frames are in order in both directions, each station being the writer of one and the reader of
the other. -/
def Ordered (l : Link) : Prop := l.left.Ordered l.right ∧ l.right.Ordered l.left

/-- **The order of frames is kept by every move of a line.** That a reset announces something new,
which `writer_takes` asks for, is known from the other direction. -/
theorem Ordered.move {mayReset : Prop} {l l' : Link} (hs : l.Sound) (h : l.Ordered)
    (hm : Move mayReset l l') : l'.Ordered := by
  obtain ⟨h₁, h₂⟩ := h
  cases hm with
  | own hm => exact ⟨h₁.writer_move hs.1 hm, h₂.reader_move h₁.heard hm⟩
  | take ho ht =>
    have hreset := fun hr => (h₂.reset _ (ho ▸ List.mem_cons_self ..) hr).1
    exact ⟨(h₁.writer_takes hs.1 ht hreset).reader rfl rfl rfl rfl, h₂.reader_takes ho ht⟩
  | lose hl hr =>
    exact ⟨(h₁.lose hl).reader rfl rfl rfl rfl, (h₂.lose hr).reader rfl rfl rfl rfl⟩

variable {σ ε : Type} [ByteSink σ ε]

/-- Soundness and order hold all along every run, with resets allowed. -/
theorem ordered_run (c₁ c₂ : Config) (actions : List (Side × Action σ)) :
    ((fresh c₁ c₂).run actions).Sound ∧ ((fresh c₁ c₂).run actions).Ordered :=
  invariant_run (fun _ h => ⟨h.2, h.1⟩) (fun _ _ hs h hm => h.move hs hm)
    (sound_fresh c₁ c₂) ⟨Station.ordered_fresh c₁ c₂, Station.ordered_fresh c₂ c₁⟩ actions
    (fun _ _ _ _ => True.intro)

/-- An invariant may rest on a condition `C` that holds all along a run if it holds at the end
(`hback`). The step lemma `hmove` may use `Ordered` besides. -/
theorem invariant_run_while {mayReset : Prop} {C Inv : Link → Prop} (hC : ∀ l, C l → C l.swap)
    (hswap : ∀ l, Inv l → Inv l.swap) (hback : ∀ l l', Move mayReset l l' → C l' → C l)
    (hmove : ∀ l l', l.Sound → l.Ordered → Inv l → Move mayReset l l' → C l' → Inv l')
    {c₁ c₂ : Config} (hfresh : Inv (fresh c₁ c₂)) {actions : List (Side × Action σ)}
    (hmay : ∀ a ∈ actions, ∀ sink, a.2 = .reset sink → mayReset)
    (h : C ((fresh c₁ c₂).run actions)) : Inv ((fresh c₁ c₂).run actions) := by
  let Inv' (l : Link) : Prop := l.Ordered ∧ (C l → Inv l)
  have hswap' : ∀ l, Inv' l → Inv' l.swap := by
    rintro l ⟨ho, hl⟩
    refine ⟨⟨ho.2, ho.1⟩, ?_⟩
    intro hc
    -- Seen from the other end twice, a line is the same again.
    exact hswap l (hl (hC l.swap hc))
  have hmove' : ∀ l l', l.Sound → Inv' l → Move mayReset l l' → Inv' l' := by
    rintro l l' hs ⟨ho, hl⟩ hm
    refine ⟨ho.move hs hm, ?_⟩
    intro hc
    exact hmove l l' hs ho (hl (hback l l' hm hc)) hm hc
  have hfresh' : Inv' (fresh c₁ c₂) :=
    ⟨⟨Station.ordered_fresh c₁ c₂, Station.ordered_fresh c₂ c₁⟩, fun _ => hfresh⟩
  exact (invariant_run hswap' hmove' (sound_fresh c₁ c₂) hfresh' actions hmay).2.2 h

/-- **Only messages that the peer accepted are handed over, and one is handed over again exactly
when a stale frame carries it.** Frames may get lost, sinks may refuse them, and either station may
give frames up or be reset at any time. -/
theorem handed_over_once_iff (c₁ c₂ : Config) (actions : List (Side × Action σ)) (side : Side) :
    let s := ((fresh c₁ c₂).run actions).station side
    let r := ((fresh c₁ c₂).run actions).station side.other
    (∀ x ∈ r.received, s.accepted[x.packet.index]? = some x.packet.frame.message) ∧
      ((r.received.map fun x => x.packet.index).Nodup ↔
        r.received.Pairwise fun x y => y.packet.index = x.packet.index → ¬ y.Stale) := by
  intro s r
  -- Both parts are read off the order of frames in this direction.
  have hordered : s.Ordered r := by
    obtain ⟨-, h₁, h₂⟩ := ordered_run c₁ c₂ actions
    cases side with
    | left => exact h₁
    | right => exact h₂
  refine ⟨?_, ?_, ?_⟩
  · intro x hx
    exact (hordered.logged_received hx).message
  · intro hnodup
    rw [List.Nodup, List.pairwise_map] at hnodup
    exact hnodup.imp fun hne heq => absurd heq.symm hne
  · intro hfresh
    rw [List.Nodup, List.pairwise_map]
    apply (hordered.once.and hfresh).imp
    intro x y h heq
    rcases h.1 with hlt | hstale
    · omega
    · exact h.2 heq.symm hstale

/-- A frame is sent, delivered and sent again; the reader resets, and the copy arrives. -/
def copyAfterReset : List (Side × Action (TxQueue 400)) :=
  [(.left, .send ⟨1, [0x11]⟩), (.left, .service 0 .empty), (.right, .receive 1 .empty),
    (.left, .service 1000 .empty), (.right, .reset .empty), (.right, .receive 1001 .empty)]

/-- The same message is handed over twice, although nothing was lost and every sink had room. -/
theorem handed_over_twice :
    let l := (fresh .standard .standard).run copyAfterReset
    l.left.accepted = [⟨1, [0x11]⟩] ∧
      l.right.received.map (·.packet.frame.message) = [⟨1, [0x11]⟩, ⟨1, [0x11]⟩] ∧
      ¬ (l.right.received.map (·.packet.index)).Nodup := by
  decide +kernel

end Link

end SerialLink
