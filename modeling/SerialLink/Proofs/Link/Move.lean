import SerialLink.Proofs.Link.Sound

/-!
# The moves of a station

What a station does is cut into moves, each with one effect on the numbering, the queue or the line.
They say once what any operation can do, so that an invariant is checked on the moves only. Counters
and times do not matter to them, apart from the count of acknowledgements that made no sense.

`Station.Move` lists what a station may do by itself and `Station.Takes` what a packet from the peer
may do to it; `Link.Move` adds that frames get lost. The guards are those of the code: a data frame
goes out only while no reset is owed, and an acknowledgement counts only if it lies within what is
in flight. A move is described by the state after it (`join`, `launch`, `restart`, `accept`,
`release`, `suspect`), and beside these stand the lemmas that say what becomes of `departed`,
`number` and `sent`, so that later proofs do not open them. `Sound.move` and `Sound.takes` are the
first invariant done this way. That operations are made of moves is left to the module about turns.
-/

namespace SerialLink

/-! ## Transports that number alike -/

/-- The two differ in counters, times and the link state only. The fields default to `rfl`, so that
a step that touches none of these needs no proof. -/
structure Transport.Alike (t t' : Transport) : Prop where
  window : t'.window = t.window := by rfl
  queue : t'.queue = t.queue := by rfl
  nextSeq : t'.nextSeq = t.nextSeq := by rfl
  expected : t'.expected = t.expected := by rfl
  resetPending : t'.resetPending = t.resetPending := by rfl
  spuriousAcks : t'.stats.spuriousAcks = t.stats.spuriousAcks := by rfl

/-- All of a transport that `Transport.Alike` compares. -/
def Transport.shape (t : Transport) :=
  (t.window, t.queue, t.nextSeq, t.expected, t.resetPending, t.stats.spuriousAcks)

theorem Transport.Alike.of_shape {t t' : Transport} (h : t'.shape = t.shape) : t.Alike t' := by
  simp only [shape, Prod.mk.injEq] at h
  obtain ⟨hwindow, hqueue, hnextSeq, hexpected, hpending, hspurious⟩ := h
  exact ⟨hwindow, hqueue, hnextSeq, hexpected, hpending, hspurious⟩

theorem Transport.Alike.trans {t u v : Transport} (h : t.Alike u) (h' : u.Alike v) : t.Alike v :=
  ⟨h'.window.trans h.window, h'.queue.trans h.queue, h'.nextSeq.trans h.nextSeq,
    h'.expected.trans h.expected, h'.resetPending.trans h.resetPending,
    h'.spuriousAcks.trans h.spuriousAcks⟩

namespace Station

/-! ## Moves -/

/-- A message is queued: what `Transport.enqueue` does when it succeeds. -/
def join (s : Station) (e : Entry) : Station :=
  { s with
    transport := { s.transport with
      queue := s.transport.queue ++ [e]
      nextSeq := s.transport.nextSeq + 1 }
    accepted := s.accepted ++ [e.message] }

/-- A data frame is written that stands between `front` and `back` in the queue. Its place stays,
and `Entry.markSent` notes that it is on its way. -/
def launch (s : Station) (front : List Entry) (e : Entry) (back : List Entry) (now : UInt32) :
    Station :=
  { s.write e.frame with
    transport := { s.transport with queue := front ++ e.markSent now :: back } }

/-- Numbering starts anew without the first `n` queued frames, which are reported. What is kept is
`renumbered` from zero. Giving up, a reset and hearing of one differ in `n` and in `pending`. -/
def restart (s : Station) (n : Nat) (pending : Bool) : Station :=
  { s with
    transport := { s.transport with
      queue := renumbered (s.transport.queue.drop n)
      nextSeq := (s.transport.queue.length - n).toUInt8
      expected := 0
      resetPending := pending }
    reported := s.reported ++ List.range' s.departed n }

/-- A data frame is handed over, with a `Receipt` that remembers what the reader knew. -/
def accept (s : Station) (p : Packet) : Station :=
  { s with
    transport := { s.transport with expected := s.transport.expected + 1 }
    received := s.received ++ [⟨p, s.epoch, s.heard⟩] }

/-- An acknowledgement takes `n` frames off the queue. -/
def release (s : Station) (p : Packet) (n : Nat) : Station :=
  { s with
    transport := { s.transport with queue := s.transport.queue.drop n }
    acknowledged := s.acknowledged ++ [⟨p, s.epoch, s.heard⟩] }

/-- An acknowledgement makes no sense. Only `spuriousAcks` tells that it came. -/
def suspect (s : Station) : Station :=
  { s with
    transport := { s.transport with
      stats := { s.transport.stats with spuriousAcks := s.transport.stats.spuriousAcks + 1 } } }

/-- What a station may do by itself. With `mayReset` false, resets by the application are left out,
for the results about runs that have none. -/
inductive Move (mayReset : Prop) (s : Station) : Station → Prop where
  | rest {t : Transport} (halike : s.transport.Alike t) : Move mayReset s { s with transport := t }
  | send {e : Entry} (hroom : s.transport.queue.length < s.transport.window)
      (hseq : e.seq = s.transport.nextSeq) (hsent : ¬ e.isSent) : Move mayReset s (s.join e)
  | ack : Move mayReset s (s.write (Frame.ack s.transport.expected))
  | announce (hpending : s.transport.resetPending) : Move mayReset s (s.write Frame.reset)
  | transmit {front back : List Entry} {e : Entry} {now : UInt32}
      (hqueue : s.transport.queue = front ++ e :: back) (hfront : ∀ x ∈ front, x.isSent)
      (hpending : ¬ s.transport.resetPending) : Move mayReset s (s.launch front e back now)
  | giveUp (hsent : 0 < s.transport.inFlight) :
      Move mayReset s (s.restart s.transport.inFlight true)
  | reset (hmay : mayReset) : Move mayReset s (s.restart s.transport.queue.length true)

/-- What a packet from the peer may do to a station, unless it does nothing. A data frame out of
sequence and an acknowledgement of nothing new do nothing. -/
inductive Takes (p : Packet) (s : Station) : Station → Prop where
  | accepted {id : UInt8} (hid : p.frame.id = .data id)
      (hseq : p.frame.seq = s.transport.expected) : Takes p s (s.accept p)
  | acked {n : Nat} (hid : p.frame.id = .ack) (hpending : ¬ s.transport.resetPending)
      (hn : n = (p.frame.seq - s.transport.oldestSeq).toNat) (hpos : 0 < n)
      (hle : n ≤ s.transport.inFlight) : Takes p s (s.release p n)
  | spurious (hid : p.frame.id = .ack) (hbad : s.transport.resetPending ∨
      s.transport.inFlight < (p.frame.seq - s.transport.oldestSeq).toNat) : Takes p s s.suspect
  | told (hid : p.frame.id = .reset) :
      Takes p s { s.restart s.transport.inFlight false with heard := p.epoch }

end Station

namespace Link

/-- One `Station.Move` or `Station.Takes` of the left station, or a loss at either end. A packet
that does nothing counts as lost. -/
inductive Move (mayReset : Prop) : Link → Link → Prop where
  | own {s s' r : Station} (h : s.Move mayReset s') : Move mayReset ⟨s, r⟩ ⟨s', r⟩
  | take {s s' r : Station} {p : Packet} {rest : List Packet} (ho : r.outgoing = p :: rest)
      (h : s.Takes p s') : Move mayReset ⟨s, r⟩ ⟨s', { r with outgoing := rest }⟩
  | lose {s r : Station} {out out' : List Packet} (hs : out.Sublist s.outgoing)
      (hr : out'.Sublist r.outgoing) :
      Move mayReset ⟨s, r⟩ ⟨{ s with outgoing := out }, { r with outgoing := out' }⟩

end Link

/-! ## What the moves leave -/

namespace Station

variable {s s' : Station}

/-- `Station.write` leaves all but the line and the resets owed. -/
@[simp]
theorem write_frame (s : Station) (f : Frame) :
    (s.write f).transport.window = s.transport.window ∧
      (s.write f).transport.queue = s.transport.queue ∧
      (s.write f).transport.nextSeq = s.transport.nextSeq ∧
      (s.write f).transport.expected = s.transport.expected ∧
      (s.write f).transport.stats = s.transport.stats ∧ (s.write f).accepted = s.accepted ∧
      (s.write f).received = s.received ∧ (s.write f).acknowledged = s.acknowledged ∧
      (s.write f).reported = s.reported ∧ (s.write f).heard = s.heard := by
  unfold write
  cases f.id <;> exact ⟨rfl, rfl, rfl, rfl, rfl, rfl, rfl, rfl, rfl, rfl⟩

theorem departed_congr (hq : s'.transport.queue.length = s.transport.queue.length)
    (ha : s'.accepted = s.accepted) : s'.departed = s.departed := by
  simp only [departed, hq, ha]

/-- Messages keep their `number` as long as `nextSeq` and the messages accepted stay. -/
theorem number_congr (hn : s'.transport.nextSeq = s.transport.nextSeq)
    (ha : s'.accepted = s.accepted) : s'.number = s.number := by
  funext k
  simp only [number, hn, ha]

section alike

variable {t : Transport} (halike : s.transport.Alike t)

include halike

theorem epoch_alike : epoch { s with transport := t } = s.epoch := by
  simp only [epoch, halike.resetPending]

theorem departed_alike : departed { s with transport := t } = s.departed :=
  departed_congr (by rw [halike.queue]) rfl

theorem sent_alike : sent { s with transport := t } = s.sent := by
  simp only [sent, departed_alike halike, Transport.inFlight, halike.queue]

end alike

theorem departed_join (s : Station) (e : Entry) : (s.join e).departed = s.departed := by
  simp only [departed, join, List.length_append, List.length_singleton]
  omega

/-- Each queued message keeps its number, and the new one gets the next. -/
theorem number_join (s : Station) (e : Entry) : (s.join e).number = s.number := by
  funext k
  simp only [number, join, List.length_append, List.length_singleton, Nat.toUInt8_eq,
    UInt8.ofNat_add]
  grind

/-- `join` leaves what is on its way, so `sent` does not fall. -/
theorem sent_le_join (s : Station) (e : Entry) : s.sent ≤ (s.join e).sent := by
  rw [sent, sent, departed_join]
  apply Nat.add_le_add_left
  exact Transport.inFlight_append rfl

section launch

variable {front back : List Entry} {e : Entry} {now : UInt32}
  (hqueue : s.transport.queue = front ++ e :: back)

include hqueue

theorem departed_launch : (s.launch front e back now).departed = s.departed :=
  departed_congr (by simp [launch, hqueue]) (by simp [launch])

/-- After `launch` the frame written counts as `sent`, and so does all that did before. -/
theorem sent_le_launch (hfront : ∀ x ∈ front, x.isSent) :
    s.sent ≤ (s.launch front e back now).sent ∧
      s.departed + front.length < (s.launch front e back now).sent := by
  have hinFlight : s.transport.inFlight ≤ (s.launch front e back now).transport.inFlight ∧ _ :=
    Transport.inFlight_markSent hqueue hfront rfl
  rw [sent, sent, departed_launch hqueue]
  omega

end launch

/-- After `restart` the oldest number is zero, with or without frames that were kept. -/
theorem oldestSeq_restart (s : Station) (n : Nat) (pending : Bool) :
    (s.restart n pending).transport.oldestSeq = 0 := by
  have hlen := List.length_drop (l := s.transport.queue) (i := n)
  simp only [Transport.oldestSeq, restart, renumbered]
  cases hq : s.transport.queue.drop n with
  | nil =>
    -- Nothing is kept, so the next number is zero.
    rw [hq, List.length_nil] at hlen
    simp [← hlen]
  | cons e rest => simp [Entry.renumber]

section shorten

variable {n : Nat} (h : s.Sound)

include h

theorem departed_restart (hn : n ≤ s.transport.queue.length) (pending : Bool) :
    (s.restart n pending).departed = s.departed + n := by
  have hlen := h.departed_add_length
  simp only [departed, restart, length_renumbered, List.length_drop] at hlen ⊢
  omega

theorem departed_release (hn : n ≤ s.transport.queue.length) (p : Packet) :
    (s.release p n).departed = s.departed + n := by
  have hlen := h.departed_add_length
  simp only [departed, release, List.length_drop] at hlen ⊢
  omega

/-- `release` moves frames from in flight to departed, so `sent` stays. -/
theorem sent_release (hn : n ≤ s.transport.inFlight) (p : Packet) :
    (s.release p n).sent = s.sent := by
  have hinFlight : n + (s.release p n).transport.inFlight = _ := Transport.inFlight_drop rfl hn
  rw [sent, sent, departed_release h (hn.trans s.transport.inFlight_le)]
  omega

end shorten

/-! ## What took effect stays on record -/

/-- A station's own move adds no `Receipt`. -/
theorem Move.receipts {mayReset : Prop} (hm : s.Move mayReset s') :
    s'.received = s.received ∧ s'.acknowledged = s.acknowledged := by
  cases hm with
  | rest | send | giveUp | reset => exact ⟨rfl, rfl⟩
  | ack | announce | transmit => exact ⟨by simp [launch], by simp [launch]⟩

/-- A packet from the peer adds receipts at the end only. -/
theorem Takes.receipts {p : Packet} (ht : s.Takes p s') :
    s.received <+: s'.received ∧ s.acknowledged <+: s'.acknowledged := by
  cases ht with
  | accepted => exact ⟨List.prefix_append .., List.prefix_refl _⟩
  | acked => exact ⟨List.prefix_refl _, List.prefix_append ..⟩
  | spurious | told => exact ⟨List.prefix_refl _, List.prefix_refl _⟩

theorem Move.reported {mayReset : Prop} (hm : s.Move mayReset s') :
    s.reported <+: s'.reported := by
  cases hm with
  | rest | send => exact List.prefix_refl _
  | ack | announce | transmit => simp [launch]
  | giveUp | reset => exact List.prefix_append ..

theorem Takes.reported {p : Packet} (ht : s.Takes p s') : s.reported <+: s'.reported := by
  cases ht with
  | accepted | acked | spurious => exact List.prefix_refl _
  | told => exact List.prefix_append ..

/-! ## The queue stays sound -/

namespace Sound

/-- `Station.Sound` speaks of the queue, the window, the next number and the messages accepted
only. -/
theorem congr (h : s.Sound) (hw : s'.transport.window = s.transport.window)
    (hq : s'.transport.queue = s.transport.queue) (hn : s'.transport.nextSeq = s.transport.nextSeq)
    (ha : s'.accepted = s.accepted) : s'.Sound := by
  have hd : s'.departed = s.departed := departed_congr (by rw [hq]) ha
  constructor
  · rw [hw]; exact h.window_le
  · rw [hq, hw]; exact h.length_le
  · rw [hq, ha, hd]; exact h.held
  · rw [hq, hd, number_congr hn ha]; exact h.numbered
  · rw [hq]; exact h.sentFirst

/-- A message that is queued behind the others gets the next number. -/
theorem join (h : s.Sound) {e : Entry} (hroom : s.transport.queue.length < s.transport.window)
    (hseq : e.seq = s.transport.nextSeq) (hsent : ¬ e.isSent) : (s.join e).Sound := by
  have hlen := h.departed_add_length
  have hlen' : (s.join e).transport.queue.length = s.transport.queue.length + 1 := by
    simp [Station.join]
  -- The new message is numbered like the place behind the queue.
  have hlast : s.number (s.departed + s.transport.queue.length) = e.seq := by
    rw [hlen, hseq, number]
    grind
  constructor
  · exact h.window_le
  · rw [hlen']; exact hroom
  · rw [departed_join]
    simp only [Station.join, List.map_append, h.held]
    rw [List.drop_append_of_le_length (by omega)]
    rfl
  · rw [departed_join, number_join, hlen', List.range'_concat, List.map_append, ← h.numbered]
    simp [Station.join, hlast]
  · exact h.sentFirst.append_unsent hsent

/-- `Entry.markSent` changes neither number nor message, and the frames before stay sent. -/
theorem launch (h : s.Sound) {front back : List Entry} {e : Entry} (now : UInt32)
    (hqueue : s.transport.queue = front ++ e :: back) (hfront : ∀ x ∈ front, x.isSent) :
    (s.launch front e back now).Sound := by
  -- Only the marks that tell when a frame was sent differ.
  have hmessage : (s.launch front e back now).transport.queue.map Entry.message =
      s.transport.queue.map Entry.message := by
    simp [Station.launch, hqueue, Entry.message, Entry.markSent]
  have hseq : (s.launch front e back now).transport.queue.map Entry.seq =
      s.transport.queue.map Entry.seq := by
    simp [Station.launch, hqueue, Entry.markSent]
  have hlen : (s.launch front e back now).transport.queue.length = s.transport.queue.length := by
    simp [Station.launch, hqueue]
  have hd : (s.launch front e back now).departed = s.departed := departed_launch hqueue
  constructor
  · exact h.window_le
  · rw [hlen]; exact h.length_le
  · rw [hmessage, hd]; exact h.held
  · rw [hseq, hd, hlen]; exact h.numbered
  · exact (hqueue ▸ h.sentFirst).markSent hfront now

/-- The hardest case: the numbers in the queue change, and with `nextSeq` the meaning of `number`
changes along with them. -/
theorem restart (h : s.Sound) {n : Nat} (hn : n ≤ s.transport.queue.length) (pending : Bool) :
    (s.restart n pending).Sound := by
  have hd := departed_restart h hn pending
  have hlen := h.departed_add_length
  constructor
  · exact h.window_le
  · have := h.length_le
    simp only [Station.restart, length_renumbered, List.length_drop]
    omega
  · have hmessage : ∀ q : List Entry, (renumbered q).map Entry.message = q.map Entry.message := by
      intro q
      apply List.ext_getElem
      · simp
      · intro i hi hi'
        simp [renumbered, Entry.renumber, Entry.message]
    rw [hd]
    simp only [Station.restart, hmessage, List.map_drop, h.held, List.drop_drop]
  · rw [hd]
    simp only [Station.restart, map_seq_renumbered, length_renumbered, List.length_drop]
    refine List.ext_getElem (by simp) fun i hi hi' => ?_
    -- The next number is the count of what is kept, so the first place kept has number zero.
    have hsplit : s.accepted.length =
        s.departed + n + (s.transport.queue.length - n) := by omega
    simp only [List.getElem_map, List.getElem_range, List.getElem_range', number, hsplit,
      Nat.toUInt8_eq, UInt8.ofNat_add, Nat.one_mul]
    grind
  · exact sentFirst_renumbered _

/-- Frames leave from the front and `number` stays, so each list loses its first `n`. -/
theorem release (h : s.Sound) {n : Nat} (hn : n ≤ s.transport.queue.length) (p : Packet) :
    (s.release p n).Sound := by
  have hd := departed_release h hn p
  constructor
  · exact h.window_le
  · have := h.length_le
    simp only [Station.release, List.length_drop]
    omega
  · rw [hd]
    simp only [Station.release, List.map_drop, h.held, List.drop_drop]
  · have hnumber : (s.release p n).number = s.number := rfl
    rw [hd, hnumber]
    simp only [Station.release, List.map_drop, List.length_drop]
    rw [h.numbered, ← List.map_drop, List.drop_range', Nat.mul_one]
  · exact h.sentFirst.drop n

/-! ### Along the moves

One case for each constructor; the lemmas above settle those that touch the queue.
-/

theorem move {mayReset : Prop} (h : s.Sound) (hm : s.Move mayReset s') : s'.Sound := by
  cases hm with
  | rest halike => exact h.congr halike.window halike.queue halike.nextSeq rfl
  | send hroom hseq hsent => exact h.join hroom hseq hsent
  | ack => exact h.congr (by simp) (by simp) (by simp) (by simp)
  | announce => exact h.congr (by simp) (by simp) (by simp) (by simp)
  | transmit hqueue hfront => exact h.launch _ hqueue hfront
  | giveUp => exact h.restart s.transport.inFlight_le true
  | reset => exact h.restart le_rfl true

theorem takes {p : Packet} (h : s.Sound) (ht : s.Takes p s') : s'.Sound := by
  cases ht with
  | accepted => exact h.congr rfl rfl rfl rfl
  | acked _ _ _ _ hle => exact h.release (hle.trans s.transport.inFlight_le) p
  | spurious => exact h.congr rfl rfl rfl rfl
  | told => exact (h.restart s.transport.inFlight_le false).congr rfl rfl rfl rfl

end Sound

end Station

namespace Link

/-- Both stations are `Station.Sound`. -/
def Sound (l : Link) : Prop := l.left.Sound ∧ l.right.Sound

/-- The step lemma of `Link.Sound`. The station that does not move only has its line changed. -/
theorem Sound.move {mayReset : Prop} {l l' : Link} (h : l.Sound) (hm : Move mayReset l l') :
    l'.Sound := by
  cases hm with
  | own hm => exact ⟨h.1.move hm, h.2⟩
  | take _ ht => exact ⟨h.1.takes ht, h.2.congr rfl rfl rfl rfl⟩
  | lose => exact ⟨h.1.congr rfl rfl rfl rfl, h.2.congr rfl rfl rfl rfl⟩

end Link

end SerialLink
