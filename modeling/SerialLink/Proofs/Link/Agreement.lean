import SerialLink.Proofs.Link.Order

/-!
# Agreement on the numbering

As long as every frame takes effect in the numbering that it was written in, what leaves a queue was
handed over or is reported. The two stations are in step when each has heard of the other's last
restart; then the number that one expects next is the number of a message of the other, and
acknowledgements on their way tell of messages up to that one.

The invariant is `Station.Agreed`, about the messages that go from `s` to `r`. Its core is `inStep`:
in step, `Awaits` names the message that the reader expects. The other fields say what survives
while the two are out of step, between a restart and the arrival of the reset that tells of it. The
proof goes move by move, like that of `Ordered`, which it takes for granted together with
`Station.Sound`. Only where a frame takes effect is a condition needed: `Aligned` says that it was
written in the numbering of its reader. Since the history only grows, `aligned_of_move` brings the
condition from the end of a run back to every state on the way, and `agreed_run` is an instance of
`invariant_run_while`.

Between resets the condition holds by itself; the module on delivery uses `agreed_of_move` there.
-/

namespace SerialLink

namespace Station

variable {s s' r r' : Station} {p x : Packet}

/-! ## Numbers and places -/

/-- The place of the message with number `a`, counted from the oldest one queued. The inverse of
`number` on the 256 places from there on. -/
def position (s : Station) (a : UInt8) : Nat := s.departed + (a - s.transport.oldestSeq).toNat

theorem departed_le_position (s : Station) (a : UInt8) : s.departed ≤ s.position a :=
  Nat.le_add_right ..

/-- The message at `position a` has the number `a`. -/
theorem number_position (h : s.Sound) (a : UInt8) : s.number (s.position a) = a := by
  -- The oldest number and the distance from it add up to `a` again.
  rw [position, number_add, ← h.oldestSeq_eq, Nat.toUInt8_eq, UInt8.ofNat_toNat]
  grind

/-- A message that is at most 255 places behind the oldest one queued is found by its number. -/
theorem position_number (h : s.Sound) {k : Nat} (hle : s.departed ≤ k)
    (hlt : k < s.departed + 256) : s.position (s.number k) = k := by
  have hposition := s.departed_le_position (s.number k)
  have hbound := (s.number k - s.transport.oldestSeq).toNat_lt
  refine number_inj (number_position h _) ?_ ?_
  · rw [position]
    omega
  · omega

/-- The `position` of a number stays as long as the numbering goes on and the message is still
queued. -/
theorem position_congr (h : s.Sound) (h' : s'.Sound) (hnumber : s'.number = s.number)
    (hle : s.departed ≤ s'.departed) {a : UInt8} (ha : s'.departed ≤ s.position a) :
    s'.position a = s.position a := by
  have hbound := (a - s.transport.oldestSeq).toNat_lt
  have hposition := position_number h' ha (by rw [position]; omega)
  rwa [hnumber, number_position h] at hposition

theorem departed_le_sent (s : Station) : s.departed ≤ s.sent := Nat.le_add_right ..

/-! ## The invariant -/

/-- The message at place `k` was handed over, at least once. -/
def Got (r : Station) (k : Nat) : Prop := ∃ x ∈ r.received, x.packet.index = k

/-- The acknowledgement was written in the numbering that `s` is in. For the frames that come back
this is what `Live` is for those that go out. -/
def Answered (s : Station) (x : Packet) : Prop := x.IsAck ∧ x.epoch = s.heard ∧ x.heard = s.epoch

/-- `r` expects the message `k` of `s`: it was handed all up to it and none from it on, and no
frame on its way, in either direction, suggests anything else. -/
structure Awaits (s r : Station) (k : Nat) : Prop where
  expected : r.transport.expected = s.number k
  departed_le : s.departed ≤ k
  le_sent : k ≤ s.sent
  got : ∀ j, s.departed ≤ j → j < k → r.Got j
  below : ∀ x ∈ r.received, x.packet.index < k
  answered : ∀ x ∈ r.outgoing, s.Answered x → s.position x.frame.seq ≤ k
  /-- No frame on the line is so old that its number could pass for a later one. -/
  live : ∀ p ∈ s.outgoing, p.IsData → s.Live p → k ≤ p.index + 16

/-- What `s` took off its queue was handed over by `r`, which is `complete`, and will be: the
acknowledgements on their way, which may take more off the queue, tell of messages `Got`. -/
structure Agreed (s r : Station) : Prop where
  complete : ∀ k < s.departed, k ∈ s.reported ∨ r.Got k
  /-- The reader has not heard yet that numbering starts at zero. -/
  restarted : r.heard < s.epoch → s.transport.oldestSeq = 0 ∧
    ∀ p ∈ s.outgoing, p.IsData → s.Live p → s.departed ≤ p.index
  /-- The writer has not heard yet that the reader expects zero. -/
  silent : s.heard < r.epoch → r.transport.expected = 0
  early : ∀ x ∈ r.outgoing, x.IsAck → s.heard < x.epoch → x.frame.seq = 0
  answered : ∀ x ∈ r.outgoing, s.Answered x → s.position x.frame.seq ≤ s.sent ∧
    ∀ k, s.departed ≤ k → k < s.position x.frame.seq → r.Got k
  sorted : r.outgoing.Pairwise fun x y =>
    s.Answered x → s.Answered y → s.position x.frame.seq ≤ s.position y.frame.seq
  inStep : r.heard = s.epoch → s.heard = r.epoch → ∃ k, Awaits s r k

namespace Agreed

/-- Nothing changes for the reader, as far as `Agreed` speaks of it. -/
theorem reader (h : Agreed s r) (hreceived : r'.received = r.received)
    (hexpected : r'.transport.expected = r.transport.expected) (hepoch : r'.epoch = r.epoch)
    (hheard : r'.heard = r.heard) (hout : r'.outgoing = r.outgoing) : Agreed s r' := by
  have hgot : r'.Got = r.Got := by funext k; simp only [Got, hreceived]
  constructor
  · rw [hgot]; exact h.complete
  · rw [hheard]; exact h.restarted
  · rw [hepoch, hexpected]; exact h.silent
  · rw [hout]; exact h.early
  · rw [hgot, hout]; exact h.answered
  · rw [hout]; exact h.sorted
  · rw [hepoch, hheard]
    intro h₁ h₂
    obtain ⟨k, hk⟩ := h.inStep h₁ h₂
    exact ⟨k, hexpected ▸ hk.expected, hk.departed_le, hk.le_sent, hgot ▸ hk.got,
      hreceived ▸ hk.below, hout ▸ hk.answered, hk.live⟩

/-- Frames are lost in either direction. What is asked of frames is asked of each, or of each pair
in their order. -/
theorem lose {out out' : List Packet} (h : Agreed s r) (hs : out.Sublist s.outgoing)
    (hr : out'.Sublist r.outgoing) :
    Agreed { s with outgoing := out } { r with outgoing := out' } where
  complete := h.complete
  restarted hlt := (h.restarted hlt).imp_right fun hlive p hp => hlive p (hs.mem hp)
  silent := h.silent
  early x hx := h.early x (hr.mem hx)
  answered x hx := h.answered x (hr.mem hx)
  sorted := h.sorted.sublist hr
  inStep h₁ h₂ := by
    obtain ⟨k, hk⟩ := h.inStep h₁ h₂
    exact ⟨k, { hk with
      answered := fun x hx => hk.answered x (hr.mem hx)
      live := fun p hp => hk.live p (hs.mem hp) }⟩

/-! ### Moves of the writer -/

/-- The numbering goes on and nothing leaves the queue. A data frame that is written is of a queued
message, so it is not too old for `Awaits.live`. -/
theorem writer (h : Agreed s r) (hs : s.Sound) (hs' : s'.Sound) (hepoch : s'.epoch = s.epoch)
    (hheard : s'.heard = s.heard) (hnumber : s'.number = s.number)
    (hdeparted : s'.departed = s.departed) (hsent : s.sent ≤ s'.sent)
    (hreported : s'.reported = s.reported)
    (hout : ∀ p ∈ s'.outgoing, p.IsData → p ∈ s.outgoing ∨ s.departed ≤ p.index) :
    Agreed s' r := by
  -- Places, the oldest number and the two kinds of frames in step are what they were.
  have hposition : ∀ a, s'.position a = s.position a := fun a =>
    position_congr hs hs' hnumber hdeparted.ge (hdeparted ▸ s.departed_le_position a)
  have holdest : s'.transport.oldestSeq = s.transport.oldestSeq := by
    rw [hs'.oldestSeq_eq, hs.oldestSeq_eq, hnumber, hdeparted]
  have hlive : ∀ p, s'.Live p ↔ s.Live p := by simp only [Live, hepoch, hheard, implies_true]
  have hanswered : ∀ x, s'.Answered x ↔ s.Answered x := by
    simp only [Answered, hepoch, hheard, implies_true]
  constructor
  · rw [hdeparted, hreported]; exact h.complete
  · rw [hepoch, holdest, hdeparted]
    refine fun hlt => ⟨(h.restarted hlt).1, fun p hp hd hl => ?_⟩
    rcases hout p hp hd with hp | hle
    · exact (h.restarted hlt).2 p hp hd ((hlive p).mp hl)
    · exact hle
  · rw [hheard]; exact h.silent
  · rw [hheard]; exact h.early
  · intro x hx ha
    obtain ⟨hle, hgot⟩ := h.answered x hx ((hanswered x).mp ha)
    rw [hposition, hdeparted]
    exact ⟨hle.trans hsent, hgot⟩
  · simp only [hposition, hanswered]; exact h.sorted
  · rw [hepoch, hheard]
    intro h₁ h₂
    obtain ⟨k, hk⟩ := h.inStep h₁ h₂
    refine ⟨k, hnumber ▸ hk.expected, hdeparted ▸ hk.departed_le, hk.le_sent.trans hsent,
      hdeparted ▸ hk.got, hk.below, ?_, ?_⟩
    · intro x hx ha
      rw [hposition]
      exact hk.answered x hx ((hanswered x).mp ha)
    · intro p hp hd hl
      rcases hout p hp hd with hp | hle
      · exact hk.live p hp hd ((hlive p).mp hl)
      · -- A frame that is written is in the queue, which spans no more than the window.
        have hbound := hs.sent_le_departed
        have hle' := hk.le_sent
        omega

/-- What `restart` takes off the queue is reported, so the field `complete` is kept. -/
theorem complete_restart (h : Agreed s r) (hs : s.Sound) {n : Nat}
    (hn : n ≤ s.transport.queue.length) (pending : Bool) :
    ∀ k < (s.restart n pending).departed, k ∈ (s.restart n pending).reported ∨ r.Got k := by
  intro k hk
  rw [departed_restart hs hn] at hk
  by_cases hlt : k < s.departed
  · exact (h.complete k hlt).imp_left (List.mem_append_left _)
  · left
    apply List.mem_append_right
    rw [List.mem_range'_1]
    omega

/-- The writer restarts by itself: the reader is out of step until it is told. -/
theorem writer_restart (h : Agreed s r) (ho : Ordered s r) (ho' : Ordered r s) (hs : s.Sound)
    {n : Nat} (hn : n ≤ s.transport.queue.length) : Agreed (s.restart n true) r := by
  have hepoch : (s.restart n true).epoch = s.issued + 1 := rfl
  have hheard := ho.heard
  -- Nothing on the line can be of the new numbering, in either direction.
  have hlive : ∀ p ∈ s.outgoing, p.IsData → ¬ (s.restart n true).Live p := by
    intro p hp hd hl
    have hle := (ho.logged_outgoing hp hd).epoch_le
    have heq := hl.1
    omega
  have hanswered : ∀ x ∈ r.outgoing, ¬ (s.restart n true).Answered x := by
    intro x hx ha
    have hle := ho'.heard_le x hx
    have heq := ha.2.2
    omega
  constructor
  · exact h.complete_restart hs hn true
  · exact fun _ => ⟨oldestSeq_restart s n true, fun p hp hd hl => absurd hl (hlive p hp hd)⟩
  · exact h.silent
  · exact h.early
  · exact fun x hx ha => absurd ha (hanswered x hx)
  · exact h.sorted.imp_of_mem fun hx _ _ ha => absurd ha (hanswered _ hx)
  · -- The reader has heard of no epoch that was not announced.
    intro heq
    omega

/-- The step lemma for the writer's own moves. Only a restart touches the numbering; the other
moves differ in what they write. -/
theorem writer_move {mayReset : Prop} (h : Agreed s r) (ho : Ordered s r) (ho' : Ordered r s)
    (hs : s.Sound) (hm : s.Move mayReset s') : Agreed s' r := by
  have hs' := hs.move hm
  cases hm with
  | rest halike =>
    exact h.writer hs hs' (epoch_alike halike) rfl (number_congr halike.nextSeq rfl)
      (departed_alike halike) (sent_alike halike).ge rfl fun p hp _ => .inl hp
  | @send e =>
    exact h.writer hs hs' rfl rfl (number_join s e) (departed_join s e) (sent_le_join s e) rfl
      fun p hp _ => .inl hp
  | ack =>
    apply h.writer hs hs' rfl rfl rfl rfl le_rfl rfl
    intro p hp hd
    rcases List.mem_append.mp hp with hp | hp
    · exact .inl hp
    · obtain ⟨id, hid⟩ := hd
      simp [List.mem_singleton.mp hp, Frame.ack] at hid
  | announce hp =>
    apply h.writer hs hs' (epoch_announce hp) rfl rfl rfl le_rfl rfl
    intro p hp hd
    rcases List.mem_append.mp hp with hp | hp
    · exact .inl hp
    · obtain ⟨id, hid⟩ := hd
      simp [List.mem_singleton.mp hp, Frame.reset] at hid
  | transmit hqueue hfront hp =>
    apply h.writer hs hs' rfl rfl rfl (departed_launch hqueue) (sent_le_launch hqueue hfront).1 rfl
    -- The one data frame written is of a message that is still queued.
    intro p hmem _
    rw [outgoing_launch hs hqueue hp] at hmem
    rcases List.mem_append.mp hmem with hmem | hmem
    · exact .inl hmem
    · rw [List.mem_singleton.mp hmem]
      exact .inr (Nat.le_add_right ..)
  | giveUp => exact h.writer_restart ho ho' hs s.transport.inFlight_le
  | reset => exact h.writer_restart ho ho' hs le_rfl

/-! ### Frames that the writer takes -/

variable {rest : List Packet}

/-- An acknowledgement in the present numbering: what it takes off the queue was handed over. By
`sorted` those behind it are not older, so none of them points at what has left the queue. -/
theorem writer_release (h : Agreed s r) (ho' : Ordered r s) (hs : s.Sound)
    (hout : r.outgoing = x :: rest) (hx : s.Answered x) {n : Nat}
    (hn : n = (x.frame.seq - s.transport.oldestSeq).toNat) (hle : n ≤ s.transport.inFlight) :
    Agreed (s.release x n) { r with outgoing := rest } := by
  have hmem : x ∈ r.outgoing := hout ▸ List.mem_cons_self ..
  have hrest : ∀ y ∈ rest, y ∈ r.outgoing := fun y hy => hout ▸ List.mem_cons_of_mem _ hy
  obtain ⟨-, hgot⟩ := h.answered x hmem hx
  have hs' := hs.release (hle.trans s.transport.inFlight_le) x
  have hdeparted : (s.release x n).departed = s.position x.frame.seq := by
    rw [departed_release hs (hle.trans s.transport.inFlight_le), position, hn]
  have hsent := sent_release hs hle x
  have hmono : s.departed ≤ (s.release x n).departed :=
    hdeparted ▸ s.departed_le_position x.frame.seq
  have hsorted := h.sorted
  rw [hout, List.pairwise_cons] at hsorted
  -- The acknowledgements behind this one are of the same or of later messages.
  have hposition : ∀ y ∈ rest, s.Answered y →
      (s.release x n).position y.frame.seq = s.position y.frame.seq := fun y hy ha =>
    position_congr hs hs' rfl hmono (hdeparted ▸ hsorted.1 y hy hx ha)
  constructor
  · intro k hk
    rw [hdeparted] at hk
    by_cases hlt : k < s.departed
    · exact h.complete k hlt
    · exact .inr (hgot k (by omega) hk)
  · -- The reader has heard of the present numbering, since it acknowledges it.
    intro hlt
    have hheard := ho'.heard_le x hmem
    have heq := hx.2.2
    have hlt' : r.heard < s.epoch := hlt
    omega
  · exact h.silent
  · exact fun y hy => h.early y (hrest y hy)
  · intro y hy ha
    obtain ⟨hle', hgot'⟩ := h.answered y (hrest y hy) ha
    rw [hposition y hy ha, hsent]
    exact ⟨hle', fun k hk => hgot' k (hmono.trans hk)⟩
  · apply hsorted.2.imp_of_mem
    intro y z hy hz hyz ha hb
    rw [hposition _ hy ha, hposition _ hz hb]
    exact hyz ha hb
  · intro h₁ h₂
    obtain ⟨k, hk⟩ := h.inStep h₁ h₂
    refine ⟨k, hk.expected, hdeparted ▸ hk.answered x hmem hx, hsent ▸ hk.le_sent,
      fun j hj => hk.got j (hmono.trans hj), hk.below, ?_, hk.live⟩
    intro y hy ha
    rw [hposition y hy ha]
    exact hk.answered y (hrest y hy) ha

/-- The writer is told of a restart of the reader, who has expected zero since (`silent`). If the
reader knows of all restarts of the writer, the two are in step again, at the oldest message. -/
theorem writer_told (h : Agreed s r) (ho : Ordered s r) (ho' : Ordered r s) (hs : s.Sound)
    (hout : r.outgoing = x :: rest) (hid : x.IsReset) :
    Agreed { s.restart s.transport.inFlight false with heard := x.epoch }
      { r with outgoing := rest } := by
  generalize hs' : ({ s.restart s.transport.inFlight false with heard := x.epoch } : Station) = s'
  have hmem : x ∈ r.outgoing := hout ▸ List.mem_cons_self ..
  have hrest : ∀ y ∈ rest, y ∈ r.outgoing := fun y hy => hout ▸ List.mem_cons_of_mem _ hy
  have hreset := ho'.reset x hmem hid
  have hissued := r.issued_le_epoch
  have hheard : s'.heard = x.epoch := by rw [← hs']
  have hsilent : r.transport.expected = 0 := h.silent (by omega)
  have holdest : s'.transport.oldestSeq = 0 := by
    rw [← hs']; exact oldestSeq_restart s s.transport.inFlight false
  have hzero : s'.position 0 = s'.departed := by simp [position, holdest]
  -- No frame was written with knowledge of the reader's new epoch.
  have hlive : ∀ p, s.Logged p → ¬ s'.Live p := by
    intro p hp hl
    have hle := hp.heard_le
    have heq := hl.2
    omega
  -- Until the reader is told in turn, it can only acknowledge that it expects zero.
  have hseq : ∀ y ∈ rest, s'.Answered y → y.frame.seq = 0 := by
    intro y hy ha
    have heq := ha.2.1
    exact h.early y (hrest y hy) ha.1 (by omega)
  have hsound : s'.Sound := by
    rw [← hs']; exact hs.takes (.told hid)
  constructor
  · rw [← hs']; exact h.complete_restart hs s.transport.inFlight_le false
  · refine fun _ => ⟨holdest, fun p hp hd hl => absurd hl (hlive p ?_)⟩
    rw [← hs'] at hp
    exact ho.logged_outgoing hp hd
  · exact fun _ => hsilent
  · intro y hy ha hlt
    exact h.early y (hrest y hy) ha (by omega)
  · intro y hy ha
    rw [hseq y hy ha, hzero]
    exact ⟨s'.departed_le_sent, fun k hk hk' => by omega⟩
  · apply List.pairwise_of_forall_mem_list
    intro y hy z hz ha hb
    rw [hseq y hy ha, hseq z hz hb]
  · intro h₁ h₂
    refine ⟨s'.departed, ?_, le_rfl, s'.departed_le_sent, fun j hj hj' => by omega, ?_, ?_, ?_⟩
    · rw [← hsound.oldestSeq_eq, holdest]
      exact hsilent
    · -- What was handed over before is of an old numbering, and has left the queue.
      intro y hy
      have hlogged := ho.logged_received hy
      have hlogged' : s'.Logged y.packet := by
        rw [← hs']; exact hlogged.takes hs (.told hid) fun _ => hreset.1
      exact hlogged'.old (hlive y.packet hlogged)
    · intro y hy ha
      rw [hseq y hy ha, hzero]
    · intro p hp hd hl
      rw [← hs'] at hp
      exact absurd hl (hlive p (ho.logged_outgoing hp hd))

/-- The step lemma for the packets that the writer takes. An acknowledgement that takes frames off
the queue is recorded, and so is `Current` by `hcurrent`. -/
theorem writer_takes (h : Agreed s r) (ho : Ordered s r) (ho' : Ordered r s) (hs : s.Sound)
    (hout : r.outgoing = x :: rest) (ht : s.Takes x s')
    (hcurrent : ∀ y ∈ s'.acknowledged, y.Current) : Agreed s' { r with outgoing := rest } := by
  have hsub := hout ▸ List.sublist_cons_self x rest
  cases ht with
  | accepted =>
    have hlost := h.lose (List.Sublist.refl s.outgoing) hsub
    exact hlost.writer hs (hs.congr rfl rfl rfl rfl) rfl rfl rfl rfl le_rfl rfl
      fun p hp _ => .inl hp
  | acked hid _ hn _ hle =>
    -- It is on record as having taken effect, so it is in the present numbering.
    have hx := hcurrent ⟨x, s.epoch, s.heard⟩ (List.mem_append_right _ (List.mem_singleton_self _))
    exact h.writer_release ho' hs hout ⟨hid, hx⟩ hn hle
  | spurious =>
    have hlost := h.lose (List.Sublist.refl s.outgoing) hsub
    exact hlost.writer hs (hs.congr rfl rfl rfl rfl) rfl rfl rfl rfl le_rfl rfl
      fun p hp _ => .inl hp
  | told hid => exact h.writer_told ho ho' hs hout hid

/-! ### Moves of the reader -/

/-- The reader may write an acknowledgement of what it expects. In step its position is the message
awaited; out of step it names zero, as `early` demands. -/
theorem reader_write (h : Agreed s r) (hs : s.Sound) (hreceived : r'.received = r.received)
    (hexpected : r'.transport.expected = r.transport.expected) (hepoch : r'.epoch = r.epoch)
    (hheard : r'.heard = r.heard) (hout : r'.outgoing = r.outgoing ++ [x])
    (hx : x.IsAck → x.epoch = r.epoch ∧ x.heard = r.heard ∧
      x.frame.seq = r.transport.expected) : Agreed s r' := by
  have hgot : ∀ k, r'.Got k ↔ r.Got k := by simp only [Got, hreceived, implies_true]
  have hmem : ∀ y ∈ r'.outgoing, y ∈ r.outgoing ∨ y = x := by
    intro y hy
    rw [hout] at hy
    simpa using hy
  -- The acknowledgement that is written names the message that the reader expects.
  have hposition : ∀ k, Awaits s r k → s.Answered x → s.position x.frame.seq = k := by
    intro k hk ha
    have hbound := hs.sent_le_departed
    have hle := hk.le_sent
    rw [(hx ha.1).2.2, hk.expected]
    exact position_number hs hk.departed_le (by omega)
  have hinStep : s.Answered x → ∃ k, Awaits s r k := by
    intro ha
    obtain ⟨hxe, hxh, -⟩ := hx ha.1
    exact h.inStep (hxh.symm.trans ha.2.2) (ha.2.1.symm.trans hxe)
  constructor
  · simp only [hgot]; exact h.complete
  · rw [hheard]; exact h.restarted
  · rw [hepoch, hexpected]; exact h.silent
  · intro y hy ha hlt
    rcases hmem y hy with hy | rfl
    · exact h.early y hy ha hlt
    · obtain ⟨hxe, -, hseq⟩ := hx ha
      rw [hseq]
      exact h.silent (hxe ▸ hlt)
  · simp only [hgot]
    intro y hy ha
    rcases hmem y hy with hy | rfl
    · exact h.answered y hy ha
    · obtain ⟨k, hk⟩ := hinStep ha
      rw [hposition k hk ha]
      exact ⟨hk.le_sent, hk.got⟩
  · rw [hout, List.pairwise_append]
    refine ⟨h.sorted, List.pairwise_singleton .., ?_⟩
    intro y hy z hz hya hza
    rw [List.mem_singleton.mp hz] at hza ⊢
    obtain ⟨k, hk⟩ := hinStep hza
    rw [hposition k hk hza]
    exact hk.answered y hy hya
  · rw [hheard, hepoch]
    intro h₁ h₂
    obtain ⟨k, hk⟩ := h.inStep h₁ h₂
    refine ⟨k, hexpected ▸ hk.expected, hk.departed_le, hk.le_sent, ?_, hreceived ▸ hk.below,
      ?_, hk.live⟩
    · simp only [hgot]
      exact hk.got
    · intro y hy ha
      rcases hmem y hy with hy | rfl
      · exact hk.answered y hy ha
      · exact (hposition k hk ha).le

/-- The reader restarts by itself: the writer is out of step until it is told, and `silent` says
what the reader expects meanwhile. -/
theorem reader_restart (h : Agreed s r) (hheard : s.heard ≤ r.issued) (n : Nat) :
    Agreed s (r.restart n true) where
  complete := h.complete
  restarted := h.restarted
  silent _ := rfl
  early := h.early
  answered := h.answered
  sorted := h.sorted
  inStep _ heq := by
    have hepoch : (r.restart n true).epoch = r.issued + 1 := rfl
    omega

/-- The step lemma for the reader's own moves. All frames but acknowledgements are written without
any condition. -/
theorem reader_move {mayReset : Prop} (h : Agreed s r) (hs : s.Sound) (hheard : s.heard ≤ r.issued)
    (hm : r.Move mayReset r') : Agreed s r' := by
  cases hm with
  | rest halike => exact h.reader rfl halike.expected (epoch_alike halike) rfl rfl
  | send => exact h.reader rfl rfl rfl rfl rfl
  | ack => exact h.reader_write hs rfl rfl rfl rfl rfl fun _ => ⟨rfl, rfl, rfl⟩
  | announce hp =>
    refine h.reader_write hs rfl rfl (epoch_announce hp) rfl rfl ?_
    intro ha
    simp [Packet.IsAck, Frame.reset] at ha
  | transmit =>
    refine h.reader_write hs rfl rfl rfl rfl rfl ?_
    intro ha
    simp [Packet.IsAck, Entry.frame] at ha
  | giveUp => exact h.reader_restart hheard _
  | reset => exact h.reader_restart hheard _

/-! ### Frames that the reader takes -/

/-- In step, the frame that is handed over is the one of the message awaited: `Awaits.live` bounds
its index from below and `Logged.live` from above, so the number decides. -/
theorem awaits_accept (ho : Ordered s r) (hs : s.Sound)
    (hout : s.outgoing = p :: rest) (hd : p.IsData) (hseq : p.frame.seq = r.transport.expected)
    (hlive : s.Live p) {k : Nat} (hk : Awaits s r k) :
    Awaits { s with outgoing := rest } (r.accept p) (k + 1) := by
  have hmem : p ∈ s.outgoing := hout ▸ List.mem_cons_self ..
  have hrest : ∀ q ∈ rest, q ∈ s.outgoing := fun q hq => hout ▸ List.mem_cons_of_mem _ hq
  obtain ⟨hnumber, hsent⟩ := (ho.logged_outgoing hmem hd).live hlive
  -- Two messages less than 256 apart that share their number are the same.
  have hindex : p.index = k := by
    have hbound := hs.sent_le_departed
    have hle := hk.live p hmem hd hlive
    have hdeparted := hk.departed_le
    exact number_inj (s := s) (by rw [← hnumber, hseq, hk.expected]) (by omega) (by omega)
  have hbefore := ho.before
  rw [hout, List.pairwise_append, List.pairwise_cons] at hbefore
  have hreceived : ∀ x ∈ (r.accept p).received, x ∈ r.received ∨ x = ⟨p, r.epoch, r.heard⟩ := by
    intro x hx
    simpa [Station.accept] using hx
  refine ⟨?_, hk.departed_le.trans (Nat.le_succ k), by rw [← hindex]; exact hsent, ?_, ?_, ?_, ?_⟩
  · change r.transport.expected + 1 = s.number (k + 1)
    rw [hk.expected, number_add]
    rfl
  · -- The messages up to `k` were handed over before, and `k` is handed over now.
    intro j hj hjk
    rcases Nat.lt_or_eq_of_le (Nat.lt_succ_iff.mp hjk) with hlt | rfl
    · obtain ⟨x, hx, hxj⟩ := hk.got j hj hlt
      exact ⟨x, List.mem_append_left _ hx, hxj⟩
    · exact ⟨⟨p, r.epoch, r.heard⟩, List.mem_append_right _ (List.mem_singleton_self _), hindex⟩
  · intro x hx
    rcases hreceived x hx with hx | rfl
    · exact (hk.below x hx).trans (Nat.lt_succ_self k)
    · exact hindex ▸ Nat.lt_succ_self _
  · exact fun x hx ha => (hk.answered x hx ha).trans (Nat.le_succ k)
  · -- Frames behind this one in its numbering are at most a window behind it.
    intro q hq hdq hl
    have hsame : p.SameEra q := ⟨hlive.1.trans hl.1.symm, hlive.2.trans hl.2.symm⟩
    have hle := ((hbefore.2.1.1 q hq).same hd hdq hsame).2
    omega

/-- A frame is handed over in the numbering that it was written in. In step `awaits_accept` applies,
and out of step nothing is asked of what the reader expects. -/
theorem reader_accept (h : Agreed s r) (ho : Ordered s r) (hs : s.Sound)
    (hout : s.outgoing = p :: rest) (hd : p.IsData) (hseq : p.frame.seq = r.transport.expected)
    (hepoch : p.epoch = r.heard) (hheard : p.heard = r.epoch) :
    Agreed { s with outgoing := rest } (r.accept p) := by
  have hgot : ∀ k, r.Got k → (r.accept p).Got k := fun k ⟨x, hx, hxk⟩ =>
    ⟨x, List.mem_append_left _ hx, hxk⟩
  have hlost := h.lose (hout ▸ List.sublist_cons_self p rest) (List.Sublist.refl r.outgoing)
  constructor
  · exact fun k hk => (hlost.complete k hk).imp_right (hgot k)
  · exact hlost.restarted
  · -- The writer has heard of the reader's epoch, since the frame tells of it.
    intro hlt
    have hle := ho.heard_le p (hout ▸ List.mem_cons_self ..)
    have hlt' : s.heard < r.epoch := hlt
    omega
  · exact hlost.early
  · intro x hx ha
    obtain ⟨hle, hall⟩ := hlost.answered x hx ha
    exact ⟨hle, fun k hk hk' => hgot k (hall k hk hk')⟩
  · exact hlost.sorted
  · intro h₁ h₂
    obtain ⟨k, hk⟩ := h.inStep h₁ h₂
    have hlive : s.Live p := ⟨hepoch.trans h₁, hheard.trans h₂.symm⟩
    exact ⟨k + 1, awaits_accept ho hs hout hd hseq hlive hk⟩

/-- The reader is told of a restart of the writer, whose numbering starts at zero (`restarted`). The
counterpart of `writer_told`: the two may be in step again, at the oldest message. -/
theorem reader_told (h : Agreed s r) (ho : Ordered s r) (ho' : Ordered r s) (hs : s.Sound)
    (hout : s.outgoing = p :: rest) (hid : p.IsReset) (n : Nat) :
    Agreed { s with outgoing := rest } { r.restart n false with heard := p.epoch } := by
  have hreset := ho.reset p (hout ▸ List.mem_cons_self ..) hid
  have hissued := s.issued_le_epoch
  have hrest : ∀ q ∈ rest, q ∈ s.outgoing := fun q hq => hout ▸ List.mem_cons_of_mem _ hq
  have hlost := h.lose (hout ▸ List.sublist_cons_self p rest) (List.Sublist.refl r.outgoing)
  obtain ⟨holdest, hlive⟩ := h.restarted (by omega)
  have hbefore := ho.before
  rw [List.pairwise_append] at hbefore
  constructor
  · exact hlost.complete
  · exact fun _ => ⟨holdest, fun q hq => hlive q (hrest q hq)⟩
  · exact fun _ => rfl
  · exact hlost.early
  · exact hlost.answered
  · exact hlost.sorted
  · intro h₁ h₂
    refine ⟨s.departed, ?_, le_rfl, s.departed_le_sent,
      fun j hj hj' => absurd (Nat.lt_of_le_of_lt hj hj') (Nat.lt_irrefl _), ?_, ?_, ?_⟩
    · change 0 = s.number s.departed
      rw [← hs.oldestSeq_eq, holdest]
    · -- What was handed over so far is of an older numbering, all of which has left the queue.
      intro x hx
      have hlt := (hbefore.2.2 x.packet (List.mem_map_of_mem hx) p
        (hout ▸ List.mem_cons_self ..)).epoch_lt (.inl (ho.isData x hx)) hid
      have heq : p.epoch = s.epoch := h₁
      exact (ho.logged_received hx).old fun hl => by
        have heq' := hl.1
        omega
    · -- No acknowledgement on its way was written with knowledge of the new epoch.
      intro x hx ha
      have hle := ho'.heard_le x hx
      have heq := ha.2.2
      have heq' : x.heard = s.epoch := heq
      omega
    · exact fun q hq hd hl => (hlive q (hrest q hq) hd hl).trans (Nat.le_add_right ..)

/-- The step lemma for the packets that the reader takes. A data frame that is handed over is
recorded, and so is `Current`. -/
theorem reader_takes (h : Agreed s r) (ho : Ordered s r) (ho' : Ordered r s) (hs : s.Sound)
    (hout : s.outgoing = p :: rest) (ht : r.Takes p r')
    (hcurrent : ∀ x ∈ r'.received, x.Current) : Agreed { s with outgoing := rest } r' := by
  have hlost := h.lose (hout ▸ List.sublist_cons_self p rest) (List.Sublist.refl r.outgoing)
  cases ht with
  | accepted hid hseq =>
    -- Likewise for the frame that is handed over.
    have hp := hcurrent ⟨p, r.epoch, r.heard⟩ (List.mem_append_right _ (List.mem_singleton_self _))
    exact h.reader_accept ho hs hout ⟨_, hid⟩ hseq hp.1 hp.2
  | acked => exact hlost.reader rfl rfl rfl rfl rfl
  | spurious => exact hlost.reader rfl rfl rfl rfl rfl
  | told hid => exact h.reader_told ho ho' hs hout hid _

end Agreed

/-- What `s` wrote and `r` was handed, and the acknowledgements that took frames off the queue of
`s`, were written in the numbering that their reader was in: all receipts are `Current`. -/
def Aligned (s r : Station) : Prop :=
  (∀ x ∈ r.received, x.Current) ∧ ∀ x ∈ s.acknowledged, x.Current

theorem agreed_fresh (c₁ c₂ : Config) : Agreed (fresh c₁) (fresh c₂) where
  complete := by simp [departed, fresh]
  restarted hlt := absurd hlt (Nat.lt_irrefl 0)
  silent hlt := absurd hlt (Nat.lt_irrefl 0)
  early := by simp [fresh]
  answered := by simp [fresh]
  sorted := .nil
  inStep _ _ := ⟨0, by simp [fresh, number, Transport.ofConfig], by simp [departed, fresh],
    Nat.zero_le _, fun j _ hj => by omega, by simp [fresh], by simp [fresh], by simp [fresh]⟩

end Station

namespace Link

/-- The stations are `Station.Agreed` in both directions. -/
def Agreed (l : Link) : Prop := l.left.Agreed l.right ∧ l.right.Agreed l.left

variable {mayReset : Prop} {l l' : Link}

/-- What took effect stays on record (`Move.receipts`, `Takes.receipts`), so a station was `Aligned`
all along if it is at the end. -/
theorem aligned_of_move (hm : Move mayReset l l') :
    (l'.left.Aligned l'.right → l.left.Aligned l.right) ∧
      (l'.right.Aligned l'.left → l.right.Aligned l.left) := by
  cases hm with
  | own hm =>
    obtain ⟨hreceived, hacknowledged⟩ := hm.receipts
    exact ⟨fun h => ⟨h.1, hacknowledged ▸ h.2⟩, fun h => ⟨hreceived ▸ h.1, h.2⟩⟩
  | take _ ht =>
    obtain ⟨hreceived, hacknowledged⟩ := ht.receipts
    exact ⟨fun h => ⟨h.1, fun x hx => h.2 x (hacknowledged.subset hx)⟩,
      fun h => ⟨fun x hx => h.1 x (hreceived.subset hx), h.2⟩⟩
  | lose => exact ⟨id, id⟩

/-- The step lemma of `Agreed`. Agreement in one direction needs alignment in that direction only,
so the two directions are stated side by side. -/
theorem agreed_of_move (hs : l.Sound) (ho : l.Ordered) (hm : Move mayReset l l') :
    (l.left.Agreed l.right → l'.left.Aligned l'.right → l'.left.Agreed l'.right) ∧
      (l.right.Agreed l.left → l'.right.Aligned l'.left → l'.right.Agreed l'.left) := by
  obtain ⟨ho₁, ho₂⟩ := ho
  cases hm with
  | own hm =>
    exact ⟨fun h _ => h.writer_move ho₁ ho₂ hs.1 hm, fun h _ => h.reader_move hs.2 ho₁.heard hm⟩
  | take hout ht =>
    exact ⟨fun h hc => h.writer_takes ho₁ ho₂ hs.1 hout ht hc.2,
      fun h hc => h.reader_takes ho₂ ho₁ hs.2 hout ht hc.1⟩
  | lose hl hr => exact ⟨fun h _ => h.lose hl hr, fun h _ => h.lose hr hl⟩

variable {σ ε : Type} [ByteSink σ ε]

/-- A direction that is `Aligned` at the end of a run is `Agreed` there. -/
theorem agreed_run (c₁ c₂ : Config) (actions : List (Side × Action σ)) (side : Side)
    (h : (((fresh c₁ c₂).run actions).station side).Aligned
      (((fresh c₁ c₂).run actions).station side.other)) :
    (((fresh c₁ c₂).run actions).station side).Agreed
      (((fresh c₁ c₂).run actions).station side.other) := by
  -- The invariant itself carries the condition, one for each direction.
  let Inv (l : Link) : Prop := (l.left.Aligned l.right → l.left.Agreed l.right) ∧
    (l.right.Aligned l.left → l.right.Agreed l.left)
  have hmove : ∀ l l', l.Sound → l.Ordered → Inv l → Move True l l' → True → Inv l' := by
    intro l l' hs ho hl hm _
    obtain ⟨hback₁, hback₂⟩ := aligned_of_move hm
    obtain ⟨hnext₁, hnext₂⟩ := agreed_of_move hs ho hm
    exact ⟨fun hc => hnext₁ (hl.1 (hback₁ hc)) hc, fun hc => hnext₂ (hl.2 (hback₂ hc)) hc⟩
  have hrun : Inv ((fresh c₁ c₂).run actions) :=
    invariant_run_while (C := fun _ => True) (fun _ _ => True.intro) (fun _ hl => ⟨hl.2, hl.1⟩)
      (fun _ _ _ _ => True.intro) hmove
      ⟨fun _ => Station.agreed_fresh c₁ c₂, fun _ => Station.agreed_fresh c₂ c₁⟩
      (fun _ _ _ _ => True.intro) True.intro
  cases side with
  | left => exact hrun.1 h
  | right => exact hrun.2 h

/-- **No message of a station is lost silently as long as the frames that concern it take effect in
the numbering that they were written in.** What has left the queue was reported or handed over,
whatever got lost on the line and whoever was reset. -/
theorem nothing_lost (c₁ c₂ : Config) (actions : List (Side × Action σ)) (side : Side)
    (h : (((fresh c₁ c₂).run actions).station side).Aligned
      (((fresh c₁ c₂).run actions).station side.other)) :
    let s := ((fresh c₁ c₂).run actions).station side
    let r := ((fresh c₁ c₂).run actions).station side.other
    ∀ k < s.departed, k ∈ s.reported ∨
      ∃ x ∈ r.received, x.packet.index = k ∧ s.accepted[k]? = some x.packet.frame.message := by
  intro s r k hk
  obtain ⟨-, ho₁, ho₂⟩ := ordered_run c₁ c₂ actions
  have ho : s.Ordered r := by
    cases side with
    | left => exact ho₁
    | right => exact ho₂
  rcases (agreed_run c₁ c₂ actions side h).complete k hk with hreported | ⟨x, hx, hxk⟩
  · exact .inl hreported
  · refine .inr ⟨x, hx, hxk, ?_⟩
    rw [← hxk]
    exact (ho.logged_received hx).message

/-- The reader resets, and every frame of the writer arrives before the writer is told. -/
def quietReset : List (Side × Action (TxQueue 400)) :=
  [(.left, .send ⟨1, [0x11]⟩), (.left, .service 0 .empty), (.right, .receive 1 .empty),
    (.left, .receive 2 .empty), (.right, .reset .empty), (.left, .receive 3 .empty),
    (.left, .send ⟨2, [0x22]⟩), (.left, .service 4 .empty), (.right, .receive 5 .empty),
    (.left, .receive 6 .empty)]

theorem nothing_lost_quietReset :
    let l := (fresh .standard .standard).run quietReset
    let s := l.station .left
    let r := l.station (Side.other .left)
    s.Aligned r ∧ s.departed = 2 ∧
      ∀ k < s.departed, k ∈ s.reported ∨
        ∃ x ∈ r.received, x.packet.index = k ∧
          s.accepted[k]? = some x.packet.frame.message := by
  have h : (((fresh .standard .standard).run quietReset).station .left).Aligned
      (((fresh .standard .standard).run quietReset).station (Side.other .left)) :=
    ⟨by decide +kernel, by decide +kernel⟩
  exact ⟨h, by decide +kernel, nothing_lost .standard .standard quietReset .left h⟩

/-- The reader resets while a frame is on its way to it, and takes that frame for one of the new
numbering. -/
def staleFrame : List (Side × Action (TxQueue 400)) :=
  [(.left, .send ⟨1, [0x11]⟩), (.left, .service 0 .empty), (.right, .reset .empty),
    (.right, .receive 1 .empty), (.left, .receive 1 .empty), (.left, .send ⟨2, [0x22]⟩),
    (.left, .receive 2 .empty), (.left, .service 2 .empty), (.right, .receive 3 .empty),
    (.left, .receive 4 .empty)]

/-- The next message is lost: nothing is on its way any more, and it has left the queue unreported
and was never handed over. -/
theorem lost_after_staleFrame :
    let l := (fresh .standard .standard).run staleFrame
    l.left.outgoing = [] ∧ l.right.outgoing = [] ∧
      l.left.accepted = [⟨1, [0x11]⟩, ⟨2, [0x22]⟩] ∧
      l.right.received.map (·.packet.frame.message) = [⟨1, [0x11]⟩] ∧
      ¬ ∀ k < l.left.departed,
        k ∈ l.left.reported ∨ ∃ x ∈ l.right.received, x.packet.index = k := by
  decide +kernel

end Link

end SerialLink
