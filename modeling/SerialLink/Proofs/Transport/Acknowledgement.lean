import SerialLink.Proofs.Transport.Invariant

/-!
# Acknowledgements in any order

An acknowledgement names the number that the peer expects next, and takes the data frames before it
off the queue. Numbers wrap, so one that comes late could be taken for one that is far ahead. It is
not: no more than sixteen frames are ever on their way, and a late number is further ahead than
that. Of several acknowledgements, in whatever order and however often they come, only the one that
reaches furthest matters.

`claimed` is the distance from the oldest queued frame to the number acknowledged, and
`Acknowledged` the state behind the acknowledgement `b`, whatever came before it. One more of them
reaches further (`Acknowledged.further`) or is late (`Acknowledged.late`), and a list of them
follows by induction. That the window bounds the distance of what is on its way comes from
`Regular`, which is kept by every run, and the wrapping from `toNat_sub_of_le` and
`toNat_sub_of_lt`, where the only arithmetic on bytes is.
-/

namespace SerialLink

/-! ## Distances between numbers -/

section distance

variable {a b first : UInt8}

/-- From one number forward to another, as seen from a number before both. -/
theorem toNat_sub_of_le (h : (a - first).toNat ≤ (b - first).toNat) :
    (b - a).toNat = (b - first).toNat - (a - first).toNat := by
  have hsplit : b - a = (b - first) - (a - first) := by grind
  rw [hsplit]
  exact UInt8.toNat_sub_of_le _ _ (UInt8.le_iff_toNat_le.mpr h)

/-- Forward to a number that lies behind goes nearly all the way round. -/
theorem toNat_sub_of_lt (h : (b - first).toNat < (a - first).toNat) :
    (b - a).toNat = 256 - ((a - first).toNat - (b - first).toNat) := by
  have hsplit : b - a = (b - first) - (a - first) := by grind
  have ha := (a - first).toNat_lt
  rw [hsplit, UInt8.toNat_sub]
  omega

end distance

/-- Where sent frames come first, those `inFlight` are all that were sent. -/
theorem SentFirst.inFlight_eq {t : Transport} (h : SentFirst t.queue) :
    t.inFlight = t.queue.countP Entry.isSent := by
  unfold Transport.inFlight
  rw [h.takeWhile_eq_filter, List.countP_eq_length_filter]

namespace Transport

variable {t u : Transport} {ack b : UInt8}

/-! ## One acknowledgement -/

/-- How many data frames an acknowledgement claims: those from `oldestSeq` up to it. -/
def claimed (t : Transport) (ack : UInt8) : Nat := (ack - t.oldestSeq).toNat

/-- Numbers that claim as many frames are the same. -/
theorem claimed_inj (h : t.claimed ack = t.claimed b) : ack = b := by
  have hsub := UInt8.toNat_inj.mp h
  grind

/-- An acknowledgement of frames that are not on their way is counted, in `spuriousAcks`. -/
def countSpurious (t : Transport) : Transport :=
  { t with stats := { t.stats with spuriousAcks := t.stats.spuriousAcks + 1 } }

/-- `onAck` only counts an acknowledgement that claims more than what is on its way. -/
theorem onAck_of_lt (h : t.inFlight < t.claimed ack) : t.onAck ack = t.countSpurious :=
  if_pos (Or.inr h)

/-- `onAck` takes what is claimed off the queue if it is on its way and no reset is pending. -/
theorem onAck_of_le (hpending : ¬ t.resetPending) (h : t.claimed ack ≤ t.inFlight) :
    t.onAck ack = { t with queue := t.queue.drop (t.claimed ack), state := .running } :=
  if_neg (not_or.mpr ⟨hpending, Nat.not_lt.mpr h⟩)

/-! ## Acknowledgements one after the other -/

/-- The transport after acknowledgements of these numbers, in order. -/
def acknowledge (t : Transport) (acks : List UInt8) : Transport := acks.foldl onAck t

/-- All queued frames before `b` were acknowledged, and no others. -/
structure Acknowledged (t : Transport) (b : UInt8) (u : Transport) : Prop where
  queue : u.queue = t.queue.drop (t.claimed b)
  nextSeq : u.nextSeq = t.nextSeq
  resetPending : ¬ u.resetPending

theorem acknowledged_refl (hpending : ¬ t.resetPending) : t.Acknowledged t.oldestSeq t where
  queue := by simp [claimed]
  nextSeq := rfl
  resetPending := hpending

namespace Acknowledged

/-- **The oldest queued frame is the one acknowledged next,** also when none is left. -/
theorem oldestSeq_eq (h : t.Acknowledged b u) (hreg : t.Regular) (hb : t.claimed b ≤ t.inFlight) :
    u.oldestSeq = b := by
  have hrest := hreg.oldestSeq.drop_of_le (Nat.le_trans hb t.inFlight_le)
  rw [← h.queue, ← h.nextSeq] at hrest
  rw [hrest.oldestSeq_eq]
  unfold claimed
  simp only [Nat.toUInt8_eq, UInt8.ofNat_toNat]
  grind

/-- `Acknowledged` by a number that reaches as far or further, which takes off what is between. -/
theorem further (h : t.Acknowledged b u) (hreg : t.Regular) (hb : t.claimed b ≤ t.claimed ack)
    (hsent : t.claimed ack ≤ t.inFlight) : t.Acknowledged ack (u.onAck ack) := by
  have holdest := h.oldestSeq_eq hreg (Nat.le_trans hb hsent)
  have hclaimed : u.claimed ack = t.claimed ack - t.claimed b := by
    rw [claimed, holdest]
    exact toNat_sub_of_le hb
  have hleft := inFlight_drop h.queue (Nat.le_trans hb hsent)
  rw [onAck_of_le h.resetPending (by omega)]
  refine ⟨?_, h.nextSeq, h.resetPending⟩
  simp only [h.queue, List.drop_drop, hclaimed, Nat.add_sub_cancel' hb]

/-- An acknowledgement that does not reach as far claims more frames than there ever are. -/
theorem late (h : t.Acknowledged b u) (hreg : t.Regular) (hb : t.claimed b ≤ t.inFlight)
    (hlate : t.claimed ack < t.claimed b) : u.onAck ack = u.countSpurious := by
  have holdest := h.oldestSeq_eq hreg hb
  have hclaimed : u.claimed ack = 256 - (t.claimed b - t.claimed ack) := by
    rw [claimed, holdest]
    exact toNat_sub_of_lt hlate
  have hleft := inFlight_drop h.queue hb
  have hwindow := Nat.le_trans t.inFlight_le (Nat.le_trans hreg.length_le hreg.window_le)
  unfold Config.maxWindow at hwindow
  exact onAck_of_lt (by omega)

/-- **Of acknowledgements in any order the one that reaches furthest counts.** -/
theorem acknowledge {acks : List UInt8} (h : t.Acknowledged b u) (hreg : t.Regular)
    (hb : t.claimed b ≤ t.inFlight) (hacks : ∀ a ∈ acks, t.claimed a ≤ t.inFlight) :
    ∃ m, (m = b ∨ m ∈ acks) ∧ (∀ a ∈ b :: acks, t.claimed a ≤ t.claimed m) ∧
      t.Acknowledged m (u.acknowledge acks) := by
  -- `b` is the one that reached furthest so far, and the next one is late or takes its place.
  induction acks generalizing b u with
  | nil => exact ⟨b, .inl rfl, by simp, h⟩
  | cons a rest ih =>
    obtain ⟨ha, hrest⟩ := List.forall_mem_cons.mp hacks
    rcases Nat.lt_or_ge (t.claimed a) (t.claimed b) with hlate | hfurther
    · -- It is only counted, which does not concern the queue.
      have hcounted : t.Acknowledged b u.countSpurious := ⟨h.queue, h.nextSeq, h.resetPending⟩
      rw [← h.late hreg hb hlate] at hcounted
      obtain ⟨m, hm, hall, hreached⟩ := ih hcounted hb hrest
      obtain ⟨hbm, hall⟩ := List.forall_mem_cons.mp hall
      refine ⟨m, hm.imp_right (List.mem_cons_of_mem a), ?_, hreached⟩
      simp only [List.forall_mem_cons]
      exact ⟨hbm, by omega, hall⟩
    · obtain ⟨m, hm, hall, hreached⟩ := ih (h.further hreg hfurther ha) ha hrest
      refine ⟨m, .inr (List.mem_cons.mpr hm), ?_, hreached⟩
      have ham := hall a (List.mem_cons_self ..)
      exact List.forall_mem_cons.mpr ⟨by omega, hall⟩

end Acknowledged

/-! ## Acknowledgements of a transport in use -/

variable {σ ε : Type} [ByteSink σ ε]

/-- **Acknowledgements are cumulative, and neither their order nor a repetition matters.** Whatever
was done with a transport before, an acknowledgement that claims no more frames than were sent takes
just those off the queue, all of them sent, and any other is only counted. Of several good ones the
one that reaches furthest decides what is left of the queue, and one that reaches less far is only
counted when it comes later. -/
theorem acks_cumulative (c : Config) (ops : List (Operation σ))
    (hpending : ¬ ((ofConfig c).run (ε := ε) ops).resetPending) :
    let t := (ofConfig c).run (ε := ε) ops
    let sent := t.queue.countP Entry.isSent
    (∀ now (f : Frame) (sink : σ), f.id = .ack →
      t.receive now f sink = { transport := t.onAck f.seq, sink, events := [] }) ∧
    (∀ a, t.claimed a ≤ sent →
      t.onAck a = { t with queue := t.queue.drop (t.claimed a), state := .running } ∧
      (t.onAck a).oldestSeq = a ∧ ∀ e ∈ t.queue.take (t.claimed a), e.isSent) ∧
    (∀ a, sent < t.claimed a → t.onAck a = t.countSpurious) ∧
    (∀ acks b, b ∈ acks → (∀ a ∈ acks, t.claimed a ≤ t.claimed b) → t.claimed b ≤ sent →
      (t.acknowledge acks).queue = (t.onAck b).queue) ∧
    ∀ acks a b, (∀ x ∈ acks, t.claimed x ≤ sent) → b ∈ acks → t.claimed a < t.claimed b →
      (t.acknowledge acks).onAck a = (t.acknowledge acks).countSpurious := by
  intro t sent
  have hreg : t.Regular := (regular_ofConfig c).run (ε := ε) ops
  have hsent : sent = t.inFlight := hreg.sentFirst.inFlight_eq.symm
  have hstart : t.Acknowledged t.oldestSeq t := acknowledged_refl hpending
  have hnone : t.claimed t.oldestSeq = 0 := by simp [claimed]
  rw [hsent]
  refine ⟨?_, ?_, fun a ha => onAck_of_lt ha, ?_, ?_⟩
  · intro now f sink hid
    simp only [receive, hid]
  · intro a ha
    have hreached := hstart.further hreg (by omega) ha
    exact ⟨onAck_of_le hpending ha, hreached.oldestSeq_eq hreg ha, isSent_of_mem_take ha⟩
  · intro acks b hb hall hle
    have hacks : ∀ a ∈ acks, t.claimed a ≤ t.inFlight := fun a ha => Nat.le_trans (hall a ha) hle
    obtain ⟨m, hm, hmost, hreached⟩ := hstart.acknowledge hreg (by omega) hacks
    -- The one that decides reaches as far as `b`, so it is `b`.
    have hbm := hmost b (List.mem_cons_of_mem _ hb)
    have hmb : t.claimed m ≤ t.claimed b := by
      rcases hm with rfl | hm
      · omega
      · exact hall m hm
    obtain rfl := claimed_inj (Nat.le_antisymm hbm hmb)
    rw [hreached.queue, onAck_of_le hpending hle]
  · intro acks a b hacks hb hlate
    obtain ⟨m, hm, hmost, hreached⟩ := hstart.acknowledge hreg (by omega) hacks
    have hbm := hmost b (List.mem_cons_of_mem _ hb)
    have hmsent : t.claimed m ≤ t.inFlight := by
      rcases hm with rfl | hm
      · omega
      · exact hacks m hm
    exact hreached.late hreg hmsent (by omega)

/-- Three messages are queued, and there is room for two of them. -/
def roomForTwo : List (Operation (TxQueue 64)) :=
  [.send ⟨1, [0x11]⟩, .send ⟨2, [0x22]⟩, .send ⟨3, [0x33]⟩,
    .service 0 ⟨List.replicate 40 0, by decide⟩]

theorem acks_cumulative_roomForTwo :
    let t := (ofConfig .standard).run roomForTwo
    ¬ t.resetPending ∧ t.queue.countP Entry.isSent = 2 ∧
      (t.onAck 2).oldestSeq = 2 ∧ (t.onAck 2).queue = [⟨3, 2, .singleton 0x33, none, 0⟩] ∧
      (t.acknowledge [1, 2, 0, 1]).queue = (t.onAck 2).queue ∧ t.onAck 3 = t.countSpurious ∧
      (t.acknowledge [1, 2]).onAck 1 = (t.acknowledge [1, 2]).countSpurious := by
  intro t
  have hpending : ¬ t.resetPending := by decide +kernel
  obtain ⟨-, htaken, hspurious, hfurthest, hlate⟩ :=
    acks_cumulative .standard roomForTwo hpending
  obtain ⟨-, holdest, -⟩ := htaken 2 (by decide +kernel)
  exact ⟨hpending, by decide +kernel, holdest, by decide +kernel,
    hfurthest [1, 2, 0, 1] 2 (by decide) (by decide +kernel) (by decide +kernel),
    hspurious 3 (by decide +kernel),
    hlate [1, 2] 1 2 (by decide +kernel) (by decide) (by decide +kernel)⟩

end Transport

end SerialLink
