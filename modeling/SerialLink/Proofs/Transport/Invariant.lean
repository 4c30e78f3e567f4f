import SerialLink.Proofs.Transport.Run

/-!
# What holds of every transport

Whatever was done with a transport, its queue fits the window and is numbered without gaps, the
frames on their way come first, and no frame was sent again more often than allowed. An idle
transport is as good as new.

`Transport.Regular` is the invariant. `Regular.effect` shows by the cases of `Effect` that every
operation keeps it, and `Regular.run` is the induction over a run; a new transport has it by
`regular_ofConfig`. The two facts about a pass over the queue that it needs are `sane_sweep` and
`sentFirst_sweep`. The numbers are `Consecutive`, whose lemmas say which number a place has and what
is left of it when frames join at the back or leave at the front. Nearly every module behind this
one starts from `Regular`: `Proofs.Transport.Fate` and `Proofs.Transport.Discipline` for the queue,
`Proofs.Link.Sound` for both sides of a link.
-/

namespace SerialLink

/-! ## Consecutive numbers -/

/-- The frames are numbered one after the other, from `first` on; `next` is the number behind the
last one. -/
def Consecutive : UInt8 → List Entry → UInt8 → Prop
  | first, [], next => first = next
  | first, e :: rest, next => e.seq = first ∧ Consecutive (first + 1) rest next

namespace Consecutive

variable {first next : UInt8} {q q' : List Entry}

/-- A frame with the `next` number goes on with them. -/
theorem append (h : Consecutive first q next) {e : Entry} (he : e.seq = next) :
    Consecutive first (q ++ [e]) (next + 1) := by
  induction q generalizing first with
  | nil => exact ⟨he.trans h.symm, congrArg (· + 1) h⟩
  | cons x rest ih => exact ⟨h.1, ih h.2⟩

theorem drop (h : Consecutive first q next) (n : Nat) :
    ∃ first', Consecutive first' (q.drop n) next := by
  induction n generalizing first q with
  | zero => exact ⟨first, h⟩
  | succ n ih =>
    cases q with
    | nil => exact ⟨first, h⟩
    | cons x rest => exact ih h.2

theorem congr (h : Consecutive first q next) (hseq : q'.map Entry.seq = q.map Entry.seq) :
    Consecutive first q' next := by
  induction q generalizing first q' with
  | nil => rwa [List.map_eq_nil_iff.mp hseq]
  | cons x rest ih =>
    obtain ⟨y, rest', rfl, hy, hrest⟩ := List.map_eq_cons_iff.mp hseq
    exact ⟨hy.trans h.1, ih h.2 hrest⟩

theorem next_eq (h : Consecutive first q next) : next = first + q.length.toUInt8 := by
  induction q generalizing first with
  | nil => simpa using h.symm
  | cons x rest ih =>
    rw [ih h.2, List.length_cons]
    simp only [Nat.toUInt8_eq, UInt8.ofNat_add]
    grind

/-- Behind `n` frames the numbers go on from `first + n`. -/
theorem drop_of_le (h : Consecutive first q next) {n : Nat} (hn : n ≤ q.length) :
    Consecutive (first + n.toUInt8) (q.drop n) next := by
  obtain ⟨first', h'⟩ := h.drop n
  have hnext := h'.next_eq
  rw [h.next_eq, List.length_drop] at hnext
  have hlen : q.length.toUInt8 = n.toUInt8 + (q.length - n).toUInt8 := by
    simp only [Nat.toUInt8_eq, ← UInt8.ofNat_add, Nat.add_sub_cancel' hn]
  have hfirst : first' = first + n.toUInt8 := by
    rw [hlen] at hnext
    grind
  rwa [← hfirst]

/-- A frame of a `Consecutive` queue has the number that its place gives it. -/
theorem seq_eq {front back : List Entry} {e : Entry}
    (h : Consecutive first (front ++ e :: back) next) : e.seq = first + front.length.toUInt8 := by
  induction front generalizing first with
  | nil => simpa using h.1
  | cons x rest ih =>
    rw [ih h.2, List.length_cons]
    simp only [Nat.toUInt8_eq, UInt8.ofNat_add]
    grind

/-- No frame before it has the number of a frame, so that `idxOf` finds the frame by its number. -/
theorem notMem_front {front back : List Entry} {e : Entry}
    (h : Consecutive first (front ++ e :: back) next) (hlen : front.length < 256) :
    e.seq ∉ front.map Entry.seq := by
  intro hmem
  obtain ⟨x, hx, hseq⟩ := List.mem_map.mp hmem
  obtain ⟨before, between, rfl⟩ := List.append_of_mem hx
  have he := h.seq_eq
  rw [List.append_assoc, List.cons_append] at h
  rw [← hseq, h.seq_eq, List.length_append, List.length_cons] at he
  rw [List.length_append, List.length_cons] at hlen
  have heq := eq_of_offset_eq he (by omega) (by omega)
  omega

end Consecutive

/-- The numbers of a part of the queue depend on its place. -/
theorem consecutive_of_seqs {number : Nat → UInt8} (hnext : ∀ k, number (k + 1) = number k + 1)
    {q : List Entry} {k : Nat} (h : q.map Entry.seq = (List.range' k q.length).map number) :
    Consecutive (number k) q (number (k + q.length)) := by
  induction q generalizing k with
  | nil => rfl
  | cons e rest ih =>
    rw [List.length_cons, List.range'_succ, List.map_cons, List.map_cons, List.cons.injEq] at h
    refine ⟨h.1, ?_⟩
    have hrest := ih h.2
    rwa [hnext, Nat.add_assoc, Nat.add_comm 1] at hrest

/-- `renumbered` counts from zero. -/
theorem consecutive_renumbered (q : List Entry) :
    Consecutive 0 (renumbered q) q.length.toUInt8 := by
  have hnext : ∀ k : Nat, (k + 1).toUInt8 = k.toUInt8 + 1 := by
    intro k
    simp only [Nat.toUInt8_eq, UInt8.ofNat_add]
    rfl
  have h := consecutive_of_seqs hnext (q := renumbered q) (k := 0) (by
    rw [map_seq_renumbered, length_renumbered, List.range_eq_range'])
  simpa using h

/-! ## The entries of a queue -/

/-- The identifier of a queued frame can be sent, and the frame was sent again no more often than
allowed, and not at all before it was sent. -/
structure Entry.Sane (policy : RetryPolicy) (e : Entry) : Prop where
  id_le : e.id ≤ FrameId.maxAppId
  untouched : ¬ e.isSent → e.retransmits = 0
  retransmits_le : e.retransmits ≤ policy.maxRetransmits

theorem Entry.Sane.renumber {policy : RetryPolicy} {e : Entry} (h : e.Sane policy) (seq : UInt8) :
    (e.renumber seq).Sane policy where
  id_le := h.id_le
  untouched := fun _ => rfl
  retransmits_le := UInt8.zero_le

theorem sane_renumbered {policy : RetryPolicy} {q : List Entry} (h : ∀ e ∈ q, e.Sane policy) :
    ∀ e ∈ renumbered q, e.Sane policy := by
  intro e he
  obtain ⟨i, hi, rfl⟩ := List.mem_mapIdx.mp he
  exact (h _ (List.getElem_mem hi)).renumber _

namespace SentFirst

theorem tail {e : Entry} {rest : List Entry} (h : SentFirst (e :: rest)) : SentFirst rest := by
  simpa using h.drop 1

end SentFirst

/-- The first number of the queue is the `oldestSeq` of the transport, also if there is no frame. -/
theorem Consecutive.oldestSeq_eq {t : Transport} {first : UInt8}
    (h : Consecutive first t.queue t.nextSeq) : t.oldestSeq = first := by
  unfold Transport.oldestSeq
  cases hq : t.queue with
  | nil =>
    rw [hq] at h
    exact h.symm
  | cons e rest =>
    rw [hq] at h
    exact h.1

namespace Transport

variable {σ ε : Type} [ByteSink σ ε] {t t' : Transport}

section pass

variable (policy : RetryPolicy) (now : UInt32) (stats : TransportStats) (sink : σ) {q : List Entry}

/-- A pass keeps the entries `Sane`: it sends again what has a repetition left. -/
theorem sane_sweep (h : ∀ e ∈ q, e.Sane policy) :
    ∀ e ∈ (sweep policy now stats sink q).queue, e.Sane policy := by
  have hpass := sweep_rule policy now (fun done rest _ => ∀ e ∈ done ++ rest, e.Sane policy)
    ?wait ?sent (fun _ h => h) stats sink h
  · obtain ⟨done, rest, hqueue, hsane, -⟩ := hpass
    rw [hqueue]
    exact hsane
  case wait =>
    intro done e rest events _ hsane
    rwa [List.append_cons] at hsane
  case sent =>
    intro done e rest events n hact hsane x hx
    rw [List.append_assoc, List.singleton_append, List.mem_append, List.mem_cons] at hx
    obtain hx | rfl | hx := hx
    · exact hsane x (List.mem_append_left _ hx)
    · -- The frame just sent: it was in the queue before, with a repetition left.
      have he := hsane e (List.mem_append_right _ (List.mem_cons_self ..))
      exact ⟨he.id_le, fun hn => absurd rfl hn,
        Entry.retransmits_markSent_le hact he.retransmits_le⟩
    · exact hsane x (List.mem_append_right _ (List.mem_cons_of_mem e hx))

/-- A pass keeps `SentFirst`: it stops at the first frame that it cannot send, so no frame is sent
before another. -/
theorem sentFirst_sweep (h : SentFirst q) : SentFirst (sweep policy now stats sink q).queue := by
  -- All that was passed was sent, before the pass or by it.
  have hpass := sweep_rule policy now
    (fun done rest _ => (∀ e ∈ done, e.isSent) ∧ SentFirst (done ++ rest))
    ?wait ?sent (fun _ h => h) stats sink ⟨by simp, h⟩
  · obtain ⟨done, rest, hqueue, ⟨-, hshape⟩, -⟩ := hpass
    rw [hqueue]
    exact hshape
  case wait =>
    rintro done e rest events hact ⟨hdone, hshape⟩
    have hne : e.action policy now ≠ .send := by simp [hact]
    rw [List.append_cons] at hshape
    exact ⟨isSent_concat hdone (Entry.isSent_of_action hne), hshape⟩
  case sent =>
    rintro done e rest events n - ⟨hdone, hshape⟩
    have hmarked := hshape.markSent hdone now
    rw [List.append_cons] at hmarked
    exact ⟨isSent_concat hdone rfl, hmarked⟩

end pass

/-! ## The invariant -/

/-- What holds of a transport whatever was done with it. -/
structure Regular (t : Transport) : Prop where
  window_pos : 0 < t.window
  window_le : t.window ≤ Config.maxWindow
  length_le : t.queue.length ≤ t.window
  numbered : ∃ first, Consecutive first t.queue t.nextSeq
  sentFirst : SentFirst t.queue
  sane : ∀ e ∈ t.queue, e.Sane t.policy
  idle : t.state = .idle → t.queue = [] ∧ t.nextSeq = 0 ∧ t.expected = 0

theorem regular_ofConfig (c : Config) : (ofConfig c).Regular where
  window_pos := by simp only [ofConfig]; omega
  window_le := by simp only [ofConfig, Config.maxWindow]; omega
  length_le := Nat.zero_le _
  numbered := ⟨0, rfl⟩
  sentFirst := SentFirst.of_unsent (by simp [ofConfig])
  sane := by simp [ofConfig]
  idle := fun _ => ⟨rfl, rfl, rfl⟩

namespace Regular

theorem oldestSeq (h : t.Regular) : Consecutive t.oldestSeq t.queue t.nextSeq := by
  obtain ⟨first, hfirst⟩ := h.numbered
  rwa [hfirst.oldestSeq_eq]

/-- Times and counters do not matter: what is `Unmoved` is as `Regular` as before. -/
theorem congr (h : t.Regular) (hu : t.Unmoved t') : t'.Regular where
  window_pos := hu.window ▸ h.window_pos
  window_le := hu.window ▸ h.window_le
  length_le := by rw [hu.queue, hu.window]; exact h.length_le
  numbered := by rw [hu.queue, hu.nextSeq]; exact h.numbered
  sentFirst := hu.queue ▸ h.sentFirst
  sane := by rw [hu.queue, hu.policy]; exact h.sane
  idle := by rw [hu.state, hu.queue, hu.nextSeq, hu.expected]; exact h.idle

/-- `renew` numbers what is kept from zero. -/
theorem renew (h : t.Regular) {q : List Entry} (hlen : q.length ≤ t.queue.length)
    (hsane : ∀ e ∈ q, e.Sane t.policy) (n : Nat) (pending : Bool) :
    (t.renew (renumbered q) n pending).Regular where
  window_pos := h.window_pos
  window_le := h.window_le
  length_le := by
    have hle := h.length_le
    simp only [Transport.renew, length_renumbered]
    omega
  numbered := ⟨0, by
    simp only [Transport.renew, length_renumbered]
    exact consecutive_renumbered q⟩
  sentFirst := sentFirst_renumbered q
  sane := sane_renumbered hsane
  idle := by
    -- The link is idle behind a restart only if nothing is kept, and then all numbers are zero.
    intro hidle
    simp only [Transport.renew] at hidle ⊢
    split at hidle
    · next hempty =>
      have hnil := List.isEmpty_iff.mp hempty
      rw [hnil]
      simp
    · exact absurd hidle (by simp)

/-- The frames that outlast a pass and a restart after it. -/
theorem renew_kept (h : t.Regular) {q : List Entry} (hlen : q.length ≤ t.queue.length)
    (hsane : ∀ e ∈ q, e.Sane t.policy) (n : Nat) (pending : Bool) :
    (t.renew (kept q) n pending).Regular := by
  apply h.renew
  · exact Nat.le_trans (List.length_filter_le ..) hlen
  · exact fun e he => hsane e (List.mem_filter.mp he).1

/-- **Every operation keeps the invariant.** -/
theorem effect (h : t.Regular) {op : Operation σ} {events : List (Event ε)}
    (he : t.Effect op events t') : t'.Regular := by
  cases he with
  | refused | passed => exact h
  | heard => exact h.congr (.of_core rfl)
  | blocked _ _ hu | spurious _ _ hu => exact h.congr hu
  | @queued e seq t' hsend hroom hid hseq hnew hzero hu =>
    -- There was room for one more, and it goes behind the frames that were never sent.
    refine Regular.congr ?_ hu
    obtain ⟨first, hfirst⟩ := h.numbered
    have hunsent : ¬ e.isSent := by simp [Entry.isSent, hnew]
    refine ⟨h.window_pos, h.window_le, ?_, ⟨first, hfirst.append hseq⟩,
      h.sentFirst.append_unsent hunsent, ?_, fun hidle => absurd hidle (by simp)⟩
    · rw [List.length_append]
      exact hroom
    · intro x hx
      rcases List.mem_append.mp hx with hx | hx
      · exact h.sane x hx
      · rw [List.mem_singleton.mp hx]
        exact ⟨hid, fun _ => hzero, by rw [hzero]; exact UInt8.zero_le⟩
  | @swept now _ _ _ _ _ hflush hswept hnone hacks hu =>
    -- A pass changes no number, and finds nothing to do in an empty queue.
    obtain ⟨stats, sink, rfl⟩ := hswept
    refine Regular.congr ?_ hu
    have hseq := map_seq_sweep t.policy now stats sink t.queue
    have hlen := length_sweep t.policy now stats sink t.queue
    obtain ⟨first, hfirst⟩ := h.numbered
    refine ⟨h.window_pos, h.window_le, ?_, ⟨first, hfirst.congr hseq⟩,
      sentFirst_sweep t.policy now stats sink h.sentFirst,
      sane_sweep t.policy now stats sink h.sane,
      fun hidle => ?_⟩
    · exact hlen ▸ h.length_le
    · obtain ⟨hempty, hnext, hexpected⟩ := h.idle hidle
      refine ⟨?_, hnext, hexpected⟩
      simp only [hempty, sweep]
  | @gaveUp now _ _ _ _ _ _ _ _ hflush hswept hsome hnotice hacks hu =>
    obtain ⟨stats, sink, rfl⟩ := hswept
    refine Regular.congr ?_ hu
    have hlen := length_sweep t.policy now stats sink t.queue
    exact h.renew_kept (Nat.le_of_eq hlen) (sane_sweep t.policy now stats sink h.sane) _ _
  | @acked now f sink n hid hpending hn hle =>
    obtain ⟨first, hfirst⟩ := h.numbered
    refine ⟨h.window_pos, h.window_le, ?_, hfirst.drop n, h.sentFirst.drop n,
      fun e he => h.sane e (List.mem_of_mem_drop he), fun hidle => absurd hidle (by simp)⟩
    rw [List.length_drop]
    exact Nat.le_trans (Nat.sub_le ..) h.length_le
  | delivered hid hseq hu | unexpected hid hseq hu =>
    refine Regular.congr ?_ hu
    exact { h with idle := fun hidle => absurd hidle (by simp) }
  | told hid hu =>
    refine Regular.congr ?_ hu
    exact h.renew_kept (Nat.le_refl _) h.sane _ _
  | dropped hu | reset hnotice hu =>
    refine Regular.congr ?_ hu
    exact h.renew (q := []) (Nat.zero_le _) (by simp) _ _

theorem perform (h : t.Regular) (op : Operation σ) : (t.perform (ε := ε) op).1.Regular :=
  h.effect (t.perform_effect op)

theorem run (h : t.Regular) (ops : List (Operation σ)) : (t.run (ε := ε) ops).Regular := by
  induction ops generalizing t with
  | nil => exact h
  | cons op ops ih => exact ih (h.perform op)

end Regular

/-- No operation changes the settings, `policy` and `window`. -/
theorem Effect.settings {op : Operation σ} {events : List (Event ε)} (he : t.Effect op events t') :
    t'.policy = t.policy ∧ t'.window = t.window := by
  cases he with
  | refused | passed | heard | acked => exact ⟨rfl, rfl⟩
  | blocked _ _ hu | spurious _ _ hu => exact ⟨hu.policy, hu.window⟩
  | queued _ _ _ _ _ _ hu => exact ⟨hu.policy, hu.window⟩
  | swept _ _ _ _ hu | gaveUp _ _ _ _ _ hu => exact ⟨hu.policy, hu.window⟩
  | delivered _ _ hu | unexpected _ _ hu | told _ hu => exact ⟨hu.policy, hu.window⟩
  | dropped hu | reset _ hu => exact ⟨hu.policy, hu.window⟩

theorem settings_run (t : Transport) (ops : List (Operation σ)) :
    (t.run (ε := ε) ops).policy = t.policy ∧ (t.run (ε := ε) ops).window = t.window := by
  induction ops generalizing t with
  | nil => exact ⟨rfl, rfl⟩
  | cons op ops ih =>
    obtain ⟨hpolicy, hwindow⟩ := (t.perform_effect (ε := ε) op).settings
    obtain ⟨hpolicy', hwindow'⟩ := ih (t.perform (ε := ε) op).1
    exact ⟨hpolicy'.trans hpolicy, hwindow'.trans hwindow⟩

/-! ## The queue after any run -/

/-- **The queue of a transport, whatever was done with it.** It fits the window, holds data frames
under consecutive numbers, those on their way first, and none was sent again more often than
allowed; and an idle transport is as good as new. -/
theorem queue_of_run (c : Config) (ops : List (Operation σ)) :
    let t := (ofConfig c).run (ε := ε) ops
    (t.pending ≤ t.window ∧ 1 ≤ t.window ∧ t.window ≤ 16 ∧
        t.window = max 1 (min c.window.toNat 16)) ∧
      (∀ i e, t.queue[i]? = some e → e.frame.id = .data e.id ∧ e.id ≤ 63 ∧
        e.frame.seq.toNat = (t.oldestSeq.toNat + i) % 256) ∧
      t.nextSeq.toNat = (t.oldestSeq.toNat + t.pending) % 256 ∧
      (∃ sent unsent, t.queue = sent ++ unsent ∧ (∀ e ∈ sent, e.isSent) ∧
        ∀ e ∈ unsent, ¬ e.isSent ∧ e.retransmits = 0) ∧
      (∀ e ∈ t.queue, e.retransmits ≤ c.maxRetransmits) ∧
      (t.state = .idle → t.queue = [] ∧ t.nextSeq = 0 ∧ t.expected = 0) := by
  have hreg := (regular_ofConfig c).run (ε := ε) ops
  obtain ⟨hpolicy, hwindow⟩ := settings_run (ε := ε) (ofConfig c) ops
  generalize (ofConfig c).run (ε := ε) ops = t at hreg hpolicy hwindow
  have hnumbered := hreg.oldestSeq
  have hoffset : ∀ (a : UInt8) (i : Nat), (a + i.toUInt8).toNat = (a.toNat + i) % 256 := by
    intro a i
    simp only [Nat.toUInt8_eq, UInt8.toNat_add, UInt8.toNat_ofNat']
    omega
  refine ⟨⟨hreg.length_le, hreg.window_pos, hreg.window_le, hwindow⟩, ?_, ?_, ?_, ?_, hreg.idle⟩
  · intro i e hi
    obtain ⟨hlt, rfl⟩ := List.getElem?_eq_some_iff.mp hi
    refine ⟨rfl, (hreg.sane _ (List.getElem_mem hlt)).id_le, ?_⟩
    -- The frame stands behind `i` others.
    have hsplit : t.queue = t.queue.take i ++ t.queue[i] :: t.queue.drop (i + 1) := by simp
    rw [hsplit] at hnumbered
    have hseq := hnumbered.seq_eq
    rw [List.length_take, Nat.min_eq_left (Nat.le_of_lt hlt)] at hseq
    rw [← hoffset, ← hseq]
    rfl
  · rw [← hoffset]
    exact congrArg UInt8.toNat hnumbered.next_eq
  · obtain ⟨sent, unsent, hq, hs, hu⟩ := hreg.sentFirst
    refine ⟨sent, unsent, hq, hs, fun e he => ⟨hu e he, ?_⟩⟩
    have hmem : e ∈ t.queue := by rw [hq]; exact List.mem_append_right sent he
    exact (hreg.sane e hmem).untouched (hu e he)
  · intro e he
    have hle := (hreg.sane e he).retransmits_le
    rwa [hpolicy] at hle

end Transport

end SerialLink
