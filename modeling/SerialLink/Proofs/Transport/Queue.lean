import SerialLink.Transport.Receive
import SerialLink.Transport.Service

/-!
# The queue of a transport

In every queue that a transport can reach the data frames on their way come before those that were
never sent. On such a queue a restart loses exactly the frames on their way and keeps the others in
order, and a tick preserves the shape.

`SentFirst` is this shape; that every reachable queue has it is proved in
`Proofs.Transport.Invariant`. The module has what is needed of each function on queues, so that no
later one unfolds them: `submit_cases` for queueing, `lost_eq` and `kept_eq_drop` for a restart, and
for a pass over the queue `sweep_cases`, its inversion at the first frame, and `sweep_rule`, its
loop rule. A fact about a pass is an instance of the rule where it can be said of the frames passed
and the events so far, and an induction with `sweep_cases` where it cannot.
-/

namespace SerialLink

/-! ## Sent frames come first -/

/-- The data frames that were sent come before those that were not. -/
def SentFirst (q : List Entry) : Prop :=
  ∃ sent unsent, q = sent ++ unsent ∧ (∀ e ∈ sent, e.isSent) ∧ ∀ e ∈ unsent, ¬ e.isSent

/-- The entries that are taken while `isSent` holds are the ones that were sent. -/
theorem takeWhile_isSent {sent unsent : List Entry} (hs : ∀ e ∈ sent, e.isSent)
    (hu : ∀ e ∈ unsent, ¬ e.isSent) : (sent ++ unsent).takeWhile Entry.isSent = sent := by
  rw [List.takeWhile_append_of_pos hs]
  cases unsent with
  | nil => simp
  | cons e rest => simp [hu e (List.mem_cons_self ..)]

section behind

variable {front : List Entry}

theorem filter_isSent_behind (hfront : ∀ x ∈ front, x.isSent) (q : List Entry) :
    (front ++ q).filter Entry.isSent = front ++ q.filter Entry.isSent := by
  rw [List.filter_append, List.filter_eq_self.mpr hfront]

theorem filter_unsent_behind (hfront : ∀ x ∈ front, x.isSent) (q : List Entry) :
    (front ++ q).filter (fun x => !x.isSent) = q.filter fun x => !x.isSent := by
  have hnone : front.filter (fun x => !x.isSent) = [] :=
    List.filter_eq_nil_iff.mpr fun x hx => by simp [hfront x hx]
  rw [List.filter_append, hnone, List.nil_append]

theorem isSent_concat {e : Entry} (hfront : ∀ x ∈ front, x.isSent) (he : e.isSent) :
    ∀ x ∈ front ++ [e], x.isSent := by
  intro x hx
  rcases List.mem_append.mp hx with hx | hx
  · exact hfront x hx
  · rwa [List.mem_singleton.mp hx]

end behind

namespace SentFirst

theorem of_unsent {q : List Entry} (h : ∀ e ∈ q, ¬ e.isSent) : SentFirst q :=
  ⟨[], q, rfl, by simp, h⟩

theorem append_unsent {q : List Entry} {e : Entry} (h : SentFirst q) (he : ¬ e.isSent) :
    SentFirst (q ++ [e]) := by
  obtain ⟨sent, unsent, rfl, hs, hu⟩ := h
  refine ⟨sent, unsent ++ [e], by simp, hs, ?_⟩
  intro x hx
  rcases List.mem_append.mp hx with hx | hx
  · exact hu x hx
  · rw [List.mem_singleton.mp hx]; exact he

theorem drop {q : List Entry} (h : SentFirst q) (n : Nat) : SentFirst (q.drop n) := by
  obtain ⟨sent, unsent, rfl, hs, hu⟩ := h
  refine ⟨sent.drop n, unsent.drop (n - sent.length), List.drop_append, ?_, ?_⟩
  · exact fun e he => hs e (List.mem_of_mem_drop he)
  · exact fun e he => hu e (List.mem_of_mem_drop he)

/-- `Entry.markSent` at the first frame that was not sent yet, or at one before it, keeps
`SentFirst`. -/
theorem markSent {done rest : List Entry} {e : Entry} (h : SentFirst (done ++ e :: rest))
    (hdone : ∀ e ∈ done, e.isSent) (now : UInt32) :
    SentFirst (done ++ e.markSent now :: rest) := by
  have hmark : (e.markSent now).isSent := rfl
  obtain ⟨sent, unsent, hq, hs, hu⟩ := h
  -- The tail behind `e` splits where the old queue did, or not at all.
  have hrest : SentFirst rest := by
    have hd := SentFirst.drop ⟨sent, unsent, hq, hs, hu⟩ (done.length + 1)
    simpa using hd
  obtain ⟨sent', unsent', rfl, hs', hu'⟩ := hrest
  refine ⟨done ++ e.markSent now :: sent', unsent', by simp, ?_, hu'⟩
  intro x hx
  rcases List.mem_append.mp hx with hx | hx
  · exact hdone x hx
  · rcases List.mem_cons.mp hx with rfl | hx
    · exact hmark
    · exact hs' x hx

/-! ### The two parts of the queue -/

variable {q : List Entry}

/-- The two filters by `isSent` are the two parts of the queue, in order. -/
theorem filter_append (h : SentFirst q) :
    q.filter Entry.isSent ++ q.filter (fun e => !e.isSent) = q := by
  obtain ⟨sent, unsent, rfl, hs, hu⟩ := h
  have hkept : unsent.filter (fun e => !e.isSent) = unsent :=
    List.filter_eq_self.mpr fun e he => by simp [hu e he]
  rw [filter_isSent_behind hs, filter_unsent_behind hs, List.filter_eq_nil_iff.mpr hu, hkept,
    List.append_nil]

theorem takeWhile_eq_filter (h : SentFirst q) :
    q.takeWhile Entry.isSent = q.filter Entry.isSent := by
  obtain ⟨sent, unsent, rfl, hs, hu⟩ := h
  rw [takeWhile_isSent hs hu, filter_isSent_behind hs, List.filter_eq_nil_iff.mpr hu,
    List.append_nil]

theorem length_filters (h : SentFirst q) :
    (q.filter Entry.isSent).length + (q.filter fun e => !e.isSent).length = q.length := by
  rw [← List.length_append, h.filter_append]

theorem take_sent (h : SentFirst q) :
    q.take (q.filter Entry.isSent).length = q.filter Entry.isSent := by
  have htake := congrArg (List.take (q.filter Entry.isSent).length) h.filter_append
  rw [List.take_left] at htake
  exact htake.symm

theorem drop_sent (h : SentFirst q) :
    q.drop (q.filter Entry.isSent).length = q.filter (fun e => !e.isSent) := by
  have hdrop := congrArg (List.drop (q.filter Entry.isSent).length) h.filter_append
  rw [List.drop_left] at hdrop
  exact hdrop.symm

/-- An entry that `isSent` stands among those at the front. -/
theorem lt_of_isSent (h : SentFirst q) {k : Nat} {e : Entry} (hk : q[k]? = some e)
    (he : e.isSent) : k < (q.filter Entry.isSent).length := by
  apply Nat.lt_of_not_le
  intro hle
  rw [← h.filter_append, List.getElem?_append_right hle] at hk
  have hmem := List.mem_filter.mp (List.mem_of_getElem? hk)
  simp [he] at hmem

/-- What stands before a frame that was sent was sent. -/
theorem isSent_head {e x : Entry} (h : SentFirst (e :: q)) (hx : x ∈ q) (hsent : x.isSent) :
    e.isSent := by
  obtain ⟨sent, unsent, hq, hs, hu⟩ := h
  cases sent with
  | nil =>
    rw [List.nil_append] at hq
    exact absurd hsent (hu x (hq ▸ List.mem_cons_of_mem e hx))
  | cons y sent =>
    obtain ⟨rfl, -⟩ := List.cons.inj hq
    exact hs e (List.mem_cons_self ..)

/-- Behind a frame that was never sent, none was. -/
theorem filter_isSent_tail {e : Entry} (h : SentFirst (e :: q)) (he : ¬ e.isSent) :
    q.filter Entry.isSent = [] :=
  List.filter_eq_nil_iff.mpr fun _ hx hsent => he (h.isSent_head hx hsent)

end SentFirst

/-! ## Queueing a frame -/

/-- `Frame.make` looks at the identifier first, and then at the length of the payload. -/
theorem Frame.make_eq (id : FrameId) (seq : UInt8) (bytes : List UInt8) :
    make id seq bytes =
      if ¬ id.Valid then .error .invalidId
      else if hfits : bytes.length ≤ Payload.maxLength then .ok ⟨id, seq, ⟨bytes, hfits⟩⟩
      else .error .payloadTooLarge := by
  unfold make Payload.ofList?
  by_cases hid : id.Valid
  · rw [if_pos hid, if_neg (not_not_intro hid)]
    by_cases hfits : bytes.length ≤ Payload.maxLength
    · rw [dif_pos hfits, dif_pos hfits]
    · rw [dif_neg hfits, dif_neg hfits]
  · rw [if_neg hid, if_pos hid]

namespace Transport

/-- The transport behind a payload that `submit` queued. -/
def queued (t : Transport) (id : UInt8) (payload : Payload) : Transport :=
  let queue := t.queue ++ [{ id, seq := t.nextSeq, payload }]
  { t with
    queue
    nextSeq := t.nextSeq + 1
    state := .running
    stats := { t.stats with
      queueHighWater := max t.stats.queueHighWater queue.length.toUInt8 } }

/-- `submit` looks at the window before the frame, and leaves the transport as it was wherever it
refuses; otherwise it leaves `queued`. -/
theorem submit_eq (t : Transport) (id : UInt8) (bytes : List UInt8) :
    t.submit id bytes =
      if t.window ≤ t.pending then (.error .full, t)
      else if FrameId.maxAppId < id then (.error (.frame .invalidId), t)
      else if hfits : bytes.length ≤ Payload.maxLength then
        (.ok t.nextSeq, t.queued id ⟨bytes, hfits⟩)
      else (.error (.frame .payloadTooLarge), t) := by
  have hid : (¬ (FrameId.data id).Valid) = (FrameId.maxAppId < id) := by
    rw [FrameId.valid_data, UInt8.not_le]
  unfold submit Frame.data
  simp only [Frame.make_eq, hid]
  -- The window, then the identifier, then the length: in the order of the tests.
  split
  · rfl
  · by_cases hlarge : FrameId.maxAppId < id
    · simp only [if_pos hlarge]
    · simp only [if_neg hlarge]
      by_cases hfits : bytes.length ≤ Payload.maxLength
      · simp only [dif_pos hfits]
        rfl
      · simp only [dif_neg hfits]

/-- What `submit` can do: refuse the payload and change nothing, or queue it. -/
theorem submit_cases (t : Transport) (id : UInt8) (bytes : List UInt8) :
    (∃ failure, t.submit id bytes = (.error failure, t)) ∨
      (t.pending < t.window ∧ id ≤ FrameId.maxAppId ∧ ∃ p : Payload, p.bytes = bytes ∧
        t.submit id bytes = (.ok t.nextSeq, t.queued id p)) := by
  rw [submit_eq]
  split
  · exact .inl ⟨_, rfl⟩
  · next hroom =>
    split
    · exact .inl ⟨_, rfl⟩
    · next hid =>
      split
      · next hfits =>
        exact .inr ⟨Nat.lt_of_not_le hroom, UInt8.not_lt.mp hid, ⟨bytes, hfits⟩, rfl, rfl⟩
      · exact .inl ⟨_, rfl⟩

/-- `enqueue` and `submit` agree on what they answer, and on the transport if the payload is
queued. -/
theorem enqueue_eq_submit (t : Transport) (id : UInt8) (bytes : List UInt8) :
    t.enqueue id bytes = (t.submit id bytes).1.map (·, (t.submit id bytes).2) := by
  unfold enqueue
  rcases t.submit id bytes with ⟨failure | seq, t'⟩ <;> rfl

/-- A frame that `enqueue` accepts had room and can be made, and stands behind the others. -/
theorem enqueue_eq_ok {t t' : Transport} {id seq : UInt8} {bytes : List UInt8}
    (h : t.enqueue id bytes = .ok (seq, t')) :
    t.pending < t.window ∧ id ≤ FrameId.maxAppId ∧ seq = t.nextSeq ∧
      ∃ p : Payload, p.bytes = bytes ∧ t' = t.queued id p := by
  rw [enqueue_eq_submit] at h
  obtain ⟨failure, hrefused⟩ | ⟨hroom, hid, p, hp, hqueued⟩ := t.submit_cases id bytes
  · rw [hrefused] at h
    exact absurd h (by simp [Except.map])
  · rw [hqueued] at h
    obtain ⟨rfl, rfl⟩ := Prod.mk.inj (Except.ok.inj h)
    exact ⟨hroom, hid, rfl, p, hp, rfl⟩

end Transport

/-! ## What is to be done with a frame -/

namespace Entry

/-- The `action` for a frame that was never sent is to send it, so any other is for one that was. -/
theorem isSent_of_action {e : Entry} {policy : RetryPolicy} {now : UInt32}
    (h : e.action policy now ≠ .send) : e.isSent := by
  cases hl : e.lastSent with
  | none => simp [action, RetryPolicy.action, hl] at h
  | some _ => simp [isSent, hl]

/-- `markSent` on a frame that is not given up keeps within the number of repetitions allowed. -/
theorem retransmits_markSent_le {e : Entry} {policy : RetryPolicy} {now : UInt32}
    (h : e.action policy now = .send ∨ e.action policy now = .resend)
    (hle : e.retransmits ≤ policy.maxRetransmits) :
    (e.markSent now).retransmits ≤ policy.maxRetransmits := by
  cases hl : e.lastSent with
  | none => simpa [markSent, isSent, hl] using hle
  | some since =>
    -- It is sent again, so there was a repetition left.
    have hlt : e.retransmits < policy.maxRetransmits := by
      simp only [action, RetryPolicy.action, hl] at h
      split at h
      · simp at h
      · split at h
        · simp at h
        · next hmore => exact UInt8.not_le.mp hmore
    have hmax := policy.maxRetransmits.toNat_lt
    rw [UInt8.lt_iff_toNat_lt] at hlt
    rw [UInt8.le_iff_toNat_le] at hle ⊢
    simp only [markSent]
    split
    · rw [UInt8.toNat_add, UInt8.toNat_one]
      omega
    · exact hle

end Entry

/-! ## Numbering -/

/-- Two places share a sequence number only when they are 256 apart. A window is smaller, so within
a queue the number determines the place. -/
theorem eq_of_offset_eq {a : UInt8} {j k : Nat} (h : a + j.toUInt8 = a + k.toUInt8)
    (hjk : j < k + 256) (hkj : k < j + 256) : j = k := by
  have hjk' := congrArg UInt8.toNat ((UInt8.add_right_inj a).mp h)
  simp only [Nat.toUInt8_eq, UInt8.toNat_ofNat'] at hjk'
  omega

/-- The queue numbered from zero, as if nothing of it was ever sent. -/
def renumbered (q : List Entry) : List Entry := q.mapIdx fun i e => e.renumber i.toUInt8

@[simp]
theorem length_renumbered (q : List Entry) : (renumbered q).length = q.length :=
  List.length_mapIdx

theorem map_seq_renumbered (q : List Entry) :
    (renumbered q).map Entry.seq = (List.range q.length).map Nat.toUInt8 := by
  apply List.ext_getElem
  · simp
  · intro i hi hi'
    simp [renumbered, Entry.renumber]

theorem not_isSent_renumbered {q : List Entry} {e : Entry} (he : e ∈ renumbered q) :
    ¬ e.isSent := by
  obtain ⟨i, hi, rfl⟩ := List.mem_mapIdx.mp he
  simp [Entry.renumber, Entry.isSent]

theorem sentFirst_renumbered (q : List Entry) : SentFirst (renumbered q) :=
  SentFirst.of_unsent fun _ he => not_isSent_renumbered he

/-! ## Frames that are given up -/

/-- The frame of a `DeliveryFailure`, as it was when it was given up. -/
def DeliveryFailure.frame (x : DeliveryFailure) : Frame := ⟨.data x.id, x.seq, x.payload⟩

namespace Entry

@[simp]
theorem frame_failure (e : Entry) (reason : FailureReason) :
    (e.failure reason).frame = e.frame := rfl

theorem failure_congr {e e' : Entry} (h : e'.frame = e.frame) (reason : FailureReason) :
    e'.failure reason = e.failure reason := by
  simp only [frame, Frame.mk.injEq, FrameId.data.injEq] at h
  obtain ⟨hid, hseq, hpayload⟩ := h
  simp only [failure, hid, hseq, hpayload]

end Entry

/-- The failures of frames, with a reason for each place. `lost` has this form (`lost_eq`). -/
def failuresOf (reason : Nat → FailureReason) (q : List Entry) : List DeliveryFailure :=
  q.mapIdx fun i e => e.failure (reason i)

section failuresOf

variable (reason : Nat → FailureReason) {q q' : List Entry}

@[simp]
theorem length_failuresOf (q : List Entry) : (failuresOf reason q).length = q.length :=
  List.length_mapIdx

theorem failuresOf_cons (e : Entry) (q : List Entry) :
    failuresOf reason (e :: q) = e.failure (reason 0) :: failuresOf (fun i => reason (i + 1)) q :=
  List.mapIdx_cons

@[simp]
theorem map_frame_failuresOf (q : List Entry) :
    (failuresOf reason q).map DeliveryFailure.frame = q.map Entry.frame := by
  apply List.ext_getElem
  · simp
  · intro i hi hi'
    simp [failuresOf]

/-- `failuresOf` looks at the frames, and not at when they were sent. -/
theorem failuresOf_congr (h : q'.map Entry.frame = q.map Entry.frame) :
    failuresOf reason q' = failuresOf reason q := by
  have hlen := congrArg List.length h
  rw [List.length_map, List.length_map] at hlen
  apply List.ext_getElem
  · simpa using hlen
  · intro i hi hi'
    rw [length_failuresOf] at hi hi'
    have hframe := List.getElem_of_eq h (i := i) (by simpa using hi)
    rw [List.getElem_map, List.getElem_map] at hframe
    simp only [failuresOf, List.getElem_mapIdx]
    exact Entry.failure_congr hframe (reason i)

theorem failuresOf_linkReset (q : List Entry) :
    failuresOf (fun _ => .linkReset) q = q.map (Entry.failure · .linkReset) := by
  apply List.ext_getElem
  · simp
  · intro i hi hi'
    simp [failuresOf]

end failuresOf

/-! ## What a restart loses and keeps -/

namespace Transport

theorem inFlight_le (t : Transport) : t.inFlight ≤ t.queue.length :=
  (List.takeWhile_prefix _).length_le

/-! ## How many are on their way -/

theorem inFlight_append {t u : Transport} {e : Entry} (h : u.queue = t.queue ++ [e]) :
    t.inFlight ≤ u.inFlight := by
  unfold inFlight
  rw [h, List.takeWhile_append]
  have hlen := (List.takeWhile_prefix Entry.isSent (l := t.queue)).length_le
  split
  · rw [List.length_append]
    omega
  · exact Nat.le_refl _

/-- The first `inFlight` entries of the queue, and so any fewer of them, were sent. -/
theorem isSent_of_mem_take {t : Transport} {n : Nat} (hn : n ≤ t.inFlight) :
    ∀ e ∈ t.queue.take n, e.isSent := by
  unfold inFlight at hn
  intro e he
  have htake : t.queue.take n <+: t.queue.takeWhile Entry.isSent :=
    List.prefix_of_prefix_length_le (List.take_prefix ..) (List.takeWhile_prefix _)
      (by rw [List.length_take]; omega)
  exact List.all_eq_true.mp List.all_takeWhile e (htake.subset he)

/-- What an acknowledgement takes off the front is no more `inFlight`, and the rest still is. -/
theorem inFlight_drop {t u : Transport} {n : Nat} (h : u.queue = t.queue.drop n)
    (hn : n ≤ t.inFlight) : n + u.inFlight = t.inFlight := by
  have hsplit := List.take_append_drop n t.queue
  -- What is dropped is part of the leading sent frames, so the count splits there.
  have hfront := isSent_of_mem_take hn
  unfold inFlight at hn ⊢
  have hlen := (List.takeWhile_prefix Entry.isSent (l := t.queue)).length_le
  have hall : (t.queue.take n ++ t.queue.drop n).takeWhile Entry.isSent = _ :=
    List.takeWhile_append_of_pos hfront
  rw [hsplit] at hall
  rw [h, hall, List.length_append, List.length_take]
  omega

/-- `markSent` on a frame behind sent ones puts it `inFlight`, and takes none off. -/
theorem inFlight_markSent {t u : Transport} {front back : List Entry} {e : Entry} {now : UInt32}
    (ht : t.queue = front ++ e :: back) (hfront : ∀ x ∈ front, x.isSent)
    (hu : u.queue = front ++ e.markSent now :: back) :
    t.inFlight ≤ u.inFlight ∧ front.length < u.inFlight := by
  have hmark : (e.markSent now).isSent := rfl
  unfold inFlight
  rw [ht, hu, List.takeWhile_append_of_pos hfront, List.takeWhile_append_of_pos hfront]
  by_cases he : e.isSent
  · simp [he, hmark]
  · simp [he, hmark]

/-- `restart` leaves the settings, the counters and what is owed to the peer. -/
theorem restart_frame (t : Transport) (q : List Entry) :
    (t.restart q).window = t.window ∧ (t.restart q).queue = q ∧
      (t.restart q).nextSeq = q.length.toUInt8 ∧ (t.restart q).expected = 0 ∧
      (t.restart q).resetPending = t.resetPending ∧ (t.restart q).stats = t.stats := by
  unfold restart
  simp only
  split <;> exact ⟨rfl, rfl, rfl, rfl, rfl, rfl⟩

/-- The frame at this place ran out of retries, and the others are lost with it. -/
def reasonAt (exhausted : Option Nat) (i : Nat) : FailureReason :=
  if exhausted = some i then .retriesExhausted else .linkReset

/-- When the first frame ran out of retries, the others are lost with it: `reasonAt` says so of
every other place. -/
theorem failuresOf_oldest (e : Entry) (q : List Entry) :
    failuresOf (reasonAt (some 0)) (e :: q) =
      e.failure .retriesExhausted :: q.map (Entry.failure · .linkReset) := by
  have hothers : (fun i => reasonAt (some 0) (i + 1)) = fun _ => .linkReset := by
    funext i
    simp [reasonAt]
  rw [failuresOf_cons, hothers, failuresOf_linkReset]
  rfl

/-- Where sent frames come first, those that are `lost` stand where they stood in the queue. -/
theorem lost_eq {q : List Entry} (h : SentFirst q) (exhausted : Option Nat) :
    lost q exhausted = failuresOf (reasonAt exhausted) (q.filter Entry.isSent) := by
  obtain ⟨sent, unsent, rfl, hs, hu⟩ := h
  rw [List.filter_append, List.filter_eq_self.mpr hs, List.filter_eq_nil_iff.mpr hu,
    List.append_nil]
  unfold lost failuresOf
  rw [List.mapIdx_eq_zipIdx_map]
  -- The frames behind the sent ones are passed over, wherever the count starts.
  suffices hfrom : ∀ n, ((sent ++ unsent).zipIdx n).filterMap (fun x =>
      if x.1.isSent then some (x.1.failure (reasonAt exhausted x.2)) else none) =
      (sent.zipIdx n).map fun x => x.1.failure (reasonAt exhausted x.2) from hfrom 0
  induction sent with
  | nil =>
    intro n
    apply List.filterMap_eq_nil_iff.mpr
    intro x hx
    rw [if_neg (hu x.1 (List.fst_mem_of_mem_zipIdx hx))]
  | cons e rest ih =>
    intro n
    rw [List.cons_append, List.zipIdx_cons, List.zipIdx_cons, List.filterMap_cons, List.map_cons,
      if_pos (hs e (List.mem_cons_self ..)),
      ih fun x hx => hs x (List.mem_cons_of_mem e hx)]

theorem lost_none {q : List Entry} (h : SentFirst q) :
    lost q none = (q.filter Entry.isSent).map (Entry.failure · .linkReset) := by
  rw [lost_eq h]
  exact failuresOf_linkReset _

theorem lost_seqs_eq_take {q : List Entry} (h : SentFirst q) (exhausted : Option Nat) :
    (lost q exhausted).map DeliveryFailure.seq =
      (q.take (q.takeWhile Entry.isSent).length).map Entry.seq := by
  have hseqs := congrArg (List.map Frame.seq)
    (map_frame_failuresOf (reasonAt exhausted) (q.filter Entry.isSent))
  rw [List.map_map, List.map_map] at hseqs
  rw [lost_eq h, h.takeWhile_eq_filter, h.take_sent]
  exact hseqs

theorem kept_eq_drop {q : List Entry} (h : SentFirst q) :
    kept q = renumbered (q.drop (q.takeWhile Entry.isSent).length) := by
  rw [h.takeWhile_eq_filter, h.drop_sent]
  rfl

/-! ## A pass over the queue -/

variable {σ ε : Type} [ByteSink σ ε]

/-- The `Sweep` over `e` and the frames behind it, after what it did to `e`. -/
def Sweep.cons (e : Entry) (events : List (Event ε)) (others : Sweep σ ε) : Sweep σ ε :=
  { others with
    queue := e :: others.queue
    events := events ++ others.events
    exhausted := others.exhausted.map (· + 1) }

/-- What a pass does to the first frame is its `Entry.action`: it waits, stops there, is sent, or is
refused by the sink, where the pass ends too. -/
theorem sweep_cases (policy : RetryPolicy) (now : UInt32) (stats : TransportStats) (sink : σ)
    (e : Entry) (rest : List Entry) :
    (e.action policy now = .wait ∧ sweep policy now stats sink (e :: rest) =
      (sweep policy now stats sink rest).cons e []) ∨
    (e.action policy now = .giveUp ∧ sweep policy now stats sink (e :: rest) =
      ⟨e :: rest, stats, sink, [], some 0⟩) ∨
    ((e.action policy now = .send ∨ e.action policy now = .resend) ∧
      ∃ n sink', sweep policy now stats sink (e :: rest) =
      (sweep policy now (countSent stats e.isSent) sink' rest).cons (e.markSent now)
        [.attempted e.frame (.ok n)]) ∨
    (∃ failure sink', sweep policy now stats sink (e :: rest) =
      ⟨e :: rest, stats.countUnsent failure, sink', [.attempted e.frame (.error failure)],
        none⟩) := by
  cases ha : e.action policy now with
  | wait => exact .inl ⟨rfl, by simp [sweep, ha, Sweep.cons]⟩
  | giveUp => exact .inr (.inl ⟨rfl, by simp [sweep, ha]⟩)
  | send | resend =>
    -- Both ways of sending are handled alike.
    rcases ht : transmit sink e.frame with ⟨failure | n, sink'⟩
    · exact .inr (.inr (.inr ⟨failure, sink', by simp [sweep, ha, ht]⟩))
    · exact .inr (.inr (.inl ⟨by simp, n, sink', by simp [sweep, ha, ht, Sweep.cons]⟩))

/-- `sweep_cases` with what the action implies: a frame that waits or is given up was sent. -/
theorem sweep_cons (policy : RetryPolicy) (now : UInt32) (stats : TransportStats) (sink : σ)
    (e : Entry) (rest : List Entry) :
    (e.isSent ∧ sweep policy now stats sink (e :: rest) =
      (sweep policy now stats sink rest).cons e []) ∨
    (e.isSent ∧ sweep policy now stats sink (e :: rest) =
      ⟨e :: rest, stats, sink, [], some 0⟩) ∨
    (∃ n sink', sweep policy now stats sink (e :: rest) =
      (sweep policy now (countSent stats e.isSent) sink' rest).cons (e.markSent now)
        [.attempted e.frame (.ok n)]) ∨
    (∃ failure sink', sweep policy now stats sink (e :: rest) =
      ⟨e :: rest, stats.countUnsent failure, sink', [.attempted e.frame (.error failure)],
        none⟩) := by
  obtain ⟨ha, h⟩ | ⟨ha, h⟩ | ⟨-, h⟩ | h := sweep_cases policy now stats sink e rest
  · have hne : e.action policy now ≠ .send := by simp [ha]
    exact .inl ⟨Entry.isSent_of_action hne, h⟩
  · have hne : e.action policy now ≠ .send := by simp [ha]
    exact .inr (.inl ⟨Entry.isSent_of_action hne, h⟩)
  · exact .inr (.inr (.inl h))
  · exact .inr (.inr (.inr h))

/-- **The loop rule of a pass.** A statement about the frames passed, the frames still ahead and the
events so far, kept by each of the ways to go on, holds where the pass stops. It stops at a frame
that is given up if it names one. -/
theorem sweep_rule (policy : RetryPolicy) (now : UInt32)
    (P : List Entry → List Entry → List (Event ε) → Prop)
    (wait : ∀ {done e rest events}, e.action policy now = .wait → P done (e :: rest) events →
      P (done ++ [e]) rest events)
    (sent : ∀ {done e rest events} (n : Nat),
      e.action policy now = .send ∨ e.action policy now = .resend → P done (e :: rest) events →
        P (done ++ [e.markSent now]) rest (events ++ [.attempted e.frame (.ok n)]))
    (refused : ∀ {done e rest events} (failure : SendError ε), P done (e :: rest) events →
      P done (e :: rest) (events ++ [.attempted e.frame (.error failure)]))
    (stats : TransportStats) (sink : σ) {q : List Entry} (start : P [] q []) :
    ∃ done rest, (sweep policy now stats sink q).queue = done ++ rest ∧
      P done rest (sweep policy now stats sink q).events ∧
      ∀ k, (sweep policy now stats sink q).exhausted = some k →
        k = done.length ∧ ∃ e others, rest = e :: others ∧ e.action policy now = .giveUp := by
  -- The induction is on what is ahead, behind anything that was passed already.
  suffices hfrom : ∀ done events, P done q events → ∃ done' rest,
      done ++ (sweep policy now stats sink q).queue = done' ++ rest ∧
        P done' rest (events ++ (sweep policy now stats sink q).events) ∧
        ∀ k, (sweep policy now stats sink q).exhausted = some k →
          done.length + k = done'.length ∧
            ∃ e others, rest = e :: others ∧ e.action policy now = .giveUp by
    obtain ⟨done, rest, hqueue, hP, hstop⟩ := hfrom [] [] start
    refine ⟨done, rest, hqueue, hP, fun k hk => ?_⟩
    obtain ⟨hlen, hfound⟩ := hstop k hk
    rw [List.length_nil, Nat.zero_add] at hlen
    exact ⟨hlen, hfound⟩
  clear start
  induction q generalizing stats sink with
  | nil =>
    intro done events hP
    exact ⟨done, [], rfl, by simpa [sweep] using hP, by simp [sweep]⟩
  | cons e rest ih =>
    intro done events hP
    obtain ⟨hact, h⟩ | ⟨hact, h⟩ | ⟨hact, n, sink', h⟩ | ⟨failure, sink', h⟩ :=
      sweep_cases policy now stats sink e rest
    -- The frame waits.
    · obtain ⟨done', rest', hqueue, hP', hstop⟩ := ih stats sink _ _ (wait hact hP)
      rw [h]
      refine ⟨done', rest', by simpa [Sweep.cons] using hqueue, hP', fun k hk => ?_⟩
      obtain ⟨j, hj, rfl⟩ := Option.map_eq_some_iff.mp hk
      obtain ⟨hlen, hfound⟩ := hstop j hj
      rw [List.length_append, List.length_singleton] at hlen
      exact ⟨by omega, hfound⟩
    -- It is given up, and the pass ends here.
    · rw [h]
      refine ⟨done, e :: rest, rfl, by simpa using hP, fun k hk => ?_⟩
      obtain rfl := Option.some.inj hk
      exact ⟨rfl, e, rest, rfl, hact⟩
    -- It is sent, for the first time or again.
    · obtain ⟨done', rest', hqueue, hP', hstop⟩ := ih _ sink' _ _ (sent n hact hP)
      rw [h]
      refine ⟨done', rest', by simpa [Sweep.cons] using hqueue,
        by simpa [Sweep.cons] using hP', fun k hk => ?_⟩
      obtain ⟨j, hj, rfl⟩ := Option.map_eq_some_iff.mp hk
      obtain ⟨hlen, hfound⟩ := hstop j hj
      rw [List.length_append, List.length_singleton] at hlen
      exact ⟨by omega, hfound⟩
    -- The sink refuses it, which ends the pass, too.
    · rw [h]
      exact ⟨done, e :: rest, rfl, refused failure hP, by simp⟩

/-- `sweep` records when a frame was sent, and leaves the frames as they are. -/
theorem map_frame_sweep (policy : RetryPolicy) (now : UInt32) (stats : TransportStats) (sink : σ)
    (q : List Entry) :
    (sweep policy now stats sink q).queue.map Entry.frame = q.map Entry.frame := by
  obtain ⟨done, rest, hqueue, hframes, -⟩ := sweep_rule (q := q) policy now
    (fun done rest _ => (done ++ rest).map Entry.frame = q.map Entry.frame)
    (fun _ h => by rwa [List.append_cons] at h)
    (fun n _ h => by simpa [Entry.frame, Entry.markSent] using h) (fun _ h => h) stats sink rfl
  rw [hqueue]
  exact hframes

theorem length_sweep (policy : RetryPolicy) (now : UInt32) (stats : TransportStats) (sink : σ)
    (q : List Entry) : (sweep policy now stats sink q).queue.length = q.length := by
  have hlen := congrArg List.length (map_frame_sweep policy now stats sink q)
  rwa [List.length_map, List.length_map] at hlen

theorem map_seq_sweep (policy : RetryPolicy) (now : UInt32) (stats : TransportStats) (sink : σ)
    (q : List Entry) :
    (sweep policy now stats sink q).queue.map Entry.seq = q.map Entry.seq := by
  have hframes := congrArg (List.map Frame.seq) (map_frame_sweep policy now stats sink q)
  rw [List.map_map, List.map_map] at hframes
  exact hframes

/-- When a frame is out of retries, it and all before it were sent. -/
theorem isSent_of_exhausted {policy : RetryPolicy} {now : UInt32} {stats : TransportStats}
    {sink : σ} {q : List Entry} {n : Nat}
    (hn : (sweep policy now stats sink q).exhausted = some n) :
    ∃ e rest, (sweep policy now stats sink q).queue = e :: rest ∧ e.isSent := by
  cases q with
  | nil => simp [sweep] at hn
  | cons e rest =>
    obtain ⟨hsent, h⟩ | ⟨hsent, h⟩ | ⟨n, sink', h⟩ | ⟨failure, sink', h⟩ :=
      sweep_cons policy now stats sink e rest
    · exact ⟨e, _, by rw [h]; rfl, hsent⟩
    · exact ⟨e, rest, by rw [h], hsent⟩
    · exact ⟨e.markSent now, _, by rw [h]; rfl, rfl⟩
    · simp [h] at hn

/-- Where a frame is out of retries, some frame is `lost`. -/
theorem lost_ne_nil {policy : RetryPolicy} {now : UInt32} {stats : TransportStats} {sink : σ}
    {q : List Entry} {k : Nat} (h : (sweep policy now stats sink q).exhausted = some k) :
    lost (sweep policy now stats sink q).queue (some k) ≠ [] := by
  obtain ⟨e, rest, hqueue, he⟩ := isSent_of_exhausted h
  rw [hqueue]
  simp [lost, he]

theorem queue_flushReset (t : Transport) (sink : σ) :
    (t.flushReset sink).transport.queue = t.queue := by
  unfold flushReset sendReset settleReset
  split
  · simp only
    cases (transmit sink Frame.reset).1 <;> rfl
  · rfl

end Transport

end SerialLink
