import SerialLink.Proofs.Link.OneWay
import SerialLink.Proofs.Transport.Invariant

/-!
# The course of a clean round

In a clean round nothing is lost and no sink refuses a frame. Messages that go one way pass through
two stages. First they wait in the queue of the writer. Then the writer sends its whole queue at
once: the data frames arrive one after the other and are answered, and the answers take them off the
queue. The reader may have read some of them already; those it only answers. When no frame is on its
way any more, everything was read and the queue is empty.

`Waiting` and `Sent` are the two stages, and `Course` is either. All of this is about a `Writer` and
a `Reader` and knows of no station: the operations are those of the two parts, `Writer.join`,
`Writer.sendAll`, `Reader.take` and `Reader.answer`, and the module on rounds shows that a clean
round is made of them. In `Sent` four numbers tell how far things are, each of them a count of the
frames sent: `gone ≤ answers ≤ read` and `arrived ≤ read`. Since a queue is no longer than 16, such
counts are recovered from 8-bit numbers by `eq_of_offset_eq`.

The goal is `Course.finish`; recovery starts it with `Sent.of_sendAll`, and a restart with
`Waiting`.
-/

namespace SerialLink

variable {first : UInt8} {before kept : List Message} {served : Bool} {w : Writer} {r : Reader}

/-! ## Messages that wait -/

/-- The queue was not sent yet. The reader has read the messages `before` it and expects `first`.
Messages `kept` from an earlier numbering stand ahead of those `accepted` since. -/
structure Waiting (first : UInt8) (before kept : List Message) (w : Writer) (r : Reader) :
    Prop where
  numbered : Consecutive first w.queue w.nextSeq
  held : before ++ w.queue.map Entry.message = kept ++ w.accepted
  unsent : ∀ e ∈ w.queue, ¬ e.isSent
  data : w.data = []
  expected : r.expected = first
  messages : r.messages = before
  acks : ∀ a ∈ r.acks, a = first

namespace Waiting

/-- A message that joins the queue waits like the others. -/
theorem join (h : Waiting first before kept w r) {e : Entry} (hseq : e.seq = w.nextSeq)
    (hunsent : ¬ e.isSent) : Waiting first before kept (w.join e) r where
  numbered := h.numbered.append hseq
  held := by
    simp only [Writer.join, List.map_append, List.map_cons, List.map_nil, ← List.append_assoc,
      h.held]
  unsent x hx := by
    rcases List.mem_append.mp hx with hx | hx
    · exact h.unsent x hx
    · exact List.mem_singleton.mp hx ▸ hunsent
  data := h.data
  expected := h.expected
  messages := h.messages
  acks := h.acks

/-- While nothing is sent, the reader only acknowledges `first`, as often as it likes. -/
theorem answer (h : Waiting first before kept w r) : Waiting first before kept w r.answer :=
  { h with
    acks := by
      intro a ha
      rcases List.mem_append.mp ha with ha | ha
      · exact h.acks a ha
      · exact (List.mem_singleton.mp ha).trans h.expected }

end Waiting

/-! ## Messages that were sent -/

/-- The frames `q` were sent from `first` on. Of these `arrived` have arrived this time, and the
reader has read `read`; the answers have taken `gone` off the queue, and those on their way tell of
the numbers in `answers`. -/
structure Sent (first : UInt8) (before kept : List Message) (q : List Entry)
    (read arrived gone : Nat) (answers : List Nat) (w : Writer) (r : Reader) : Prop where
  numbered : Consecutive first q w.nextSeq
  length_le : q.length ≤ 16
  held : before ++ q.map Entry.message = kept ++ w.accepted
  sent : ∀ e ∈ w.queue, e.isSent
  queue : w.queue.map Entry.frame = (q.drop gone).map Entry.frame
  data : w.data = (q.drop arrived).map Entry.frame
  expected : r.expected = first + read.toUInt8
  messages : r.messages = before ++ (q.take read).map Entry.message
  acks : r.acks = answers.map fun a => first + a.toUInt8
  arrived_le : arrived ≤ read
  read_le : read ≤ q.length
  ordered : (gone :: answers).Pairwise (· ≤ ·)
  answers_le : ∀ a ∈ gone :: answers, a ≤ read

namespace Sent

variable {q : List Entry} {read arrived gone : Nat} {answers : List Nat}

/-- A queue is sent by `Writer.sendAll`, of which the first `read` frames were read before. -/
theorem of_sendAll (hnumbered : Consecutive first w.queue w.nextSeq) (hlen : w.queue.length ≤ 16)
    (hheld : before ++ w.queue.map Entry.message = kept ++ w.accepted) (hdata : w.data = [])
    (hread : read ≤ w.queue.length) (hexpected : r.expected = first + read.toUInt8)
    (hmessages : r.messages = before ++ (w.queue.take read).map Entry.message)
    (hacks : ∀ a ∈ r.acks, a = first) (now : UInt32) :
    Sent first before kept w.queue read 0 0 (List.replicate r.acks.length 0) (w.sendAll now) r where
  numbered := hnumbered
  length_le := hlen
  held := hheld
  sent e he := by
    obtain ⟨x, -, rfl⟩ := List.mem_map.mp he
    rfl
  queue := by
    simp only [Writer.sendAll, List.map_map, List.drop_zero]
    rfl
  data := by simp [Writer.sendAll, hdata]
  expected := hexpected
  messages := hmessages
  acks := by
    rw [List.map_replicate, List.eq_replicate_iff]
    exact ⟨rfl, fun a ha => (hacks a ha).trans (by simp)⟩
  arrived_le := Nat.zero_le _
  read_le := hread
  ordered := by simp [List.pairwise_replicate]
  answers_le := by simp

/-- `Reader.answer` tells of all that was `read`, so the answers stay in order. -/
theorem answer (h : Sent first before kept q read arrived gone answers w r) :
    Sent first before kept q read arrived gone (answers ++ [read]) w r.answer :=
  { h with
    acks := by simp only [Reader.answer, h.acks, h.expected, List.map_append, List.map_cons,
      List.map_nil]
    ordered := by
      rw [← List.cons_append, List.pairwise_append]
      refine ⟨h.ordered, List.pairwise_singleton .., ?_⟩
      intro a ha b hb
      exact List.mem_singleton.mp hb ▸ h.answers_le a ha
    answers_le := by
      intro a ha
      rw [← List.cons_append, List.mem_append] at ha
      rcases ha with ha | ha
      · exact h.answers_le a ha
      · exact Nat.le_of_eq (List.mem_singleton.mp ha) }

/-- The data frame that arrives next is the one behind those that have `arrived`, and its number is
that many behind `first`. -/
theorem arriving {f : Frame}
    (h : Sent first before kept q read arrived gone answers { w with data := f :: w.data } r) :
    ∃ e : Entry, e.frame = f ∧ q.take (arrived + 1) = q.take arrived ++ [e] ∧ arrived < q.length ∧
      f.seq = first + arrived.toUInt8 ∧ w.data = (q.drop (arrived + 1)).map Entry.frame := by
  obtain ⟨e, rest, hdrop, rfl, hrest⟩ := List.map_eq_cons_iff.mp h.data.symm
  have hlt : arrived < q.length := by
    have hlen := congrArg List.length hdrop
    rw [List.length_drop, List.length_cons] at hlen
    omega
  have hseq : e.frame.seq = first + arrived.toUInt8 := by
    have hnumbered := h.numbered
    rw [← List.take_append_drop arrived q, hdrop] at hnumbered
    have hseq := hnumbered.seq_eq
    rwa [List.length_take, Nat.min_eq_left (Nat.le_of_lt hlt)] at hseq
  refine ⟨e, rfl, ?_, hlt, hseq, ?_⟩
  · rw [List.take_add_one, ← List.head?_drop, hdrop]
    rfl
  · rw [← List.drop_drop, hdrop, List.drop_one, List.tail_cons, hrest]

/-- The next data frame arrives, and `Reader.take` reads it or has read it already. -/
theorem take {f : Frame}
    (h : Sent first before kept q read arrived gone answers { w with data := f :: w.data } r) :
    ∃ read', Sent first before kept q read' (arrived + 1) gone (answers ++ [read']) w
      (r.take f) := by
  -- The frame is in the sequence exactly if as many were read as have arrived.
  obtain ⟨e, rfl, htake, hlt, hseq, hdata⟩ := h.arriving
  have hlen := h.length_le
  have harrived := h.arrived_le
  have hread := h.read_le
  unfold Reader.take
  by_cases heq : e.frame.seq = r.expected
  · -- The reader has read as many frames as have arrived, so this one is the next.
    have hnext : arrived = read := by
      rw [hseq, h.expected] at heq
      exact eq_of_offset_eq heq (by omega) (by omega)
    subst hnext
    rw [if_pos heq]
    refine ⟨arrived + 1, answer ?_⟩
    exact { h with
      data := hdata
      expected := by
        simp only [h.expected, Nat.toUInt8_eq, UInt8.ofNat_add, UInt8.add_assoc]
        rfl
      messages := by
        simp only [h.messages, htake, List.map_append, List.append_assoc]
        rfl
      arrived_le := Nat.le_refl _
      read_le := hlt
      answers_le := fun a ha => Nat.le_succ_of_le (h.answers_le a ha) }
  · -- The frame was read before.
    have hne : arrived ≠ read := by
      rintro rfl
      exact heq (hseq.trans h.expected.symm)
    rw [if_neg heq]
    refine ⟨read, answer ?_⟩
    exact { h with data := hdata, arrived_le := by omega }

/-- The next answer arrives, and takes the frames off the queue that it tells of: `n` more than are
`gone`, by the field `ordered`. -/
theorem release {a : UInt8}
    (h : Sent first before kept q read arrived gone answers w { r with acks := a :: r.acks }) :
    ∃ n rest, answers = (gone + n) :: rest ∧
      Consecutive (first + gone.toUInt8) w.queue w.nextSeq ∧
      a = first + gone.toUInt8 + n.toUInt8 ∧ n ≤ w.queue.length ∧ n < 256 ∧
      Sent first before kept q read arrived (gone + n) rest
        { w with queue := w.queue.drop n } r := by
  obtain ⟨k, rest, rfl, ha, hrest⟩ := List.map_eq_cons_iff.mp h.acks.symm
  obtain ⟨n, rfl⟩ : ∃ n, k = gone + n := by
    have hle := List.rel_of_pairwise_cons h.ordered (List.mem_cons_self ..)
    exact ⟨k - gone, by omega⟩
  have hk := h.answers_le (gone + n) (by simp)
  have hread := h.read_le
  have hlen := h.length_le
  have hqueue : w.queue.length = q.length - gone := by
    have hlen := congrArg List.length h.queue
    simpa using hlen
  -- What is left of the queue carries the numbers behind those that are gone.
  have hnumbered : Consecutive (first + gone.toUInt8) w.queue w.nextSeq := by
    have hgone : gone ≤ q.length := by omega
    apply (h.numbered.drop_of_le hgone).congr
    have hseq := congrArg (List.map Frame.seq) h.queue
    rw [List.map_map, List.map_map] at hseq
    exact hseq
  refine ⟨n, rest, rfl, hnumbered, ?_, by omega, by omega, ?_⟩
  · rw [← ha]
    simp only [Nat.toUInt8_eq, UInt8.ofNat_add, UInt8.add_assoc]
  · exact { h with
      sent := fun e he => h.sent e (List.mem_of_mem_drop he)
      queue := by
        simp only [List.map_drop, h.queue]
        rw [List.drop_drop]
      acks := hrest.symm
      ordered := h.ordered.tail
      answers_le := fun a ha => h.answers_le a (List.mem_cons_of_mem _ ha) }

/-- No frame is on its way any more. All has `arrived`, so all was `read`; `hanswered` says that the
last answer told of it, so all is `gone`. -/
theorem finish (h : Sent first before kept q read arrived gone answers w r)
    (hanswered : 0 < arrived → read ∈ gone :: answers) (hdata : w.data = []) (hacks : r.acks = []) :
    w.queue = [] ∧ r.expected = w.nextSeq ∧ r.messages = kept ++ w.accepted := by
  have harrived : q.length ≤ arrived := by
    have hnil := h.data
    rw [hdata] at hnil
    exact List.drop_eq_nil_iff.mp (List.map_eq_nil_iff.mp hnil.symm)
  have hanswers : answers = [] := by
    have hnil := h.acks
    rw [hacks] at hnil
    exact List.map_eq_nil_iff.mp hnil.symm
  have hle := h.arrived_le
  have hread : read = q.length := Nat.le_antisymm h.read_le (Nat.le_trans harrived hle)
  -- The last answer told of all that was read.
  have hgone : q.length ≤ gone := by
    by_cases hpos : 0 < arrived
    · have hmem := hanswered hpos
      rw [hanswers, List.mem_singleton] at hmem
      omega
    · omega
  refine ⟨?_, ?_, ?_⟩
  · have hqueue := h.queue
    rw [List.drop_eq_nil_of_le hgone] at hqueue
    exact List.map_eq_nil_iff.mp hqueue
  · rw [h.expected, hread, h.numbered.next_eq]
  · rw [h.messages, hread, List.take_length, h.held]

end Sent

/-! ## Both stages -/

/-- How far the messages that go one way have come, before the writer has `served` its queue and
after that. In the second stage the counts of `Sent` are hidden; what is kept of them is that all
that was read is `gone` or about to be. -/
inductive Course (first : UInt8) (before kept : List Message) : Bool → Writer → Reader → Prop where
  | waiting {w : Writer} {r : Reader} (h : Waiting first before kept w r) :
      Course first before kept false w r
  | sent {w : Writer} {r : Reader} {q : List Entry} {read arrived gone : Nat} {answers : List Nat}
      (h : Sent first before kept q read arrived gone answers w r)
      (hanswered : 0 < arrived → read ∈ gone :: answers) : Course first before kept true w r

namespace Course

/-- An answer is repeated, at either stage. -/
theorem answer (h : Course first before kept served w r) :
    Course first before kept served w r.answer := by
  cases h with
  | waiting h => exact .waiting h.answer
  | sent h => exact .sent h.answer fun _ => by simp

theorem toWaiting (h : Course first before kept false w r) : Waiting first before kept w r := by
  cases h with
  | waiting h => exact h

/-- The one step from `Waiting` to `Sent`. Nothing of the queue was read before. -/
theorem sendAll (h : Course first before kept false w r) (hlen : w.queue.length ≤ 16)
    (now : UInt32) : Course first before kept true (w.sendAll now) r := by
  obtain ⟨hnumbered, hheld, -, hdata, hexpected, hmessages, hacks⟩ := h.toWaiting
  have hread : r.expected = first + Nat.toUInt8 0 := hexpected.trans (by simp)
  exact .sent (Sent.of_sendAll hnumbered hlen hheld hdata (Nat.zero_le _) hread
    (by simp [hmessages]) hacks now) (by simp)

/-- A data frame arrives only in the second stage, and its answer tells of all that was read. -/
theorem take {f : Frame} (h : Course first before kept served { w with data := f :: w.data } r) :
    Course first before kept served w (r.take f) := by
  cases h with
  | waiting h => exact absurd h.data (by simp)
  | sent h =>
    obtain ⟨read', h'⟩ := h.take
    exact .sent h' fun _ => by simp

/-- The next answer covers only frames that were sent, so `Transport.onAck` does not count it as
spurious. -/
theorem release {a : UInt8}
    (h : Course first before kept served w { r with acks := a :: r.acks }) :
    ∃ oldest n, Consecutive oldest w.queue w.nextSeq ∧ a = oldest + n.toUInt8 ∧
      n ≤ (w.queue.takeWhile Entry.isSent).length ∧ n < 256 ∧
      Course first before kept served { w with queue := w.queue.drop n } r := by
  cases h with
  | waiting h =>
    -- Answers on their way from before the queue is sent take nothing off it.
    refine ⟨first, 0, h.numbered, ?_, Nat.zero_le _, by omega, .waiting ?_⟩
    · rw [h.acks a (List.mem_cons_self ..)]
      simp
    · exact { h with acks := fun b hb => h.acks b (List.mem_cons_of_mem a hb) }
  | @sent _ _ q read arrived gone _ h hanswered =>
    obtain ⟨n, rest, rfl, hnumbered, ha, hle, hlt, h'⟩ := h.release
    have hsent : w.queue.takeWhile Entry.isSent = w.queue := by
      simpa using takeWhile_isSent h.sent (List.forall_mem_nil fun e => ¬ Entry.isSent e)
    refine ⟨_, n, hnumbered, ha, hsent.symm ▸ hle, hlt, .sent h' fun hpos => ?_⟩
    -- Answers only grow, so the last one is not older than the one that arrives.
    rcases List.mem_cons.mp (hanswered hpos) with hread | hread
    · have hge := h.answers_le (gone + n) (by simp)
      have heq : n = 0 := by omega
      simp [hread, heq]
    · exact hread

/-- At the end of a clean round the queue is empty, the reader expects the next number and has read
everything. -/
theorem finish (h : Course first before kept true w r) (hdata : w.data = []) (hacks : r.acks = []) :
    w.queue = [] ∧ r.expected = w.nextSeq ∧ r.messages = kept ++ w.accepted := by
  cases h with
  | sent h hanswered => exact h.finish hanswered hdata hacks

end Course

end SerialLink
