import SerialLink.Proofs.Link.Basic
import SerialLink.Proofs.Transport.Queue
import Mathlib.Data.List.Nodup
import Mathlib.Data.List.Range

/-!
# What the queue of a station holds

The queue holds the last messages accepted, under consecutive sequence numbers, those on their way
first. So the place of a queued frame tells which message it carries, and `Station.number` is the
sequence number that a message has in the present numbering.

`Station.Sound` says this of one station. It is what the other modules about the link need to know
of a queue: `Sound.place_eq` makes the mark of a written packet the place of its message,
`Sound.message_eq` tells which message that is, and `Sound.oldestSeq_eq` turns an acknowledgement
into a count of places. Since the window is at most 16, numbers that are 256 apart never meet in a
queue, which is all that `number_inj` asks for. That operations keep it is shown move by move in
the module about the moves.
-/

namespace SerialLink

namespace Station

/-- The sequence number of a message in the present numbering, counted back from `nextSeq`. It is
defined for every place, also for those that left the queue long ago. -/
def number (s : Station) (k : Nat) : UInt8 :=
  s.transport.nextSeq - s.accepted.length.toUInt8 + k.toUInt8

/-- How many messages are not queued any more or on their way: those `departed` and those in
flight. -/
def sent (s : Station) : Nat := s.departed + s.transport.inFlight

/-- Places less than 256 apart have different numbers. -/
theorem number_inj {s : Station} {j k : Nat} (h : s.number j = s.number k)
    (hjk : j < k + 256) (hkj : k < j + 256) : j = k :=
  eq_of_offset_eq h hjk hkj

/-- Numbers follow the places, so `number` is known from its value at one place. -/
theorem number_add (s : Station) (j k : Nat) : s.number (j + k) = s.number j + k.toUInt8 := by
  simp only [number, Nat.toUInt8_eq, UInt8.ofNat_add]
  grind

/-! ## The invariant -/

/-- The queue holds the last messages `accepted`, in order, numbered one after the other by
`Station.number`, and those on their way come first. -/
structure Sound (s : Station) : Prop where
  window_le : s.transport.window ≤ 16
  length_le : s.transport.queue.length ≤ s.transport.window
  held : s.transport.queue.map Entry.message = s.accepted.drop s.departed
  numbered : s.transport.queue.map Entry.seq =
    (List.range' s.departed s.transport.queue.length).map s.number
  sentFirst : SentFirst s.transport.queue

namespace Sound

variable {s : Station}

/-- Every message accepted has left the queue or is in it. -/
theorem departed_add_length (h : s.Sound) :
    s.departed + s.transport.queue.length = s.accepted.length := by
  have hlen := congrArg List.length h.held
  simp only [List.length_map, List.length_drop] at hlen
  simp only [departed] at hlen ⊢
  omega

theorem length_le_16 (h : s.Sound) : s.transport.queue.length ≤ 16 :=
  h.length_le.trans h.window_le

/-- The numbers in the queue are all different, so looking one up finds the frame that bears it. -/
theorem nodup_seqs (h : s.Sound) : (s.transport.queue.map Entry.seq).Nodup := by
  rw [h.numbered]
  apply List.Nodup.map_on _ List.nodup_range'
  intro j hj k hk hjk
  -- The queue is far shorter than 256, so no two of its places share a number.
  have hlen := h.length_le_16
  rw [List.mem_range'_1] at hj hk
  exact number_inj hjk (by omega) (by omega)

/-- A queued frame has the `number` that its place gives it. The field `numbered`, read at one
place. -/
theorem seq_eq (h : s.Sound) {front rest : List Entry} {e : Entry}
    (hq : s.transport.queue = front ++ e :: rest) :
    e.seq = s.number (s.departed + front.length) := by
  have hi : front.length < s.transport.queue.length := by simp [hq]
  have hnum := congrArg (·[front.length]?) h.numbered
  simpa [hq] using hnum

/-- The message of a queued frame is the one that its place names. The field `held`, read at one
place. -/
theorem message_eq (h : s.Sound) {front rest : List Entry} {e : Entry}
    (hq : s.transport.queue = front ++ e :: rest) :
    s.accepted[s.departed + front.length]? = some e.message := by
  have hheld := congrArg (·[front.length]?) h.held
  simpa [hq, List.getElem?_drop] using hheld.symm

/-- Looking a frame up by its number finds its place, so `Station.write` marks a packet with the
index of its own message. -/
theorem place_eq (h : s.Sound) {front rest : List Entry} {e : Entry}
    (hq : s.transport.queue = front ++ e :: rest) : s.place e.seq = s.departed + front.length := by
  have hi : front.length < (s.transport.queue.map Entry.seq).length := by simp [hq]
  have hidx := List.Nodup.idxOf_getElem h.nodup_seqs front.length hi
  have hget : (s.transport.queue.map Entry.seq)[front.length] = e.seq := by simp [hq]
  rw [place, ← hget, hidx]

/-- `Transport.oldestSeq` is the number of the first message that is still queued. -/
theorem oldestSeq_eq (h : s.Sound) : s.transport.oldestSeq = s.number s.departed := by
  unfold Transport.oldestSeq
  cases hq : s.transport.queue with
  | nil =>
    -- Without a queue the next message is the first one that is queued.
    have hlen := h.departed_add_length
    rw [hq] at hlen
    simp only [number, ← hlen, List.length_nil, Nat.add_zero]
    grind
  | cons e rest => exact h.seq_eq (show _ = [] ++ e :: rest from hq)

/-- No more than a full window separates what has `departed` from what was `sent`. -/
theorem sent_le_departed (h : s.Sound) : s.sent ≤ s.departed + 16 := by
  have hinFlight := s.transport.inFlight_le
  have hlen := h.length_le_16
  simp only [sent]
  omega

end Sound

/-- A `fresh` station has nothing queued and nothing accepted, so it is sound. -/
theorem sound_fresh (c : Config) : (fresh c).Sound where
  window_le := by
    simp only [fresh, Transport.ofConfig, Config.maxWindow]
    omega
  length_le := Nat.zero_le _
  held := rfl
  numbered := rfl
  sentFirst := SentFirst.of_unsent (by simp [fresh, Transport.ofConfig])

end Station

end SerialLink
