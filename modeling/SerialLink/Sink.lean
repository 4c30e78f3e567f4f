/-!
# Serial lines

What a link asks of the two halves of a serial line, and the transmit queue of fixed capacity.

Both halves belong to somebody else. A `ByteSink` promises nothing: it may say that it has room and
then accept half of what it is given, or fail. What a theorem needs of one is therefore among its
hypotheses, where it is said of what happened (`Unrefused`, `Taken`) or of the sink itself
(`RoomFor`, in `Proofs.Transport.Space`). A `TxQueue` is a sink that keeps its word: it takes every
frame that fits whole, see `transmit_txQueue` in `Proofs.Transmit`.
-/

namespace SerialLink

/-- The transmit half of a line, as a state `σ` whose writes may fail with an `ε`. Nothing is
promised about the number of bytes that a write accepts. -/
class ByteSink (σ : Type) (ε : outParam Type) where
  /-- How many bytes can be written now, by its own account. -/
  room : σ → Nat
  /-- Writes bytes, and tells how many were accepted. -/
  write : σ → List UInt8 → Except ε Nat × σ
  beginFrame : σ → σ := id
  endFrame : σ → σ := id

/-- What a read left. -/
structure Reading where
  /-- The bytes at the front of the read buffer. -/
  bytes : List UInt8
  /-- The reported number of bytes read. -/
  count : Nat

/-- The receive half of a line, as a state `ρ` whose reads may fail with an `ε`. -/
class ByteSource (ρ : Type) (ε : outParam Type) where
  /-- Reads into an empty buffer of the given size. A `Reading` need not keep to that size. -/
  read : ρ → Nat → Except ε Reading × ρ

/-! ## A transmit queue -/

/-- A queue of at most `capacity` bytes. -/
@[ext]
structure TxQueue (capacity : Nat) where
  /-- The queued bytes, oldest first. -/
  bytes : List UInt8
  length_le : bytes.length ≤ capacity
  deriving DecidableEq

namespace TxQueue

variable {capacity : Nat}

def empty : TxQueue capacity := ⟨[], Nat.zero_le _⟩

def room (q : TxQueue capacity) : Nat := capacity - q.bytes.length

/-- Queues as many of the bytes as there is `room` for. -/
def push (q : TxQueue capacity) (bytes : List UInt8) : TxQueue capacity :=
  ⟨q.bytes ++ bytes.take q.room, by
    have := q.length_le
    simp only [List.length_append, List.length_take, room]
    omega⟩

instance : ByteSink (TxQueue capacity) Empty where
  room := room
  write q bytes := (.ok (min bytes.length q.room), q.push bytes)

end TxQueue

end SerialLink
