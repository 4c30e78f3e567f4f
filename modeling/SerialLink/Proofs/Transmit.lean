import SerialLink.Event
import SerialLink.Proofs.Frame.Wire

/-!
# Sending with and without room

Some of the frames that an operation tries to send are written whole, the others are refused. A
frame with a valid identifier is offered to the sink whole, in one write, or not at all; a transmit
queue takes what it is offered.

`written` and `Unrefused` read both off the events of an operation, so that the proofs behind it
never look at an `attempted` event by hand: `written` with its simp lemmas is what `Proofs.Link` and
`Proofs.Transport.Discipline` follow on the wire, and `Unrefused` is what `Proofs.Transport.Space`
gets from a sink with room. `transmit_eq` is the specification of `transmit`, and `transmit_txQueue`
its case for a `TxQueue`, on which `Proofs.Endpoint.Wire` builds.
-/

namespace SerialLink

variable {σ ε : Type}

/-! ## Frames written whole -/

/-- A frame is a data frame if its `FrameId` is `data`, whatever the payload. -/
def Frame.isData (f : Frame) : Bool :=
  match f.id with
  | .data _ => true
  | _ => false

theorem Frame.exists_of_isData {f : Frame} (h : f.isData) : ∃ id, f.id = .data id := by
  unfold isData at h
  split at h
  · next id hid => exact ⟨id, hid⟩
  · exact absurd h (by simp)

/-- The frame of an `attempted` event that was written whole. -/
def Event.written? : Event ε → Option Frame
  | .attempted f (.ok _) => some f
  | _ => none

/-- The frames written whole, in order. -/
def written (events : List (Event ε)) : List Frame := events.filterMap Event.written?

section written

variable (events : List (Event ε))

@[simp]
theorem written_nil : written ([] : List (Event ε)) = [] := rfl

@[simp]
theorem written_append (events' : List (Event ε)) :
    written (events ++ events') = written events ++ written events' :=
  List.filterMap_append

@[simp]
theorem written_attempted_ok (f : Frame) (n : Nat) :
    written (.attempted f (.ok n) :: events) = f :: written events := rfl

@[simp]
theorem written_attempted_error (f : Frame) (failure : SendError ε) :
    written (.attempted f (.error failure) :: events) = written events := rfl

@[simp]
theorem written_delivered (f : Frame) : written (.delivered f :: events) = written events := rfl

@[simp]
theorem written_abandoned_cons (failure : DeliveryFailure) :
    written (.abandoned failure :: events) = written events := rfl

@[simp]
theorem written_abandoned (failures : List DeliveryFailure) :
    written (failures.map (Event.abandoned (ε := ε))) = [] := by
  apply List.filterMap_eq_nil_iff.mpr
  intro e he
  obtain ⟨failure, -, rfl⟩ := List.mem_map.mp he
  rfl

end written

theorem exists_attempted {f : Frame} {events : List (Event ε)} (h : f ∈ written events) :
    ∃ n, .attempted f (.ok n) ∈ events := by
  obtain ⟨x, hx, hwritten⟩ := List.mem_filterMap.mp h
  match x, hwritten with
  | .attempted g (.ok n), hwritten =>
    obtain rfl := Option.some.inj hwritten
    exact ⟨n, hx⟩

/-! ## Frames refused -/

/-- The event is an `attempted` frame that `transmit` could not send. -/
def Event.isRefused : Event ε → Bool
  | .attempted _ (.error _) => true
  | _ => false

/-- Every frame that was to be sent was sent: no event is `isRefused`. -/
def Unrefused (events : List (Event ε)) : Prop := ∀ e ∈ events, ¬ e.isRefused

instance (events : List (Event ε)) : Decidable (Unrefused events) :=
  inferInstanceAs (Decidable (∀ e ∈ events, ¬ e.isRefused))

@[simp]
theorem unrefused_append {events events' : List (Event ε)} :
    Unrefused (events ++ events') ↔ Unrefused events ∧ Unrefused events' :=
  List.forall_mem_append

@[simp]
theorem unrefused_cons {e : Event ε} {events : List (Event ε)} :
    Unrefused (e :: events) ↔ ¬ e.isRefused ∧ Unrefused events :=
  List.forall_mem_cons

/-! ## One attempt -/

variable [ByteSink σ ε]

/-- **A frame is offered whole or not at all.** Without `room` for its wire form the sink is left
alone; otherwise the wire form is the one `ByteSink.write`, between `beginFrame` and `endFrame`. -/
theorem transmit_eq {f : Frame} (h : f.id.Valid) (sink : σ) :
    transmit sink f =
      if ByteSink.room sink < f.wire.length then
        (.error (.noRoom f.wire.length (ByteSink.room sink)), sink)
      else
        (sendResult f.wire.length (ByteSink.write (ByteSink.beginFrame sink) f.wire).1,
          ByteSink.endFrame (ByteSink.write (ByteSink.beginFrame sink) f.wire).2) := by
  unfold transmit
  rw [Frame.encode_eq_wire h]

/-! ## A transmit queue -/

variable {capacity : Nat}

/-- A `TxQueue` refuses a frame or takes it whole, so that `sendResult` is never a short write. -/
theorem transmit_txQueue {f : Frame} (h : f.id.Valid) (q : TxQueue capacity) :
    transmit q f =
      if q.room < f.wire.length then (.error (.noRoom f.wire.length q.room), q)
      else (.ok f.wire.length, q.push f.wire) := by
  rw [transmit_eq h]
  split
  · next hroom =>
    have hroom' : q.room < f.wire.length := hroom
    rw [if_pos hroom']
    rfl
  · next hroom =>
    have hroom' : ¬ q.room < f.wire.length := hroom
    -- What fits is taken whole, so the count that comes back is the length of the wire form.
    have hmin : min f.wire.length q.room = f.wire.length := by omega
    rw [if_neg hroom']
    simp only [ByteSink.write, ByteSink.beginFrame, ByteSink.endFrame, id, sendResult, hmin,
      if_true]

/-- Bytes that fit are queued behind the others. -/
theorem TxQueue.bytes_push {q : TxQueue capacity} {bytes : List UInt8}
    (h : bytes.length ≤ q.room) : (q.push bytes).bytes = q.bytes ++ bytes := by
  simp only [push, List.take_of_length_le h]

end SerialLink
