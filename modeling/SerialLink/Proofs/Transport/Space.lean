import SerialLink.Proofs.Transport.Wire

/-!
# Sinks with room

`Unrefused` says of an operation that it got rid of every frame that it tried to send, which is up
to the sink. `RoomFor n` is what the sink has to offer for that: room for the next `n` frames, and
each of them taken whole. It is a condition on the sink alone, and does not mention a transport.

A transport with the invariant `Regular` tries to send at most `framesPerTurn` frames in one
operation: a pending reset, its queue, the reset of a give-up, and a repeated acknowledgement. The
bound is read off the cases of `Effect`, and `Wired` turns it into `Regular.unrefused_perform`:
whatever was done with the transport before, a sink with room for as many frames refuses none.

`Proofs.Transport.Room` tells what an operation that no sink refuses writes,
`Proofs.Transport.Settled` what a tick leaves, and `Proofs.Link.Round` what comes of a round between
two stations. All three take the outcome as their hypothesis; that a sink with room brings it about
is shown here.
-/

namespace SerialLink

variable {σ ε : Type}

/-! ## Counting attempts -/

/-- Whether it was tried to send a frame. -/
def Event.isAttempt : Event ε → Bool
  | .attempted _ _ => true
  | .delivered _ | .abandoned _ => false

/-- How many frames it was tried to send. -/
def attempts (events : List (Event ε)) : Nat := events.countP Event.isAttempt

section attempts

variable (events : List (Event ε))

@[simp]
theorem attempts_nil : attempts ([] : List (Event ε)) = 0 := rfl

@[simp]
theorem attempts_append (events' : List (Event ε)) :
    attempts (events ++ events') = attempts events + attempts events' :=
  List.countP_append

@[simp]
theorem attempts_attempted (f : Frame) (result : Except (SendError ε) Nat) :
    attempts (.attempted f result :: events) = attempts events + 1 :=
  List.countP_cons_of_pos rfl

@[simp]
theorem attempts_delivered (f : Frame) : attempts (.delivered f :: events) = attempts events :=
  List.countP_cons_of_neg Bool.false_ne_true

@[simp]
theorem attempts_abandoned_cons (failure : DeliveryFailure) :
    attempts (.abandoned failure :: events) = attempts events :=
  List.countP_cons_of_neg Bool.false_ne_true

@[simp]
theorem attempts_abandoned (failures : List DeliveryFailure) :
    attempts (failures.map (Event.abandoned (ε := ε))) = 0 := by
  induction failures with
  | nil => rfl
  | cons failure failures ih => rwa [List.map_cons, attempts_abandoned_cons]

end attempts

/-! ## Room for frames -/

section room

variable [ByteSink σ ε]

/-- The sink has room for the next `n` frames, whichever they are, and takes each of them whole. -/
def RoomFor : Nat → σ → Prop
  | 0, _ => True
  | n + 1, sink => ∀ f : Frame, f.id.Valid →
    let offered := ByteSink.write (ByteSink.beginFrame sink) f.wire
    f.wire.length ≤ ByteSink.room sink ∧ offered.1 = .ok f.wire.length ∧
      RoomFor n (ByteSink.endFrame offered.2)

theorem RoomFor.mono {m n : Nat} {sink : σ} (h : RoomFor n sink) (hle : m ≤ n) :
    RoomFor m sink := by
  induction m generalizing n sink with
  | zero => trivial
  | succ m ih =>
    obtain ⟨n, rfl⟩ : ∃ k, n = k + 1 := ⟨n - 1, by omega⟩
    intro f hf
    obtain ⟨hfits, hwhole, hrest⟩ := h f hf
    exact ⟨hfits, hwhole, ih hrest (by omega)⟩

/-- **A sink with room for as many frames as it is offered refuses none**, and has the room left
that it was not asked for. The induction is on `Wired`: each attempt uses up the room for one. -/
theorem Wired.unrefused_of_roomFor {sink sink' : σ} {events : List (Event ε)}
    (h : Wired sink events sink') {n : Nat} (hroom : RoomFor (attempts events + n) sink) :
    Unrefused events ∧ RoomFor n sink' := by
  induction h with
  | done =>
    rw [attempts_nil, Nat.zero_add] at hroom
    exact ⟨by simp [Unrefused], hroom⟩
  | @refused f bytes sink _ events hencode hlack _ _ =>
    -- A frame is turned away for lack of room only, and there is room for one.
    rw [attempts_attempted, Nat.add_right_comm] at hroom
    obtain ⟨hfits, -, -⟩ := hroom f (Frame.valid_of_encode hencode)
    rw [Frame.eq_wire_of_encode hencode] at hlack
    exact absurd hfits (Nat.not_le.mpr hlack)
  | @offered f bytes sink _ events hencode _ _ ih =>
    rw [attempts_attempted, Nat.add_right_comm] at hroom
    obtain ⟨-, hwhole, hrest⟩ := hroom f (Frame.valid_of_encode hencode)
    obtain rfl := Frame.eq_wire_of_encode hencode
    obtain ⟨hothers, hleft⟩ := ih hrest
    rw [hwhole, sendResult, if_pos rfl]
    exact ⟨unrefused_cons.mpr ⟨Bool.false_ne_true, hothers⟩, hleft⟩
  | delivered _ ih =>
    rw [attempts_delivered] at hroom
    obtain ⟨hothers, hleft⟩ := ih hroom
    exact ⟨unrefused_cons.mpr ⟨Bool.false_ne_true, hothers⟩, hleft⟩
  | abandoned _ ih =>
    rw [attempts_abandoned_cons] at hroom
    obtain ⟨hothers, hleft⟩ := ih hroom
    exact ⟨unrefused_cons.mpr ⟨Bool.false_ne_true, hothers⟩, hleft⟩

end room

/-- A transmit queue has room for as many frames as fit into it at their longest. -/
theorem roomFor_txQueue {capacity n : Nat} {q : TxQueue capacity}
    (h : n * Frame.maxWireLength ≤ q.room) : RoomFor n q := by
  induction n generalizing q with
  | zero => trivial
  | succ n ih =>
    intro f _
    have hlength := f.length_wire_le
    rw [Nat.succ_mul] at h
    have hfits : f.wire.length ≤ q.room := by omega
    have hleft : (q.push f.wire).room = q.room - f.wire.length := by
      simp only [TxQueue.room, TxQueue.bytes_push hfits, List.length_append]
      omega
    refine ⟨hfits, congrArg Except.ok (Nat.min_eq_left hfits), ih ?_⟩
    show n * Frame.maxWireLength ≤ (q.push f.wire).room
    omega

/-! ## How many frames an operation tries to send -/

namespace Transport

variable [ByteSink σ ε] {t t' : Transport} {events : List (Event ε)}

theorem Notice.attempts_eq {pending : Bool} (h : Notice events pending) : attempts events = 1 := by
  cases h with
  | written => rfl
  | due => rfl

theorem Repeat.attempts_le {expected : UInt8} (h : Repeat expected events) :
    attempts events ≤ 1 := by
  cases h with
  | none => exact Nat.zero_le 1
  | sent => exact Nat.le_refl 1

/-- Of a pending reset there is one attempt, whether it is written or not. -/
theorem attempts_flush {pending : Bool}
    (h : if t.resetPending then Notice events pending else events = []) : attempts events ≤ 1 := by
  split at h
  · exact Nat.le_of_eq h.attempts_eq
  · rw [h, attempts_nil]
    exact Nat.zero_le 1

/-- A pass tries every frame once at most. -/
theorem attempts_sweep_le (policy : RetryPolicy) (now : UInt32) (stats : TransportStats) (sink : σ)
    (q : List Entry) : attempts (sweep policy now stats sink q).events ≤ q.length := by
  induction q generalizing stats sink with
  | nil => exact Nat.le_refl 0
  | cons e rest ih =>
    obtain ⟨-, h⟩ | ⟨-, h⟩ | ⟨n, sink', h⟩ | ⟨failure, sink', h⟩ :=
      sweep_cons policy now stats sink e rest
    · rw [h]
      exact Nat.le_succ_of_le (ih stats sink)
    · rw [h]
      exact Nat.zero_le _
    · have hrest := ih (countSent stats e.isSent) sink'
      rw [h, List.length_cons]
      simp only [Sweep.cons, attempts_append, attempts_attempted, attempts_nil]
      omega
    · rw [h, attempts_attempted, attempts_nil, List.length_cons]
      omega

/-- A tick tries the queue, and at most a pending reset, the reset of a give-up and a repeated
acknowledgement besides; no other operation tries more than one frame. -/
theorem Effect.attempts_le {op : Operation σ} (h : t.Effect op events t') :
    attempts events ≤ t.pending + 3 := by
  unfold pending
  cases h with
  | refused | queued | heard | passed | spurious | acked => exact Nat.zero_le _
  | blocked _ hnotice _ =>
    have hreset := hnotice.attempts_eq
    omega
  | @swept now _ _ flush acks _ hflush hswept _ hacks _ =>
    obtain ⟨stats, sink, rfl⟩ := hswept
    have hreset := attempts_flush hflush
    have hqueue := attempts_sweep_le t.policy now stats sink t.queue
    have hack := hacks.attempts_le
    simp only [attempts_append]
    omega
  | @gaveUp now _ _ k _ flush notice acks _ hflush hswept _ hnotice hacks _ =>
    -- The largest case: two resets and an acknowledgement around the queue.
    obtain ⟨stats, sink, rfl⟩ := hswept
    have hreset := attempts_flush hflush
    have hqueue := attempts_sweep_le t.policy now stats sink t.queue
    have hresync := hnotice.attempts_eq
    have hack := hacks.attempts_le
    simp only [attempts_append, attempts_abandoned]
    omega
  | delivered =>
    simp only [attempts_delivered, attempts_attempted, attempts_nil]
    omega
  | unexpected =>
    simp only [attempts_attempted, attempts_nil]
    omega
  | told =>
    rw [attempts_abandoned]
    exact Nat.zero_le _
  | dropped =>
    rw [attempts_abandoned]
    exact Nat.zero_le _
  | reset hnotice _ =>
    have hreset := hnotice.attempts_eq
    rw [attempts_append, attempts_abandoned]
    omega

/-- As many frames as a transport tries to send in one operation: `Effect.attempts_le` for a window
of the largest size. -/
def framesPerTurn : Nat := Config.maxWindow + 3

theorem Regular.attempts_le (h : t.Regular) {op : Operation σ} (he : t.Effect op events t') :
    attempts events ≤ framesPerTurn := by
  have hcount := he.attempts_le
  have hqueue := Nat.le_trans h.length_le h.window_le
  unfold pending at hcount
  unfold framesPerTurn
  omega

/-! ## Operations on a sink with room -/

/-- The sink that an operation is given. -/
def Operation.sink? : Operation σ → Option σ
  | .send _ | .noteHeard _ => none
  | .service _ sink | .receive _ _ sink | .reset _ sink => some sink

/-- **A sink with room refuses nothing**, whatever the transport went through before. -/
theorem Regular.unrefused_perform (h : t.Regular) {op : Operation σ}
    (hroom : ∀ sink ∈ op.sink?, RoomFor framesPerTurn sink) :
    Unrefused (t.perform (ε := ε) op).2 := by
  have hid : ∀ e ∈ t.queue, e.id ≤ FrameId.maxAppId := fun e he => (h.sane e he).id_le
  have hcount := h.attempts_le (t.perform_effect (ε := ε) op)
  cases op with
  | send m => exact fun e he => absurd he List.not_mem_nil
  | noteHeard now => exact fun e he => absurd he List.not_mem_nil
  | service now sink =>
    have hledger := t.ledger_service now sink hid
    exact (hledger.wired.unrefused_of_roomFor (n := 0) ((hroom sink rfl).mono hcount)).1
  | receive now f sink =>
    have hledger := t.ledger_receive now f sink
    exact (hledger.wired.unrefused_of_roomFor (n := 0) ((hroom sink rfl).mono hcount)).1
  | reset inform sink =>
    have hledger := t.ledger_reset inform sink
    exact (hledger.wired.unrefused_of_roomFor (n := 0) ((hroom sink rfl).mono hcount)).1

end Transport

end SerialLink
