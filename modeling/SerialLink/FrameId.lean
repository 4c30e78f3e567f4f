/-!
# Frame identifiers

The first byte of every frame body says what the frame is. Its low six bits hold an application
identifier; bit 7 is set when a sequence byte follows (`hasSeq`); of the bytes with bit 6 set, only
`ackByte` and `resetByte` are in use.

`FrameId` is the meaning of that byte and not the byte itself: `ofByte?` reads one and `toByte`
writes one. The type admits application identifiers of eight bits, because an application may hand
over any byte; `Valid` singles out those that the wire can carry. `Frame.make` refuses the others,
`Frame.encode` does so once more, and most theorems about frames on the wire assume `Valid`.
-/

namespace SerialLink

/-- What a frame is. The identifier of an application or data frame may be any byte here;
`FrameId.Valid` says which ones the wire can carry. -/
inductive FrameId where
  /-- A frame of the application, sent once and never acknowledged: it bypasses the transport. -/
  | app (id : UInt8)
  /-- A frame of the reliable transport, sequenced and acknowledged. -/
  | data (id : UInt8)
  /-- A cumulative acknowledgement. -/
  | ack
  | reset
  deriving DecidableEq

namespace FrameId

/-! ## The identifier byte -/

/-- The highest application identifier that is `Valid`, and the mask of the bits that hold it. -/
def maxAppId : UInt8 := 0x3F

/-- Set in the identifier byte of every frame that carries a sequence number. -/
def sequencedBit : UInt8 := 0x80

/-- Set only in the identifier bytes kept for control frames. -/
def reservedBit : UInt8 := 0x40

def ackByte : UInt8 := 0xFF

def resetByte : UInt8 := 0xFE

/-- Reads an identifier byte; one with the `reservedBit` names no kind of frame unless it is
`ackByte` or `resetByte`. -/
def ofByte? (b : UInt8) : Option FrameId :=
  if b = ackByte then some .ack
  else if b = resetByte then some .reset
  else if b &&& reservedBit ≠ 0 then none
  else if b &&& sequencedBit ≠ 0 then some (.data (b &&& maxAppId))
  else some (.app b)

/-- The identifier byte of a frame. An application identifier that is not `Valid` loses its high
bits. -/
def toByte : FrameId → UInt8
  | .app id => id &&& maxAppId
  | .data id => sequencedBit ||| (id &&& maxAppId)
  | .ack => ackByte
  | .reset => resetByte

/-! ## Properties of an identifier -/

/-- Every frame but an application frame carries a sequence number. -/
def hasSeq : FrameId → Bool
  | .app _ => false
  | _ => true

/-- The application identifier, for the two kinds of frame that carry application bytes. -/
def appId? : FrameId → Option UInt8
  | .app id | .data id => some id
  | .ack | .reset => none

/-- An identifier is valid when its `appId?`, if it has one, fits six bits. -/
def Valid (id : FrameId) : Prop :=
  ∀ a ∈ id.appId?, a ≤ maxAppId

instance (id : FrameId) : Decidable id.Valid :=
  inferInstanceAs (Decidable (∀ a ∈ id.appId?, a ≤ maxAppId))

@[simp] theorem valid_app {a : UInt8} : (app a).Valid ↔ a ≤ maxAppId := by
  simp [Valid, appId?]

@[simp] theorem valid_data {a : UInt8} : (data a).Valid ↔ a ≤ maxAppId := by
  simp [Valid, appId?]

@[simp] theorem valid_ack : ack.Valid := by
  simp [Valid, appId?]

@[simp] theorem valid_reset : reset.Valid := by
  simp [Valid, appId?]

end FrameId

end SerialLink
