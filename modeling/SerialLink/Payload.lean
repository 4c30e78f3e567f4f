/-!
# Payloads

The bytes that a frame carries for the application. Their number is sent as one byte, so there are
at most 255 of them, and the bound is part of the type: no function on a `Frame` has to check it
again.

A `Payload` comes about in two ways. `ofList?` makes one of the bytes that an application hands over
and is where too many of them are noticed (`Frame.make`); `push?` is how the decoder collects one,
byte by byte. The length byte comes first then, and by `not_maxLength_lt` it never announces more
than fits.
-/

namespace SerialLink

/-- At most `Payload.maxLength` bytes. -/
@[ext]
structure Payload where
  bytes : List UInt8
  length_le : bytes.length ≤ 255
  deriving DecidableEq

namespace Payload

def maxLength : Nat := 255

def empty : Payload := ⟨[], by decide⟩

def singleton (b : UInt8) : Payload := ⟨[b], by simp⟩

/-- The payload with the given bytes, unless they are too many. -/
def ofList? (bytes : List UInt8) : Option Payload :=
  if h : bytes.length ≤ maxLength then some ⟨bytes, h⟩ else none

/-- One more byte behind the others, unless the payload is full. -/
def push? (p : Payload) (b : UInt8) : Option Payload :=
  ofList? (p.bytes ++ [b])

def length (p : Payload) : Nat := p.bytes.length

/-- The `length` as it is sent. Nothing is lost, since it fits a byte. -/
def lengthByte (p : Payload) : UInt8 := p.length.toUInt8

/-! ## Lemmas -/

@[simp] theorem bytes_empty : empty.bytes = [] := rfl

/-- No byte announces a payload of more than `maxLength` bytes. -/
theorem not_maxLength_lt (b : UInt8) : ¬ maxLength < b.toNat := by
  have hlt := b.toNat_lt
  rw [maxLength]
  omega

theorem ofList?_eq_some_iff {bytes : List UInt8} {p : Payload} :
    ofList? bytes = some p ↔ p.bytes = bytes := by
  unfold ofList?
  split
  case isTrue h =>
    rw [Option.some.injEq]
    exact ⟨fun e => e ▸ rfl, fun e => Payload.ext e.symm⟩
  case isFalse h =>
    exact ⟨fun e => absurd e (by simp), fun e => absurd (e ▸ p.length_le) h⟩

theorem ofList?_eq_none_iff {bytes : List UInt8} :
    ofList? bytes = none ↔ maxLength < bytes.length := by
  unfold ofList?
  split
  case isTrue h => simpa using h
  case isFalse h => simpa using h

@[simp] theorem ofList?_bytes (p : Payload) : ofList? p.bytes = some p :=
  ofList?_eq_some_iff.2 rfl

theorem push?_eq_some_iff {p q : Payload} {b : UInt8} :
    p.push? b = some q ↔ q.bytes = p.bytes ++ [b] :=
  ofList?_eq_some_iff

end Payload

end SerialLink
