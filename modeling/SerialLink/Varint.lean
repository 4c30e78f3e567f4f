/-!
# Variable-length words

A 32-bit word as bytes of seven bits each, lowest first, at most five of them. Every byte but the
last has its high bit set. `encode` uses as few bytes as possible; `decode?` also accepts longer
forms whose value fits a word, such as `[0x81, 0x00]` for one.

The fields of a `Config` that are wider than a byte are stored in this form, see `Config.Stored`.
The two directions are written as recursions over the number of places left, `digits` and
`readDigits`, so that `Proofs.Varint` can compare them place by place: what is written is read back,
and what is read has a unique shortest form.
-/

namespace SerialLink.Varint

/-- The largest number of bytes that a word takes. -/
def maxLength : Nat := 5

/-- Writes a number as at most `places` bytes; `encode` has `maxLength` of them. -/
def digits : (places : Nat) → Nat → List UInt8
  | 0, _ => []
  | places + 1, n =>
    if n < 128 then [n.toUInt8] else (n % 128 + 128).toUInt8 :: digits places (n / 128)

def encode (w : UInt32) : List UInt8 := digits maxLength w.toNat

/-- Reads a number of at most `places` bytes, and gives the bytes behind it. The number may be
larger than a word, which `decode?` looks at. -/
def readDigits : (places : Nat) → List UInt8 → Option (Nat × List UInt8)
  | 0, _ => none
  | _ + 1, [] => none
  | places + 1, b :: rest =>
    if b.toNat < 128 then some (b.toNat, rest)
    else (readDigits places rest).map fun (n, rest) => (b.toNat - 128 + 128 * n, rest)

/-- Reads a word in any form of at most `maxLength` bytes, and gives the bytes behind it. -/
def decode? (bytes : List UInt8) : Option (UInt32 × List UInt8) :=
  match readDigits maxLength bytes with
  | some (n, rest) => if n < UInt32.size then some (n.toUInt32, rest) else none
  | none => none

end SerialLink.Varint
