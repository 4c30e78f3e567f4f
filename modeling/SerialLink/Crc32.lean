/-!
# The frame checksum

The reflected 32-bit cyclic redundancy check with polynomial `0xEDB88320`. A register starts as
`allOnes`, takes in one byte at a time with `step`, lowest bit first, and is complemented at the
end.

`Frame.checksum` applies `checksum` to the bytes of a frame body that it covers. The decoder never
has these bytes together: it calls `update` byte by byte as they arrive, which `update_append` shows
to come to the same. How the register reacts to a change of the bytes, by the linearity of `shift`
over exclusive or, is the subject of `Proofs.Crc32`.
-/

namespace SerialLink.Crc32

/-- The generator polynomial `0x04C11DB7` with its bits reversed: lowest power in the highest
bit. -/
def polynomial : UInt32 := 0xEDB88320

/-- All bits set: the register before the first byte, and the mask that complements the last. -/
def allOnes : UInt32 := 0xFFFFFFFF

/-- Shifts one bit out of the register `r`, dividing by `polynomial` when it was set. -/
def shift (r : UInt32) : UInt32 :=
  if r &&& 1 = 0 then r >>> 1 else (r >>> 1) ^^^ polynomial

/-- `shift` for `n` bits. -/
def shifts : Nat → UInt32 → UInt32
  | 0, r => r
  | n + 1, r => shifts n (shift r)

def step (r : UInt32) (b : UInt8) : UInt32 :=
  shifts 8 (r ^^^ b.toUInt32)

def update (r : UInt32) (bytes : List UInt8) : UInt32 :=
  bytes.foldl step r

def checksum (bytes : List UInt8) : UInt32 :=
  update allOnes bytes ^^^ allOnes

@[simp] theorem update_nil (r : UInt32) : update r [] = r := rfl

@[simp] theorem update_cons (r : UInt32) (b : UInt8) (bs : List UInt8) :
    update r (b :: bs) = update (step r b) bs := rfl

/-- Bytes may be taken in piece by piece: `update` continues where an earlier one stopped. -/
theorem update_append (r : UInt32) (as bs : List UInt8) :
    update r (as ++ bs) = update (update r as) bs :=
  List.foldl_append

end SerialLink.Crc32
