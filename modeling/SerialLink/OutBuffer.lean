/-!
# Output buffers

A buffer of fixed size that is filled from the front. Bytes for which there is no room are dropped
and remembered in `overflowed`, so what was written before stays where it is.

`FrameWriter` writes a frame into one, and never looks whether there is room: `Frame.encodeInto`
asks once, at the end. `putAll_eq` says what a buffer holds after any number of bytes, whether they
fit or not, and is all that `Proofs.Frame.Wire` and `Proofs.Frame.Buffer` need to know of it.
-/

namespace SerialLink

/-- A buffer of `written.length + free.length` bytes. -/
@[ext]
structure OutBuffer where
  written : List UInt8
  /-- The old contents of the part that is not written yet. -/
  free : List UInt8
  /-- Whether a byte found no room. -/
  overflowed : Bool
  deriving DecidableEq

namespace OutBuffer

/-- A buffer with these old `contents` and nothing `written`. -/
def ofList (contents : List UInt8) : OutBuffer := ⟨[], contents, false⟩

def zeroed (size : Nat) : OutBuffer := ofList (List.replicate size 0)

/-- Writes one byte over the next of the `free` ones, if there is any. -/
def put (b : OutBuffer) (byte : UInt8) : OutBuffer :=
  match b.free with
  | [] => { b with overflowed := true }
  | _ :: free => { b with written := b.written ++ [byte], free }

def putAll (b : OutBuffer) (bytes : List UInt8) : OutBuffer :=
  bytes.foldl put b

/-- The whole buffer: what was `written`, then the old rest. -/
def contents (b : OutBuffer) : List UInt8 := b.written ++ b.free

/-! ## Lemmas -/

@[simp] theorem putAll_nil (b : OutBuffer) : b.putAll [] = b := rfl

@[simp] theorem putAll_cons (b : OutBuffer) (x : UInt8) (xs : List UInt8) :
    b.putAll (x :: xs) = (b.put x).putAll xs := rfl

theorem putAll_append (b : OutBuffer) (xs ys : List UInt8) :
    b.putAll (xs ++ ys) = (b.putAll xs).putAll ys :=
  List.foldl_append

/-- `putAll` keeps as many bytes as fit, and overflows when there are more. -/
theorem putAll_eq (b : OutBuffer) (bytes : List UInt8) :
    b.putAll bytes =
      { written := b.written ++ bytes.take b.free.length
        free := b.free.drop bytes.length
        overflowed := b.overflowed || decide (b.free.length < bytes.length) } := by
  induction bytes generalizing b with
  | nil => simp
  | cons x xs ih =>
    rw [putAll_cons, ih]
    obtain ⟨written, free, overflowed⟩ := b
    cases free with
    | nil => simp [put]
    | cons old free =>
      -- The byte takes the place of `old`, and the two sides differ in how the sum is written.
      simp [put]
      congr

end OutBuffer

end SerialLink
