import SerialLink.Frame.Basic
import SerialLink.OutBuffer
import SerialLink.Stuffing

/-!
# Frames on the wire

`Frame.wire` is the byte string that stands for a frame: three marker bytes, the stuffed body and
the end byte. `Frame.encodeInto` writes a frame into a buffer byte by byte, stuffing as it goes,
and stops at the end of the buffer.

The first is a specification, the second is what runs. A `FrameWriter` counts the marker bytes in a
row as it writes; header and end byte go through `plain` and are not counted, so that the body is
stuffed as if nothing stood before it. `Proofs.Frame.Wire` shows that a large enough buffer receives
exactly `wire`, and `Proofs.Frame.Buffer` what a buffer of any size receives. `transmit` hands the
result of `encode` to a sink.
-/

namespace SerialLink

/-- The byte that ends a frame. It is also the `stuffByte`; what it means is told by the place. -/
def endByte : UInt8 := 0x55

/-! ## The stuffing writer -/

/-- A buffer being filled with a frame. -/
structure FrameWriter where
  /-- The buffer and what was written to it. -/
  out : OutBuffer
  /-- The number of marker bytes at the end of the body so far, counted from the last stuff byte. -/
  run : Nat

namespace FrameWriter

/-- Writes a byte that is no part of the body. -/
def plain (w : FrameWriter) (b : UInt8) : FrameWriter := { w with out := w.out.put b }

/-- Writes a byte of the body, and a `stuffByte` behind it when it is the second `marker` of a
run. -/
def stuffed (w : FrameWriter) (b : UInt8) : FrameWriter :=
  if b = marker then
    if w.run = 1 then ⟨(w.out.put b).put stuffByte, 0⟩ else ⟨w.out.put b, w.run + 1⟩
  else ⟨w.out.put b, 0⟩

def frame (w : FrameWriter) (f : Frame) : FrameWriter :=
  let header := (List.replicate Frame.headerLength marker).foldl plain w
  (f.body.foldl stuffed header).plain endByte

end FrameWriter

/-! ## Encoding -/

namespace Frame

/-- The byte string that stands for a frame. It is defined of every frame, also of one whose
identifier is not `Valid`, which `encode` refuses. -/
def wire (f : Frame) : List UInt8 :=
  List.replicate headerLength marker ++ Stuffing.stuff f.body ++ [endByte]

/-- Writes a frame over the old contents of a buffer: how many bytes it took, and the whole buffer
afterwards. A frame with an invalid identifier leaves the buffer alone; one that does not fit
leaves as many of its bytes as did. -/
def encodeInto (f : Frame) (buffer : List UInt8) : Except FrameError Nat × List UInt8 :=
  if f.id.Valid then
    let out := ((⟨.ofList buffer, 0⟩ : FrameWriter).frame f).out
    (if out.overflowed then .error .bufferTooSmall else .ok out.written.length, out.contents)
  else (.error .invalidId, buffer)

/-- The bytes of a frame, written into a buffer of `maxWireLength`, which holds the largest one. -/
def encode (f : Frame) : Except FrameError (List UInt8) :=
  match f.encodeInto (List.replicate maxWireLength 0) with
  | (.ok n, buffer) => .ok (buffer.take n)
  | (.error e, _) => .error e

/-- The bytes of the frame that `app` makes of this identifier and payload. -/
def encodeApp (id : UInt8) (payload : List UInt8) : Except FrameError (List UInt8) := do
  (← app id payload).encode

end Frame

end SerialLink
