/-!
# Byte stuffing

Three `marker` bytes in a row start a frame, so a frame body must never hold three. The sender puts
a `stuffByte` behind every second marker byte in a row; the receiver takes it out again. Both sides
count a run of marker bytes from zero after each stuff byte.

`stuffFrom` and `unstuffFrom` work on a whole body and carry the run along. The programs count it in
their state instead: `FrameWriter.stuffed` writes a body byte by byte, and the decoder's
`Phase` receives one. `Proofs.Stuffing` holds what is true of the two functions by themselves;
`Proofs.Frame.Wire` and `Proofs.Decoder.RoundTrip` tie writer and decoder to them.
-/

namespace SerialLink

/-- The byte that starts a frame, sent three times. -/
def marker : UInt8 := 0xAA

/-- The byte put behind two `marker` bytes inside a frame. The same byte ends a frame, as
`endByte`. -/
def stuffByte : UInt8 := 0x55

namespace Stuffing

/-- The stuffed form of bytes that follow a run of `run` marker bytes. -/
def stuffFrom : Nat → List UInt8 → List UInt8
  | _, [] => []
  | run, b :: rest =>
    if b = marker then
      if run = 1 then b :: stuffByte :: stuffFrom 0 rest else b :: stuffFrom (run + 1) rest
    else b :: stuffFrom 0 rest

/-- The stuffed form of a frame body: `stuffFrom` behind no marker byte. -/
def stuff (body : List UInt8) : List UInt8 := stuffFrom 0 body

/-- Reads stuffed bytes that follow a run of `run` marker bytes: whatever stands behind the second
marker byte of a run is taken out, and counting begins anew. -/
def unstuffFrom : Nat → List UInt8 → List UInt8
  | _, [] => []
  | run, b :: rest =>
    if run = 2 then unstuffFrom 0 rest
    else b :: unstuffFrom (if b = marker then run + 1 else 0) rest

/-- Takes the stuff bytes that `stuff` put in out again. -/
def unstuff (wire : List UInt8) : List UInt8 := unstuffFrom 0 wire

end Stuffing

end SerialLink
