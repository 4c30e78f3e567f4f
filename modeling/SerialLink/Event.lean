import SerialLink.Transmit
import SerialLink.Transport.Entry

/-!
# Events

What an operation on a link does to the world outside it, in order: attempts to send a frame, frames
handed to the application, and data frames given up.

Operations return their events as a list, in a `Transport.Turn` or beside the `Endpoint`, instead of
calling anything. The list is what theorems about the outside are stated of: `written` reads off it
which frames reached the sink whole (`Proofs.Transmit`), `Wired` what the sink was asked to do
(`Proofs.Transport.Wire`), and `callbacks` what the application was told
(`Proofs.Transport.Callbacks`).
-/

namespace SerialLink

/-- One effect of an operation. -/
inductive Event (ε : Type) where
  /-- It was tried to send a frame, and `transmit` had this result. -/
  | attempted (f : Frame) (result : Except (SendError ε) Nat)
  /-- The identifier and the payload of a received `Frame` were handed to the application. -/
  | delivered (f : Frame)
  /-- A data frame was given up. -/
  | abandoned (failure : DeliveryFailure)

end SerialLink
