import SerialLink.Config.Stored
import SerialLink.Endpoint
import SerialLink.Proofs.Clock
import SerialLink.Proofs.Transmit
import SerialLink.Proofs.Link.Basic
import SerialLink.Proofs.Transport.Queue
import SerialLink.Proofs.Link.Sound
import SerialLink.Proofs.Link.Move
import SerialLink.Proofs.Link.Turn
import SerialLink.Proofs.Link.Order
import SerialLink.Proofs.Link.Agreement
import SerialLink.Proofs.Link.Reliable
import SerialLink.Proofs.Decoder.RoundTrip
import SerialLink.Proofs.Decoder.Acceptance
import SerialLink.Proofs.Decoder.Joining
import SerialLink.Proofs.Transport.Run
import SerialLink.Proofs.Transport.Invariant
import SerialLink.Proofs.Transport.History
import SerialLink.Proofs.Transport.Fate
import SerialLink.Proofs.Transport.Callbacks
import SerialLink.Proofs.Transport.Discipline
import SerialLink.Proofs.Transport.Timing
import SerialLink.Proofs.Transport.Diary
import SerialLink.Proofs.Transport.Exhaustion
import SerialLink.Proofs.Transport.Overtaking
import SerialLink.Proofs.Transport.Room
import SerialLink.Proofs.Link.OneWay
import SerialLink.Proofs.Link.Course
import SerialLink.Proofs.Link.Round
import SerialLink.Proofs.Link.Recovery
import SerialLink.Proofs.Link.Resync
import SerialLink.Proofs.Transport.Wire
import SerialLink.Proofs.Endpoint.Run
import SerialLink.Proofs.Endpoint.Wire
import SerialLink.Proofs.Endpoint.Bypass
import SerialLink.Proofs.Transport.Acknowledgement
import SerialLink.Proofs.Transport.Hearing
import SerialLink.Proofs.Transport.Receiver
import SerialLink.Proofs.Transport.Settled
import SerialLink.Proofs.Endpoint.Settled
import SerialLink.Proofs.Endpoint.Silence
import SerialLink.Proofs.Crc32
import SerialLink.Proofs.Decoder.Burst
import SerialLink.Proofs.Decoder.BitFlip
import SerialLink.Proofs.Frame.Body
import SerialLink.Proofs.Stuffing
import SerialLink.Proofs.Endpoint.Refusal
import SerialLink.Proofs.Frame.Buffer
import SerialLink.Proofs.Decoder.Bounded
import SerialLink.Proofs.Config.Stored
import SerialLink.Proofs.Decoder.Accounting
import SerialLink.Proofs.Frame.PrefixCode
