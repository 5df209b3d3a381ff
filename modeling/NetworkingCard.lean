import NetworkingCard.Library.Atomicity
import NetworkingCard.Library.Bits
import NetworkingCard.Library.CircularQueue
import NetworkingCard.Library.Crc
import NetworkingCard.Library.CrcPolynomial
import NetworkingCard.Library.LineCode
import NetworkingCard.Library.RegisterFile
import NetworkingCard.Library.Runs
import NetworkingCard.Ringbuffer
import NetworkingCard.RingbufferInterrupts
import NetworkingCard.RingbufferCalls
import NetworkingCard.Tim
import NetworkingCard.Monitor
import NetworkingCard.PacketHeader
import NetworkingCard.PacketFormat
import NetworkingCard.PacketRoundTrip
import NetworkingCard.ErrorDetection
import NetworkingCard.Transmitter
import NetworkingCard.Receiver
import NetworkingCard.Node
import NetworkingCard.TransmitterTheorems
import NetworkingCard.TransmitterInvariant
import NetworkingCard.Attempts
import NetworkingCard.TransmitterPreemption
import NetworkingCard.BackoffDraws
import NetworkingCard.Retransmission
import NetworkingCard.TypedLines
import NetworkingCard.SentMessages
import NetworkingCard.Timing
import NetworkingCard.MonitorTracking
import NetworkingCard.BackoffTiming
import NetworkingCard.ReceiverTheorems
import NetworkingCard.Reception
import NetworkingCard.LineDecoding
import NetworkingCard.Framing
import NetworkingCard.Transmission
import NetworkingCard.Link
import NetworkingCard.Delivery
import NetworkingCard.CollisionDrop
import NetworkingCard.Backlog
import NetworkingCard.Sampling
import NetworkingCard.Recovery
import NetworkingCard.LoneTransmission
import NetworkingCard.Quiescence
import NetworkingCard.Completion
import NetworkingCard.Bus
import NetworkingCard.Exclusion
import NetworkingCard.LastSpeaker
import NetworkingCard.Broadcast
import NetworkingCard.TotalOrder
import NetworkingCard.RawMode
import NetworkingCard.Accesses
import NetworkingCard.Preemption
import NetworkingCard.LateService
import NetworkingCard.IdleReset
import NetworkingCard.Deliveries
import NetworkingCard.Display
import NetworkingCard.UartDriver
import NetworkingCard.Drivers
import NetworkingCard.RegisterBoard
import NetworkingCard.RegisterRefinement
import NetworkingCard.RegisterTiming
import NetworkingCard.Signals
import NetworkingCard.MainLoop
