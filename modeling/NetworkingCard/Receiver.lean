import NetworkingCard.Monitor
import NetworkingCard.PacketHeader
import NetworkingCard.Ringbuffer
import NetworkingCard.Tim

/-!
# `receiver.c`

The receiver's variables with TIM4, its main-loop routine, the edge interrupt's own part and the
half-bit timeout. The debug outputs on `GPIOC` and the pending bit of EXTI, which is set exactly
when the interrupt is served, are left out.
-/

namespace NetworkingCard

/-- `HALFBIT_TIMEOUT_TICKS`. -/
def halfbitTimeoutTicks : ℕ := 8107

/-- A call of `ph_parse`: the bytes it was given, its result, and the packet it left. -/
structure ParseCall where
  buf : List Byte
  result : Bool
  out : PacketHeader

/-- The variables of `receiver.c` (those of the main routine included), TIM4, what has been
printed, and the calls of `ph_parse` so far. -/
structure Receiver where
  receiveBuf : RingBuffer Byte
  currBit : ℕ
  dataByte : Byte
  currentlyReceiving : Bool
  sample : Bool
  packetMode : Bool
  msgBuf : Vector Byte sizeofPacketHeader
  msgCur : ℕ
  pkt : PacketHeader
  tim4 : Tim
  console : List Printf
  parses : List ParseCall

namespace Receiver

/-- `printf`. -/
def printf (r : Receiver) (format : String) (args : List PrintfArg) : Receiver :=
  { r with console := r.console ++ [⟨format, args⟩] }

/-- The reset of the main routine for an idle line. -/
def idleReset (r : Receiver) : Receiver :=
  let r := { r with currBit := 0, dataByte := 0, currentlyReceiving := false }
  -- set for beginning of transmission, first bit automatically captured as zero
  if !r.sample then { r with sample := true } else r

/-- The main routine's reaction to a collision: everything received so far is dropped. -/
def dropMessage (r : Receiver) : Receiver :=
  let r := r.printf "<< COLLISION!\r\n" []
  let r := { r with tim4 := r.tim4.stopCounter, currentlyReceiving := false }
  { r with receiveBuf := Ringbuffer.reset r.receiveBuf }

/-- The loop that moves received bytes into `msgBuf`, with a bound on its iterations. -/
def readLoop : ℕ → Receiver → Receiver
  | 0, r => r
  | n + 1, r =>
    if Ringbuffer.hasElement r.receiveBuf && decide (r.msgCur < sizeofPacketHeader) then
      let element := Ringbuffer.get r.receiveBuf
      readLoop n { r with receiveBuf := element.2,
                          msgBuf := r.msgBuf.setIfInBounds r.msgCur element.1,
                          msgCur := r.msgCur + 1 }
    else r

/-- The packet branch of the display. -/
def displayPacket (r : Receiver) : Receiver :=
  let (ok, pkt) := phParse r.pkt (memory r.msgBuf) r.msgCur
  let call : ParseCall := ⟨r.msgBuf.toList.take r.msgCur, ok, pkt⟩
  let r := { r with pkt := pkt, parses := r.parses ++ [call] }
  let r := if !ok then r.printf " ERROR: invalid packet\r\n" [] else r
  let r := if r.pkt.length.toNat < phMsgSize - 1 then
      { r with pkt := { r.pkt with msg := r.pkt.msg.setIfInBounds r.pkt.length.toNat 0 } }
    else r
  let r := r.printf "The source=%x, The destination=%x, length=%d, CRC=%x\r\n"
    [.x r.pkt.src, .x r.pkt.dest, .d r.pkt.length.toNat, .x r.pkt.crc8Fcs]
  r.printf "Recieveing %s\r\n" [.s (r.pkt.msg.toList ++ [r.pkt.crc8Fcs])]

/-- The raw branch of the display. -/
def displayRaw (r : Receiver) : Receiver :=
  let r := if r.msgCur < phMsgSize - 1 then
      { r with msgBuf := r.msgBuf.setIfInBounds (r.msgCur + 1) 0 }
    else r
  r.printf "Recieveing %s" [.s r.msgBuf.toList]

/-- The part of the main routine that takes the received message and displays it. -/
def deliver (r : Receiver) : Receiver :=
  let r := { r with msgCur := 0 }
  let r := readLoop sizeofPacketHeader r
  if r.packetMode then r.displayPacket else r.displayRaw

/-- `receiver_mainRoutineUpdate`. -/
def mainRoutineUpdate (r : Receiver) (state : MonitorState) : Receiver :=
  let r := if state = .idle then r.idleReset else r
  let r := if r.currentlyReceiving && decide (state = .collision) then r.dropMessage else r
  if !r.currentlyReceiving && Ringbuffer.hasElement r.receiveBuf then r.deliver else r

/-- The receiver's part of `EXTI4_IRQHandler`, with `idr4` the level read from PC4. -/
def edge (r : Receiver) (idr4 : Bool) : Receiver :=
  -- case when we're in a half clock period edge
  if r.sample then
    let r := { r with tim4 := r.tim4.clearCnt.startCounter }
    let r := { r with sample := false }
    let r := { r with dataByte := if idr4 then r.dataByte ||| (1#8 <<< (7 - r.currBit))
                                  else r.dataByte &&& ~~~(1#8 <<< (7 - r.currBit)) }
    let r := { r with currBit := r.currBit + 1 }
    let r := if r.currBit = 8 then
        { r with receiveBuf := Ringbuffer.put r.receiveBuf r.dataByte, currBit := 0 }
      else r
    if !r.currentlyReceiving then { r with currentlyReceiving := true } else r
  -- case when we're in a clock period edge
  else { r with sample := true, tim4 := r.tim4.stopCounter }

/-- `TIM4_IRQHandler`. -/
def tim4IRQHandler (r : Receiver) : Receiver :=
  let r := { r with tim4 := r.tim4.clearOutputCmpModePendingFlag }
  { r with sample := true, tim4 := r.tim4.stopCounter }

/-- One core cycle of TIM4, its interrupt served at once. -/
def cycle (r : Receiver) : Receiver :=
  let updates := r.tim4.updates
  let r := { r with tim4 := r.tim4.cycle }
  if updates then r.tim4IRQHandler else r

/-- `initCounterTimer`. -/
def initCounterTimer : Tim :=
  (((Tim.reset.setArr halfbitTimeoutTicks).setCcr1 halfbitTimeoutTicks).clearCnt).startCounter

/-- `receiver_init`, from the initial values of the variables. -/
def init (packetMode : Bool) : Receiver where
  receiveBuf := ⟨0, 0, Vector.replicate _ 0⟩
  currBit := 0
  dataByte := 0
  currentlyReceiving := false
  sample := true
  packetMode := packetMode
  msgBuf := Vector.replicate _ 0
  msgCur := 0
  pkt := PacketHeader.zero
  tim4 := initCounterTimer
  console := []
  parses := []

end Receiver

end NetworkingCard
