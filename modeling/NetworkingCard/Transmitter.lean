import NetworkingCard.Monitor
import NetworkingCard.PacketHeader
import NetworkingCard.Ringbuffer
import NetworkingCard.Tim

/-!
# `transmitter.c`

The transmitter's variables with the hardware it owns (TIM2 and the output PC9), its main-loop
routine, and its timer interrupt. The routine reads a character only in the branch that calls
`usart2_getch`, and a random number only in the retransmission branch; both are arguments here,
and so is the monitor state the two routines ask for.
-/

namespace NetworkingCard

/-- `TRANSMISSION_TICKS`. -/
def transmissionTicks : ℕ := 8000

/-- `TRANSMITTER_N_MAX`. -/
def transmitterNMax : ℕ := 200

/-- The character `'\r'`. -/
def carriageReturn : Byte := 13

/-- The variables of `transmitter.c` (those of the main routine included), TIM2, the level of
PC9, and what has been printed. -/
structure Transmitter where
  transBuf : RingBuffer Byte
  currBit : ℕ
  currByte : ℕ
  inTransmission : Bool
  transmissionComplete : Bool
  retransmissionTimeoutActive : Bool
  packetMode : Bool
  src : Byte
  dest : Byte
  gotMessage : Bool
  pkt : PacketHeader
  dataBuf : Vector Byte phMsgSize
  dataCur : ℕ
  tim2 : Tim
  pin : Bool
  console : List Printf

/-- `encodeManchester`: bit 0 becomes `0b10`, bit 1 becomes `0b01`. -/
def encodeManchester (data : Byte) : BitVec 16 :=
  (List.range 8).foldl (fun output i =>
    let bit := (data.toNat &&& (1 <<< i)) >>> i
    let output := output ||| BitVec.ofNat 16 ((0 ^^^ bit) <<< (i * 2))
    output ||| BitVec.ofNat 16 ((1 ^^^ bit) <<< (i * 2 + 1))) 0

/-- `transmitByte`: the Manchester symbol of the byte goes into the buffer, high byte first. -/
def transmitByte (transBuf : RingBuffer Byte) (byte : Byte) : RingBuffer Byte :=
  let manchesterSymbol := encodeManchester byte
  let transBuf := Ringbuffer.put transBuf ((manchesterSymbol >>> 8).setWidth 8)
  Ringbuffer.put transBuf ((manchesterSymbol &&& 0xFF).setWidth 8)

/-- `transmitMessage`. -/
def transmitMessage (transBuf : RingBuffer Byte) (pkt : PacketHeader) : RingBuffer Byte :=
  (frameBytes pkt).foldl transmitByte transBuf

namespace Transmitter

/-- `printf`. -/
def printf (t : Transmitter) (format : String) (args : List PrintfArg) : Transmitter :=
  { t with console := t.console ++ [⟨format, args⟩] }

/-- `startTransmission`. -/
def startTransmission (t : Transmitter) : Transmitter :=
  { t with inTransmission := true, tim2 := t.tim2.clearCnt.startCounter }

/-- `stopTransmission`. -/
def stopTransmission (t : Transmitter) : Transmitter :=
  { t with inTransmission := false, pin := true, tim2 := t.tim2.stopCounter }

/-- The back-off time for the number `rand()` returned. -/
def backoff (random : ℕ) : ℕ := random % transmitterNMax * 1000 / transmitterNMax

/-- `toggleRetransmission`. -/
def toggleRetransmission (t : Transmitter) (random : ℕ) (retransmission : Bool) : Transmitter :=
  let t := { t with retransmissionTimeoutActive := retransmission, tim2 := t.tim2.stopCounter }
  if retransmission then
    -- ms scale
    let t := { t with tim2 := t.tim2.setPsc 16000 }
    let w := backoff random
    let t := t.printf "Retransmitting in %d ms...\r\n" [.d w]
    { t with tim2 := (t.tim2.setArr w).setCcr1 w }
  else
    { t with tim2 := ((t.tim2.setPsc 0).setArr transmissionTicks).setCcr1 transmissionTicks }

/-- What the main routine does with a character: a `'\r'` ends the line, anything else is
stored while there is room. -/
def readChar (t : Transmitter) (c : Byte) : Transmitter :=
  if c = carriageReturn then
    let t := { t with dataBuf := t.dataBuf.setIfInBounds t.dataCur 0 }
    -- just pressed enter: compares with the empty string, as "\0e\0p" starts with NUL
    if strcmpEqual t.dataBuf.toList [0, 0x65, 0, 0x70, 0] then
      { t with dataBuf := t.dataBuf.setIfInBounds 0 0, dataCur := 0, gotMessage := false }
    else { t with gotMessage := true }
  else if t.dataCur < phMsgSize - 1 then
    { t with dataBuf := t.dataBuf.setIfInBounds t.dataCur c, dataCur := t.dataCur + 1 }
  else t

/-- The packet built from the data buffer, terminated for display when it is short enough. -/
def createPacket (t : Transmitter) : PacketHeader :=
  let pkt := phCreate t.pkt t.src t.dest true (memory t.dataBuf) (BitVec.ofNat 8 t.dataCur)
  if pkt.length.toNat < phMsgSize - 1 then
    { pkt with msg := pkt.msg.setIfInBounds pkt.length.toNat 0 }
  else pkt

/-- The packet branch of `transmitData`. -/
def transmitPacket (t : Transmitter) : Transmitter :=
  let t := { t with pkt := t.createPacket }
  let t := t.printf "Transmission The source=%x, Destination=%x, the length=%d, CRC =%x\r\n"
    [.x t.pkt.src, .x t.pkt.dest, .d t.pkt.length.toNat, .x t.pkt.crc8Fcs]
  let t := t.printf "Transmitting %s\r\n" [.s (t.pkt.msg.toList ++ [t.pkt.crc8Fcs])]
  { t with transBuf := transmitMessage t.transBuf t.pkt }

/-- The raw branch of `transmitData`. -/
def transmitRaw (t : Transmitter) : Transmitter :=
  let t := if t.dataCur < phMsgSize - 1 then
      { t with dataBuf := t.dataBuf.setIfInBounds t.dataCur 0, dataCur := t.dataCur + 1 }
    else t
  let t := t.printf "Transmitting %s\r\n" [.s t.dataBuf.toList]
  { t with transBuf :=
      ((List.range t.dataCur).map (memory t.dataBuf)).foldl transmitByte t.transBuf }

/-- The body of the main routine that loads a finished line and starts its transmission. -/
def transmitData (t : Transmitter) : Transmitter :=
  -- only the byte position is reset here; the bit position is 0 already
  let t := { t with currByte := 0, gotMessage := false }
  let t := { t with transBuf := Ringbuffer.reset t.transBuf }
  let t := if t.packetMode then t.transmitPacket else t.transmitRaw
  let t := { t with dataBuf := t.dataBuf.setIfInBounds 0 0, dataCur := 0 }
  t.startTransmission

/-- The branch of the main routine that retransmits after a timeout period. -/
def retransmit (t : Transmitter) (random : ℕ) : Transmitter :=
  let t := { t with currByte := 0, currBit := 0 }
  (t.toggleRetransmission random true).startTransmission

/-- `transmitter_mainRoutineUpdate`: `c` is what `usart2_getch` returns and `random` what `rand`
returns, where they are called. -/
def mainRoutineUpdate (t : Transmitter) (state : MonitorState) (c : Byte) (random : ℕ) :
    Transmitter :=
  if t.inTransmission && t.transmissionComplete then t
  else if !t.inTransmission && t.transmissionComplete then
    let t := t.readChar c
    -- start the transmission when the line is idle, and there's something to transmit
    if state = .idle && !t.inTransmission && t.gotMessage then t.transmitData else t
  -- retransmit after a timeout period
  else if state = .idle && !t.inTransmission && !t.transmissionComplete then t.retransmit random
  else t

/-- The half-bit that the interrupt would drive next. -/
def nextHalfBit (t : Transmitter) : Bool :=
  Ringbuffer.cell t.transBuf t.currByte &&& (1#8 <<< (7 - t.currBit)) ≠ 0

/-- The part of the interrupt that drives one half-bit and moves on to the next. -/
def transmitBit (t : Transmitter) : Transmitter :=
  -- bits are sent MSB -> LSB
  let t := { t with pin := t.nextHalfBit }
  let t := { t with currBit := t.currBit + 1 }
  if t.currBit = 8 then { t with currBit := 0, currByte := t.currByte + 1 } else t

/-- Nothing is left to transmit. -/
def atEnd (t : Transmitter) : Bool :=
  !Ringbuffer.hasElement t.transBuf || decide (t.currByte = t.transBuf.put)

/-- `TIM2_IRQHandler`. -/
def tim2IRQHandler (t : Transmitter) (state : MonitorState) : Transmitter :=
  let t := { t with tim2 := t.tim2.clearOutputCmpModePendingFlag }
  -- retransmission mode, start transmission after timeout
  if t.retransmissionTimeoutActive then (t.toggleRetransmission 0 false).startTransmission
  -- the end of the message is tested before the collision
  else if t.atEnd then { t.stopTransmission with transmissionComplete := true }
  else if state = .collision then { t.stopTransmission with transmissionComplete := false }
  else t.transmitBit

/-- `initTransmissionTimer`. -/
def initTransmissionTimer : Tim :=
  ((((Tim.reset.setArr transmissionTicks).setCcr1 transmissionTicks).setPsc 0).clearCnt).startCounter

/-- `transmitter_init`, from the zero-initialised variables; `pin` is the level that PC9 has
when it becomes an output. -/
def init (srcAddr destAddr : Byte) (packetMode pin : Bool) : Transmitter where
  transBuf := ⟨0, 0, Vector.replicate _ 0⟩
  currBit := 0
  currByte := 0
  inTransmission := false
  transmissionComplete := true
  retransmissionTimeoutActive := false
  packetMode := packetMode
  src := srcAddr
  dest := destAddr
  gotMessage := false
  pkt := PacketHeader.zero
  dataBuf := Vector.replicate _ 0
  dataCur := 0
  tim2 := initTransmissionTimer
  pin := pin
  console := []

/-- Whether a call of the main routine reads a character. -/
def readsChar (t : Transmitter) : Bool := !t.inTransmission && t.transmissionComplete

/-- One core cycle of TIM2, its interrupt served at once. -/
def cycle (t : Transmitter) (state : MonitorState) : Transmitter :=
  let updates := t.tim2.updates
  let t := { t with tim2 := t.tim2.cycle }
  if updates then t.tim2IRQHandler state else t

end Transmitter

end NetworkingCard
