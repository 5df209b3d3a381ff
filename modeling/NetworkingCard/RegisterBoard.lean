import NetworkingCard.Drivers
import NetworkingCard.Node

/-!
# The board at the level of its registers

`Node` takes each peripheral for what the program uses it for: two counters, three pins, a timeout.
`RegisterBoard` has the variables of the modules and the words of the peripherals instead. Its
handlers and routines make the register accesses of the source, in the source's order, and an
interrupt is served only where the registers enable it. `RegisterBoard.node` reads the peripherals
of a `Node` off the words.
-/

namespace NetworkingCard

/-! ## Addresses -/

/-- `RCC_APB2ENR`. -/
def rccApb2enr : ℕ := 0x40023844

/-- `SYSCFG_EXTICR2`. -/
def syscfgExticr2 : ℕ := 0x4001380C

/-- `EXTI_IMR`. -/
def extiImr : ℕ := 0x40013C00

/-- `EXTI_RTSR`. -/
def extiRtsr : ℕ := 0x40013C08

/-- `EXTI_FTSR`. -/
def extiFtsr : ℕ := 0x40013C0C

/-- `EXTI_PR`. -/
def extiPr : ℕ := 0x40013C14

/-- `STK_CTRL`. -/
def stkCtrl : ℕ := 0xE000E010

/-- `STK_LOAD`. -/
def stkLoad : ℕ := 0xE000E014

/-- `STK_VAL`. -/
def stkVal : ℕ := 0xE000E018

/-- `NVIC_IPR2`. -/
def nvicIpr2 : ℕ := 0xE000E408

/-- `USART_BRR`. -/
def usartBrr : ℕ := 0x40004408

/-- `USART_CR1`. -/
def usartCr1 : ℕ := 0x4000440C

/-- `USART_CR2`. -/
def usartCr2 : ℕ := 0x40004410

/-- `USART_CR3`. -/
def usartCr3 : ℕ := 0x40004414

/-- `GPIOB_BASE->MODER`. -/
def moderB : ℕ := selectGpio .b + Gpio.moder

/-- `GPIOB_BASE->ODR`. -/
def odrB : ℕ := selectGpio .b + Gpio.odr

/-- `GPIOC_BASE->MODER`. -/
def moderC : ℕ := selectGpio .c + Gpio.moder

/-- `GPIOC_BASE->IDR`. -/
def idrC : ℕ := selectGpio .c + Gpio.idr

/-- `GPIOC_BASE->ODR`. -/
def odrC : ℕ := selectGpio .c + Gpio.odr

/-- Where TIM2 is found. -/
def tim2Place : TimPlace := ⟨0x40000000, 0, 28⟩

/-- Where TIM4 is found. -/
def tim4Place : TimPlace := ⟨0x40000800, 2, 30⟩

namespace Registers

/-! ## `transmitter.c` -/

/-- `startTransmission`. -/
def startTransmission (m : Registers) : Registers :=
  (m.timCall (.tim2, .clearCnt)).timCall (.tim2, .startCounter)

/-- `stopTransmission`. -/
def stopTransmission (m : Registers) : Registers :=
  timCall (m.assign odrC (.or (1#32 <<< 9))) (.tim2, .stopCounter)

/-- `toggleRetransmission`. -/
def toggleRetransmission (m : Registers) (random : ℕ) (retransmission : Bool) : Registers :=
  let m := m.timCall (.tim2, .stopCounter)
  if retransmission then
    let m := m.timCall (.tim2, .setPsc 16000)
    let w := BitVec.ofNat 32 (Transmitter.backoff random)
    (m.timCall (.tim2, .setArr w)).timCall (.tim2, .setCcr1 w)
  else
    let m := m.timCall (.tim2, .setPsc 0)
    let ticks := BitVec.ofNat 32 transmissionTicks
    (m.timCall (.tim2, .setArr ticks)).timCall (.tim2, .setCcr1 ticks)

/-- `transmitter_mainRoutineUpdate`. -/
def transmitterUpdate (m : Registers) (t : Transmitter) (state : MonitorState) (c : Byte)
    (random : ℕ) : Registers :=
  if t.inTransmission && t.transmissionComplete then m
  else if !t.inTransmission && t.transmissionComplete then
    let t := t.readChar c
    if state = .idle && !t.inTransmission && t.gotMessage then m.startTransmission else m
  else if state = .idle && !t.inTransmission && !t.transmissionComplete then
    (m.toggleRetransmission random true).startTransmission
  else m

/-- What ends a transmission in `TIM2_IRQHandler`: the synchronisation signal on PC5 goes low. -/
def endTransmission (m : Registers) : Registers :=
  m.stopTransmission.assign odrC (.and (~~~(1#32 <<< 5)))

/-- The part of the interrupt that drives one half-bit; PC5 goes high with the first one. -/
def transmitBit (m : Registers) (t : Transmitter) : Registers :=
  let m := if t.currByte = 0 && t.currBit = 0 then m.assign odrC (.or (1#32 <<< 5)) else m
  if t.nextHalfBit then m.assign odrC (.or (1#32 <<< 9))
  else m.assign odrC (.and (~~~(1#32 <<< 9)))

/-- `TIM2_IRQHandler`. -/
def tim2IRQHandler (m : Registers) (t : Transmitter) (state : MonitorState) : Registers :=
  let m := m.timCall (.tim2, .clearOutputCmpModePendingFlag)
  if t.retransmissionTimeoutActive then (m.toggleRetransmission 0 false).startTransmission
  else if t.atEnd then m.endTransmission
  else if state = .collision then m.endTransmission
  else m.transmitBit t

/-- `initTransmissionTimer`. -/
def initTransmissionTimer (m : Registers) : Registers :=
  [.enableTimerClk, .setArr (BitVec.ofNat 32 transmissionTicks),
    .setCcr1 (BitVec.ofNat 32 transmissionTicks), .setPsc 0, .setToOutputCmpMode,
    .enableOutputOutputCmpMode, .clearCnt, .startCounter, .enableOutputCmpModeInterrupt,
    .logTimInterrupt].foldl (fun m call => m.timCall (.tim2, call)) m

/-- `init_usart2`. -/
def initUsart2 (m : Registers) (baud sysclk : ℕ) : Registers :=
  m.assigns [(rccAhb1enr, .or (1#32 <<< 0)), (rccApb1enr, .or (1#32 <<< 17)),
    (selectGpio .a + Gpio.afrl, .and 0xFFFF00FF#32),
    (selectGpio .a + Gpio.afrl, .or (0b01110111#32 <<< 8)),
    (selectGpio .a + Gpio.moder, .and 0xFFFFFF0F#32),
    (selectGpio .a + Gpio.moder, .or (0b1010#32 <<< 4)),
    (usartCr1, .set (1#32 <<< 13 ||| 1#32 <<< 3 ||| 1#32 <<< 2)), (usartCr2, .set 0),
    (usartCr3, .set 0), (usartBrr, .set (BitVec.ofNat 32 (sysclk / baud)))]

/-- `F_CPU`. -/
def fCpu : ℕ := 16000000

/-- `transmitter_init`. -/
def transmitterInit (m : Registers) : Registers :=
  let m := (m.initUsart2 19200 fCpu).initTransmissionTimer
  let m := (m.initGpio .c).enableOutputMode .c 9
  (m.initGpio .c).enableOutputMode .c 5

/-! ## `monitor.c` -/

/-- `updateMonitorState`. -/
def updateMonitorState (m : Registers) (newState : MonitorState) : Registers :=
  (m.assign odrB (.and (~~~(0b111#32 <<< 13)))).assign odrB (.or (Monitor.led newState))

/-- `resetTimer`. -/
def resetTimer (m : Registers) (tUs : ℕ) : Registers :=
  m.assigns [(stkCtrl, .and (~~~(1#32 <<< 0))), (stkLoad, .set (16 * BitVec.ofNat 32 tUs)),
    (stkVal, .set 0), (stkCtrl, .or (1#32 <<< 0 ||| 1#32 <<< 2 ||| 1#32 <<< 1))]

/-- `SysTick_Handler`. -/
def sysTickHandler (m : Registers) (mon : Monitor) : Registers :=
  let m : Registers := m.assign stkCtrl (.and (~~~(1#32 <<< 0)))
  if mon.lineState then m.updateMonitorState .idle else m.updateMonitorState .collision

/-- `monitor_Edge_Intrr`. -/
def monitorEdgeIntrr (m : Registers) : Registers :=
  (m.resetTimer transmissionTimeoutUs).updateMonitorState .busy

/-- `setupPinInterrupt`, with `exti9Enable` false. -/
def setupPinInterrupt (m : Registers) : Registers :=
  let m : Registers := m.assign rccApb2enr (.or (1#32 <<< 14))
  (m.initGpio .c).enableInputMode .c 4

/-- `monitor_start(false)`. -/
def monitorStart (m : Registers) : Registers :=
  let m : Registers := (m.initGpio .b).assign moderB (.or (0b010101#32 <<< 26))
  ((m.initGpio .c).updateMonitorState .idle).setupPinInterrupt

/-! ## `receiver.c` -/

/-- `receiver_mainRoutineUpdate`: TIM4 is stopped when a collision drops a message. -/
def receiverUpdate (m : Registers) (r : Receiver) (state : MonitorState) : Registers :=
  let r := if state = .idle then r.idleReset else r
  if r.currentlyReceiving && decide (state = .collision) then m.timCall (.tim4, .stopCounter) else m

/-- What a write to `EXTI_PR` does: a 1 clears the bit. -/
def writeExtiPr (m : Registers) (value : BitVec 32) : Registers :=
  m.assign extiPr (.and (~~~value))

/-- The receiver's part of `EXTI4_IRQHandler`: PC6 toggles with every sample. -/
def edge (m : Registers) (r : Receiver) : Registers :=
  if r.sample then
    RegisterFile.assign ((m.timCall (.tim4, .clearCnt)).timCall (.tim4, .startCounter)) odrC
      (.xor (1#32 <<< 6))
  else m.timCall (.tim4, .stopCounter)

/-- `EXTI4_IRQHandler`. -/
def exti4IRQHandler (m : Registers) (r : Receiver) : Registers :=
  if m extiPr &&& 1#32 <<< 4 = 0 then m
  else (m.writeExtiPr (m extiPr ||| 1#32 <<< 4)).monitorEdgeIntrr.edge r

/-- `TIM4_IRQHandler`: PC8 toggles with every call. -/
def tim4IRQHandler (m : Registers) : Registers :=
  let m := m.timCall (.tim4, .clearOutputCmpModePendingFlag)
  timCall (m.assign odrC (.xor (1#32 <<< 8))) (.tim4, .stopCounter)

/-- `initCounterTimer`. -/
def initCounterTimer (m : Registers) : Registers :=
  [.enableTimerClk, .setArr (BitVec.ofNat 32 halfbitTimeoutTicks),
    .setCcr1 (BitVec.ofNat 32 halfbitTimeoutTicks), .setToOutputCmpMode,
    .enableOutputOutputCmpMode, .clearCnt, .startCounter, .enableOutputCmpModeInterrupt,
    .logTimInterrupt].foldl (fun m call => m.timCall (.tim4, call)) m

/-- `initExternalInterrupt`. -/
def initExternalInterrupt (m : Registers) : Registers :=
  let m : Registers := m.assign rccApb2enr (.or (1#32 <<< 14))
  let m := (m.initGpio .c).enableInputMode .c 4
  m.assigns [(syscfgExticr2, .and (~~~(0b1111#32 <<< 0))), (syscfgExticr2, .or (0b0010#32 <<< 0)),
    (extiImr, .or (1#32 <<< 4)), (extiFtsr, .or (1#32 <<< 4)), (extiRtsr, .or (1#32 <<< 4)),
    -- the field of interrupt 11, not of interrupt 10
    (nvicIpr2, .or (0xF0#32 <<< 24)), (iser0, .or (1#32 <<< 10))]

/-- `receiver_init`. -/
def receiverInit (m : Registers) : Registers :=
  let m := (m.initUsart2 19200 fCpu).initGpio .c
  let m := (m.enableOutputMode .c 6).enableOutputMode .c 8
  m.initExternalInterrupt.initCounterTimer

/-- `main` up to its loop. -/
def main (m : Registers) : Registers :=
  (m.initUsart2 19200 fCpu).monitorStart.transmitterInit.receiverInit

/-! ## The peripherals -/

/-- What the counter of a timer writes: `CNT` and the flag `UIF`. -/
def count (m : Registers) (tim : Tims) (t : Tim) : Registers :=
  onTimer m tim [(TimReg.cnt, .set (BitVec.ofNat 32 t.cnt)),
    (TimReg.sr, if t.uif then .or 1#32 else .and (~~~1#32))]

/-- Whether a timer has a clock and is enabled. -/
def timerRuns (m : Registers) (place : TimPlace) : Bool :=
  (m rccApb1enr).getLsbD place.clockBit && (m (place.base + TimReg.cr1)).getLsbD 0

/-- Whether the flag `UIF` of a timer interrupts the program. -/
def timerInterrupts (m : Registers) (place : TimPlace) : Bool :=
  (m (place.base + TimReg.dier)).getLsbD 0 && (m iser0).getLsbD place.irq

/-- PC4 takes a level. -/
def setIdr4 (m : Registers) (level : Bool) : Registers :=
  m.assign idrC (if level then .or (1#32 <<< 4) else .and (~~~(1#32 <<< 4)))

/-- Whether an edge to this level interrupts the program: PC4 is an input, it is connected to
EXTI4, and EXTI4 is sensitive to the edge and enabled. -/
def edgeInterrupts (m : Registers) (level : Bool) : Bool :=
  decide (m moderC &&& 0b11#32 <<< 8 = 0) && decide (m syscfgExticr2 &&& 0b1111#32 = 0b0010#32) &&
    (m (if level then extiRtsr else extiFtsr)).getLsbD 4 && (m extiImr).getLsbD 4 &&
    (m iser0).getLsbD 10

/-- Whether the timeout of SysTick interrupts the program. -/
def sysTickInterrupts (m : Registers) : Bool := (m stkCtrl).getLsbD 1

end Registers

/-- The variables of a board, the words of its peripherals, and the active prescalers of TIM2 and
TIM4 with their counts, which no word shows. The peripherals in `vars` are not looked at. -/
structure RegisterBoard where
  vars : Node
  regs : Registers
  hidden2 : ℕ × ℕ
  hidden4 : ℕ × ℕ

/-- A transmitter with the timer and the pin that the words show. -/
def Registers.loadTx (m : Registers) (hidden2 : ℕ × ℕ) (t : Transmitter) : Transmitter :=
  { t with tim2 := (m.timState tim2Place hidden2).tim, pin := (m odrC).getLsbD 9 }

/-- A monitor with the LEDs and the timeout that the words show. -/
def Registers.loadMon (m : Registers) (mon : Monitor) : Monitor :=
  { mon with
    odrB := m odrB
    stk := ⟨(m stkCtrl).getLsbD 0, (m stkLoad).toNat, (m stkVal).toNat⟩ }

/-- A receiver with the timer that the words show. -/
def Registers.loadRx (m : Registers) (hidden4 : ℕ × ℕ) (r : Receiver) : Receiver :=
  { r with tim4 := (m.timState tim4Place hidden4).tim }

namespace RegisterBoard

/-- The board whose peripherals are as the words show them. -/
def node (b : RegisterBoard) : Node where
  tx := b.regs.loadTx b.hidden2 b.vars.tx
  mon := b.regs.loadMon b.vars.mon
  rx := b.regs.loadRx b.hidden4 b.vars.rx
  idr4 := (b.regs idrC).getLsbD 4

/-- `main` up to its loop. -/
def boot (m : Registers) (src dest : Byte) (packetMode : Bool) : RegisterBoard where
  vars := Node.boot src dest packetMode false false
  regs := m.main
  hidden2 := (0, 0)
  hidden4 := (0, 0)

/-! ## The program -/

/-- A call of `transmitter_mainRoutineUpdate`. -/
def transmitterUpdate (b : RegisterBoard) (c : Byte) (random : ℕ) : RegisterBoard :=
  { b with
    vars := b.vars.transmitterUpdate c random
    regs := b.regs.transmitterUpdate b.vars.tx b.vars.mon.getState c random }

/-- A call of `receiver_mainRoutineUpdate`. -/
def receiverUpdate (b : RegisterBoard) : RegisterBoard :=
  { b with
    vars := b.vars.receiverUpdate
    regs := b.regs.receiverUpdate b.vars.rx b.vars.mon.getState }

/-- `TIM2_IRQHandler`. -/
def tim2IRQHandler (b : RegisterBoard) : RegisterBoard :=
  { b with
    vars := b.vars.tim2IRQHandler
    regs := b.regs.tim2IRQHandler b.vars.tx b.vars.mon.getState }

/-- `TIM4_IRQHandler`. -/
def tim4IRQHandler (b : RegisterBoard) : RegisterBoard :=
  { b with vars := b.vars.tim4IRQHandler, regs := b.regs.tim4IRQHandler }

/-- `EXTI4_IRQHandler`: nothing happens unless EXTI4 is pending. -/
def exti4IRQHandler (b : RegisterBoard) : RegisterBoard :=
  { b with
    vars := if b.regs extiPr &&& 1#32 <<< 4 = 0 then b.vars
      else { b.vars with idr4 := (b.regs idrC).getLsbD 4 }.exti4IRQHandler
    regs := b.regs.exti4IRQHandler b.vars.rx }

/-- `SysTick_Handler`. -/
def sysTickHandler (b : RegisterBoard) : RegisterBoard :=
  { b with vars := b.vars.sysTickHandler, regs := b.regs.sysTickHandler b.vars.mon }

/-! ## The peripherals -/

/-- The counter of TIM2 becomes `t`. -/
def count2 (b : RegisterBoard) (t : Tim) : RegisterBoard :=
  { b with regs := b.regs.count .tim2 t, hidden2 := (t.pscActive, t.pscCount) }

/-- The counter of TIM4 becomes `t`. -/
def count4 (b : RegisterBoard) (t : Tim) : RegisterBoard :=
  { b with regs := b.regs.count .tim4 t, hidden4 := (t.pscActive, t.pscCount) }

/-- An edge to this level: EXTI4 is pending afterwards if it is sensitive to the edge. -/
def edge (b : RegisterBoard) (level : Bool) : RegisterBoard :=
  { b with regs := (b.regs.setIdr4 level).assign extiPr (.or (1#32 <<< 4)) }

/-- One event; `none` for an interrupt that the registers do not enable. -/
def step (b : RegisterBoard) : Event → Option RegisterBoard
  | .transmitterUpdate c random => some (b.transmitterUpdate c random)
  | .receiverUpdate => some b.receiverUpdate
  | .tim2 =>
    if b.regs.timerRuns tim2Place && b.regs.timerInterrupts tim2Place then
      some (b.count2 (b.regs.timState tim2Place b.hidden2).tim.updateEvent).tim2IRQHandler
    else none
  | .tim4 =>
    if b.regs.timerRuns tim4Place && b.regs.timerInterrupts tim4Place then
      some (b.count4 (b.regs.timState tim4Place b.hidden4).tim.updateEvent).tim4IRQHandler
    else none
  | .exti4 level =>
    if b.regs.edgeInterrupts level then some (b.edge level).exti4IRQHandler else none
  | .sysTick =>
    if (b.regs stkCtrl).getLsbD 0 && b.regs.sysTickInterrupts then some b.sysTickHandler else none

/-- Execute the events in order. -/
abbrev run (b : RegisterBoard) (es : List Event) : Option RegisterBoard := Runs.run step b es

end RegisterBoard

end NetworkingCard
