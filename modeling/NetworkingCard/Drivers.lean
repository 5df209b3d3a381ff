import NetworkingCard.Library.RegisterFile
import NetworkingCard.Tim

/-!
# `gpio.c` and `tim.c` on the registers

The functions of the two drivers as what they do to the words at the addresses of `gpio.h`, `tim.h`,
`clock.h` and `isr.h`. Those of `tim.c` know three timers and do nothing for the others.

`timState_of_calls`: whatever calls are made for whatever timers in whatever order, each timer is in
the state that its own calls give it, and all other bits of all registers are kept. On the counter
the calls act as the functions of `Tim` (`timState_timCall`).
-/

namespace NetworkingCard

/-- The words of the peripherals at their addresses. -/
abbrev Registers := RegisterFile ℕ 32

/-! ## Addresses -/

/-- `RCC_AHB1ENR`. -/
def rccAhb1enr : ℕ := 0x40023830

/-- `RCC_APB1ENR`. -/
def rccApb1enr : ℕ := 0x40023840

/-- `ISER0`, also called `NVIC_ISER0`. -/
def iser0 : ℕ := 0xE000E100

/-- `enum GPIOs`. -/
inductive Gpios
  | a
  | b
  | c
  | d
deriving DecidableEq

/-- `select_gpio`. -/
def selectGpio : Gpios → ℕ
  | .a => 0x40020000
  | .b => 0x40020400
  | .c => 0x40020800
  | .d => 0x40020C00

namespace Gpio

/-! The offsets in the structure `GPIO`. -/

def moder : ℕ := 0x00

def idr : ℕ := 0x10

def odr : ℕ := 0x14

def afrl : ℕ := 0x20

end Gpio

/-- `enum TIMs`. -/
inductive Tims
  | tim1
  | tim2
  | tim3
  | tim4
  | tim5
  | tim6
  | tim7
  | tim8
  | tim9
  | tim10
  | tim11
  | tim12
  | tim13
  | tim14
deriving DecidableEq

/-- Where a timer is found: its own words, its clock enable bit in `RCC_APB1ENR` and its bit in
`ISER0`. -/
structure TimPlace where
  base : ℕ
  clockBit : ℕ
  irq : ℕ

/-- The timers that the functions of `tim.c` tell apart. -/
def Tims.place : Tims → Option TimPlace
  | .tim2 => some ⟨0x40000000, 0, 28⟩
  | .tim3 => some ⟨0x40000400, 1, 29⟩
  | .tim4 => some ⟨0x40000800, 2, 30⟩
  | _ => none

namespace TimReg

/-! The offsets in the structure `TIMER2to5`. -/

def cr1 : ℕ := 0x00

def dier : ℕ := 0x0C

def sr : ℕ := 0x10

def ccmr1 : ℕ := 0x18

def ccer : ℕ := 0x20

def cnt : ℕ := 0x24

def psc : ℕ := 0x28

def arr : ℕ := 0x2C

def ccr1 : ℕ := 0x34

end TimReg

namespace Registers

/-! ## `gpio.c` -/

/-- `init_GPIO`. -/
def initGpio (m : Registers) (gpio : Gpios) : Registers :=
  match gpio with
  | .a => m.assign rccAhb1enr (.or (1#32 <<< 0))
  | .b => m.assign rccAhb1enr (.or (1#32 <<< 1))
  | .c => m.assign rccAhb1enr (.or (1#32 <<< 2))
  | .d => m.assign rccAhb1enr (.or (1#32 <<< 3))

/-- `enable_input_mode`. -/
def enableInputMode (m : Registers) (gpio : Gpios) (pin : ℕ) : Registers :=
  m.assign (selectGpio gpio + Gpio.moder) (.and (~~~(0b11#32 <<< (2 * pin))))

/-- `enable_output_mode`. -/
def enableOutputMode (m : Registers) (gpio : Gpios) (pin : ℕ) : Registers :=
  let m := m.assign (selectGpio gpio + Gpio.moder) (.and (~~~(0b11#32 <<< (2 * pin))))
  m.assign (selectGpio gpio + Gpio.moder) (.or (1#32 <<< (2 * pin)))

/-! ## `tim.c` -/

/-- What most functions of `tim.c` consist of: assignments to words of the timer, given by their
offsets. -/
def onTimer (m : Registers) (tim : Tims) (ops : List (ℕ × Assign 32)) : Registers :=
  match tim.place with
  | some place => m.assigns (ops.map fun op => (place.base + op.1, op.2))
  | none => m

/-- `enable_timer_clk`. -/
def enableTimerClk (m : Registers) (tim : Tims) : Registers :=
  match tim with
  | .tim2 => m.assign rccApb1enr (.or (1#32 <<< 0))
  | .tim3 => m.assign rccApb1enr (.or (1#32 <<< 1))
  | .tim4 => m.assign rccApb1enr (.or (1#32 <<< 2))
  | _ => m

/-- `log_tim_interrupt`. -/
def logTimInterrupt (m : Registers) (tim : Tims) : Registers :=
  match tim with
  | .tim2 => m.assign iser0 (.or (1#32 <<< 28))
  | .tim3 => m.assign iser0 (.or (1#32 <<< 29))
  | .tim4 => m.assign iser0 (.or (1#32 <<< 30))
  | _ => m

/-- `set_ccr1`. -/
def setCcr1 (m : Registers) (tim : Tims) (ticks : BitVec 32) : Registers :=
  onTimer m tim [(TimReg.ccr1, .set ticks)]

/-- `set_arr`. -/
def setArr (m : Registers) (tim : Tims) (ticks : BitVec 32) : Registers :=
  onTimer m tim [(TimReg.arr, .set ticks)]

/-- `clear_cnt`. -/
def clearCnt (m : Registers) (tim : Tims) : Registers := onTimer m tim [(TimReg.cnt, .set 0)]

/-- `set_psc`. -/
def setPsc (m : Registers) (tim : Tims) (ticks : BitVec 32) : Registers :=
  onTimer m tim [(TimReg.psc, .set ticks)]

/-- `start_counter`. -/
def startCounter (m : Registers) (tim : Tims) : Registers :=
  onTimer m tim [(TimReg.cr1, .or (1#32 <<< 0))]

/-- `stop_counter`. -/
def stopCounter (m : Registers) (tim : Tims) : Registers :=
  onTimer m tim [(TimReg.cr1, .and (~~~(1#32 <<< 0)))]

/-- `set_to_counter_mode`. -/
def setToCounterMode (m : Registers) (tim : Tims) : Registers :=
  onTimer m tim [(TimReg.cr1, .or (1#32 <<< 2))]

/-- `enable_counter_mode_interrupt`. -/
def enableCounterModeInterrupt (m : Registers) (tim : Tims) : Registers :=
  onTimer m tim [(TimReg.dier, .or (1#32 <<< 0))]

/-- `disable_counter_mode_interrupt`. -/
def disableCounterModeInterrupt (m : Registers) (tim : Tims) : Registers :=
  onTimer m tim [(TimReg.dier, .and (~~~(1#32 <<< 0)))]

/-- `clear_counter_mode_pending_flag`. -/
def clearCounterModePendingFlag (m : Registers) (tim : Tims) : Registers :=
  onTimer m tim [(TimReg.sr, .and (~~~(1#32 <<< 0)))]

/-- `set_edge_type` for both edges. -/
def setEdgeTypeBoth : List (ℕ × Assign 32) :=
  [(TimReg.ccer, .and (~~~(1#32 <<< 1))), (TimReg.ccer, .or (1#32 <<< 1)),
    (TimReg.ccer, .and (~~~(1#32 <<< 3))), (TimReg.ccer, .or (1#32 <<< 3))]

/-- `set_to_input_capture_mode`, with what `input_capture_mode` does. -/
def setToInputCaptureMode (m : Registers) (tim : Tims) : Registers :=
  onTimer m tim ([(TimReg.ccmr1, .and (~~~(0b11#32 <<< 0))), (TimReg.ccmr1, .or (0b01#32 <<< 0))] ++
    setEdgeTypeBoth ++
    [(TimReg.ccmr1, .and (~~~(0b11#32 <<< 2))), (TimReg.ccer, .or (1#32 <<< 0))])

/-- `enable_input_capture_mode_interrupt`. -/
def enableInputCaptureModeInterrupt (m : Registers) (tim : Tims) : Registers :=
  onTimer m tim [(TimReg.dier, .or (1#32 <<< 1))]

/-- `disable_input_capture_mode_interrupt`. -/
def disableInputCaptureModeInterrupt (m : Registers) (tim : Tims) : Registers :=
  onTimer m tim [(TimReg.dier, .and (~~~(1#32 <<< 1)))]

/-- `clear_input_capture_mode_pending_flag`. -/
def clearInputCaptureModePendingFlag (m : Registers) (tim : Tims) : Registers :=
  onTimer m tim [(TimReg.sr, .and (~~~(1#32 <<< 1)))]

/-- `set_to_output_cmp_mode`, with the toggle mode of `output_cmp_mode`. -/
def setToOutputCmpMode (m : Registers) (tim : Tims) : Registers :=
  onTimer m tim [(TimReg.ccmr1, .and (~~~(0b111#32 <<< 4))), (TimReg.ccmr1, .or (0b011#32 <<< 4))]

/-- `enable_output_output_cmp_mode`. -/
def enableOutputOutputCmpMode (m : Registers) (tim : Tims) : Registers :=
  onTimer m tim [(TimReg.ccer, .or 1)]

/-- `disable_output_output_cmp_mode`. -/
def disableOutputOutputCmpMode (m : Registers) (tim : Tims) : Registers :=
  onTimer m tim [(TimReg.ccer, .and (~~~1))]

/-- `clear_output_cmp_mode_pending_flag`: clears `UIF`, not `CC1IF`. -/
def clearOutputCmpModePendingFlag (m : Registers) (tim : Tims) : Registers :=
  onTimer m tim [(TimReg.sr, .and (~~~(1#32 <<< 0)))]

/-- `enable_output_cmp_mode_interrupt`: for the update event, not the output compare. -/
def enableOutputCmpModeInterrupt (m : Registers) (tim : Tims) : Registers :=
  onTimer m tim [(TimReg.dier, .or 1)]

/-- `disable_output_cmp_mode_interrupt`. -/
def disableOutputCmpModeInterrupt (m : Registers) (tim : Tims) : Registers :=
  onTimer m tim [(TimReg.dier, .and (~~~1))]

end Registers

/-- A call of a function of `tim.c`. -/
inductive TimCall
  | enableTimerClk
  | logTimInterrupt
  | setCcr1 (ticks : BitVec 32)
  | setArr (ticks : BitVec 32)
  | clearCnt
  | setPsc (ticks : BitVec 32)
  | startCounter
  | stopCounter
  | setToCounterMode
  | enableCounterModeInterrupt
  | disableCounterModeInterrupt
  | clearCounterModePendingFlag
  | setToInputCaptureMode
  | enableInputCaptureModeInterrupt
  | disableInputCaptureModeInterrupt
  | clearInputCaptureModePendingFlag
  | setToOutputCmpMode
  | enableOutputOutputCmpMode
  | disableOutputOutputCmpMode
  | clearOutputCmpModePendingFlag
  | enableOutputCmpModeInterrupt
  | disableOutputCmpModeInterrupt

namespace Registers

/-- One call, for one of the timers. -/
def timCall (m : Registers) (call : Tims × TimCall) : Registers :=
  match call.2 with
  | .enableTimerClk => enableTimerClk m call.1
  | .logTimInterrupt => logTimInterrupt m call.1
  | .setCcr1 ticks => setCcr1 m call.1 ticks
  | .setArr ticks => setArr m call.1 ticks
  | .clearCnt => clearCnt m call.1
  | .setPsc ticks => setPsc m call.1 ticks
  | .startCounter => startCounter m call.1
  | .stopCounter => stopCounter m call.1
  | .setToCounterMode => setToCounterMode m call.1
  | .enableCounterModeInterrupt => enableCounterModeInterrupt m call.1
  | .disableCounterModeInterrupt => disableCounterModeInterrupt m call.1
  | .clearCounterModePendingFlag => clearCounterModePendingFlag m call.1
  | .setToInputCaptureMode => setToInputCaptureMode m call.1
  | .enableInputCaptureModeInterrupt => enableInputCaptureModeInterrupt m call.1
  | .disableInputCaptureModeInterrupt => disableInputCaptureModeInterrupt m call.1
  | .clearInputCaptureModePendingFlag => clearInputCaptureModePendingFlag m call.1
  | .setToOutputCmpMode => setToOutputCmpMode m call.1
  | .enableOutputOutputCmpMode => enableOutputOutputCmpMode m call.1
  | .disableOutputOutputCmpMode => disableOutputOutputCmpMode m call.1
  | .clearOutputCmpModePendingFlag => clearOutputCmpModePendingFlag m call.1
  | .enableOutputCmpModeInterrupt => enableOutputCmpModeInterrupt m call.1
  | .disableOutputCmpModeInterrupt => disableOutputCmpModeInterrupt m call.1

end Registers

/-! ## The state of a timer -/

/-- A timer with the bits that tell whether it has a clock and whether its interrupts get through,
and its two mode registers. -/
structure TimState where
  tim : Tim
  clockEnable : Bool
  urs : Bool
  uie : Bool
  cc1ie : Bool
  cc1if : Bool
  irqEnable : Bool
  ccmr1 : BitVec 32
  ccer : BitVec 32

namespace Registers

/-- The words of a timer, by their offsets. -/
def block (m : Registers) (base : ℕ) : Registers := fun offset => m (base + offset)

/-- The counter that these words show; `hidden` is the active prescaler and its count, which no
register shows. -/
def timOf (words : Registers) (hidden : ℕ × ℕ) : Tim where
  cen := (words TimReg.cr1).getLsbD 0
  uif := (words TimReg.sr).getLsbD 0
  cnt := (words TimReg.cnt).toNat
  psc := (words TimReg.psc).toNat
  pscActive := hidden.1
  pscCount := hidden.2
  arr := (words TimReg.arr).toNat
  ccr1 := (words TimReg.ccr1).toNat

/-- The state of a timer from its own words and its bits of the shared ones. -/
def timStateOf (words : Registers) (clockEnable irqEnable : Bool) (hidden : ℕ × ℕ) :
    TimState where
  tim := timOf words hidden
  clockEnable := clockEnable
  urs := (words TimReg.cr1).getLsbD 2
  uie := (words TimReg.dier).getLsbD 0
  cc1ie := (words TimReg.dier).getLsbD 1
  cc1if := (words TimReg.sr).getLsbD 1
  irqEnable := irqEnable
  ccmr1 := words TimReg.ccmr1
  ccer := words TimReg.ccer

/-- The state of the timer at a place. -/
def timState (m : Registers) (place : TimPlace) (hidden : ℕ × ℕ) : TimState :=
  timStateOf (block m place.base) ((m rccApb1enr).getLsbD place.clockBit)
    ((m iser0).getLsbD place.irq) hidden

end Registers

/-- What a call for a timer makes of it. -/
def TimCall.effect (s : TimState) : TimCall → TimState
  | .enableTimerClk => { s with clockEnable := true }
  | .logTimInterrupt => { s with irqEnable := true }
  | .setCcr1 ticks => { s with tim := s.tim.setCcr1 ticks.toNat }
  | .setArr ticks => { s with tim := s.tim.setArr ticks.toNat }
  | .clearCnt => { s with tim := s.tim.clearCnt }
  | .setPsc ticks => { s with tim := s.tim.setPsc ticks.toNat }
  | .startCounter => { s with tim := s.tim.startCounter }
  | .stopCounter => { s with tim := s.tim.stopCounter }
  | .setToCounterMode => { s with urs := true }
  | .enableCounterModeInterrupt | .enableOutputCmpModeInterrupt => { s with uie := true }
  | .disableCounterModeInterrupt | .disableOutputCmpModeInterrupt => { s with uie := false }
  | .clearCounterModePendingFlag | .clearOutputCmpModePendingFlag =>
    { s with tim := s.tim.clearOutputCmpModePendingFlag }
  | .setToInputCaptureMode =>
    -- channel 1 captures every edge of both kinds
    { s with ccmr1 := (s.ccmr1 &&& ~~~0b11#32 ||| 0b01#32) &&& ~~~0b1100#32,
             ccer := s.ccer ||| 0b1011#32 }
  | .enableInputCaptureModeInterrupt => { s with cc1ie := true }
  | .disableInputCaptureModeInterrupt => { s with cc1ie := false }
  | .clearInputCaptureModePendingFlag => { s with cc1if := false }
  | .setToOutputCmpMode => { s with ccmr1 := s.ccmr1 &&& ~~~0b1110000#32 ||| 0b0110000#32 }
  | .enableOutputOutputCmpMode => { s with ccer := s.ccer ||| 1#32 }
  | .disableOutputOutputCmpMode => { s with ccer := s.ccer &&& ~~~1#32 }

/-! ## One call -/

namespace Tims

variable {tim tim' : Tims} {place place' : TimPlace}

theorem place_eq_some (h : tim.place = some place) :
    (tim = .tim2 ∧ place = ⟨0x40000000, 0, 28⟩) ∨ (tim = .tim3 ∧ place = ⟨0x40000400, 1, 29⟩) ∨
      (tim = .tim4 ∧ place = ⟨0x40000800, 2, 30⟩) := by
  cases tim
  case tim2 => exact .inl ⟨rfl, (Option.some.inj h).symm⟩
  case tim3 => exact .inr (.inl ⟨rfl, (Option.some.inj h).symm⟩)
  case tim4 => exact .inr (.inr ⟨rfl, (Option.some.inj h).symm⟩)
  all_goals exact (Option.some_ne_none place h.symm).elim

/-- The words of the timers lie below the shared ones. -/
theorem base_bounds (h : tim.place = some place) :
    0x40000000 ≤ place.base ∧ place.base + 0x400 ≤ 0x40000C00 ∧ place.clockBit < 3 ∧
      place.irq < 32 := by
  rcases place_eq_some h with ⟨_, rfl⟩ | ⟨_, rfl⟩ | ⟨_, rfl⟩ <;> simp

/-- Two timers have no word in common, and no bit of a shared word. -/
theorem place_disjoint (h : tim.place = some place) (h' : tim'.place = some place')
    (hne : tim' ≠ tim) :
    (place.base + 0x400 ≤ place'.base ∨ place'.base + 0x400 ≤ place.base) ∧
      place.clockBit ≠ place'.clockBit ∧ place.irq ≠ place'.irq := by
  rcases place_eq_some h with ⟨rfl, rfl⟩ | ⟨rfl, rfl⟩ | ⟨rfl, rfl⟩ <;>
    rcases place_eq_some h' with ⟨rfl, rfl⟩ | ⟨rfl, rfl⟩ | ⟨rfl, rfl⟩ <;>
    first | exact absurd rfl hne | simp

end Tims

namespace Registers

variable {tim tim' : Tims} {place place' : TimPlace} {ops : List (ℕ × Assign 32)}

/-- All but two of the functions are assignments to words of the timer. -/
theorem exists_onTimer {call : TimCall} (hclk : call ≠ .enableTimerClk)
    (hirq : call ≠ .logTimInterrupt) :
    ∃ ops : List (ℕ × Assign 32), (∀ op ∈ ops, op.1 < 0x400) ∧
      ∀ m tim, timCall m (tim, call) = onTimer m tim ops := by
  cases call
  case enableTimerClk => exact absurd rfl hclk
  case logTimInterrupt => exact absurd rfl hirq
  all_goals
    refine ⟨_, ?_, fun _ _ => rfl⟩
    simp [setEdgeTypeBoth, TimReg.cr1, TimReg.dier, TimReg.sr, TimReg.ccmr1, TimReg.ccer,
      TimReg.cnt, TimReg.psc, TimReg.arr, TimReg.ccr1]

theorem onTimer_of_place (m : Registers) (h : tim.place = some place) :
    onTimer m tim ops = m.assigns (ops.map fun op => (place.base + op.1, op.2)) := by
  rw [onTimer, h]

/-- Assignments to a timer leave what is outside its words. -/
theorem onTimer_apply_of_ne (m : Registers) (hops : ∀ op ∈ ops, op.1 < 0x400) {a : ℕ}
    (ha : ∀ place, tim.place = some place → a < place.base ∨ place.base + 0x400 ≤ a) :
    onTimer m tim ops a = m a := by
  cases hplace : tim.place with
  | none => rw [onTimer, hplace]
  | some place =>
    rw [onTimer_of_place m hplace]
    apply RegisterFile.assigns_of_not_mem
    intro op' hop'
    obtain ⟨op, hop, rfl⟩ := List.mem_map.mp hop'
    have hbound := hops op hop
    have houtside := ha place hplace
    show a ≠ place.base + op.1
    omega

theorem block_onTimer (m : Registers) (h : tim.place = some place) :
    block (onTimer m tim ops) place.base = (block m place.base).assigns ops := by
  rw [onTimer_of_place m h]
  exact RegisterFile.assigns_comp m (add_right_injective place.base) ops

theorem block_onTimer_of_ne (m : Registers) (hops : ∀ op ∈ ops, op.1 < 0x400)
    (h : tim.place = some place) (hne : tim' ≠ tim) {offset : ℕ} (hoffset : offset < 0x400) :
    block (onTimer m tim' ops) place.base offset = block m place.base offset := by
  apply onTimer_apply_of_ne m hops
  intro place' h'
  have hdisjoint := (Tims.place_disjoint h h' hne).1
  omega

/-- The other two set one bit of a shared word. -/
theorem enableTimerClk_of_place (m : Registers) (h : tim.place = some place) :
    enableTimerClk m tim = m.assign rccApb1enr (.or (1#32 <<< place.clockBit)) := by
  rcases Tims.place_eq_some h with ⟨rfl, rfl⟩ | ⟨rfl, rfl⟩ | ⟨rfl, rfl⟩ <;> rfl

theorem logTimInterrupt_of_place (m : Registers) (h : tim.place = some place) :
    logTimInterrupt m tim = m.assign iser0 (.or (1#32 <<< place.irq)) := by
  rcases Tims.place_eq_some h with ⟨rfl, rfl⟩ | ⟨rfl, rfl⟩ | ⟨rfl, rfl⟩ <;> rfl

theorem timCall_of_place_eq_none (m : Registers) (h : tim.place = none) (call : TimCall) :
    timCall m (tim, call) = m := by
  cases tim
  case tim2 => exact (Option.some_ne_none _ h).elim
  case tim3 => exact (Option.some_ne_none _ h).elim
  case tim4 => exact (Option.some_ne_none _ h).elim
  all_goals cases call <;> rfl

/-- A timer's state is in its own words and its bits of the shared ones. -/
theorem timState_congr {m m' : Registers}
    (hwords : ∀ offset < 0x400, block m' place.base offset = block m place.base offset)
    (hidden : ℕ × ℕ) :
    timState m' place hidden = { timState m place hidden with
      clockEnable := (m' rccApb1enr).getLsbD place.clockBit
      irqEnable := (m' iser0).getLsbD place.irq } := by
  simp [timState, timStateOf, timOf, hwords, TimReg.cr1, TimReg.dier, TimReg.sr, TimReg.ccmr1,
    TimReg.ccer, TimReg.cnt, TimReg.psc, TimReg.arr, TimReg.ccr1]

/-- An assignment outside the words of the timers. -/
theorem timState_assign (m : Registers) (h : tim.place = some place) (hidden : ℕ × ℕ) {a : ℕ}
    (ha : 0x40000C00 ≤ a) (op : Assign 32) :
    timState (m.assign a op) place hidden = { timState m place hidden with
      clockEnable := (m.assign a op rccApb1enr).getLsbD place.clockBit
      irqEnable := (m.assign a op iser0).getLsbD place.irq } := by
  apply timState_congr
  intro offset hoffset
  have hbounds := Tims.base_bounds h
  rw [block, RegisterFile.assign_apply, if_neg (by omega)]
  rfl

theorem timState_enableTimerClk (m : Registers) (h : tim.place = some place)
    (h' : tim'.place = some place') (hidden : ℕ × ℕ) :
    timState (enableTimerClk m tim') place hidden = { timState m place hidden with
      clockEnable :=
        if place.clockBit = place'.clockBit then true
        else (timState m place hidden).clockEnable } := by
  have hbounds' := Tims.base_bounds h'
  rw [enableTimerClk_of_place m h', timState_assign m h hidden (by rw [rccApb1enr]; omega),
    RegisterFile.assign_apply, if_pos rfl, RegisterFile.assign_apply,
    if_neg (by rw [rccApb1enr, iser0]; omega), Assign.apply, BitVec.getLsbD_setBit _ (by omega)]
  rfl

theorem timState_logTimInterrupt (m : Registers) (h : tim.place = some place)
    (h' : tim'.place = some place') (hidden : ℕ × ℕ) :
    timState (logTimInterrupt m tim') place hidden = { timState m place hidden with
      irqEnable :=
        if place.irq = place'.irq then true else (timState m place hidden).irqEnable } := by
  have hbounds' := Tims.base_bounds h'
  rw [logTimInterrupt_of_place m h', timState_assign m h hidden (by rw [iser0]; omega),
    RegisterFile.assign_apply, if_neg (by rw [rccApb1enr, iser0]; omega),
    RegisterFile.assign_apply, if_pos rfl, Assign.apply, BitVec.getLsbD_setBit _ (by omega)]
  rfl

theorem onTimer_shared (m : Registers) (hops : ∀ op ∈ ops, op.1 < 0x400) {a : ℕ}
    (ha : 0x40000C00 ≤ a) : onTimer m tim ops a = m a := by
  apply onTimer_apply_of_ne m hops
  intro place h
  have hbounds := Tims.base_bounds h
  omega

theorem timState_onTimer_of_ne (m : Registers) (h : tim.place = some place)
    (hops : ∀ op ∈ ops, op.1 < 0x400) (hidden : ℕ × ℕ) (hne : tim' ≠ tim) :
    timState (onTimer m tim' ops) place hidden = timState m place hidden := by
  rw [timState_congr fun offset => block_onTimer_of_ne m hops h hne,
    onTimer_shared m hops (by rw [rccApb1enr]; omega),
    onTimer_shared m hops (by rw [iser0]; omega)]
  rfl

/-- A call for another timer. -/
theorem timState_timCall_of_ne (m : Registers) (h : tim.place = some place) (hidden : ℕ × ℕ)
    (hne : tim' ≠ tim) (call : TimCall) :
    timState (timCall m (tim', call)) place hidden = timState m place hidden := by
  cases h' : tim'.place with
  | none => rw [timCall_of_place_eq_none m h']
  | some place' =>
    obtain ⟨_, hclockBit, hirq⟩ := Tims.place_disjoint h h' hne
    by_cases hclk : call = .enableTimerClk
    · subst hclk
      show timState (enableTimerClk m tim') place hidden = _
      rw [timState_enableTimerClk m h h', if_neg hclockBit]
    · by_cases hlog : call = .logTimInterrupt
      · subst hlog
        show timState (logTimInterrupt m tim') place hidden = _
        rw [timState_logTimInterrupt m h h', if_neg hirq]
      · obtain ⟨ops, hops, heq⟩ := exists_onTimer hclk hlog
        rw [heq, timState_onTimer_of_ne m h hops hidden hne]

theorem timState_onTimer (m : Registers) (h : tim.place = some place)
    (hops : ∀ op ∈ ops, op.1 < 0x400) (hidden : ℕ × ℕ) :
    timState (onTimer m tim ops) place hidden = timStateOf ((block m place.base).assigns ops)
      ((m rccApb1enr).getLsbD place.clockBit) ((m iser0).getLsbD place.irq) hidden := by
  rw [timState, block_onTimer m h, onTimer_shared m hops (by rw [rccApb1enr]; omega),
    onTimer_shared m hops (by rw [iser0]; omega)]

/-- A call for the timer itself. -/
theorem timState_timCall (m : Registers) (h : tim.place = some place) (hidden : ℕ × ℕ)
    (call : TimCall) :
    timState (timCall m (tim, call)) place hidden = call.effect (timState m place hidden) := by
  cases call
  case enableTimerClk =>
    show timState (enableTimerClk m tim) place hidden = _
    rw [timState_enableTimerClk m h h, if_pos rfl]
    rfl
  case logTimInterrupt =>
    show timState (logTimInterrupt m tim) place hidden = _
    rw [timState_logTimInterrupt m h h, if_pos rfl]
    rfl
  case setToInputCaptureMode =>
    refine (timState_onTimer m h (by decide) hidden).trans ?_
    have hcc1p : ∀ x : BitVec 32, x &&& 4294967293#32 ||| 2#32 = x ||| 2#32 :=
      fun x => BitVec.and_not_or_self x 2#32
    have hcc1np : ∀ x : BitVec 32, x &&& 4294967287#32 ||| 8#32 = x ||| 8#32 :=
      fun x => BitVec.and_not_or_self x 8#32
    simp [timState, timStateOf, TimCall.effect, timOf, RegisterFile.assigns,
      RegisterFile.assign_apply, Assign.apply, setEdgeTypeBoth, TimReg.cr1, TimReg.dier,
      TimReg.sr, TimReg.ccmr1, TimReg.ccer, TimReg.cnt, TimReg.psc, TimReg.arr, TimReg.ccr1]
    rw [hcc1p, hcc1np, BitVec.or_assoc, BitVec.or_assoc]
    rfl
  all_goals
    refine (timState_onTimer m h ?_ hidden).trans ?_
    · simp [TimReg.cr1, TimReg.dier, TimReg.sr, TimReg.ccmr1, TimReg.ccer, TimReg.cnt, TimReg.psc,
        TimReg.arr, TimReg.ccr1]
    · simp [timState, timStateOf, TimCall.effect, timOf, RegisterFile.assigns,
        RegisterFile.assign_apply, Assign.apply, Tim.setCcr1, Tim.setArr, Tim.clearCnt, Tim.setPsc,
        Tim.startCounter, Tim.stopCounter, Tim.clearOutputCmpModePendingFlag, TimReg.cr1,
        TimReg.dier, TimReg.sr, TimReg.ccmr1, TimReg.ccer, TimReg.cnt, TimReg.psc, TimReg.arr,
        TimReg.ccr1]

/-- A bit that belongs to none of the timers. -/
def Foreign (a j : ℕ) : Prop :=
  ∀ (tim : Tims) (place : TimPlace), tim.place = some place →
    (a < place.base ∨ place.base + 0x400 ≤ a) ∧ (a = rccApb1enr → j ≠ place.clockBit) ∧
      (a = iser0 → j ≠ place.irq)

/-- A call keeps such a bit. -/
theorem getLsbD_timCall (m : Registers) {a j : ℕ} (ha : Foreign a j) (call : Tims × TimCall) :
    (timCall m call a).getLsbD j = (m a).getLsbD j := by
  obtain ⟨tim, call⟩ := call
  cases h : tim.place with
  | none => rw [timCall_of_place_eq_none m h]
  | some place =>
    obtain ⟨_, hclockBit, hirq⟩ := ha tim place h
    have hbounds := Tims.base_bounds h
    by_cases hclk : call = .enableTimerClk
    · subst hclk
      show (enableTimerClk m tim a).getLsbD j = _
      rw [enableTimerClk_of_place m h, RegisterFile.assign_apply]
      split
      · next heq =>
        rw [Assign.apply, BitVec.getLsbD_setBit _ (by omega), if_neg (hclockBit heq)]
      · rfl
    · by_cases hlog : call = .logTimInterrupt
      · subst hlog
        show (logTimInterrupt m tim a).getLsbD j = _
        rw [logTimInterrupt_of_place m h, RegisterFile.assign_apply]
        split
        · next heq =>
          rw [Assign.apply, BitVec.getLsbD_setBit _ (by omega), if_neg (hirq heq)]
        · rfl
      · obtain ⟨ops, hops, heq⟩ := exists_onTimer hclk hlog
        rw [heq, onTimer_apply_of_ne m hops fun place h => (ha tim place h).1]

/-! ## Any calls -/

/-- Whatever functions of `tim.c` are called for whatever timers, in whatever order: a timer is in
the state that the calls for it give it, and what belongs to none of the timers is kept. -/
theorem timState_of_calls (m : Registers) (calls : List (Tims × TimCall)) :
    (∀ (tim : Tims) (place : TimPlace) (hidden : ℕ × ℕ), tim.place = some place →
      timState (calls.foldl timCall m) place hidden =
        ((calls.filter fun call => call.1 = tim).map Prod.snd).foldl TimCall.effect
          (timState m place hidden)) ∧
      ∀ a j : ℕ, Foreign a j → (calls.foldl timCall m a).getLsbD j = (m a).getLsbD j := by
  constructor
  · intro tim place hidden h
    exact foldl_component (fun m => timState m place hidden) tim
      (fun m call => timState_timCall m h hidden call)
      (fun m tim' call hne => timState_timCall_of_ne m h hidden hne call) m calls
  · intro a j ha
    induction calls generalizing m with
    | nil => rfl
    | cons call calls ih => rw [List.foldl_cons, ih, getLsbD_timCall m ha]

/-- Calls for TIM2 and TIM4 in turn. -/
theorem timState_twoTimers :
    (timState ([(.tim2, .setArr 8000), (.tim4, .setArr 8107), (.tim2, .startCounter),
      (.tim4, .enableTimerClk)].foldl timCall fun _ => 0) ⟨0x40000000, 0, 28⟩ (0, 0)).tim =
        ⟨true, false, 0, 0, 0, 0, 8000, 0⟩ := by
  have h := (timState_of_calls (fun _ => 0) [(.tim2, .setArr 8000), (.tim4, .setArr 8107),
    (.tim2, .startCounter), (.tim4, .enableTimerClk)]).1 .tim2 ⟨0x40000000, 0, 28⟩ (0, 0) rfl
  rw [h]
  rfl

end Registers

end NetworkingCard
