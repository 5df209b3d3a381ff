import NetworkingCard.Basic

/-!
# `monitor.c`

The monitor of the line: its state, the cached line level, the LEDs that show the state, and the
SysTick timer that every edge restarts. `cycle` is SysTick's own count of one core cycle: started
with `VAL` 0 it first loads `LOAD` and raises its interrupt when it counts down to 0.
-/

namespace NetworkingCard

/-- `MONITOR_STATE`. -/
inductive MonitorState
  | idle
  | busy
  | collision
deriving DecidableEq, Repr

/-- `TRANSMISSION_TIMEOUT_US`. -/
def transmissionTimeoutUs : ℕ := 1110

/-- The SysTick registers: `ENABLE` of `STK_CTRL` (the clock source and interrupt bits are set
with it and never cleared), `STK_LOAD` and `STK_VAL`. -/
structure SysTick where
  enable : Bool
  load : ℕ
  val : ℕ

namespace SysTick

/-- Whether the next core cycle raises the interrupt. -/
def expires (t : SysTick) : Bool := t.enable && decide (t.val = 1)

/-- One core cycle. -/
def cycle (t : SysTick) : SysTick :=
  if t.enable then { t with val := if t.val = 0 then t.load else t.val - 1 } else t

end SysTick

/-- The variables of `monitor.c`, `GPIOB`'s output register and SysTick. -/
structure Monitor where
  monitorState : MonitorState
  lineState : Bool
  odrB : BitVec 32
  stk : SysTick

namespace Monitor

/-- `LED_IDLE_PB13`, `LED_BUSY_PB14` and `LED_COLLISION_PB15`. -/
def led : MonitorState → BitVec 32
  | .idle => 1 <<< 13
  | .busy => 1 <<< 14
  | .collision => 1 <<< 15

/-- `updateMonitorState`. -/
def updateMonitorState (m : Monitor) (newState : MonitorState) : Monitor :=
  let m := { m with odrB := m.odrB &&& ~~~(0b111#32 <<< 13) }
  { m with monitorState := newState, odrB := m.odrB ||| led newState }

/-- `monitor_getState`. -/
def getState (m : Monitor) : MonitorState := m.monitorState

/-- `resetTimer`. -/
def resetTimer (m : Monitor) (tUs : ℕ) : Monitor :=
  let m := { m with stk := { m.stk with enable := false } }
  let m := { m with stk := { m.stk with load := 16 * tUs } }
  let m := { m with stk := { m.stk with val := 0 } }
  { m with stk := { m.stk with enable := true } }

/-- `SysTick_Handler`. -/
def sysTickHandler (m : Monitor) : Monitor :=
  let m := { m with stk := { m.stk with enable := false } }
  -- a line that has stayed low is taken for a collision
  if m.lineState then m.updateMonitorState .idle else m.updateMonitorState .collision

/-- `monitor_Edge_Intrr`, with `idr4` the level read from PC4. -/
def edgeIntrr (m : Monitor) (idr4 : Bool) : Monitor :=
  let m := m.resetTimer transmissionTimeoutUs
  let m := { m with lineState := idr4 }
  m.updateMonitorState .busy

/-- `monitor_start`, from the zero-initialised variables and the reset values of the registers. -/
def start : Monitor :=
  updateMonitorState ⟨.idle, false, 0, ⟨false, 0, 0⟩⟩ .idle

/-! ## What the handlers do -/

@[simp] theorem monitorState_updateMonitorState (m : Monitor) (s : MonitorState) :
    (m.updateMonitorState s).monitorState = s := rfl

@[simp] theorem lineState_updateMonitorState (m : Monitor) (s : MonitorState) :
    (m.updateMonitorState s).lineState = m.lineState := rfl

@[simp] theorem stk_updateMonitorState (m : Monitor) (s : MonitorState) :
    (m.updateMonitorState s).stk = m.stk := rfl

@[simp] theorem monitorState_edgeIntrr (m : Monitor) (b : Bool) :
    (m.edgeIntrr b).monitorState = .busy := rfl

@[simp] theorem lineState_edgeIntrr (m : Monitor) (b : Bool) : (m.edgeIntrr b).lineState = b := rfl

@[simp] theorem stk_edgeIntrr (m : Monitor) (b : Bool) :
    (m.edgeIntrr b).stk = ⟨true, 16 * transmissionTimeoutUs, 0⟩ := rfl

@[simp] theorem monitorState_sysTickHandler (m : Monitor) :
    m.sysTickHandler.monitorState = if m.lineState then .idle else .collision := by
  unfold sysTickHandler
  dsimp only
  split <;> rfl

@[simp] theorem lineState_sysTickHandler (m : Monitor) :
    m.sysTickHandler.lineState = m.lineState := by
  unfold sysTickHandler
  dsimp only
  split <;> rfl

@[simp] theorem stk_sysTickHandler (m : Monitor) :
    m.sysTickHandler.stk = { m.stk with enable := false } := by
  unfold sysTickHandler
  dsimp only
  split <;> rfl

/-- One core cycle of the monitor: SysTick counts, and its interrupt is served at once. -/
def cycle (m : Monitor) : Monitor :=
  let expired := m.stk.expires
  let m := { m with stk := m.stk.cycle }
  if expired then m.sysTickHandler else m

end Monitor

end NetworkingCard
