import NetworkingCard.Library.Runs
import NetworkingCard.Receiver
import NetworkingCard.Transmitter

/-!
# One board

`Node` is the state of one board as `main` sets it up: transmitter, monitor and receiver, and the
level of the pin PC4 that is wired to the line. Two views of its execution:

* `step`, by events in any order: the two main-loop routines (each atomic) and the four interrupt
  handlers; a timer interrupt is enabled only while its timer runs. `run` executes a list of events;
* `timedStep`, where the timers count core cycles and their interrupts are served at once.
-/

namespace NetworkingCard

/-- The state of one board. -/
structure Node where
  tx : Transmitter
  mon : Monitor
  rx : Receiver
  idr4 : Bool

/-- What can happen on a board: a call of a main-loop routine, with the character and the random
number it would read, or an interrupt; for an edge, with the new level of the line. -/
inductive Event
  | transmitterUpdate (c : Byte) (random : ℕ)
  | receiverUpdate
  | tim2
  | tim4
  | exti4 (level : Bool)
  | sysTick
deriving DecidableEq

/-- The events that interrupt the main loop. -/
def Event.isInterrupt : Event → Bool
  | .tim2 | .tim4 | .exti4 _ | .sysTick => true
  | .transmitterUpdate _ _ | .receiverUpdate => false

namespace Node

/-- `main` up to its loop: the addresses, the mode, and the levels of PC9 and of the line. -/
def boot (src dest : Byte) (packetMode pin line : Bool) : Node where
  tx := Transmitter.init src dest packetMode pin
  mon := Monitor.start
  rx := Receiver.init packetMode
  idr4 := line

/-- A call of `transmitter_mainRoutineUpdate`. -/
def transmitterUpdate (n : Node) (c : Byte) (random : ℕ) : Node :=
  { n with tx := n.tx.mainRoutineUpdate n.mon.getState c random }

/-- A call of `receiver_mainRoutineUpdate`. -/
def receiverUpdate (n : Node) : Node :=
  { n with rx := n.rx.mainRoutineUpdate n.mon.getState }

/-- `TIM2_IRQHandler`. -/
def tim2IRQHandler (n : Node) : Node :=
  { n with tx := n.tx.tim2IRQHandler n.mon.getState }

/-- `TIM4_IRQHandler`. -/
def tim4IRQHandler (n : Node) : Node := { n with rx := n.rx.tim4IRQHandler }

/-- `EXTI4_IRQHandler`: the monitor first, then the receiver. -/
def exti4IRQHandler (n : Node) : Node :=
  { n with mon := n.mon.edgeIntrr n.idr4, rx := n.rx.edge n.idr4 }

/-- `SysTick_Handler`. -/
def sysTickHandler (n : Node) : Node := { n with mon := n.mon.sysTickHandler }

/-- One event; `none` for the interrupt of a timer that does not run. -/
def step (n : Node) : Event → Option Node
  | .transmitterUpdate c random => some (n.transmitterUpdate c random)
  | .receiverUpdate => some n.receiverUpdate
  | .tim2 =>
    if n.tx.tim2.cen then
      some { n with tx := { n.tx with tim2 := n.tx.tim2.updateEvent } }.tim2IRQHandler
    else none
  | .tim4 =>
    if n.rx.tim4.cen then
      some { n with rx := { n.rx with tim4 := n.rx.tim4.updateEvent } }.tim4IRQHandler
    else none
  | .exti4 level => some { n with idr4 := level }.exti4IRQHandler
  | .sysTick => if n.mon.stk.enable then some n.sysTickHandler else none

theorem step_tim2_eq_some {n n' : Node} :
    n.step .tim2 = some n' ↔ n.tx.tim2.cen = true ∧
      { n with tx :=
        { n.tx with tim2 := n.tx.tim2.updateEvent }.tim2IRQHandler n.mon.getState } = n' := by
  rw [step, Option.ite_none_right_eq_some, Option.some.injEq]
  rfl

theorem step_tim4_eq_some {n n' : Node} :
    n.step .tim4 = some n' ↔ n.rx.tim4.cen = true ∧
      { n with rx := { n.rx with tim4 := n.rx.tim4.updateEvent }.tim4IRQHandler } = n' := by
  rw [step, Option.ite_none_right_eq_some, Option.some.injEq]
  rfl

theorem step_sysTick_eq_some {n n' : Node} :
    n.step .sysTick = some n' ↔ n.mon.stk.enable = true ∧ n.sysTickHandler = n' := by
  rw [step, Option.ite_none_right_eq_some, Option.some.injEq]

/-- Execute the events in order. -/
abbrev run (n : Node) (es : List Event) : Option Node := Runs.run step n es

/-! ## Time -/

/-- What can happen on a board in real time. -/
inductive TimedEvent
  | transmitterUpdate (c : Byte) (random : ℕ)
  | receiverUpdate
  | line (level : Bool)
  | cycle
deriving DecidableEq

/-- One core cycle of the board: TIM2, TIM4 and SysTick count. -/
def cycle (n : Node) : Node :=
  let n := { n with tx := n.tx.cycle n.mon.getState }
  let n := { n with rx := n.rx.cycle }
  { n with mon := n.mon.cycle }

/-- The line takes a level: an edge interrupt when it is a new one. -/
def setLine (n : Node) (level : Bool) : Node :=
  if level = n.idr4 then n else { n with idr4 := level }.exti4IRQHandler

/-- One event in real time. -/
def timedStep (n : Node) : TimedEvent → Node
  | .transmitterUpdate c random => n.transmitterUpdate c random
  | .receiverUpdate => n.receiverUpdate
  | .line level => n.setLine level
  | .cycle => n.cycle

/-- Execute the events in order. -/
def timedRun (n : Node) (es : List TimedEvent) : Node := es.foldl timedStep n

end Node

end NetworkingCard
