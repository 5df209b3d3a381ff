import Mathlib.Logic.Relation
import NetworkingCard.Framing

/-!
# The main routine under interrupts

`receiver_mainRoutineUpdate` statement by statement, with whole interrupt handlers in between.
`RoutinePoint` is the program counter of the routine; without interrupts its statements do what
`Receiver.mainRoutineUpdate` does (`mainRoutineUpdate_statements`). `PreemptedNode` is a board in
real time whose main routine may be interrupted at every point.
-/

namespace NetworkingCard

/-- Where a call of `receiver_mainRoutineUpdate` has got to. -/
inductive RoutinePoint
  /-- no call is in progress; the next one begins with `if (monitor_getState() == MS_IDLE)` -/
  | outside
  /-- before `currBit = dataByte = 0` -/
  | clearBits
  /-- before the `currentlyReceiving = false` of the idle reset -/
  | clearReceiving
  /-- before `if (!sample)` -/
  | testSample
  /-- before `sample = true` -/
  | setSample
  /-- before `if (currentlyReceiving)` -/
  | testReceiving
  /-- before `if (monitor_getState() == MS_COLLISION)` -/
  | testCollision
  /-- before `printf("<< COLLISION!\r\n")` -/
  | printCollision
  /-- before `stop_counter(TIM4)` -/
  | stopTimeout
  /-- before the `currentlyReceiving = false` that ceases all receiving -/
  | ceaseReceiving
  /-- before `receiveBuf.put = receiveBuf.get = 0` -/
  | dropMessage
  /-- before `if (!currentlyReceiving && hasElement(&receiveBuf))` -/
  | testMessage
  /-- before `msgCur = 0` -/
  | startMessage
  /-- before the condition of the `while` -/
  | testElement
  /-- before `msgBuf[msgCur++] = get(&receiveBuf)` -/
  | readElement
  /-- before the display of the message, which uses nothing that an interrupt handler writes -/
  | display
deriving DecidableEq

/-- The points of the reaction to an idle line. -/
def RoutinePoint.inReset : RoutinePoint → Bool
  | .clearBits | .clearReceiving | .testSample | .setSample => true
  | _ => false

/-- The points of the reaction to a collision. -/
def RoutinePoint.inDrop : RoutinePoint → Bool
  | .printCollision | .stopTimeout | .ceaseReceiving | .dropMessage => true
  | _ => false

namespace Receiver

/-- The statement at a point of the main routine, and the point that comes next. -/
def statement (r : Receiver) (state : MonitorState) : RoutinePoint → Receiver × RoutinePoint
  | .outside => (r, if state = .idle then .clearBits else .testReceiving)
  | .clearBits => ({ r with currBit := 0, dataByte := 0 }, .clearReceiving)
  | .clearReceiving => ({ r with currentlyReceiving := false }, .testSample)
  | .testSample => (r, if !r.sample then .setSample else .testReceiving)
  | .setSample => ({ r with sample := true }, .testReceiving)
  | .testReceiving => (r, if r.currentlyReceiving then .testCollision else .testMessage)
  | .testCollision => (r, if state = .collision then .printCollision else .testMessage)
  | .printCollision => (r.printf "<< COLLISION!\r\n" [], .stopTimeout)
  | .stopTimeout => ({ r with tim4 := r.tim4.stopCounter }, .ceaseReceiving)
  | .ceaseReceiving => ({ r with currentlyReceiving := false }, .dropMessage)
  | .dropMessage => ({ r with receiveBuf := Ringbuffer.reset r.receiveBuf }, .testMessage)
  | .testMessage =>
    (r, if !r.currentlyReceiving && Ringbuffer.hasElement r.receiveBuf then .startMessage
        else .outside)
  | .startMessage => ({ r with msgCur := 0 }, .testElement)
  | .testElement =>
    (r, if Ringbuffer.hasElement r.receiveBuf && decide (r.msgCur < sizeofPacketHeader)
        then .readElement else .display)
  | .readElement =>
    let element := Ringbuffer.get r.receiveBuf
    ({ r with receiveBuf := element.2,
              msgBuf := r.msgBuf.setIfInBounds r.msgCur element.1,
              msgCur := r.msgCur + 1 }, .testElement)
  | .display => (if r.packetMode then r.displayPacket else r.displayRaw, .outside)

/-! ## Without interrupts -/

/-- One statement after the other, while the monitor's state stays the same. -/
def Undisturbed (state : MonitorState) (s t : Receiver × RoutinePoint) : Prop :=
  s.1.statement state s.2 = t

theorem undisturbed_statement (state : MonitorState) (r : Receiver) (point : RoutinePoint) :
    Undisturbed state (r, point) (r.statement state point) := rfl

open Relation (ReflTransGen TransGen)

/-- The loop ends before the bound on its iterations is reached. -/
theorem readLoop_statements (state : MonitorState) (n : ℕ) {r : Receiver}
    (hn : sizeofPacketHeader ≤ r.msgCur + n) :
    ReflTransGen (Undisturbed state) (r, .testElement) (readLoop n r, .display) := by
  induction n generalizing r with
  | zero =>
    have hfull : decide (r.msgCur < sizeofPacketHeader) = false :=
      decide_eq_false (Nat.not_lt.mpr hn)
    apply ReflTransGen.single
    apply congrArg (Prod.mk r)
    apply if_neg
    show ¬(Ringbuffer.hasElement r.receiveBuf && decide (r.msgCur < sizeofPacketHeader)) = true
    rw [hfull, Bool.and_false]
    exact Bool.false_ne_true
  | succ n ih =>
    unfold readLoop
    split
    · next hcond =>
      have htest : Undisturbed state (r, .testElement) (r, .readElement) :=
        congrArg (Prod.mk r) (if_pos hcond)
      apply ReflTransGen.head htest
      apply ReflTransGen.head (undisturbed_statement state r .readElement)
      apply ih
      show sizeofPacketHeader ≤ r.msgCur + 1 + n
      omega
    · next hcond => exact ReflTransGen.single (congrArg (Prod.mk r) (if_neg hcond))

theorem delivery_statements (state : MonitorState) (r : Receiver) :
    ReflTransGen (Undisturbed state) (r, .testMessage)
      (if !r.currentlyReceiving && Ringbuffer.hasElement r.receiveBuf then r.deliver else r,
        .outside) := by
  split
  · next hcond =>
    have htest : Undisturbed state (r, .testMessage) (r, .startMessage) :=
      congrArg (Prod.mk r) (if_pos hcond)
    apply ReflTransGen.head htest
    apply ReflTransGen.head (undisturbed_statement state r .startMessage)
    apply (readLoop_statements state sizeofPacketHeader (Nat.le_add_left _ _)).trans
    exact ReflTransGen.single (undisturbed_statement state _ .display)
  · next hcond => exact ReflTransGen.single (congrArg (Prod.mk r) (if_neg hcond))

theorem reaction_statements (state : MonitorState) (r : Receiver) :
    ReflTransGen (Undisturbed state) (r, .testReceiving)
      (if r.currentlyReceiving && decide (state = .collision) then r.dropMessage else r,
        .testMessage) := by
  cases hr : r.currentlyReceiving
  · apply ReflTransGen.single
    show (r, _) = (r, RoutinePoint.testMessage)
    rw [hr, if_neg Bool.false_ne_true]
  · have htest : Undisturbed state (r, .testReceiving) (r, .testCollision) :=
      congrArg (Prod.mk r) (if_pos hr)
    apply ReflTransGen.head htest
    rw [Bool.true_and]
    by_cases hcollision : state = .collision
    · have hdrop : Undisturbed state (r, .testCollision) (r, .printCollision) :=
        congrArg (Prod.mk r) (if_pos hcollision)
      rw [if_pos (decide_eq_true hcollision)]
      apply ReflTransGen.head hdrop
      apply ReflTransGen.head (undisturbed_statement state r .printCollision)
      apply ReflTransGen.head (undisturbed_statement state _ .stopTimeout)
      apply ReflTransGen.head (undisturbed_statement state _ .ceaseReceiving)
      exact ReflTransGen.single (undisturbed_statement state _ .dropMessage)
    · rw [if_neg (by simpa using hcollision)]
      exact ReflTransGen.single (congrArg (Prod.mk r) (if_neg hcollision))

theorem reset_statements (state : MonitorState) (r : Receiver) :
    TransGen (Undisturbed state) (r, .outside)
      (if state = .idle then r.idleReset else r, .testReceiving) := by
  by_cases hidle : state = .idle
  · have htest : Undisturbed state (r, .outside) (r, .clearBits) :=
      congrArg (Prod.mk r) (if_pos hidle)
    rw [if_pos hidle]
    apply TransGen.head htest
    apply TransGen.head (undisturbed_statement state r .clearBits)
    apply TransGen.head (undisturbed_statement state _ .clearReceiving)
    have htest := undisturbed_statement state
      { r with currBit := 0, dataByte := 0, currentlyReceiving := false } .testSample
    unfold statement at htest
    unfold idleReset
    dsimp only at htest ⊢
    split
    · next hsample =>
      rw [if_pos hsample] at htest
      apply TransGen.head htest
      exact TransGen.single (undisturbed_statement state _ .setSample)
    · next hsample =>
      rw [if_neg hsample] at htest
      exact TransGen.single htest
  · rw [if_neg hidle]
    exact TransGen.single (congrArg (Prod.mk r) (if_neg hidle))

/-- Without interrupts in between, the statements do what `mainRoutineUpdate` does. -/
theorem mainRoutineUpdate_statements (state : MonitorState) (r : Receiver) :
    TransGen (Undisturbed state) (r, .outside) (r.mainRoutineUpdate state, .outside) := by
  apply (reset_statements state r).trans_left
  apply (reaction_statements state _).trans
  exact delivery_statements state _

/-! ## Where a statement leads -/

/-- The reaction to a collision is entered only in a collision. -/
theorem inDrop_statement (r : Receiver) {state : MonitorState} (hstate : state ≠ .collision)
    {point : RoutinePoint} (hdrop : point.inDrop = false) :
    (r.statement state point).2.inDrop = false := by
  unfold statement
  cases point with
  | printCollision | stopTimeout | ceaseReceiving | dropMessage => cases hdrop
  | clearBits | clearReceiving | setSample | startMessage | readElement | display => rfl
  | testCollision =>
    dsimp only
    rw [if_neg hstate]
    rfl
  | outside | testSample | testReceiving | testMessage | testElement =>
    dsimp only
    split <;> rfl

/-- The loop reads only while there is room in `msgBuf`. -/
theorem room_statement {r : Receiver} {state : MonitorState} {point : RoutinePoint}
    (hread : (r.statement state point).2 = .readElement) :
    (r.statement state point).1.msgCur < sizeofPacketHeader := by
  unfold statement at hread ⊢
  cases point with
  | testElement =>
    dsimp only at hread ⊢
    split at hread
    · next hcond => simpa using (Bool.and_eq_true_iff.mp hcond).2
    · cases hread
  | outside | testSample | testReceiving | testCollision | testMessage =>
    dsimp only at hread
    split at hread <;> cases hread
  | clearBits | clearReceiving | setSample | printCollision | stopTimeout | ceaseReceiving
  | dropMessage | startMessage | readElement | display => cases hread

end Receiver

/-! ## The board -/

/-- A board, where its main routine is, and how many edges have been served so far. -/
structure PreemptedNode where
  node : Node
  point : RoutinePoint
  edges : ℕ

namespace PreemptedNode

open Node (TimedEvent physical)

/-- One event in real time: interrupt handlers run whole, `receiverUpdate` is one statement of the
routine, and the main loop's other routine runs outside of it. -/
def step (s : PreemptedNode) : TimedEvent → Option PreemptedNode
  | .transmitterUpdate c random =>
    if s.point = .outside then some { s with node := s.node.transmitterUpdate c random } else none
  | .receiverUpdate =>
    let next := s.node.rx.statement s.node.mon.getState s.point
    some { s with node := { s.node with rx := next.1 }, point := next.2 }
  | .line level =>
    some { s with node := s.node.setLine level,
                  edges := if level = s.node.idr4 then s.edges else s.edges + 1 }
  | .cycle => some { s with node := s.node.cycle }

/-- Only the main loop's other routine can be out of turn. -/
theorem exists_run (s : PreemptedNode) {es : List TimedEvent}
    (hes : ∀ e ∈ es, physical e = true ∨ e = .receiverUpdate) :
    ∃ t, Runs.run step s es = some t := by
  induction es generalizing s with
  | nil => exact ⟨s, rfl⟩
  | cons e es ih =>
    have hstep : ∃ s', s.step e = some s' := by
      rcases hes e List.mem_cons_self with hphysical | rfl
      · cases e with
        | transmitterUpdate c random => cases hphysical
        | receiverUpdate => exact ⟨_, rfl⟩
        | line level => exact ⟨_, rfl⟩
        | cycle => exact ⟨_, rfl⟩
      · exact ⟨_, rfl⟩
    obtain ⟨s', hs'⟩ := hstep
    obtain ⟨t, ht⟩ := ih s' fun e he => hes e (List.mem_cons_of_mem _ he)
    exact ⟨t, Runs.run_cons_eq_some.mpr ⟨s', hs', ht⟩⟩

theorem run_cycles (n : Node) (point : RoutinePoint) (edges t : ℕ) :
    Runs.run step ⟨n, point, edges⟩ (List.replicate t .cycle) =
      some ⟨n.timedRun (List.replicate t .cycle), point, edges⟩ := by
  induction t generalizing n with
  | zero => rfl
  | succ t ih => exact ih n.cycle

end PreemptedNode

end NetworkingCard
