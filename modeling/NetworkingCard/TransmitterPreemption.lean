import NetworkingCard.Attempts
import NetworkingCard.Library.Atomicity

/-!
# `transmitter_mainRoutineUpdate` under interrupts

The transmitter's main routine statement by statement (`Transmitter.statement`), with whole
interrupt handlers in between (`CalledNode.step`).

`atomic_of_calls`: in a run of the main loop every call does what the whole routine would have done
at one moment of it, with the same interrupts before and after. The moment is that at which the call
asks the monitor for the last time, or at which it has found a transmission going on. It takes two
things: outside a transmission TIM2 is stopped (`Settled`, so after the tick that follows boot), and
no tick finds a collision between the two reads of the condition that starts a back-off
(`KeepsAttempt`).
-/

namespace NetworkingCard

/-- Where a call of `transmitter_mainRoutineUpdate` has got to. -/
inductive TransmitterPoint
  /-- before the `inTransmission` of `if (inTransmission && transmissionComplete)` -/
  | testSending
  /-- before the `transmissionComplete` of it -/
  | testSent
  /-- before the `!inTransmission` of `else if (!inTransmission && transmissionComplete)` -/
  | testFree
  /-- before the `transmissionComplete` of it -/
  | testComplete
  /-- before the character is read and stored, which uses nothing that an interrupt handler uses -/
  | readChar
  /-- before `monitor_getState() == MS_IDLE` -/
  | testIdle
  /-- before the `!inTransmission` after it -/
  | testStopped
  /-- before the `gotMessage` after it -/
  | testMessage
  /-- before `currByte = 0` -/
  | resetByte
  /-- before `gotMessage = false` -/
  | takeMessage
  /-- before `transBuf.put = transBuf.get = 0` -/
  | resetBuffer
  /-- before the packet or the raw line is prepared and echoed, which uses nothing that an interrupt
  handler uses -/
  | prepare
  /-- before the bytes `rest` are put into `transBuf` -/
  | load (rest : List Byte)
  /-- before `dataBuf[0] = dataCur = 0` -/
  | clearMessage
  /-- before the `monitor_getState() == MS_IDLE` of the branch that retransmits -/
  | retestIdle
  /-- before the `!inTransmission` after it -/
  | retestStopped
  /-- before the `!transmissionComplete` after it -/
  | retestComplete
  /-- before `currByte = currBit = 0` -/
  | resetPosition
  /-- before `retransmissionTimeoutActive = retransmission` -/
  | setTimeout
  /-- before `stop_counter` -/
  | stopTimer
  /-- before `set_psc` -/
  | setPsc
  /-- before the timeout is drawn and printed -/
  | drawTimeout
  /-- before `set_arr` -/
  | setArr
  /-- before `set_ccr1` -/
  | setCcr1
  /-- before the `inTransmission = true` of `startTransmission` -/
  | setSending
  /-- before `clear_cnt` -/
  | clearCnt
  /-- before `start_counter` -/
  | startCounter
  | returned
deriving DecidableEq

/-- The points after the monitor's last answer, that the line is idle. -/
def TransmitterPoint.committed : TransmitterPoint → Bool
  | .testSending | .testSent | .testFree | .testComplete | .readChar | .testIdle | .retestIdle =>
    false
  | _ => true

namespace Transmitter

/-- The packet or the raw line is prepared and echoed; the bytes that are then put into
`transBuf`. -/
def prepareMessage (t : Transmitter) : Transmitter × List Byte :=
  if t.packetMode then
    let t := { t with pkt := t.createPacket }
    let t := t.printf "Transmission The source=%x, Destination=%x, the length=%d, CRC =%x\r\n"
      [.x t.pkt.src, .x t.pkt.dest, .d t.pkt.length.toNat, .x t.pkt.crc8Fcs]
    let t := t.printf "Transmitting %s\r\n" [.s (t.pkt.msg.toList ++ [t.pkt.crc8Fcs])]
    (t, (frameBytes t.pkt).flatMap symbolBytes)
  else
    let t := if t.dataCur < phMsgSize - 1 then
        { t with dataBuf := t.dataBuf.setIfInBounds t.dataCur 0, dataCur := t.dataCur + 1 }
      else t
    let t := t.printf "Transmitting %s\r\n" [.s t.dataBuf.toList]
    (t, ((List.range t.dataCur).map (memory t.dataBuf)).flatMap symbolBytes)

/-- The statement at a point of the main routine, and the point that comes next. `c` and `random`
are what the call reads, where it reads them. -/
def statement (t : Transmitter) (state : MonitorState) (c : Byte) (random : ℕ) :
    TransmitterPoint → Transmitter × TransmitterPoint
  | .testSending => (t, if t.inTransmission then .testSent else .testFree)
  | .testSent => (t, if t.transmissionComplete then .returned else .testFree)
  | .testFree => (t, if !t.inTransmission then .testComplete else .retestIdle)
  | .testComplete => (t, if t.transmissionComplete then .readChar else .retestIdle)
  | .readChar => (t.readChar c, .testIdle)
  | .testIdle => (t, if state = .idle then .testStopped else .returned)
  | .testStopped => (t, if !t.inTransmission then .testMessage else .returned)
  | .testMessage => (t, if t.gotMessage then .resetByte else .returned)
  | .resetByte => ({ t with currByte := 0 }, .takeMessage)
  | .takeMessage => ({ t with gotMessage := false }, .resetBuffer)
  | .resetBuffer => ({ t with transBuf := Ringbuffer.reset t.transBuf }, .prepare)
  | .prepare => (t.prepareMessage.1, .load t.prepareMessage.2)
  | .load [] => (t, .clearMessage)
  | .load (element :: rest) => ({ t with transBuf := Ringbuffer.put t.transBuf element }, .load rest)
  | .clearMessage => ({ t with dataBuf := t.dataBuf.setIfInBounds 0 0, dataCur := 0 }, .setSending)
  | .retestIdle => (t, if state = .idle then .retestStopped else .returned)
  | .retestStopped => (t, if !t.inTransmission then .retestComplete else .returned)
  | .retestComplete => (t, if !t.transmissionComplete then .resetPosition else .returned)
  | .resetPosition => ({ t with currByte := 0, currBit := 0 }, .setTimeout)
  | .setTimeout => ({ t with retransmissionTimeoutActive := true }, .stopTimer)
  | .stopTimer => ({ t with tim2 := t.tim2.stopCounter }, .setPsc)
  | .setPsc => ({ t with tim2 := t.tim2.setPsc 16000 }, .drawTimeout)
  | .drawTimeout => (t.printf "Retransmitting in %d ms...\r\n" [.d (backoff random)], .setArr)
  | .setArr => ({ t with tim2 := t.tim2.setArr (backoff random) }, .setCcr1)
  | .setCcr1 => ({ t with tim2 := t.tim2.setCcr1 (backoff random) }, .setSending)
  | .setSending => ({ t with inTransmission := true }, .clearCnt)
  | .clearCnt => ({ t with tim2 := t.tim2.clearCnt }, .startCounter)
  | .startCounter => ({ t with tim2 := t.tim2.startCounter }, .returned)
  | .returned => (t, .returned)

/-- The routine while the monitor's state stays the same. -/
def routine (state : MonitorState) (c : Byte) (random : ℕ) :
    Atomicity.Routine Transmitter TransmitterPoint where
  next := fun s => s.1.statement state c random s.2
  returned := .returned
  next_returned := fun _ => rfl

/-! ## Without interrupts -/

open Atomicity.Routine (Completes completes_returned)

variable {state : MonitorState} {c : Byte} {random : ℕ}

/-- A statement of the routine. -/
theorem completes_statement {t a : Transmitter} {point : TransmitterPoint}
    (h : (routine state c random).Completes (t.statement state c random point) a) :
    (routine state c random).Completes (t, point) a :=
  h.of_next

/-- The bytes are put into the buffer one by one. -/
theorem completes_load {t a : Transmitter} {rest : List Byte}
    (h : (routine state c random).Completes
      ({ t with transBuf := rest.foldl Ringbuffer.put t.transBuf }, .clearMessage) a) :
    (routine state c random).Completes (t, .load rest) a := by
  induction rest generalizing t with
  | nil => exact completes_statement h
  | cons element rest ih =>
    apply completes_statement
    exact ih h

theorem foldl_put_symbolBytes (buffer : RingBuffer Byte) (bytes : List Byte) :
    (bytes.flatMap symbolBytes).foldl Ringbuffer.put buffer = bytes.foldl transmitByte buffer := by
  induction bytes generalizing buffer with
  | nil => rfl
  | cons byte bytes ih =>
    rw [List.flatMap_cons, List.foldl_append, ih]
    rfl

/-- What has been prepared and put is what the two branches of `transmitData` load. -/
theorem prepareMessage_load (t : Transmitter) :
    { t.prepareMessage.1 with
        transBuf := t.prepareMessage.2.foldl Ringbuffer.put t.prepareMessage.1.transBuf } =
      if t.packetMode then t.transmitPacket else t.transmitRaw := by
  unfold prepareMessage
  split
  · dsimp only
    rw [foldl_put_symbolBytes]
    rfl
  · dsimp only
    rw [foldl_put_symbolBytes]
    rfl

theorem completes_clearMessage (t : Transmitter) :
    (routine state c random).Completes (t, .clearMessage)
      ({ t with dataBuf := t.dataBuf.setIfInBounds 0 0, dataCur := 0 } :
        Transmitter).startTransmission := by
  iterate 4 apply completes_statement
  exact completes_returned _ _

theorem completes_prepare {t loaded : Transmitter}
    (h : { t.prepareMessage.1 with
        transBuf := t.prepareMessage.2.foldl Ringbuffer.put t.prepareMessage.1.transBuf } = loaded) :
    (routine state c random).Completes (t, .prepare) ({ loaded with
      dataBuf := loaded.dataBuf.setIfInBounds 0 0, dataCur := 0 } :
        Transmitter).startTransmission := by
  subst h
  apply completes_statement
  apply completes_load
  exact completes_clearMessage _

theorem completes_transmitData (t : Transmitter) :
    (routine state c random).Completes (t, .resetByte) t.transmitData := by
  iterate 3 apply completes_statement
  exact completes_prepare (prepareMessage_load _)

theorem completes_retransmit (t : Transmitter) :
    (routine state c random).Completes (t, .resetPosition) (t.retransmit random) := by
  iterate 10 apply completes_statement
  exact completes_returned _ _

/-- From the monitor's answer to a call that has read a character. -/
theorem completes_testStopped {t : Transmitter} (htx : t.inTransmission = false)
    (hcomplete : t.transmissionComplete = true) :
    (routine state c random).Completes (t.readChar c, .testStopped)
      (t.mainRoutineUpdate .idle c random) := by
  have hreads : (t.readChar c).inTransmission = false := by
    rw [readChar_frame]
    exact htx
  apply completes_statement
  rw [statement, hreads, Bool.not_false, if_pos rfl]
  apply completes_statement
  rcases t.mainRoutineUpdate_cases .idle c random with
    ⟨hno, -, -⟩ | ⟨-, hno, heq⟩ | ⟨-, -, hgot, heq⟩ | ⟨-, hno, -, -⟩
  · simp [readsChar, htx, hcomplete] at hno
  · have hgot : (t.readChar c).gotMessage = false := by
      rw [← Bool.not_eq_true]
      exact fun hgot => hno ⟨rfl, hgot⟩
    rw [statement, hgot, if_neg Bool.false_ne_true, heq]
    exact completes_returned _ _
  · rw [statement, hgot, if_pos rfl, heq]
    exact completes_transmitData _
  · exact absurd (hcomplete.symm.trans hno) (by simp)

/-- From the monitor's answer to a call after a collision. -/
theorem completes_retestStopped {t : Transmitter} (htx : t.inTransmission = false)
    (hcomplete : t.transmissionComplete = false) :
    (routine state c random).Completes (t, .retestStopped) (t.mainRoutineUpdate .idle c random) := by
  apply completes_statement
  rw [statement, htx, Bool.not_false, if_pos rfl]
  apply completes_statement
  rw [statement, hcomplete, Bool.not_false, if_pos rfl]
  rw [mainRoutineUpdate, htx, hcomplete]
  exact completes_retransmit t

/-! ## What a statement needs and leaves -/

/-- Only two of the statements ask for the monitor's state. -/
theorem statement_state (t : Transmitter) (state : MonitorState) {point : TransmitterPoint}
    (hfirst : point ≠ .testIdle) (hsecond : point ≠ .retestIdle) :
    t.statement state c random point = t.statement .idle c random point := by
  cases point with
  | testIdle => exact absurd rfl hfirst
  | retestIdle => exact absurd rfl hsecond
  | load rest => cases rest <;> rfl
  | _ => rfl

theorem committed_statement (t : Transmitter) (state : MonitorState) {point : TransmitterPoint}
    (h : point.committed = true) : (t.statement state c random point).2.committed = true := by
  cases point with
  | testSending | testSent | testFree | testComplete | readChar | testIdle | retestIdle => cases h
  | load rest => cases rest <;> rfl
  | testStopped | testMessage | retestStopped | retestComplete =>
    dsimp only [statement]
    split <;> rfl
  | _ => rfl

theorem tim2_prepareMessage (t : Transmitter) : t.prepareMessage.1.tim2 = t.tim2 := by
  unfold prepareMessage printf
  split
  · rfl
  · dsimp only
    split <;> rfl

/-- The timer is started by the last statement only. -/
theorem cen_statement {t : Transmitter} (hcen : t.tim2.cen = false) (point : TransmitterPoint) :
    (t.statement state c random point).2 = .returned ∨
      (t.statement state c random point).1.tim2.cen = false := by
  cases point with
  | startCounter => exact Or.inl rfl
  | stopTimer => exact Or.inr rfl
  | readChar =>
    right
    show (t.readChar c).tim2.cen = false
    rw [readChar_frame]
    exact hcen
  | prepare =>
    right
    show t.prepareMessage.1.tim2.cen = false
    rw [tim2_prepareMessage]
    exact hcen
  | load rest => cases rest <;> exact Or.inr hcen
  | _ => exact Or.inr hcen

/-- Outside a transmission TIM2 is stopped. -/
def Settled (t : Transmitter) : Prop := t.inTransmission = false → t.tim2.cen = false

theorem Settled.mainRoutineUpdate {t : Transmitter} (h : t.Settled) (state : MonitorState)
    (c : Byte) (random : ℕ) : (t.mainRoutineUpdate state c random).Settled := by
  rcases t.mainRoutineUpdate_cases state c random with
    ⟨-, -, heq⟩ | ⟨-, -, heq⟩ | ⟨-, -, -, heq⟩ | ⟨-, -, -, heq⟩
  · rwa [heq]
  · rw [heq, readChar_frame]
    exact h
  · rw [heq, transmitData_frame]
    intro htx
    cases htx
  · rw [heq]
    intro htx
    cases htx

theorem settled_tim2IRQHandler {t : Transmitter} (state : MonitorState)
    (hdrive : t.atEnd = false → t.inTransmission = true) : (t.tim2IRQHandler state).Settled := by
  rcases t.tim2IRQHandler_cases state with ⟨-, heq⟩ | ⟨-, -, heq⟩ | ⟨-, -, -, heq⟩ | ⟨-, hend, -, heq⟩
  · rw [heq]
    intro htx
    cases htx
  · rw [heq]
    exact fun _ => rfl
  · rw [heq]
    exact fun _ => rfl
  · rw [heq]
    intro htx
    exact absurd ((hdrive hend).symm.trans htx) (by simp)

end Transmitter

/-! ## Interrupts on a board -/

namespace Node

theorem settled_step {n n' : Node} {e : Event} (h : n.tx.Settled) (hs : n.step e = some n') :
    n'.tx.Settled := by
  rcases tx_step_cases hs with ⟨c, random, -, htx⟩ | ⟨-, hcen, htx⟩ | ⟨-, -, htx⟩
  · rw [htx]
    exact h.mainRoutineUpdate _ c random
  · -- the timer runs, so a transmission is going on
    rw [htx]
    apply Transmitter.settled_tim2IRQHandler
    intro _
    by_contra hidle
    rw [h (Bool.eq_false_of_not_eq_true hidle)] at hcen
    cases hcen
  · rw [htx]
    exact h

theorem settled_tick {n n' : Node} (h : n.tx.Inv) (hs : n.step .tim2 = some n') :
    n'.tx.Settled := by
  obtain ⟨hcen, rfl⟩ := step_tim2_eq_some.mp hs
  apply Transmitter.settled_tim2IRQHandler
  exact h.inTransmission_of_cen hcen

/-- The counter that `transmitter_init` starts runs until the first tick. -/
theorem settled_of_run {src dest : Byte} {packetMode pin line : Bool} {es : List Event} {n : Node}
    (h : (boot src dest packetMode pin line).run es = some n) (htick : .tim2 ∈ es) :
    n.tx.Settled := by
  obtain ⟨es₁, es₂, rfl⟩ := List.append_of_mem htick
  obtain ⟨n₁, hn₁, hrest⟩ := Runs.run_append_eq_some.mp h
  obtain ⟨n₂, hn₂, hn⟩ := Runs.run_cons_eq_some.mp hrest
  have hsettled := settled_tick (inv_of_run hn₁) hn₂
  exact Runs.run_invariant (fun _ _ _ hm hs => settled_step hm hs) hsettled hn

/-- The other interrupts neither read nor write what the transmitter has. -/
theorem step_withTx {n n' : Node} {e : Event} (he : e.isInterrupt = true) (htim2 : e ≠ .tim2)
    (hs : n.step e = some n') (t : Transmitter) :
    { n with tx := t }.step e = some { n' with tx := t } := by
  cases e with
  | transmitterUpdate c random => cases he
  | receiverUpdate => cases he
  | tim2 => exact absurd rfl htim2
  | tim4 =>
    obtain ⟨hcen, rfl⟩ := step_tim4_eq_some.mp hs
    exact step_tim4_eq_some.mpr ⟨hcen, rfl⟩
  | exti4 level =>
    cases hs
    rfl
  | sysTick =>
    obtain ⟨hen, rfl⟩ := step_sysTick_eq_some.mp hs
    exact step_sysTick_eq_some.mpr ⟨hen, rfl⟩

/-- An interrupt while TIM2 is stopped. -/
theorem tx_of_interrupt {n n' : Node} {e : Event} (he : e.isInterrupt = true)
    (hcen : n.tx.tim2.cen = false) (hs : n.step e = some n') : e ≠ .tim2 ∧ n'.tx = n.tx := by
  rcases tx_step_cases hs with ⟨c, random, rfl, -⟩ | ⟨-, hcen', -⟩ | ⟨-, htim2, htx⟩
  · cases he
  · rw [hcen] at hcen'
    cases hcen'
  · exact ⟨htim2, htx⟩

/-- Only a tick that finds a collision leaves a message behind that waits for its back-off. -/
theorem busy_of_interrupt {n n' : Node} {e : Event} (he : e.isInterrupt = true)
    (hs : n.step e = some n') (hkeep : e = .tim2 → n.mon.getState ≠ .collision)
    (h : n.tx.inTransmission = true ∨ n.tx.transmissionComplete = true) :
    n'.tx.inTransmission = true ∨ n'.tx.transmissionComplete = true := by
  rcases tx_step_cases hs with ⟨c, random, rfl, -⟩ | ⟨htim2, -, htx⟩ | ⟨-, -, htx⟩
  · cases he
  · rw [htx]
    rcases Transmitter.tim2IRQHandler_cases { n.tx with tim2 := n.tx.tim2.updateEvent }
      n.mon.getState with ⟨-, heq⟩ | ⟨-, -, heq⟩ | ⟨-, -, hcollision, -⟩ | ⟨-, -, -, heq⟩
    · rw [heq]
      exact Or.inl rfl
    · rw [heq]
      exact Or.inr rfl
    · exact absurd hcollision (hkeep htim2)
    · rw [heq]
      exact h
  · rw [htx]
    exact h

/-- The whole call, at one moment among the interrupts `es`. -/
def AtOnce (c : Byte) (random : ℕ) (n : Node) (es : List Event) (n' : Node) : Prop :=
  ∃ es₁ es₂, es = es₁ ++ es₂ ∧ n.run (es₁ ++ .transmitterUpdate c random :: es₂) = some n'

variable {c : Byte} {random : ℕ} {n m m' : Node} {es : List Event}

theorem atOnce_of_run (hrun : n.run es = some m) (hcall : m.transmitterUpdate c random = m') :
    AtOnce c random n es m' := by
  refine ⟨es, [], (List.append_nil es).symm, ?_⟩
  rw [run, Runs.run_concat_eq_some]
  exact ⟨m, hrun, congrArg some hcall⟩

/-- While nothing is transmitted, TIM2 is stopped. -/
theorem cen_of_settled (hn : n.tx.Settled) (hrun : n.run es = some m)
    (htx : m.tx.inTransmission = false) : m.tx.tim2.cen = false :=
  Runs.run_invariant (fun _ _ _ hm hs => settled_step hm hs) hn hrun htx

/-- A call during a transmission. -/
theorem atOnce_of_inTransmission (hrun : n.run es = some m) (htx : m.tx.inTransmission = true) :
    AtOnce c random n es m :=
  atOnce_of_run hrun (transmitterUpdate_of_inTransmission htx c random)

theorem AtOnce.step (h : AtOnce c random n es m) {e : Event} (hs : m.step e = some m') :
    AtOnce c random n (es ++ [e]) m' := by
  obtain ⟨es₁, es₂, rfl, hrun⟩ := h
  refine ⟨es₁, es₂ ++ [e], List.append_assoc es₁ es₂ [e], ?_⟩
  rw [← List.cons_append, ← List.append_assoc, run, Runs.run_concat_eq_some]
  exact ⟨m, hrun, hs⟩

theorem AtOnce.settled (h : AtOnce c random n es m) (hn : n.tx.Settled) : m.tx.Settled := by
  obtain ⟨es₁, es₂, -, hrun⟩ := h
  exact Runs.run_invariant (fun _ _ _ hm hs => settled_step hm hs) hn hrun

end Node

/-! ## An interrupted call -/

/-- A board and where its call of `transmitter_mainRoutineUpdate` has got to; `c` and `random` are
what the call reads. -/
structure CalledNode where
  node : Node
  point : TransmitterPoint
  c : Byte
  random : ℕ

/-- What can happen on it: the main loop calls a routine, the call executes a statement, or there
is an interrupt. -/
inductive CallEvent
  | call (c : Byte) (random : ℕ)
  | statement
  | receiverUpdate
  | interrupt (e : Event)
deriving DecidableEq

/-- The events during a call. -/
def CallEvent.inCall : CallEvent → Bool
  | .statement | .interrupt _ => true
  | .call _ _ | .receiverUpdate => false

/-- The interrupts among the events. -/
def interrupts (ms : List CallEvent) : List Event :=
  ms.filterMap fun
    | .interrupt e => some e
    | _ => none

namespace CalledNode

/-- The board and the call after its next statement. -/
def next (s : CalledNode) : CalledNode :=
  let next := s.node.tx.statement s.node.mon.getState s.c s.random s.point
  { s with node := { s.node with tx := next.1 }, point := next.2 }

/-- One event. The main loop calls a routine only when the one before has returned. -/
def step (s : CalledNode) : CallEvent → Option CalledNode
  | .call c random =>
    if s.point = .returned then some ⟨s.node, .testSending, c, random⟩ else none
  | .statement => if s.point = .returned then none else some s.next
  | .receiverUpdate =>
    if s.point = .returned then some { s with node := s.node.receiverUpdate } else none
  | .interrupt e =>
    if e.isInterrupt then (s.node.step e).map fun n => { s with node := n } else none

/-- Between the two reads of the condition that starts a back-off, no tick finds a collision. -/
def KeepsAttempt (s : CalledNode) (m : CallEvent) : Prop :=
  m = .interrupt .tim2 → s.point = .retestStopped → s.node.mon.getState ≠ .collision

instance (s : CalledNode) (m : CallEvent) : Decidable (s.KeepsAttempt m) :=
  inferInstanceAs (Decidable (_ → _ → _))

open Transmitter (routine) in
/-- The monitor has answered for the last time that the line is idle, after the interrupts `es₁`:
what the call will leave is fixed, and the interrupts after that do not see it. -/
def Committed (s : CalledNode) (n : Node) (es : List Event) : Prop :=
  ∃ es₁ es₂ n₁, es = es₁ ++ es₂ ∧ n.run es₁ = some n₁ ∧ n₁.mon.getState = .idle ∧
    (∀ t, { n₁ with tx := t }.run es₂ = some { s.node with tx := t }) ∧
    (routine .idle s.c s.random).Completes (s.node.tx, s.point)
      (n₁.tx.mainRoutineUpdate .idle s.c s.random) ∧
    (s.point = .returned ∨ s.node.tx.tim2.cen = false)

/-- Where a call that began at `n` stands after the interrupts `es`. -/
def Reached (s : CalledNode) (n : Node) (es : List Event) : Prop :=
  match s.point with
  | .testSending | .testFree => n.run es = some s.node
  | .testSent => n.run es = some s.node ∧ Node.AtOnce s.c s.random n es s.node
  | .testComplete => n.run es = some s.node ∧ s.node.tx.inTransmission = false
  | .readChar =>
    n.run es = some s.node ∧ s.node.tx.inTransmission = false ∧
      s.node.tx.transmissionComplete = true
  | .testIdle =>
    ∃ m, n.run es = some m ∧ m.tx.inTransmission = false ∧ m.tx.transmissionComplete = true ∧
      s.node = { m with tx := m.tx.readChar s.c }
  | .retestIdle =>
    n.run es = some s.node ∧ (Node.AtOnce s.c s.random n es s.node ∨
      s.node.tx.inTransmission = false ∧ s.node.tx.transmissionComplete = false)
  | .retestStopped =>
    Node.AtOnce s.c s.random n es s.node ∧
      (s.node.tx.inTransmission = true ∨ s.node.tx.transmissionComplete = true) ∨ s.Committed n es
  | .retestComplete =>
    Node.AtOnce s.c s.random n es s.node ∧ s.node.tx.inTransmission = false ∧
      s.node.tx.transmissionComplete = true ∨ s.Committed n es
  | .returned => Node.AtOnce s.c s.random n es s.node
  | _ => s.Committed n es

variable {s : CalledNode} {n : Node} {es : List Event}

theorem Committed.atOnce (h : s.Committed n es) (hpoint : s.point = .returned) :
    Node.AtOnce s.c s.random n es s.node := by
  obtain ⟨es₁, es₂, n₁, rfl, hn₁, hidle, hrest, hcompletes, -⟩ := h
  rw [hpoint] at hcompletes
  refine ⟨es₁, es₂, rfl, Runs.run_append_eq_some.mpr ⟨n₁, hn₁, Runs.run_cons_eq_some.mpr ?_⟩⟩
  refine ⟨{ n₁ with tx := s.node.tx }, ?_, hrest s.node.tx⟩
  rw [hcompletes.eq_of_returned, ← hidle]
  rfl

theorem Committed.reached (h : s.Committed n es) (hpoint : s.point.committed = true) :
    s.Reached n es := by
  obtain ⟨node, point, c, random⟩ := s
  cases point with
  | testSending | testSent | testFree | testComplete | readChar | testIdle | retestIdle =>
    cases hpoint
  | retestStopped | retestComplete => exact Or.inr h
  | returned => exact h.atOnce rfl
  | _ => exact h

/-- The interrupts no longer see the call, nor the call them. -/
theorem Committed.interrupt (h : s.Committed n es) (hpoint : s.point ≠ .returned) {e : Event}
    {n' : Node} (he : e.isInterrupt = true) (hs : s.node.step e = some n') :
    { s with node := n' }.Committed n (es ++ [e]) := by
  obtain ⟨es₁, es₂, n₁, rfl, hn₁, hidle, hrest, hcompletes, hcen⟩ := h
  have hstopped := hcen.resolve_left hpoint
  obtain ⟨htim2, htx⟩ := Node.tx_of_interrupt he hstopped hs
  refine ⟨es₁, es₂ ++ [e], n₁, List.append_assoc es₁ es₂ [e], hn₁, hidle, ?_, ?_, ?_⟩
  · intro t
    rw [Node.run, Runs.run_concat_eq_some]
    exact ⟨_, hrest t, Node.step_withTx he htim2 hs t⟩
  · show (Transmitter.routine .idle s.c s.random).Completes (n'.tx, s.point) _
    rw [htx]
    exact hcompletes
  · right
    show n'.tx.tim2.cen = false
    rw [htx]
    exact hstopped

theorem Committed.next (h : s.Committed n es) (hcommitted : s.point.committed = true)
    (hpoint : s.point ≠ .returned) : s.next.Committed n es := by
  obtain ⟨es₁, es₂, n₁, rfl, hn₁, hidle, hrest, hcompletes, hcen⟩ := h
  have hstate : s.node.tx.statement s.node.mon.getState s.c s.random s.point =
      s.node.tx.statement .idle s.c s.random s.point := by
    apply Transmitter.statement_state
    · intro heq
      rw [heq] at hcommitted
      cases hcommitted
    · intro heq
      rw [heq] at hcommitted
      cases hcommitted
  refine ⟨es₁, es₂, n₁, rfl, hn₁, hidle, hrest, ?_, ?_⟩
  · unfold CalledNode.next
    rw [hstate]
    exact hcompletes.next
  · exact Transmitter.cen_statement (hcen.resolve_left hpoint) s.point

/-- What is read but not written is read at this moment. -/
theorem Reached.next (h : s.Reached n es) (hn : n.tx.Settled) (hpoint : s.point ≠ .returned) :
    s.next.Reached n es := by
  obtain ⟨node, point, c, random⟩ := s
  cases point with
  | testSending =>
    show Reached ⟨node, if node.tx.inTransmission then .testSent else .testFree, c, random⟩ n es
    split
    · next htx => exact ⟨h, Node.atOnce_of_inTransmission h htx⟩
    · exact h
  | testSent =>
    show Reached ⟨node, if node.tx.transmissionComplete then .returned else .testFree, c, random⟩
      n es
    split
    · exact h.2
    · exact h.1
  | testFree =>
    show Reached ⟨node, if !node.tx.inTransmission then .testComplete else .retestIdle, c, random⟩
      n es
    cases htx : node.tx.inTransmission
    · exact ⟨h, htx⟩
    · exact ⟨h, Or.inl (Node.atOnce_of_inTransmission h htx)⟩
  | testComplete =>
    show Reached ⟨node, if node.tx.transmissionComplete then .readChar else .retestIdle, c, random⟩
      n es
    cases hcomplete : node.tx.transmissionComplete
    · exact ⟨h.1, Or.inr ⟨h.2, hcomplete⟩⟩
    · exact ⟨h.1, h.2, hcomplete⟩
  | readChar => exact ⟨node, h.1, h.2.1, h.2.2, rfl⟩
  | testIdle =>
    obtain ⟨m, hm, htx, hcomplete, hnode⟩ := h
    replace hnode : node = { m with tx := m.tx.readChar c } := hnode
    subst hnode
    show Reached ⟨{ m with tx := m.tx.readChar c },
      if m.mon.getState = .idle then .testStopped else .returned, c, random⟩ n es
    split
    · next hidle =>
      -- the answer that commits the call
      refine ⟨es, [], m, (List.append_nil es).symm, hm, hidle, fun t => rfl, ?_, ?_⟩
      · exact Transmitter.completes_testStopped htx hcomplete
      · right
        show (m.tx.readChar c).tim2.cen = false
        rw [Transmitter.readChar_frame]
        exact Node.cen_of_settled hn hm htx
    · next hidle =>
      apply Node.atOnce_of_run hm
      rw [Node.transmitterUpdate, Transmitter.mainRoutineUpdate, htx, hcomplete]
      simp [hidle]
  | retestIdle =>
    show Reached ⟨node, if node.mon.getState = .idle then .retestStopped else .returned, c, random⟩
      n es
    obtain ⟨hrun, hcases⟩ := h
    split
    · next hidle =>
      by_cases hcollided : node.tx.inTransmission = false ∧ node.tx.transmissionComplete = false
      · -- the answer that commits the call
        right
        refine ⟨es, [], node, (List.append_nil es).symm, hrun, hidle, fun t => rfl, ?_, ?_⟩
        · exact Transmitter.completes_retestStopped hcollided.1 hcollided.2
        · exact Or.inr (Node.cen_of_settled hn hrun hcollided.1)
      · left
        refine ⟨hcases.resolve_right hcollided, ?_⟩
        rw [not_and_or, Bool.not_eq_false, Bool.not_eq_false] at hcollided
        exact hcollided
    · next hidle =>
      rcases hcases with hdone | ⟨htx, hcomplete⟩
      · exact hdone
      · apply Node.atOnce_of_run hrun
        rw [Node.transmitterUpdate, Transmitter.mainRoutineUpdate, htx, hcomplete]
        simp [hidle]
  | retestStopped =>
    rcases h with ⟨hdone, hbusy⟩ | h
    · show Reached ⟨node, if !node.tx.inTransmission then .retestComplete else .returned, c, random⟩
        n es
      cases htx : node.tx.inTransmission
      · left
        refine ⟨hdone, htx, hbusy.resolve_left ?_⟩
        rw [Bool.not_eq_true]
        exact htx
      · exact hdone
    · exact (h.next rfl hpoint).reached (Transmitter.committed_statement _ _ rfl)
  | retestComplete =>
    rcases h with ⟨hdone, -, hcomplete⟩ | h
    · show Reached ⟨node, if !node.tx.transmissionComplete then .resetPosition else .returned, c,
        random⟩ n es
      rw [if_neg (by simpa using hcomplete)]
      exact hdone
    · exact (h.next rfl hpoint).reached (Transmitter.committed_statement _ _ rfl)
  | returned => exact absurd rfl hpoint
  | _ => exact (Committed.next h rfl hpoint).reached (Transmitter.committed_statement _ _ rfl)

/-- An interrupt leaves what the call has read as it is, or the call looks at it again. -/
theorem Reached.interrupt (h : s.Reached n es) (hn : n.tx.Settled) {e : Event} {n' : Node}
    (hkeep : s.KeepsAttempt (.interrupt e)) (he : e.isInterrupt = true)
    (hs : s.node.step e = some n') : { s with node := n' }.Reached n (es ++ [e]) := by
  obtain ⟨node, point, c, random⟩ := s
  have hrun (h : n.run es = some node) : n.run (es ++ [e]) = some n' := by
    rw [Node.run, Runs.run_concat_eq_some]
    exact ⟨node, h, hs⟩
  -- outside a transmission TIM2 is stopped, and nobody else writes to the transmitter
  have hsame (hsettled : node.tx.Settled) (htx : node.tx.inTransmission = false) :
      n'.tx = node.tx :=
    (Node.tx_of_interrupt he (hsettled htx) hs).2
  cases point with
  | testSending => exact hrun h
  | testSent => exact ⟨hrun h.1, h.2.step hs⟩
  | testFree => exact hrun h
  | testComplete =>
    obtain ⟨h, htx⟩ := h
    refine ⟨hrun h, ?_⟩
    show n'.tx.inTransmission = false
    rw [hsame (Node.cen_of_settled hn h) htx]
    exact htx
  | readChar =>
    obtain ⟨h, htx, hcomplete⟩ := h
    refine ⟨hrun h, ?_⟩
    show n'.tx.inTransmission = false ∧ n'.tx.transmissionComplete = true
    rw [hsame (Node.cen_of_settled hn h) htx]
    exact ⟨htx, hcomplete⟩
  | testIdle =>
    obtain ⟨m, hm, htx, hcomplete, hnode⟩ := h
    replace hnode : node = { m with tx := m.tx.readChar c } := hnode
    subst hnode
    have hcen : (m.tx.readChar c).tim2.cen = false := by
      rw [Transmitter.readChar_frame]
      exact Node.cen_of_settled hn hm htx
    obtain ⟨htim2, heq⟩ := Node.tx_of_interrupt he hcen hs
    -- the same interrupt before the character was stored
    have hbefore := Node.step_withTx he htim2 hs m.tx
    refine ⟨{ n' with tx := m.tx }, ?_, htx, hcomplete, ?_⟩
    · rw [Node.run, Runs.run_concat_eq_some]
      exact ⟨m, hm, hbefore⟩
    · show n' = { n' with tx := m.tx.readChar c }
      rw [← show n'.tx = m.tx.readChar c from heq]
  | retestIdle =>
    obtain ⟨h, hcases⟩ := h
    refine ⟨hrun h, ?_⟩
    rcases hcases with hdone | ⟨htx, hcomplete⟩
    · exact Or.inl (hdone.step hs)
    · right
      show n'.tx.inTransmission = false ∧ n'.tx.transmissionComplete = false
      rw [hsame (Node.cen_of_settled hn h) htx]
      exact ⟨htx, hcomplete⟩
  | retestStopped =>
    rcases h with ⟨hdone, hbusy⟩ | h
    · left
      refine ⟨hdone.step hs, Node.busy_of_interrupt he hs ?_ hbusy⟩
      rintro rfl
      exact hkeep rfl rfl
    · exact Or.inr (h.interrupt (by simp) he hs)
  | retestComplete =>
    rcases h with ⟨hdone, htx, hcomplete⟩ | h
    · left
      refine ⟨hdone.step hs, ?_⟩
      show n'.tx.inTransmission = false ∧ n'.tx.transmissionComplete = true
      rw [hsame (hdone.settled hn) htx]
      exact ⟨htx, hcomplete⟩
    · exact Or.inr (h.interrupt (by simp) he hs)
  | returned => exact Node.AtOnce.step h hs
  | _ => exact Committed.interrupt h (by simp) he hs

/-! ## Whole runs of the main loop -/

/-- The same events with every call at one moment of its own: no interrupt, no other call changes
its place, and a call stays between the interrupts that came before it began and those that came
after it had returned. -/
inductive Linearizes : List CallEvent → List Event → Prop
  | nil : Linearizes [] []
  | receiverUpdate {ms : List CallEvent} {es : List Event} (h : Linearizes ms es) :
    Linearizes (ms ++ [.receiverUpdate]) (es ++ [.receiverUpdate])
  | interrupt {ms : List CallEvent} {es : List Event} (h : Linearizes ms es) (e : Event) :
    Linearizes (ms ++ [.interrupt e]) (es ++ [e])
  | call {ms body : List CallEvent} {es es₁ es₂ : List Event} (h : Linearizes ms es) (c : Byte)
    (random : ℕ) (hcall : ∀ m ∈ body, m.inCall = true) (hbody : interrupts body = es₁ ++ es₂) :
    Linearizes (ms ++ (.call c random :: body ++ [.statement]))
      (es ++ (es₁ ++ .transmitterUpdate c random :: es₂))

/-- A board between two calls of the main loop. -/
def between (n : Node) : CalledNode := ⟨n, .returned, 0, 0⟩

/-- After the events `ms`: the calls that have returned were atomic, and the one in progress stands
where its interrupts have left it. -/
def Tracks (n₀ : Node) (ms : List CallEvent) (s : CalledNode) : Prop :=
  (s.point = .returned ∧ ∃ es, Linearizes ms es ∧ n₀.run es = some s.node) ∨
    s.point ≠ .returned ∧ ∃ ms₁ body es n, ms = ms₁ ++ .call s.c s.random :: body ∧
      (∀ m ∈ body, m.inCall = true) ∧ Linearizes ms₁ es ∧ n₀.run es = some n ∧
        s.Reached n (interrupts body)

theorem interrupts_concat (ms : List CallEvent) (e : Event) :
    interrupts (ms ++ [.interrupt e]) = interrupts ms ++ [e] :=
  List.filterMap_append

theorem interrupts_statement (ms : List CallEvent) :
    interrupts (ms ++ [.statement]) = interrupts ms := by
  rw [interrupts, List.filterMap_append]
  exact List.append_nil _

variable {n₀ : Node} {ms : List CallEvent} {s' : CalledNode}

/-- Between two calls. -/
theorem Tracks.outside {m : CallEvent} {e : Event} {n' : Node} (h : Tracks n₀ ms s)
    (hpoint : s.point = .returned) (hs : s.node.step e = some n')
    (hlin : ∀ es, Linearizes ms es → Linearizes (ms ++ [m]) (es ++ [e])) :
    Tracks n₀ (ms ++ [m]) { s with node := n' } := by
  rcases h with ⟨-, es, hes, hrun⟩ | ⟨hcall, -⟩
  · left
    refine ⟨hpoint, es ++ [e], hlin es hes, ?_⟩
    rw [Node.run, Runs.run_concat_eq_some]
    exact ⟨s.node, hrun, hs⟩
  · exact absurd hpoint hcall

theorem inCall_concat {body : List CallEvent} {m : CallEvent}
    (hbody : ∀ m ∈ body, m.inCall = true) (hm : m.inCall = true) :
    ∀ m' ∈ body ++ [m], m'.inCall = true := by
  intro m' hmem
  rcases List.mem_append.mp hmem with hmem | hmem
  · exact hbody m' hmem
  · rw [List.mem_singleton.mp hmem]
    exact hm

theorem Tracks.step {m : CallEvent} (h : Tracks n₀ ms s) (hn₀ : n₀.tx.Settled)
    (hkeep : s.KeepsAttempt m) (hs : s.step m = some s') : Tracks n₀ (ms ++ [m]) s' := by
  cases m with
  | call c random =>
    obtain ⟨hpoint, hs⟩ := Option.ite_none_right_eq_some.mp hs
    cases hs
    rcases h with ⟨-, es, hes, hrun⟩ | ⟨hcall, -⟩
    · exact Or.inr ⟨by simp, ms, [], es, s.node, rfl, by simp, hes, hrun, rfl⟩
    · exact absurd hpoint hcall
  | receiverUpdate =>
    obtain ⟨hpoint, hs⟩ := Option.ite_none_right_eq_some.mp hs
    cases hs
    exact h.outside hpoint rfl fun es hes => hes.receiverUpdate
  | statement =>
    obtain ⟨hpoint, hs⟩ := Option.ite_none_left_eq_some.mp hs
    cases hs
    obtain ⟨ms₁, body, es, n, rfl, hbody, hes, hrun, hreached⟩ :=
      (h.resolve_left fun hret => hpoint hret.1).2
    have hn := Runs.run_invariant (fun _ _ _ hm hs => Node.settled_step hm hs) hn₀ hrun
    have hnext := hreached.next hn hpoint
    by_cases hret : s.next.point = .returned
    · -- the statement with which the call returns
      left
      rw [Reached, hret] at hnext
      obtain ⟨es₁, es₂, hsplit, hcall⟩ := hnext
      refine ⟨hret, es ++ (es₁ ++ .transmitterUpdate s.c s.random :: es₂), ?_, ?_⟩
      · rw [List.append_assoc]
        exact hes.call s.c s.random hbody hsplit
      · exact Runs.run_append_eq_some.mpr ⟨n, hrun, hcall⟩
    · right
      refine ⟨hret, ms₁, body ++ [.statement], es, n, ?_, ?_, hes, hrun, ?_⟩
      · rw [List.append_assoc]
        rfl
      · exact inCall_concat hbody rfl
      · rw [interrupts_statement]
        exact hnext
  | interrupt e =>
    obtain ⟨he, hs⟩ := Option.ite_none_right_eq_some.mp hs
    obtain ⟨n', hn', rfl⟩ := Option.map_eq_some_iff.mp hs
    by_cases hpoint : s.point = .returned
    · exact h.outside hpoint hn' fun es hes => hes.interrupt e
    · obtain ⟨ms₁, body, es, n, rfl, hbody, hes, hrun, hreached⟩ :=
        (h.resolve_left fun hret => hpoint hret.1).2
      have hn := Runs.run_invariant (fun _ _ _ hm hs => Node.settled_step hm hs) hn₀ hrun
      right
      refine ⟨hpoint, ms₁, body ++ [.interrupt e], es, n, ?_, ?_, hes, hrun, ?_⟩
      · rw [List.append_assoc]
        rfl
      · exact inCall_concat hbody rfl
      · rw [interrupts_concat]
        exact hreached.interrupt hn hkeep he hn'

/-- After the first tick, every run of the main loop whose calls are interrupted anywhere is a run
with atomic calls. -/
theorem atomic_of_calls {src dest : Byte} {packetMode pin line : Bool} {es₀ : List Event}
    (hn₀ : (Node.boot src dest packetMode pin line).run es₀ = some n₀) (htick : .tim2 ∈ es₀)
    (hkeep : Runs.Along step KeepsAttempt (between n₀) ms)
    (hrun : Runs.run step (between n₀) ms = some s) (hpoint : s.point = .returned) :
    ∃ es, Linearizes ms es ∧
      (Node.boot src dest packetMode pin line).run (es₀ ++ es) = some s.node := by
  have hsettled := Node.settled_of_run hn₀ htick
  have htracks : Tracks n₀ ms s := by
    clear hpoint
    induction ms using List.reverseRecOn generalizing s with
    | nil =>
      cases hrun
      exact Or.inl ⟨rfl, [], .nil, rfl⟩
    | append_singleton ms m ih =>
      obtain ⟨t, ht, hs⟩ := Runs.run_concat_eq_some.mp hrun
      obtain ⟨hbefore, hlast⟩ := hkeep.append ht
      exact (ih hbefore ht).step hsettled hlast.1 hs
  rcases htracks with ⟨-, es, hes, hes'⟩ | ⟨hcall, -⟩
  · exact ⟨es, hes, Runs.run_append_eq_some.mpr ⟨n₀, hn₀, hes'⟩⟩
  · exact absurd hpoint hcall

/-- The line "a" is typed. While it is being loaded, another board pulls the line low. -/
def interruptedLine : List CallEvent :=
  .call 0x61 0 :: List.replicate 7 .statement ++
    .receiverUpdate :: .call carriageReturn 0 :: List.replicate 12 .statement ++
      .interrupt (.exti4 false) :: List.replicate 8 .statement

theorem atomic_interruptedLine : ∃ n₀ s es,
    (Node.boot 0xAA 0xBB false true true).run [.tim2] = some n₀ ∧
      Runs.run step (between n₀) interruptedLine = some s ∧ s.node.tx.inTransmission = true ∧
        s.node.mon.getState = .busy ∧ Linearizes interruptedLine es ∧
          (Node.boot 0xAA 0xBB false true true).run ([.tim2] ++ es) = some s.node := by
  have hcheck : (((Node.boot 0xAA 0xBB false true true).run [.tim2]).bind fun n₀ =>
      (Runs.run step (between n₀) interruptedLine).map fun s =>
        (s.point, s.node.tx.inTransmission, s.node.mon.getState)) =
          some (.returned, true, .busy) := by
    decide +kernel
  obtain ⟨n₀, hn₀, hs⟩ := Option.bind_eq_some_iff.mp hcheck
  obtain ⟨s, hs, heq⟩ := Option.map_eq_some_iff.mp hs
  simp only [Prod.mk.injEq] at heq
  obtain ⟨hpoint, htx, hbusy⟩ := heq
  have hkeep : Runs.Along step KeepsAttempt (between n₀) interruptedLine := by
    apply Runs.along_of_forall
    intro t m hm htick
    rw [htick] at hm
    exact absurd hm (by decide)
  obtain ⟨es, hes, hrun⟩ := atomic_of_calls hn₀ (by simp) hkeep hs hpoint
  exact ⟨n₀, s, es, hn₀, hs, htx, hbusy, hes, hrun⟩

end CalledNode

end NetworkingCard
