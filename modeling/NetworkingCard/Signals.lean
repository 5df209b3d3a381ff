import NetworkingCard.RegisterRefinement
import NetworkingCard.TransmitterInvariant

/-!
# The signals on `GPIOC`

Besides PC9, its output, the program writes three pins of the same word for an observer at the
board: `TIM2_IRQHandler` drives a synchronisation signal on PC5, `EXTI4_IRQHandler` toggles PC6 and
`TIM4_IRQHandler` toggles PC8. All of them are read-modify-write accesses to `GPIOC_BASE->ODR`.

* `RegisterBoard.getLsbD_step`: what an event does to the word;
* `RegisterBoard.signals_of_run`: what the three pins show in every state reached.
-/

namespace NetworkingCard

namespace Registers

variable (m : Registers) (t : Transmitter) (r : Receiver) (state : MonitorState)

/-! ## What each routine does to the word -/

theorem odrC_startTransmission : m.startTransmission odrC = m odrC := by
  simp +decide only [startTransmission, timCall_apply]

theorem odrC_toggleRetransmission (random : ℕ) (retransmission : Bool) :
    m.toggleRetransmission random retransmission odrC = m odrC := by
  cases retransmission with
  | true => simp +decide only [toggleRetransmission, timCall_apply, if_true]
  | false => simp +decide only [toggleRetransmission, timCall_apply, if_false]

theorem odrC_transmitterUpdate (c : Byte) (random : ℕ) :
    m.transmitterUpdate t state c random odrC = m odrC := by
  unfold transmitterUpdate
  dsimp only
  split
  · rfl
  · split
    · split
      · exact odrC_startTransmission m
      · rfl
    · split
      · rw [odrC_startTransmission, odrC_toggleRetransmission]
      · rfl

/-- The synchronisation signal on PC5 after an interrupt of TIM2. -/
def sync (word : BitVec 32) : Bool :=
  if t.retransmissionTimeoutActive then word.getLsbD 5
  else if t.atEnd then false
  else if state = .collision then false
  else word.getLsbD 5 || decide (t.currByte = 0) && decide (t.currBit = 0)

theorem getLsbD_endTransmission {j : ℕ} (hj : j ≠ 9) :
    (m.endTransmission odrC).getLsbD j = if j = 5 then false else (m odrC).getLsbD j := by
  simp +decide only [endTransmission, stopTransmission, RegisterFile.assign_apply, timCall_apply,
    Assign.apply, if_true, BitVec.getLsbD_clearBit, BitVec.getLsbD_setBit, hj, if_false]

theorem getLsbD_transmitBit {j : ℕ} (hj : j ≠ 9) :
    (m.transmitBit t odrC).getLsbD j =
      if j = 5 then (m odrC).getLsbD 5 || decide (t.currByte = 0) && decide (t.currBit = 0)
      else (m odrC).getLsbD j := by
  have hdrive : (m.transmitBit t odrC).getLsbD j =
      ((if t.currByte = 0 && t.currBit = 0 then m.assign odrC (.or (1#32 <<< 5)) else m :
        Registers) odrC).getLsbD j := by
    unfold transmitBit
    split
    · rw [RegisterFile.assign_apply, if_pos rfl, Assign.apply,
        BitVec.getLsbD_setBit _ (by decide), if_neg hj]
    · rw [RegisterFile.assign_apply, if_pos rfl, Assign.apply, BitVec.getLsbD_clearBit, if_neg hj]
  rw [hdrive]
  split
  · next hfirst =>
    rw [RegisterFile.assign_apply, if_pos rfl, Assign.apply, BitVec.getLsbD_setBit _ (by decide),
      hfirst, Bool.or_true]
  · next hfirst =>
    rw [Bool.eq_false_of_not_eq_true hfirst, Bool.or_false]
    split
    · next hj5 => rw [hj5]
    · rfl

theorem getLsbD_tim2IRQHandler {j : ℕ} (hj : j ≠ 9) :
    (m.tim2IRQHandler t state odrC).getLsbD j =
      if j = 5 then sync t state (m odrC) else (m odrC).getLsbD j := by
  have hclear : m.timCall (.tim2, .clearOutputCmpModePendingFlag) odrC = m odrC := by
    simp +decide only [timCall_apply]
  unfold tim2IRQHandler sync
  split
  · rw [odrC_startTransmission, odrC_toggleRetransmission, hclear]
    split
    · next hj5 => rw [hj5]
    · rfl
  · split
    · rw [getLsbD_endTransmission _ hj, hclear]
    · split
      · rw [getLsbD_endTransmission _ hj, hclear]
      · rw [getLsbD_transmitBit _ _ hj, hclear]

/-- The monitor does not write the word. -/
theorem odrC_via_mon {m m' : Registers} (h : Via Access.Mon m m') : m' odrC = m odrC := by
  apply h.apply_eq (by decide) (by decide) (by decide)
  rintro op (hx | ⟨hx, _⟩)
  · exact absurd hx (by decide)
  · exact absurd hx (by decide)

theorem odrC_receiverUpdate : m.receiverUpdate r state odrC = m odrC := by
  unfold receiverUpdate
  generalize (if state = .idle then r.idleReset else r) = r'
  split
  · simp +decide only [timCall_apply]
  · rfl

theorem odrC_tim4IRQHandler : m.tim4IRQHandler odrC = m odrC ^^^ 1#32 <<< 8 := by
  simp +decide only [tim4IRQHandler, timCall_apply, RegisterFile.assign_apply, Assign.apply,
    if_true]

theorem odrC_exti4IRQHandler (hpending : m extiPr &&& 1#32 <<< 4 ≠ 0) :
    m.exti4IRQHandler r odrC = if r.sample then m odrC ^^^ 1#32 <<< 6 else m odrC := by
  have hmon : ∀ m : Registers, m.monitorEdgeIntrr odrC = m odrC := fun m =>
    odrC_via_mon (via_monitorEdgeIntrr m)
  rw [exti4IRQHandler, if_neg hpending, edge]
  split
  · simp +decide only [timCall_apply, RegisterFile.assign_apply, Assign.apply, if_true, hmon,
      writeExtiPr, if_false]
  · simp +decide only [timCall_apply, RegisterFile.assign_apply, hmon, writeExtiPr, if_false]

end Registers

/-- A message is being put on PC9: at least one half-bit of it has been driven. -/
def Transmitter.sending (t : Transmitter) : Bool :=
  t.inTransmission && !t.retransmissionTimeoutActive &&
    !(decide (t.currByte = 0) && decide (t.currBit = 0))

namespace Transmitter

variable {t : Transmitter}

/-- An interrupt of TIM2 sets the synchronisation signal as it should be. -/
theorem Inv.sync_eq (h : t.Inv) (hcen : t.tim2.cen = true) (state : MonitorState)
    {word : BitVec 32} (hword : word.getLsbD 5 = t.sending) :
    Registers.sync t state word = (t.tim2IRQHandler state).sending := by
  unfold Registers.sync
  rcases tim2IRQHandler_cases t state with ⟨hr, heq⟩ | ⟨hr, he, heq⟩ | ⟨hr, he, hs, heq⟩ |
    ⟨hr, he, hs, heq⟩
  · obtain ⟨_, _, hbyte, hbit⟩ := h.backoff hr
    rw [heq, hr, if_pos rfl, hword]
    simp [sending, hr, hbyte, hbit]
  · rw [heq, hr, he]
    simp [sending]
  · rw [heq, hr, he, hs]
    simp [sending]
  · have htx := h.inTransmission_of_cen hcen he
    rw [heq, hr, he, if_neg (by simp), if_neg (by simp), if_neg hs, hword]
    by_cases hbit : t.currBit + 1 = 8
    · simp [sending, htx, hr, hbit]
      omega
    · simp [sending, htx, hr, hbit]
      omega

/-- A call of the main routine does not change it: a message is started, or started again, with
its first half-bit still to come. -/
theorem Inv.sending_mainRoutineUpdate (h : t.Inv) (state : MonitorState) (c : Byte) (random : ℕ) :
    (t.mainRoutineUpdate state c random).sending = t.sending := by
  rcases mainRoutineUpdate_cases t state c random with ⟨_, _, heq⟩ | ⟨_, _, heq⟩ |
    ⟨hreads, _, _, heq⟩ | ⟨htx, _, _, heq⟩
  · rw [heq]
  · rw [heq, readChar_frame]
    rfl
  · simp only [readsChar, Bool.and_eq_true, Bool.not_eq_true'] at hreads
    obtain ⟨htx, hcomplete⟩ := hreads
    have hbit := h.currBit_end (h.ready htx hcomplete)
    rw [heq, transmitData_frame, readChar_frame]
    simp [sending, htx, hbit]
  · have hretransmission : (t.retransmit random).retransmissionTimeoutActive = true := rfl
    rw [heq]
    simp [sending, htx, hretransmission]

end Transmitter

namespace RegisterBoard

variable {b b' : RegisterBoard}

/-- The samples that an event takes. -/
def samples (b : RegisterBoard) : Event → List Bool
  | .exti4 level => if b.vars.rx.sample then [level] else []
  | _ => []

/-- The half-bit timeouts among the events. -/
def timeouts : Event → List Unit
  | .tim4 => [()]
  | _ => []

/-- The pins that an event toggles. -/
def toggles (b : RegisterBoard) : Event → BitVec 32
  | .exti4 _ => if b.vars.rx.sample then 1#32 <<< 6 else 0#32
  | .tim4 => 1#32 <<< 8
  | _ => 0#32

/-- What an event does to the word, PC9 apart. -/
theorem getLsbD_step {e : Event} (hs : b.step e = some b') {j : ℕ} (h9 : j ≠ 9) :
    (b'.regs odrC).getLsbD j =
      if e = .tim2 ∧ j = 5 then Registers.sync b.vars.tx b.vars.mon.getState (b.regs odrC)
      else (b.regs odrC ^^^ b.toggles e).getLsbD j := by
  cases e with
  | transmitterUpdate c random =>
    cases hs
    rw [if_neg (by simp)]
    show (Registers.transmitterUpdate _ _ _ c random odrC).getLsbD j = (_ ^^^ 0#32).getLsbD j
    rw [Registers.odrC_transmitterUpdate, BitVec.xor_zero]
  | receiverUpdate =>
    cases hs
    rw [if_neg (by simp)]
    show (Registers.receiverUpdate _ _ _ odrC).getLsbD j = (_ ^^^ 0#32).getLsbD j
    rw [Registers.odrC_receiverUpdate, BitVec.xor_zero]
  | tim2 =>
    rw [step, Option.ite_none_right_eq_some, Option.some.injEq] at hs
    obtain ⟨_, rfl⟩ := hs
    show (Registers.tim2IRQHandler (b.regs.count .tim2 _) _ _ odrC).getLsbD j =
      if _ then _ else (_ ^^^ 0#32).getLsbD j
    rw [Registers.getLsbD_tim2IRQHandler _ _ _ h9, Registers.count_apply _ _ _ (by decide),
      BitVec.xor_zero]
    simp only [true_and]
    rfl
  | tim4 =>
    rw [step, Option.ite_none_right_eq_some, Option.some.injEq] at hs
    obtain ⟨_, rfl⟩ := hs
    rw [if_neg (by simp)]
    show (Registers.tim4IRQHandler (b.regs.count .tim4 _) odrC).getLsbD j =
      (_ ^^^ 1#32 <<< 8).getLsbD j
    rw [Registers.odrC_tim4IRQHandler, Registers.count_apply _ _ _ (by decide)]
  | exti4 level =>
    rw [step, Option.ite_none_right_eq_some, Option.some.injEq] at hs
    obtain ⟨_, rfl⟩ := hs
    have hword : (b.edge level).regs odrC = b.regs odrC := by
      simp +decide only [edge, Registers.setIdr4, RegisterFile.assign_apply, if_false]
    rw [if_neg (by simp)]
    show (Registers.exti4IRQHandler (b.edge level).regs b.vars.rx odrC).getLsbD j =
      (b.regs odrC ^^^ if b.vars.rx.sample then 1#32 <<< 6 else 0#32).getLsbD j
    rw [Registers.odrC_exti4IRQHandler _ _ (node_edge b level).2, hword]
    split
    · rfl
    · rw [BitVec.xor_zero]
  | sysTick =>
    rw [step, Option.ite_none_right_eq_some, Option.some.injEq] at hs
    obtain ⟨_, rfl⟩ := hs
    rw [if_neg (by simp)]
    show (Registers.sysTickHandler b.regs _ odrC).getLsbD j = (_ ^^^ 0#32).getLsbD j
    rw [Registers.odrC_via_mon (Registers.via_sysTickHandler _ _), BitVec.xor_zero]

theorem getLsbD_toggles (b : RegisterBoard) (e : Event) :
    (b.toggles e).getLsbD 6 = decide ((b.samples e).length % 2 = 1) ∧
      (b.toggles e).getLsbD 8 = decide ((timeouts e).length % 2 = 1) ∧
      ∀ j, j ≠ 6 → j ≠ 8 → (b.toggles e).getLsbD j = false := by
  have hother : ∀ {i j : ℕ}, j ≠ i → (1#32 <<< i).getLsbD j = false := fun hne => by
    rw [BitVec.getLsbD_one_shiftLeft, decide_eq_false (Ne.symm hne), Bool.and_false]
  cases e with
  | exti4 level =>
    simp only [toggles, samples, timeouts]
    split
    · exact ⟨rfl, rfl, fun j h6 _ => hother h6⟩
    · simp
  | tim4 =>
    simp only [toggles, samples, timeouts]
    exact ⟨rfl, rfl, fun j _ h8 => hother h8⟩
  | _ => simp [toggles, samples, timeouts]

/-- PC5 shows whether a message is being sent. -/
structure Synced (b : RegisterBoard) : Prop where
  configured : b.regs.Configured
  inv : b.node.tx.Inv
  sync : (b.regs odrC).getLsbD 5 = b.node.tx.sending

theorem synced_step (b : RegisterBoard) (e : Event) (b' : RegisterBoard) (h : b.Synced)
    (hs : b.step e = some b') : b'.Synced := by
  have hnode : b.node.step e = some b'.node := by
    rw [← node_step h.configured, hs, Option.map_some]
  have hsync := getLsbD_step hs (show 5 ≠ 9 by decide)
  have htoggles := (getLsbD_toggles b e).2.2 5 (by decide) (by decide)
  refine ⟨configured_step h.configured hs, Node.inv_step _ _ _ h.inv hnode, ?_⟩
  rw [hsync]
  rcases Node.tx_step_cases hnode with ⟨c, random, rfl, htx⟩ | ⟨rfl, hcen, htx⟩ | ⟨_, htim2, htx⟩
  · rw [htx, h.inv.sending_mainRoutineUpdate, if_neg (by simp), BitVec.getLsbD_xor, htoggles,
      Bool.xor_false, h.sync]
  · rw [htx, if_pos ⟨rfl, rfl⟩]
    exact h.inv.updateEvent.sync_eq hcen _ h.sync
  · rw [htx, if_neg (fun hx => htim2 hx.1), BitVec.getLsbD_xor, htoggles, Bool.xor_false, h.sync]

theorem length_flatMap_timeouts (es : List Event) :
    (es.flatMap timeouts).length = es.count .tim4 := by
  induction es with
  | nil => rfl
  | cons e es ih =>
    rw [List.flatMap_cons, List.length_append, ih, List.count_cons, Nat.add_comm]
    cases e <;> rfl

/-- In every run PC6 shows the parity of the samples and PC8 that of the timeouts, and no pin but
these two, PC5 and PC9 is written. -/
theorem toggles_of_run {es : List Event} (hr : b.run es = some b') :
    (b'.regs odrC).getLsbD 6 = ((b.regs odrC).getLsbD 6 ^^
        decide ((Runs.outputs step samples b es).length % 2 = 1)) ∧
      (b'.regs odrC).getLsbD 8 = ((b.regs odrC).getLsbD 8 ^^ decide (es.count .tim4 % 2 = 1)) ∧
      ∀ j, j ∉ [5, 6, 8, 9] → (b'.regs odrC).getLsbD j = (b.regs odrC).getLsbD j := by
  have hstep : ∀ {j : ℕ} (_ : j ≠ 5 ∧ j ≠ 9) (b : RegisterBoard) (e : Event) (b' : RegisterBoard),
      b.step e = some b' →
        (b'.regs odrC).getLsbD j = ((b.regs odrC).getLsbD j ^^ (b.toggles e).getLsbD j) := by
    intro j hj b e b' hs
    rw [getLsbD_step hs hj.2, if_neg (fun hx => hj.1 hx.2), BitVec.getLsbD_xor]
  refine ⟨?_, ?_, fun j hj => ?_⟩
  · apply Runs.parity_of_run (I := fun _ => True) (f := fun b => (b.regs odrC).getLsbD 6)
      (fun _ _ _ _ _ => trivial) _ trivial hr
    intro b e b' _ hs
    rw [← (getLsbD_toggles b e).1]
    exact hstep (by decide) b e b' hs
  · rw [← length_flatMap_timeouts, ← Runs.outputs_of_events timeouts hr]
    apply Runs.parity_of_run (I := fun _ => True) (f := fun b => (b.regs odrC).getLsbD 8)
      (fun _ _ _ _ _ => trivial) _ trivial hr
    intro b e b' _ hs
    rw [← (getLsbD_toggles b e).2.1]
    exact hstep (by decide) b e b' hs
  · simp only [List.mem_cons, List.not_mem_nil, or_false, not_or] at hj
    obtain ⟨h5, h6, h8, h9⟩ := hj
    apply Runs.run_invariant (I := fun b' => (b'.regs odrC).getLsbD j = (b.regs odrC).getLsbD j)
      _ rfl hr
    intro b e b' hb hs
    rw [hstep ⟨h5, h9⟩ b e b' hs, (getLsbD_toggles b e).2.2 j h6 h8, Bool.xor_false, hb]

theorem synced_boot {m : Registers} (h : Registers.AfterReset m)
    (hlow : (m odrC).getLsbD 5 = false) (src dest : Byte) (packetMode : Bool) :
    (boot m src dest packetMode).Synced := by
  obtain ⟨_, _, _, _, _, _, _, hkept⟩ := Registers.words_main m
  have hregs : (boot m src dest packetMode).regs = m.main := rfl
  refine ⟨hregs ▸ h.configured, ?_, ?_⟩
  · rw [node_boot h]
    exact Node.inv_boot src dest packetMode _ _
  · rw [hregs, hkept odrC (by decide), hlow, node_boot h]
    rfl

/-- **The signals on `GPIOC`.** In every state reached from a reset with PC5 low: PC5 is high
exactly while a message is being sent; PC6 has changed its level once for every sample of the
receiver and PC8 once for every half-bit timeout; and no pin but these three and PC9 was ever
written. -/
theorem signals_of_run {m : Registers} (h : Registers.AfterReset m)
    (hlow : (m odrC).getLsbD 5 = false) {src dest : Byte} {packetMode : Bool} {es : List Event}
    {b : RegisterBoard} (hr : (boot m src dest packetMode).run es = some b) :
    (b.regs odrC).getLsbD 5 = b.vars.tx.sending ∧
      (b.regs odrC).getLsbD 6 = ((m odrC).getLsbD 6 ^^ decide
        ((Runs.outputs step samples (boot m src dest packetMode) es).length % 2 = 1)) ∧
      (b.regs odrC).getLsbD 8 = ((m odrC).getLsbD 8 ^^ decide (es.count .tim4 % 2 = 1)) ∧
      ∀ j, j ∉ [5, 6, 8, 9] → (b.regs odrC).getLsbD j = (m odrC).getLsbD j := by
  obtain ⟨_, _, _, _, _, _, _, hkept⟩ := Registers.words_main m
  have hregs : (boot m src dest packetMode).regs = m.main := rfl
  have hword : (boot m src dest packetMode).regs odrC = m odrC := by
    rw [hregs, hkept odrC (by decide)]
  have htoggles := toggles_of_run hr
  rw [hword] at htoggles
  exact ⟨(Runs.run_invariant synced_step (synced_boot h hlow src dest packetMode) hr).sync,
    htoggles⟩

/-- The first half-bit of a message. -/
theorem signals_of_run_firstHalfBit :
    ∃ b, (boot (fun _ => 0) 0xAA 0xBB false).run
        [.transmitterUpdate 0x61 0, .transmitterUpdate carriageReturn 0, .tim2] = some b ∧
      (b.regs odrC).getLsbD 5 = true ∧ (b.regs odrC).getLsbD 8 = false := by
  have hreset : Registers.AfterReset fun _ => 0 := ⟨fun _ _ => rfl, rfl⟩
  have hrun := run_node (b := boot (fun _ => 0) 0xAA 0xBB false) hreset.configured
    [.transmitterUpdate 0x61 0, .transmitterUpdate carriageReturn 0, .tim2]
  have hsending : ∀ pin line, ((Node.boot 0xAA 0xBB false pin line).run
      [.transmitterUpdate 0x61 0, .transmitterUpdate carriageReturn 0, .tim2]).map
        (fun n => n.tx.sending) = some true := by
    decide +kernel
  rw [node_boot hreset] at hrun
  have hregs := congrArg (Option.map fun n => n.tx.sending) hrun
  rw [hsending, Option.map_map, Option.map_eq_some_iff] at hregs
  obtain ⟨b, hr, hb⟩ := hregs
  obtain ⟨h5, _, h8, _⟩ := signals_of_run hreset rfl hr
  refine ⟨b, hr, h5.trans hb, ?_⟩
  rw [h8]
  decide

end RegisterBoard

end NetworkingCard
