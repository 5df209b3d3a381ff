import NetworkingCard.RegisterRefinement
import NetworkingCard.Timing

/-!
# The registers in real time

TIM2, TIM4 and SysTick count in their registers, and an interrupt is served when its flag and its
enable bits are set. `RegisterBoard.timedRun_boot`: this is what `Node.timedRun` says, provided that
no flag is left pending between two cycles (`Quiet`).
-/

namespace NetworkingCard

namespace Tim

/-- What a cycle changes: the count, that of the prescaler with its active value, and the flag. -/
theorem cycle_frame (t : Tim) :
    t.cycle = { t with
      cnt := t.cycle.cnt, uif := t.cycle.uif, pscActive := t.cycle.pscActive,
      pscCount := t.cycle.pscCount } := by
  unfold cycle updateEvent
  split
  · rfl
  · split
    · rfl
    · split <;> rfl

/-- A counter that was not pending is after a cycle if this was that of an update event. -/
theorem uif_cycle {t : Tim} (h : t.uif = false) : t.cycle.uif = t.updates := by
  unfold cycle updates updateEvent
  split
  · next hstopped =>
    rcases hstopped with hcen | harr
    · simp [h, hcen]
    · simp [h, harr]
  · next hruns =>
    push Not at hruns
    have hcen : t.cen = true := by simpa using hruns.1
    have harr : 0 < t.arr := Nat.pos_of_ne_zero hruns.2
    split
    · next hpsc => simp [h, Nat.not_le.mpr hpsc]
    · next hpsc =>
      split
      · next hcnt => simp [h, Nat.not_le.mpr hcnt]
      · next hcnt => simp [hcen, harr, Nat.not_lt.mp hpsc, Nat.not_lt.mp hcnt]

theorem cnt_cycle_lt {t : Tim} {bound : ℕ} (hcnt : t.cnt < bound) (harr : t.arr < bound) :
    t.cycle.cnt < bound := by
  unfold cycle updateEvent
  split
  · exact hcnt
  · split
    · exact hcnt
    · split
      · dsimp only
        omega
      · dsimp only
        omega

end Tim

/-! ## The pending flags -/

namespace Transmitter

theorem uif_mainRoutineUpdate (t : Transmitter) (state : MonitorState) (c : Byte) (random : ℕ) :
    (t.mainRoutineUpdate state c random).tim2.uif = t.tim2.uif := by
  rcases mainRoutineUpdate_cases t state c random with ⟨_, _, h⟩ | ⟨_, _, h⟩ | ⟨_, _, _, h⟩ |
    ⟨_, _, _, h⟩
  · rw [h]
  · rw [h, readChar_frame]
  · rw [h, transmitData_frame, readChar_frame]
    rfl
  · rw [h]
    rfl

theorem uif_tim2IRQHandler (t : Transmitter) (state : MonitorState) :
    (t.tim2IRQHandler state).tim2.uif = false := by
  rcases tim2IRQHandler_cases t state with ⟨_, h⟩ | ⟨_, _, h⟩ | ⟨_, _, _, h⟩ | ⟨_, _, _, h⟩
  · rw [h]
  · rw [h]
  · rw [h]
  · rw [h]

theorem uif_cycle {t : Transmitter} (h : t.tim2.uif = false) (state : MonitorState) :
    (t.cycle state).tim2.uif = false := by
  unfold cycle
  dsimp only
  split
  · exact uif_tim2IRQHandler _ state
  · next hupdates => rw [Tim.uif_cycle h, Bool.eq_false_of_not_eq_true hupdates]

end Transmitter

namespace Receiver

theorem uif_mainRoutineUpdate (r : Receiver) (state : MonitorState) :
    (r.mainRoutineUpdate state).tim4.uif = r.tim4.uif := by
  by_cases hidle : state = .idle
  · rw [hidle, mainRoutineUpdate_idle]
    split
    · rw [deliver_frame, idleReset_frame]
    · rw [idleReset_frame]
  cases hr : r.currentlyReceiving
  · rw [mainRoutineUpdate_waiting hr hidle]
    split
    · rw [deliver_frame]
    · rfl
  · cases state
    · exact absurd rfl hidle
    · rw [mainRoutineUpdate_receiving hr]
    · rw [mainRoutineUpdate_dropping hr]
      rfl

theorem uif_edge (r : Receiver) (level : Bool) : (r.edge level).tim4.uif = r.tim4.uif := by
  cases hs : r.sample
  · rw [edge_boundary hs]
    rfl
  · rw [edge_sample hs]
    rfl

theorem uif_cycle {r : Receiver} (h : r.tim4.uif = false) : r.cycle.tim4.uif = false := by
  unfold cycle
  dsimp only
  split
  · rfl
  · next hupdates => rw [Tim.uif_cycle h, Bool.eq_false_of_not_eq_true hupdates]

end Receiver

namespace RegisterBoard

/-! ## The hardware, cycle by cycle -/

/-- TIM2 counts one core cycle if it has a clock; its interrupt is served at once. -/
def cycle2 (b : RegisterBoard) : RegisterBoard :=
  let s := b.regs.timState tim2Place b.hidden2
  let b := if s.clockEnable then b.count2 s.tim.cycle else b
  if (b.regs.timState tim2Place b.hidden2).tim.uif && b.regs.timerInterrupts tim2Place then
    b.tim2IRQHandler
  else b

/-- TIM4 counts one core cycle if it has a clock; its interrupt is served at once. -/
def cycle4 (b : RegisterBoard) : RegisterBoard :=
  let s := b.regs.timState tim4Place b.hidden4
  let b := if s.clockEnable then b.count4 s.tim.cycle else b
  if (b.regs.timState tim4Place b.hidden4).tim.uif && b.regs.timerInterrupts tim4Place then
    b.tim4IRQHandler
  else b

/-- `STK_VAL` counts down, or takes the value of `STK_LOAD`. -/
def countDown (b : RegisterBoard) : RegisterBoard :=
  let val := b.regs stkVal
  { b with regs := b.regs.assign stkVal (.set (if val = 0 then b.regs stkLoad else val - 1)) }

/-- SysTick counts one core cycle; its interrupt is served at once. -/
def cycleSysTick (b : RegisterBoard) : RegisterBoard :=
  if (b.regs stkCtrl).getLsbD 0 then
    if decide (b.regs stkVal = 1) && b.regs.sysTickInterrupts then b.countDown.sysTickHandler
    else b.countDown
  else b

/-- One core cycle of the board. -/
def cycle (b : RegisterBoard) : RegisterBoard := b.cycle2.cycle4.cycleSysTick

/-- The line takes a level: an edge when it is a new one. -/
def setLine (b : RegisterBoard) (level : Bool) : RegisterBoard :=
  if level = (b.regs idrC).getLsbD 4 then b
  else if b.regs.edgeInterrupts level then (b.edge level).exti4IRQHandler
  else { b with regs := b.regs.setIdr4 level }

/-- One event in real time. -/
def timedStep (b : RegisterBoard) : Node.TimedEvent → RegisterBoard
  | .transmitterUpdate c random => b.transmitterUpdate c random
  | .receiverUpdate => b.receiverUpdate
  | .line level => b.setLine level
  | .cycle => b.cycle

/-- Execute the events in order. -/
def timedRun (b : RegisterBoard) (es : List Node.TimedEvent) : RegisterBoard := es.foldl timedStep b

/-! ## Cycles -/

variable {b : RegisterBoard}

/-- A configured board without a pending timer interrupt. -/
structure Quiet (b : RegisterBoard) : Prop where
  configured : b.regs.Configured
  uif2 : b.node.tx.tim2.uif = false
  uif4 : b.node.rx.tim4.uif = false

theorem enabled_of_config {m : Registers} {place : TimPlace}
    (h : (m.timState place (0, 0)).config = (true, true, true)) (hidden : ℕ × ℕ) :
    (m.timState place hidden).clockEnable = true ∧ m.timerInterrupts place = true := by
  simp only [TimState.config, Prod.mk.injEq] at h
  obtain ⟨hclock, huie, hirq⟩ := h
  refine ⟨hclock, ?_⟩
  show ((m.timState place (0, 0)).uie && (m.timState place (0, 0)).irqEnable) = true
  rw [huie, hirq, Bool.true_and]

theorem tim_lt (m : Registers) (place : TimPlace) (hidden : ℕ × ℕ) :
    (m.timState place hidden).tim.cnt < 2 ^ 32 ∧ (m.timState place hidden).tim.arr < 2 ^ 32 :=
  ⟨BitVec.isLt _, BitVec.isLt _⟩

/-- A timer with a clock counts, and is pending afterwards if it made an update event; its
interrupt is enabled then. -/
theorem timer_cycle {m : Registers} {tim : Tims} {place : TimPlace}
    (hplace : tim.place = some place) (hconfig : (m.timState place (0, 0)).config = (true, true, true)) {hidden : ℕ × ℕ} {t t' : Tim}
    (ht : (m.timState place hidden).tim = t) (ht' : t.cycle = t') (huif : t.uif = false) :
    (m.timState place hidden).clockEnable = true ∧ t'.cnt < 2 ^ 32 ∧
      ((m.count tim t').timState place (t'.pscActive, t'.pscCount)).tim.uif = t.updates ∧
      (m.count tim t').timerInterrupts place = true := by
  subst ht'
  subst ht
  obtain ⟨hcnt, harr⟩ := tim_lt m place hidden
  have hlt := Tim.cnt_cycle_lt hcnt harr
  have hcount := Registers.timState_count m hplace hidden hlt (Tim.cycle_frame _)
  obtain ⟨hclock, hinterrupts⟩ := enabled_of_config hconfig hidden
  refine ⟨hclock, hlt, ?_, ?_⟩
  · rw [hcount]
    exact Tim.uif_cycle huif
  · -- counting changes no enable bit
    have huie := congrArg TimState.uie hcount
    have hirq := congrArg TimState.irqEnable hcount
    exact (congrArg₂ (· && ·) huie hirq).trans hinterrupts

theorem node_cycle2 (h : b.Quiet) :
    b.cycle2.node = { b.node with tx := b.node.tx.cycle b.node.mon.getState } ∧
      b.cycle2.regs.Configured := by
  obtain ⟨t, ht⟩ : ∃ t, b.node.tx.tim2.cycle = t := ⟨_, rfl⟩
  obtain ⟨hclock, hcnt, huif, hinterrupts⟩ :=
    timer_cycle Registers.place_tim2 h.configured.tim2 rfl ht h.uif2
  have hnode : (b.count2 t).node = { b.node with tx := { b.node.tx with tim2 := t } } :=
    node_count2 hcnt (ht ▸ Tim.cycle_frame _)
  have hconfigured := configured_count h.configured .tim2 t
  have hcycle : b.cycle2 =
      if b.node.tx.tim2.updates then (b.count2 t).tim2IRQHandler else b.count2 t := by
    unfold cycle2
    dsimp only
    rw [hclock, if_pos rfl, show (b.regs.timState tim2Place b.hidden2).tim.cycle = t from ht]
    show (if (((b.regs.count .tim2 t).timState tim2Place (t.pscActive, t.pscCount)).tim.uif &&
      (b.regs.count .tim2 t).timerInterrupts tim2Place) = true then _ else _) = _
    rw [huif, hinterrupts, Bool.and_true]
    rfl
  rw [hcycle, Transmitter.cycle, ht]
  dsimp only
  split
  · rw [node_tim2IRQHandler, hnode]
    exact ⟨rfl, configured_tx hconfigured (Registers.via_tim2IRQHandler _ _ _)⟩
  · exact ⟨hnode, hconfigured⟩

theorem node_cycle4 (h : b.Quiet) :
    b.cycle4.node = { b.node with rx := b.node.rx.cycle } ∧ b.cycle4.regs.Configured := by
  obtain ⟨t, ht⟩ : ∃ t, b.node.rx.tim4.cycle = t := ⟨_, rfl⟩
  obtain ⟨hclock, hcnt, huif, hinterrupts⟩ :=
    timer_cycle Registers.place_tim4 h.configured.tim4 rfl ht h.uif4
  have hnode : (b.count4 t).node = { b.node with rx := { b.node.rx with tim4 := t } } :=
    node_count4 hcnt (ht ▸ Tim.cycle_frame _)
  have hconfigured := configured_count h.configured .tim4 t
  have hcycle : b.cycle4 =
      if b.node.rx.tim4.updates then (b.count4 t).tim4IRQHandler else b.count4 t := by
    unfold cycle4
    dsimp only
    rw [hclock, if_pos rfl, show (b.regs.timState tim4Place b.hidden4).tim.cycle = t from ht]
    show (if (((b.regs.count .tim4 t).timState tim4Place (t.pscActive, t.pscCount)).tim.uif &&
      (b.regs.count .tim4 t).timerInterrupts tim4Place) = true then _ else _) = _
    rw [huif, hinterrupts, Bool.and_true]
    rfl
  rw [hcycle, Receiver.cycle, ht]
  dsimp only
  split
  · rw [node_tim4IRQHandler, hnode]
    exact ⟨rfl, configured_rx hconfigured (Registers.via_tim4IRQHandler _)⟩
  · exact ⟨hnode, hconfigured⟩

theorem toNat_countDown (val load : BitVec 32) :
    (if val = 0 then load else val - 1).toNat =
      if val.toNat = 0 then load.toNat else val.toNat - 1 := by
  by_cases hval : val = 0
  · rw [if_pos hval, if_pos (by rw [hval]; rfl)]
  · have hpos : val.toNat ≠ 0 := fun h => hval (BitVec.eq_of_toNat_eq h)
    rw [if_neg hval, if_neg hpos]
    have hlt := val.isLt
    have hone : (1 : BitVec 32).toNat = 1 := rfl
    rw [BitVec.toNat_sub, hone]
    omega

theorem node_countDown (henable : (b.regs stkCtrl).getLsbD 0 = true) :
    b.countDown.node =
        { b.node with mon := { b.node.mon with stk := b.node.mon.stk.cycle } } ∧
      b.regs.Via Access.Mon b.countDown.regs := by
  have hvia : b.regs.Via Access.Mon b.countDown.regs :=
    Registers.Via.refl.word (.inl (List.mem_cons_of_mem _
      (List.mem_cons_of_mem _ List.mem_cons_self)))
  obtain ⟨htx, hrx, hidr⟩ := hvia.frame_mon b.vars.tx b.vars.rx b.hidden2 b.hidden4
  refine ⟨?_, hvia⟩
  apply node_eq
  · exact htx
  · show b.countDown.regs.loadMon b.vars.mon = { b.regs.loadMon b.vars.mon with
      stk := (b.regs.loadMon b.vars.mon).stk.cycle }
    simp +decide only [countDown, Registers.loadMon, RegisterFile.assign_apply, Assign.apply,
      if_true, if_false, SysTick.cycle, henable, toNat_countDown]
  · exact hrx
  · exact congrArg (fun x => BitVec.getLsbD x 4) hidr

theorem node_cycleSysTick (h : b.regs.Configured) :
    b.cycleSysTick.node = { b.node with mon := b.node.mon.cycle } ∧
      b.cycleSysTick.regs.Configured := by
  have hexpires : decide (b.regs stkVal = 1) = decide ((b.regs stkVal).toNat = 1) := by
    rw [decide_eq_decide, ← BitVec.toNat_inj]
    rfl
  cases henable : (b.regs stkCtrl).getLsbD 0 with
  | false =>
    have hcycle : b.cycleSysTick = b := by
      unfold cycleSysTick
      rw [henable, if_neg (by simp)]
    have hmon : b.node.mon.cycle = b.node.mon := by
      have henable' : b.node.mon.stk.enable = false := henable
      simp [Monitor.cycle, SysTick.expires, SysTick.cycle, henable']
    rw [hcycle, hmon]
    exact ⟨rfl, h⟩
  | true =>
    obtain ⟨hnode, hvia⟩ := node_countDown henable
    have hconfigured := configured_mon h hvia
    have hcycle : b.cycleSysTick = if decide ((b.regs stkVal).toNat = 1) then
        b.countDown.sysTickHandler else b.countDown := by
      have htickint : b.regs.sysTickInterrupts = true := h.tickint henable
      unfold cycleSysTick
      rw [henable, if_pos rfl, hexpires, htickint, Bool.and_true]
    have hexpired : b.node.mon.stk.expires = decide ((b.regs stkVal).toNat = 1) := by
      show ((b.regs stkCtrl).getLsbD 0 && decide ((b.regs stkVal).toNat = 1)) = _
      rw [henable, Bool.true_and]
    rw [hcycle, Monitor.cycle, hexpired]
    dsimp only
    split
    · constructor
      · rw [node_sysTickHandler, hnode]
        rfl
      · exact configured_mon hconfigured (Registers.via_sysTickHandler _ _)
    · exact ⟨hnode, hconfigured⟩

/-! ## Every event in real time -/

theorem node_cycle (h : b.Quiet) : b.cycle.node = b.node.cycle ∧ b.cycle.Quiet := by
  obtain ⟨hnode2, hconfigured2⟩ := node_cycle2 h
  have hquiet2 : b.cycle2.Quiet := by
    refine ⟨hconfigured2, ?_, ?_⟩
    · rw [hnode2]
      exact Transmitter.uif_cycle h.uif2 _
    · rw [hnode2]
      exact h.uif4
  obtain ⟨hnode4, hconfigured4⟩ := node_cycle4 hquiet2
  obtain ⟨hnode, hconfigured⟩ := node_cycleSysTick hconfigured4
  have hcycle : b.cycle.node = b.node.cycle := by
    rw [cycle, hnode, hnode4, hnode2]
    rfl
  refine ⟨hcycle, hconfigured, ?_, ?_⟩
  · rw [hcycle]
    exact Transmitter.uif_cycle h.uif2 _
  · rw [hcycle]
    exact Receiver.uif_cycle h.uif4

theorem node_setLine (h : b.Quiet) (level : Bool) :
    (b.setLine level).node = b.node.setLine level ∧ (b.setLine level).Quiet := by
  unfold setLine Node.setLine
  by_cases hlevel : level = (b.regs idrC).getLsbD 4
  · rw [if_pos hlevel, if_pos (show level = b.node.idr4 from hlevel)]
    exact ⟨rfl, h⟩
  · obtain ⟨hnode, hpending⟩ := node_edge b level
    rw [if_neg hlevel, if_neg (show ¬ level = b.node.idr4 from hlevel),
      (enabled_of_configured h.configured level).2.2.1, if_pos rfl]
    have hedge := (node_exti4IRQHandler hpending).trans (congrArg Node.exti4IRQHandler hnode)
    refine ⟨hedge, configured_exti4 (configured_edge h.configured level), ?_, ?_⟩
    · rw [hedge]
      exact h.uif2
    · rw [hedge]
      exact (Receiver.uif_edge _ _).trans h.uif4

theorem node_timedStep (h : b.Quiet) (e : Node.TimedEvent) :
    (b.timedStep e).node = b.node.timedStep e ∧ (b.timedStep e).Quiet := by
  cases e with
  | transmitterUpdate c random =>
    have hnode := node_transmitterUpdate b c random
    refine ⟨hnode, configured_tx h.configured (Registers.via_transmitterUpdate _ _ _ c random),
      ?_, ?_⟩
    · exact (congrArg (fun n : Node => n.tx.tim2.uif) hnode).trans
        ((Transmitter.uif_mainRoutineUpdate _ _ c random).trans h.uif2)
    · exact (congrArg (fun n : Node => n.rx.tim4.uif) hnode).trans h.uif4
  | receiverUpdate =>
    have hnode := node_receiverUpdate b
    refine ⟨hnode, configured_rx h.configured (Registers.via_receiverUpdate _ _ _), ?_, ?_⟩
    · exact (congrArg (fun n : Node => n.tx.tim2.uif) hnode).trans h.uif2
    · exact (congrArg (fun n : Node => n.rx.tim4.uif) hnode).trans
        ((Receiver.uif_mainRoutineUpdate _ _).trans h.uif4)
  | line level => exact node_setLine h level
  | cycle => exact node_cycle h

theorem quiet_boot {m : Registers} (h : Registers.AfterReset m) (src dest : Byte)
    (packetMode : Bool) : (boot m src dest packetMode).Quiet := by
  refine ⟨h.configured, ?_, ?_⟩
  · rw [node_boot h]
    rfl
  · rw [node_boot h]
    rfl

/-- In real time too: cycle by cycle, with the counters counting in their registers, the program
on the registers does what the board does, and the board that the registers show is the same at
every moment. -/
theorem timedRun_boot {m : Registers} (h : Registers.AfterReset m) (src dest : Byte)
    (packetMode : Bool) (es : List Node.TimedEvent) :
    ((boot m src dest packetMode).timedRun es).node =
        (Node.boot src dest packetMode ((m odrC).getLsbD 9) ((m idrC).getLsbD 4)).timedRun es ∧
      ((boot m src dest packetMode).timedRun es).regs.Configured := by
  have hrun : ∀ (b : RegisterBoard), b.Quiet →
      (b.timedRun es).node = b.node.timedRun es ∧ (b.timedRun es).Quiet := by
    induction es with
    | nil => exact fun b h => ⟨rfl, h⟩
    | cons e es ih =>
      intro b h
      obtain ⟨hnode, hquiet⟩ := node_timedStep h e
      obtain ⟨hrun, hquiet'⟩ := ih (b.timedStep e) hquiet
      refine ⟨hrun.trans ?_, hquiet'⟩
      rw [hnode]
      rfl
  obtain ⟨hnode, hquiet⟩ := hrun _ (quiet_boot h src dest packetMode)
  rw [hnode, node_boot h]
  exact ⟨rfl, hquiet.configured⟩

/-- An edge, the tick of TIM2 that follows `main`, and an edge that no other one follows. -/
def firstTick : List Node.TimedEvent :=
  .line true :: (List.replicate 8001 .cycle ++ .line false :: List.replicate 17761 .cycle)

/-- TIM2 has released the line, TIM4 has found no edge within a half-bit, and SysTick has found the
line low. -/
theorem timedRun_boot_firstTick :
    ∃ n, ((boot (fun _ => 0) 0xAA 0xBB true).timedRun firstTick).node = n ∧
      n.tx.pin = true ∧ n.tx.tim2.cen = false ∧ n.rx.sample = true ∧
        n.mon.getState = .collision := by
  have hreset : Registers.AfterReset fun _ => 0 := ⟨fun _ _ => rfl, rfl⟩
  refine ⟨_, (timedRun_boot hreset 0xAA 0xBB true firstTick).1, ?_⟩
  unfold firstTick
  rw [Node.timedRun_cons, Node.timedRun_append, Node.timedRun_cons, ← Node.wait_eq 8,
    ← Node.wait_eq 8]
  decide +kernel

end RegisterBoard

end NetworkingCard
