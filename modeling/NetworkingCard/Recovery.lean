import NetworkingCard.Sampling

/-!
# The receiver recovers

`Reachable` is every state a board can get into: by events in any order, noise on the line
included, with timer interrupts at any time or with counting timers. Whatever bit count, byte,
sample flag or pending timeout an earlier history has left, one call of the main routine on an idle
line makes the receiver ready (`Rests.receiverUpdate`), and the next packet is put into
`receiveBuf` as its own bytes (`recovered`).
-/

namespace NetworkingCard

namespace Monitor

/-- The monitor is idle only with its timeout stopped. -/
def Rests (m : Monitor) : Prop := m.getState = .idle → m.stk.enable = false

theorem rests_edgeIntrr (m : Monitor) (level : Bool) : (m.edgeIntrr level).Rests := by
  intro hidle
  cases hidle

theorem rests_sysTickHandler (m : Monitor) : m.sysTickHandler.Rests := by
  intro _
  rw [stk_sysTickHandler]

theorem Rests.cycle {m : Monitor} (h : m.Rests) : m.cycle.Rests := by
  unfold Monitor.cycle
  dsimp only
  split
  · exact rests_sysTickHandler _
  · intro hidle
    have hstopped := h hidle
    unfold SysTick.cycle
    rw [if_neg (by simp [hstopped])]
    exact hstopped

end Monitor

namespace Node

/-- The states of a board after any history. -/
inductive Reachable : Node → Prop
  | boot (src dest : Byte) (packetMode pin line : Bool) :
    Reachable (Node.boot src dest packetMode pin line)
  | step {n n' : Node} {e : Event} : Reachable n → n.step e = some n' → Reachable n'
  | timedStep {n : Node} (e : TimedEvent) : Reachable n → Reachable (n.timedStep e)

theorem Reachable.run {n n' : Node} {es : List Event} (h : Reachable n)
    (hrun : n.run es = some n') : Reachable n' :=
  Runs.run_invariant (fun _ _ _ h hstep => Reachable.step h hstep) h hrun

theorem Reachable.rxInv {n : Node} (h : Reachable n) : n.rx.Inv := by
  induction h with
  | boot src dest packetMode pin line => exact Receiver.inv_init packetMode
  | step _ hstep ih => exact rxInv_step ih hstep
  | timedStep e _ ih => exact rxInv_timedStep _ e ih

theorem Reachable.rests {n : Node} (h : Reachable n) : n.mon.Rests := by
  induction h with
  | boot src dest packetMode pin line => exact fun _ => rfl
  | @step n n' e _ hstep ih =>
    cases e with
    | transmitterUpdate c random =>
      cases hstep
      exact ih
    | receiverUpdate =>
      cases hstep
      exact ih
    | tim2 =>
      obtain ⟨-, rfl⟩ := step_tim2_eq_some.mp hstep
      exact ih
    | tim4 =>
      obtain ⟨-, rfl⟩ := step_tim4_eq_some.mp hstep
      exact ih
    | exti4 level =>
      cases hstep
      exact Monitor.rests_edgeIntrr n.mon level
    | sysTick =>
      obtain ⟨-, rfl⟩ := step_sysTick_eq_some.mp hstep
      exact Monitor.rests_sysTickHandler n.mon
  | @timedStep n e _ ih =>
    cases e with
    | transmitterUpdate c random => exact ih
    | receiverUpdate => exact ih
    | line level =>
      show (n.setLine level).mon.Rests
      by_cases hedge : level = n.idr4
      · rw [setLine_same hedge]
        exact ih
      · rw [setLine_edge hedge]
        exact Monitor.rests_edgeIntrr n.mon level
    | cycle => exact ih.cycle

/-! ## An idle line -/

/-- The monitor is idle on a high line. -/
structure IdleLine (n : Node) : Prop where
  inv : n.rx.Inv
  idle : n.mon.getState = .idle
  stopped : n.mon.stk.enable = false
  high : n.idr4 = true

theorem IdleLine.cycle {n : Node} (h : n.IdleLine) : n.cycle.IdleLine := by
  have hmon : n.cycle.mon = n.mon := Monitor.cycle_of_stopped h.stopped
  refine ⟨h.inv.cycle, ?_, ?_, h.high⟩
  · rw [hmon]
    exact h.idle
  · rw [hmon]
    exact h.stopped

/-- Whatever an earlier history has left, one call of the main routine makes the receiver ready. -/
theorem IdleLine.receiverUpdate {n : Node} (h : n.IdleLine) : n.receiverUpdate.Quiescent := by
  have hrx : n.receiverUpdate = { n with rx := n.rx.mainRoutineUpdate .idle } := by
    unfold Node.receiverUpdate
    rw [h.idle]
  obtain ⟨hsample, hbit⟩ := n.rx.sampling_mainRoutineUpdate_idle
  rw [hrx]
  exact ⟨h.inv.mainRoutineUpdate .idle, h.idle, h.stopped, h.high, hsample, hbit⟩

theorem Quiescent.idleLine {n : Node} (h : n.Quiescent) : n.IdleLine :=
  ⟨h.inv, h.idle, h.stopped, h.high⟩

/-- Without an edge the line stays idle. -/
theorem IdleLine.timedStep {n : Node} (h : n.IdleLine) {e : TimedEvent} (he : e ≠ .line false) :
    (n.timedStep e).IdleLine := by
  cases e with
  | transmitterUpdate c random => exact ⟨h.inv, h.idle, h.stopped, h.high⟩
  | receiverUpdate => exact h.receiverUpdate.idleLine
  | line level =>
    obtain rfl : level = true := by
      cases level
      · exact absurd rfl he
      · rfl
    show (n.setLine true).IdleLine
    rw [setLine_same h.high.symm]
    exact h
  | cycle => exact h.cycle

/-- Without an edge the receiver stays ready. -/
theorem Quiescent.timedStep {n : Node} (h : n.Quiescent) {e : TimedEvent} (he : e ≠ .line false) :
    (n.timedStep e).Quiescent := by
  have hidle := h.idleLine.timedStep he
  cases e with
  | transmitterUpdate c random => exact { h with }
  | receiverUpdate => exact h.idleLine.receiverUpdate
  | line level =>
    obtain rfl : level = true := by
      cases level
      · exact absurd rfl he
      · rfl
    show (n.setLine true).Quiescent
    rw [setLine_same h.high.symm]
    exact h
  | cycle =>
    refine ⟨hidle.inv, hidle.idle, hidle.stopped, hidle.high, ?_, ?_⟩
    · show n.rx.cycle.sample = true
      cases hupd : n.rx.tim4.updates
      · rw [Receiver.cycle_of_not_updates hupd]
        exact h.sample
      · rw [Receiver.cycle_of_updates hupd]
    · show n.rx.cycle.currBit = 0
      rw [Receiver.cycle_frame]
      exact h.currBit

theorem Quiescent.timedRun {n : Node} (h : n.Quiescent) {es : List TimedEvent}
    (hes : ∀ e ∈ es, e ≠ .line false) : (n.timedRun es).Quiescent := by
  induction es generalizing n with
  | nil => exact h
  | cons e es ih =>
    exact ih (h.timedStep (hes e List.mem_cons_self)) fun e he => hes e (List.mem_cons_of_mem _ he)

/-- An idle period in which the main routine has run. -/
theorem IdleLine.timedRun {n : Node} (h : n.IdleLine) {es : List TimedEvent}
    (hes : ∀ e ∈ es, e ≠ .line false) (hcall : .receiverUpdate ∈ es) :
    (n.timedRun es).Quiescent := by
  induction es generalizing n with
  | nil => cases hcall
  | cons e es ih =>
    have hrest : ∀ e ∈ es, e ≠ .line false := fun e he => hes e (List.mem_cons_of_mem _ he)
    rcases List.mem_cons.mp hcall with hnow | hlater
    · subst hnow
      exact h.receiverUpdate.timedRun hrest
    · exact ih (h.timedStep (hes e List.mem_cons_self)) hrest hlater

/-! ## Recovery -/

/-- Half-bits of the nominal duration, to the accuracy with which two boards' clocks agree. -/
def Nominal (ds : List ℕ) : Prop := ∀ d ∈ ds, transmissionTicks ≤ d ∧ d ≤ halfbitTimeoutTicks

theorem Nominal.pair {ds : List ℕ} (h : Nominal ds) : ds.IsChain fun d d' =>
    halfbitTimeoutTicks < d + d' ∧ d + d' ≤ 16 * transmissionTimeoutUs := by
  apply List.Pairwise.isChain
  apply List.pairwise_of_forall_mem_list
  intro d hd d' hd'
  obtain ⟨hlow, hhigh⟩ := h d hd
  obtain ⟨hlow', hhigh'⟩ := h d' hd'
  unfold transmissionTicks at hlow hlow'
  unfold halfbitTimeoutTicks at hhigh hhigh' ⊢
  unfold transmissionTimeoutUs
  omega

/-- **The receiver recovers.** From every reachable state: when the monitor has become idle on a
high line and the main routine has run in that idle period, the next byte list that starts like a
packet is put into `receiveBuf` as it was sent, whatever the main loop does meanwhile. -/
theorem recovered {n : Node} (hreach : Reachable n) (hidle : n.mon.getState = .idle)
    (hhigh : n.idr4 = true) {period : List TimedEvent} (hperiod : ∀ e ∈ period, e ≠ .line false)
    (hcall : .receiverUpdate ∈ period) {bytes : List Byte} (hfirst : StartsLow bytes)
    {ds : List ℕ} (hlen : ds.length = (halfBits bytes).length) (hnominal : Nominal ds) {idle : ℕ}
    {es : List TimedEvent}
    (hes : es.filter physical = waveEvents ((halfBits bytes).zip ds ++ [(true, idle)])) :
    (n.timedRun period).received es = bytes := by
  have hline : n.IdleLine := ⟨hreach.rxInv, hidle, hreach.rests hidle, hhigh⟩
  have hready := hline.timedRun hperiod hcall
  exact received_wave hready hfirst hlen (fun d hd => (hnominal d hd).2) hnominal.pair hes

/-- A pulse of noise leaves a bit in `dataByte`; the next byte is received all the same. -/
theorem recovered_pulse :
    ∃ n, (boot 0xAA 0xBB true true true).run [.exti4 false, .exti4 true, .sysTick] = some n ∧
      n.rx.currBit = 1 ∧
      (n.timedRun [.receiverUpdate]).received
        (waveEvents ((halfBits [0x55]).zip (List.replicate 16 8001) ++ [(true, 20000)])) =
          [0x55] := by
  have hreach : Reachable (boot 0xAA 0xBB true true true) := .boot 0xAA 0xBB true true true
  have hnominal : Nominal (List.replicate 16 8001) := by
    intro d hd
    rw [List.eq_of_mem_replicate hd]
    decide
  have hfirst : StartsLow [0x55] := by
    intro b hb
    cases hb
    rfl
  have hlen : (List.replicate 16 8001).length = (halfBits [0x55]).length := by
    rw [length_halfBits, Bits.length_flatMap_msbFirst]
    rfl
  have hpulse : ∃ n, (boot 0xAA 0xBB true true true).run [.exti4 false, .exti4 true, .sysTick] =
      some n ∧ n.rx.currBit = 1 ∧ n.mon.getState = .idle ∧ n.idr4 = true := ⟨_, rfl, rfl, rfl, rfl⟩
  obtain ⟨n, hrun, hbit, hidle, hhigh⟩ := hpulse
  exact ⟨n, hrun, hbit, recovered (hreach.run hrun) hidle hhigh (by simp) (by simp) hfirst hlen
    hnominal (filter_waveEvents _)⟩

end Node

end NetworkingCard
