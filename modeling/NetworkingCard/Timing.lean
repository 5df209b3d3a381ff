import NetworkingCard.TransmitterInvariant

/-!
# Timed runs of a board

What one event of a timed run does to each part of a board (`tx_cycle`, `rx_cycle`, `mon_cycle`,
and the frame lemmas of the other events), and the transmitter's invariant in real time.

`wait` computes the state after many cycles by jumping from one timer event to the next, so that
concrete runs of many thousand cycles can be evaluated; `wait_eq` relates it to the cycles.
-/

namespace NetworkingCard

namespace Tim

/-- With prescaler 0 only the count moves outside update events. -/
theorem cycle_prescaler_zero {t : Tim} (hactive : t.pscActive = 0) (hcount : t.pscCount = 0)
    (hupd : t.updates = false) :
    t.cycle = { t with cnt := if t.cen = false ∨ t.arr = 0 then t.cnt else t.cnt + 1 } := by
  unfold cycle
  by_cases hstop : t.cen = false ∨ t.arr = 0
  · rw [if_pos hstop, if_pos hstop]
  · rw [if_neg hstop, if_neg (by omega), if_neg hstop]
    have hlt : t.cnt < t.arr := by
      by_contra hge
      simp only [not_or, Bool.not_eq_false] at hstop
      simp [updates, hstop.1, hactive] at hupd
      omega
    rw [if_pos hlt, ← hcount]

end Tim

namespace Transmitter

theorem cycle_of_updates {t : Transmitter} (h : t.tim2.updates = true) (state : MonitorState) :
    t.cycle state = { t with tim2 := t.tim2.updateEvent }.tim2IRQHandler state := by
  rw [cycle, if_pos h, Tim.cycle_of_updates h]

theorem cycle_of_not_updates {t : Transmitter} (h : t.tim2.updates = false)
    (state : MonitorState) : t.cycle state = { t with tim2 := t.tim2.cycle } := by
  rw [cycle, if_neg (by simp [h])]

theorem cen_of_updates {t : Transmitter} (h : t.tim2.updates = true) : t.tim2.cen = true := by
  by_contra hcen
  rw [Tim.not_updates_of_stopped (Bool.eq_false_of_not_eq_true hcen)] at h
  cases h

theorem Inv.cycle {t : Transmitter} (h : t.Inv) (state : MonitorState) : (t.cycle state).Inv := by
  cases hupd : t.tim2.updates
  · rw [cycle_of_not_updates hupd]
    exact { h with
      running := by simpa using h.running
      stopped := by simpa using h.stopped
      arr := by simpa using h.arr
      psc := by simpa using h.psc }
  · rw [cycle_of_updates hupd]
    have hcen : t.tim2.cen = true := cen_of_updates hupd
    exact h.updateEvent.tim2IRQHandler hcen state

end Transmitter

namespace Node

@[simp] theorem timedRun_nil (n : Node) : n.timedRun [] = n := rfl

@[simp] theorem timedRun_cons (n : Node) (e : TimedEvent) (es : List TimedEvent) :
    n.timedRun (e :: es) = (n.timedStep e).timedRun es := rfl

theorem timedRun_append (n : Node) (es fs : List TimedEvent) :
    n.timedRun (es ++ fs) = (n.timedRun es).timedRun fs :=
  List.foldl_append

/-- What every timed step preserves holds at the end of a timed run. -/
theorem timedRun_invariant {I : Node → Prop} (hstep : ∀ n e, I n → I (n.timedStep e)) {n : Node}
    (h : I n) (es : List TimedEvent) : I (n.timedRun es) := by
  induction es generalizing n with
  | nil => exact h
  | cons e es ih => exact ih (hstep n e h)

/-! ## One cycle -/

@[simp] theorem tx_cycle (n : Node) : n.cycle.tx = n.tx.cycle n.mon.getState := rfl

@[simp] theorem rx_cycle (n : Node) : n.cycle.rx = n.rx.cycle := rfl

@[simp] theorem mon_cycle (n : Node) : n.cycle.mon = n.mon.cycle := rfl

@[simp] theorem idr4_cycle (n : Node) : n.cycle.idr4 = n.idr4 := rfl

/-! ## The line -/

theorem setLine_same {n : Node} {level : Bool} (h : level = n.idr4) : n.setLine level = n :=
  if_pos h

theorem setLine_edge {n : Node} {level : Bool} (h : level ≠ n.idr4) :
    n.setLine level = ⟨n.tx, n.mon.edgeIntrr level, n.rx.edge level, level⟩ :=
  if_neg h

@[simp] theorem tx_setLine (n : Node) (level : Bool) : (n.setLine level).tx = n.tx := by
  unfold setLine
  split <;> rfl

@[simp] theorem idr4_setLine (n : Node) (level : Bool) : (n.setLine level).idr4 = level := by
  unfold setLine
  split
  · next h => exact h.symm
  · rfl

/-! ## The transmitter in real time -/

theorem inv_timedStep (n : Node) (e : TimedEvent) (h : n.tx.Inv) : (n.timedStep e).tx.Inv := by
  cases e with
  | transmitterUpdate c random => exact h.mainRoutineUpdate _ c random
  | receiverUpdate => exact h
  | line level =>
    rw [timedStep, tx_setLine]
    exact h
  | cycle =>
    rw [timedStep, tx_cycle]
    exact h.cycle _

end Node

/-! ## Cycles without timer events -/

namespace Tim

/-- In none of the next `k` cycles does the counter pass its limit. -/
def Quiet (t : Tim) (k : ℕ) : Prop :=
  t.cen = true → t.pscActive = 0 ∧ t.pscCount = 0 ∧ 0 < t.arr ∧ t.cnt + k ≤ t.arr

/-- How many of the next `k` cycles are found to be quiet. -/
def quiet (t : Tim) (k : ℕ) : ℕ :=
  if t.cen then
    if t.pscActive = 0 ∧ t.pscCount = 0 ∧ t.cnt < t.arr then min k (t.arr - t.cnt) else 0
  else k

/-- The registers after `k` quiet cycles. -/
def skip (t : Tim) (k : ℕ) : Tim := if t.cen then { t with cnt := t.cnt + k } else t

theorem quiet_le (t : Tim) (k : ℕ) : t.quiet k ≤ k := by
  unfold quiet
  split
  · split <;> omega
  · omega

theorem Quiet.mono {t : Tim} {j k : ℕ} (h : t.Quiet k) (hjk : j ≤ k) : t.Quiet j := fun hcen =>
  have ⟨h1, h2, h3, h4⟩ := h hcen
  ⟨h1, h2, h3, by omega⟩

theorem quiet_quiet {t : Tim} {k : ℕ} (hpos : 0 < t.quiet k) : t.Quiet (t.quiet k) := by
  intro hcen
  unfold quiet at hpos ⊢
  rw [if_pos hcen] at hpos ⊢
  split at hpos
  · next h =>
    rw [if_pos h]
    exact ⟨h.1, h.2.1, by omega, by omega⟩
  · omega

theorem Quiet.cycle {t : Tim} {k : ℕ} (h : t.Quiet (k + 1)) :
    t.updates = false ∧ t.cycle = t.skip 1 ∧ (t.skip 1).Quiet k := by
  by_cases hcen : t.cen = true
  · obtain ⟨hactive, hcount, harr, hcnt⟩ := h hcen
    have hupd : t.updates = false := by
      simp [updates, hcen, hactive, hcount, harr]
      omega
    refine ⟨hupd, ?_, ?_⟩
    · rw [cycle_prescaler_zero hactive hcount hupd, if_neg (by simp [hcen]; omega), skip, if_pos hcen]
    · rw [skip, if_pos hcen]
      exact fun _ => ⟨hactive, hcount, harr, by dsimp only; omega⟩
  · rw [Bool.not_eq_true] at hcen
    have hskip : t.skip 1 = t := if_neg (by simp [hcen])
    rw [hskip]
    exact ⟨not_updates_of_stopped hcen, cycle_of_stopped hcen, h.mono (by omega)⟩

theorem skip_skip (t : Tim) (j k : ℕ) : (t.skip j).skip k = t.skip (j + k) := by
  unfold skip
  by_cases hcen : t.cen = true
  · simp [hcen, Nat.add_assoc]
  · simp [hcen]

end Tim

namespace SysTick

/-- In none of the next `k` cycles does SysTick load or expire. -/
def Quiet (t : SysTick) (k : ℕ) : Prop := t.enable = true → k < t.val

/-- How many of the next `k` cycles are quiet. -/
def quiet (t : SysTick) (k : ℕ) : ℕ := if t.enable then min k (t.val - 1) else k

/-- The registers after `k` quiet cycles. -/
def skip (t : SysTick) (k : ℕ) : SysTick := if t.enable then { t with val := t.val - k } else t

theorem Quiet.mono {t : SysTick} {j k : ℕ} (h : t.Quiet k) (hjk : j ≤ k) : t.Quiet j :=
  fun hen => Nat.lt_of_le_of_lt hjk (h hen)

theorem quiet_quiet {t : SysTick} {k : ℕ} (hpos : 0 < t.quiet k) : t.Quiet (t.quiet k) := by
  intro hen
  unfold quiet at hpos ⊢
  rw [if_pos hen] at hpos ⊢
  omega

theorem Quiet.cycle {t : SysTick} {k : ℕ} (h : t.Quiet (k + 1)) :
    t.expires = false ∧ t.cycle = t.skip 1 ∧ (t.skip 1).Quiet k := by
  unfold expires SysTick.cycle skip
  by_cases hen : t.enable = true
  · have hval := h hen
    simp only [hen, if_true, Bool.true_and, decide_eq_false_iff_not]
    refine ⟨by omega, by rw [if_neg (by omega)], fun _ => ?_⟩
    dsimp only
    omega
  · simp only [hen, Bool.false_eq_true, if_false]
    exact ⟨rfl, trivial, h.mono (by omega)⟩

theorem skip_skip (t : SysTick) (j k : ℕ) : (t.skip j).skip k = t.skip (j + k) := by
  unfold skip
  by_cases hen : t.enable = true
  · simp only [hen, if_true]
    rw [Nat.sub_sub]
  · simp [hen]

end SysTick

namespace Node

/-- None of the three timers raises its interrupt in the next `k` cycles. -/
structure Quiet (n : Node) (k : ℕ) : Prop where
  tim2 : n.tx.tim2.Quiet k
  tim4 : n.rx.tim4.Quiet k
  stk : n.mon.stk.Quiet k

theorem Quiet.mono {n : Node} {j k : ℕ} (h : n.Quiet k) (hjk : j ≤ k) : n.Quiet j :=
  ⟨h.tim2.mono hjk, h.tim4.mono hjk, h.stk.mono hjk⟩

/-- The board after `k` quiet cycles. -/
def skip (n : Node) (k : ℕ) : Node :=
  { n with tx := { n.tx with tim2 := n.tx.tim2.skip k },
           rx := { n.rx with tim4 := n.rx.tim4.skip k },
           mon := { n.mon with stk := n.mon.stk.skip k } }

/-- How many of the next `k` cycles are found to be quiet. -/
def quiet (n : Node) (k : ℕ) : ℕ :=
  min (n.tx.tim2.quiet k) (min (n.rx.tim4.quiet k) (n.mon.stk.quiet k))

theorem quiet_quiet {n : Node} {k : ℕ} (hpos : 0 < n.quiet k) : n.Quiet (n.quiet k) := by
  unfold quiet at hpos ⊢
  have h2 : 0 < n.tx.tim2.quiet k := by omega
  have h4 : 0 < n.rx.tim4.quiet k := by omega
  have hs : 0 < n.mon.stk.quiet k := by omega
  exact ⟨(Tim.quiet_quiet h2).mono (by omega), (Tim.quiet_quiet h4).mono (by omega),
    (SysTick.quiet_quiet hs).mono (by omega)⟩

theorem Quiet.cycle {n : Node} {k : ℕ} (h : n.Quiet (k + 1)) :
    n.cycle = n.skip 1 ∧ (n.skip 1).Quiet k := by
  obtain ⟨hupd2, hcyc2, hq2⟩ := h.tim2.cycle
  obtain ⟨hupd4, hcyc4, hq4⟩ := h.tim4.cycle
  obtain ⟨hexp, hcycs, hqs⟩ := h.stk.cycle
  refine ⟨?_, hq2, hq4, hqs⟩
  unfold Node.cycle Transmitter.cycle Receiver.cycle Monitor.cycle skip
  simp only [hupd2, hupd4, hexp, hcyc2, hcyc4, hcycs, Bool.false_eq_true, if_false]

theorem skip_skip (n : Node) (j k : ℕ) : (n.skip j).skip k = n.skip (j + k) := by
  unfold skip
  simp only [Tim.skip_skip, SysTick.skip_skip]

/-- Quiet cycles only move the counters. -/
theorem timedRun_quiet {n : Node} {k : ℕ} (h : n.Quiet (k + 1)) :
    n.timedRun (List.replicate (k + 1) .cycle) = n.skip (k + 1) := by
  induction k generalizing n with
  | zero =>
    exact h.cycle.1
  | succ k ih =>
    obtain ⟨hcyc, hq⟩ := h.cycle
    rw [List.replicate_succ, timedRun_cons, timedStep, hcyc, ih hq, skip_skip, Nat.add_comm 1]

/-- The board after `k` cycles, jumping over quiet ones; `fuel` bounds the number of jumps. -/
def wait : ℕ → Node → ℕ → Node
  | 0, n, k => n.timedRun (List.replicate k .cycle)
  | fuel + 1, n, k =>
    if k = 0 then n
    else if n.quiet k = 0 then wait fuel n.cycle (k - 1)
    else wait fuel (n.skip (n.quiet k)) (k - n.quiet k)

theorem wait_eq (fuel : ℕ) (n : Node) (k : ℕ) :
    wait fuel n k = n.timedRun (List.replicate k .cycle) := by
  induction fuel generalizing n k with
  | zero => rfl
  | succ fuel ih =>
    unfold wait
    by_cases hk : k = 0
    · rw [if_pos hk, hk]
      rfl
    rw [if_neg hk]
    by_cases hq : n.quiet k = 0
    · rw [if_pos hq, ih]
      obtain ⟨j, rfl⟩ : ∃ j, k = j + 1 := ⟨k - 1, by omega⟩
      rfl
    · rw [if_neg hq, ih]
      have hle : n.quiet k ≤ k := (Nat.min_le_left _ _).trans (Tim.quiet_le _ _)
      have hrun : n.timedRun (List.replicate (n.quiet k) .cycle) = n.skip (n.quiet k) := by
        obtain ⟨j, hj⟩ : ∃ j, n.quiet k = j + 1 := ⟨n.quiet k - 1, by omega⟩
        have hquiet : n.Quiet (j + 1) := hj ▸ quiet_quiet (by omega)
        rw [hj]
        exact timedRun_quiet hquiet
      rw [← hrun, ← timedRun_append, List.replicate_append_replicate, Nat.add_sub_cancel' hle]

end Node

end NetworkingCard
