import Mathlib.Tactic.Ring
import Mathlib.Data.Nat.Basic

/-!
# `tim.c` and the general-purpose timers

The registers of TIM2 and TIM4 that the firmware programs, the functions of `tim.c` that write
them, and the counter itself, one core cycle at a time (`cycle`). `PSC` is buffered: the value
written becomes active at the next update event. `ARR` and `CNT` take effect at once. The counter
does not advance while `ARR` is 0.

`remaining` is the number of cycles that pass before the cycle of the next update event; all
timing results rest on `Counting.cycle`.
-/

namespace NetworkingCard

/-- The registers of one timer, with the active prescaler and its count. -/
structure Tim where
  cen : Bool
  uif : Bool
  cnt : ℕ
  psc : ℕ
  pscActive : ℕ
  pscCount : ℕ
  arr : ℕ
  ccr1 : ℕ

namespace Tim

/-- `set_ccr1`. -/
def setCcr1 (t : Tim) (ticks : ℕ) : Tim := { t with ccr1 := ticks }

/-- `set_arr`. -/
def setArr (t : Tim) (ticks : ℕ) : Tim := { t with arr := ticks }

/-- `clear_cnt`. -/
def clearCnt (t : Tim) : Tim := { t with cnt := 0 }

/-- `set_psc`: written to the buffer only. -/
def setPsc (t : Tim) (ticks : ℕ) : Tim := { t with psc := ticks }

/-- `start_counter`. -/
def startCounter (t : Tim) : Tim := { t with cen := true }

/-- `stop_counter`. -/
def stopCounter (t : Tim) : Tim := { t with cen := false }

/-- `clear_output_cmp_mode_pending_flag`: clears `UIF`, not `CC1IF`. -/
def clearOutputCmpModePendingFlag (t : Tim) : Tim := { t with uif := false }

/-! ## The counter -/

/-- The registers after reset. -/
def reset : Tim := ⟨false, false, 0, 0, 0, 0, 0xFFFF, 0⟩

/-- An update event: the count restarts, the buffered prescaler becomes active, and the
interrupt is raised. -/
def updateEvent (t : Tim) : Tim :=
  { t with cnt := 0, pscCount := 0, pscActive := t.psc, uif := true }

/-- Whether the next core cycle is that of an update event: the count passes `ARR`. -/
def updates (t : Tim) : Bool :=
  t.cen && decide (0 < t.arr) && decide (t.pscActive ≤ t.pscCount) && decide (t.arr ≤ t.cnt)

/-- One core cycle. -/
def cycle (t : Tim) : Tim :=
  if t.cen = false ∨ t.arr = 0 then t
  else if t.pscCount < t.pscActive then { t with pscCount := t.pscCount + 1 }
  else if t.cnt < t.arr then { t with pscCount := 0, cnt := t.cnt + 1 }
  else t.updateEvent

theorem cycle_of_updates {t : Tim} (h : t.updates = true) : t.cycle = t.updateEvent := by
  simp only [updates, Bool.and_eq_true, decide_eq_true_eq] at h
  obtain ⟨⟨⟨hcen, harr⟩, hpsc⟩, hcnt⟩ := h
  rw [cycle, if_neg (by rw [hcen]; simp; omega), if_neg (by omega), if_neg (by omega)]

/-- The cycles that pass before the cycle of the next update event. -/
def remaining (t : Tim) : ℕ :=
  (t.arr - t.cnt) * (t.pscActive + 1) + (t.pscActive - t.pscCount)

/-- A running counter that has not passed its limits. -/
structure Counting (t : Tim) : Prop where
  cen : t.cen = true
  arr_pos : 0 < t.arr
  cnt_le : t.cnt ≤ t.arr
  pscCount_le : t.pscCount ≤ t.pscActive

theorem Counting.updates_iff {t : Tim} (h : t.Counting) :
    t.updates = true ↔ t.remaining = 0 := by
  have := h.arr_pos
  have := h.cnt_le
  have := h.pscCount_le
  simp only [updates, remaining, h.cen, Bool.true_and, Bool.and_eq_true, decide_eq_true_eq,
    Nat.add_eq_zero_iff, Nat.mul_eq_zero]
  omega

/-- A counter that starts from 0 counts one unit of its active prescaler for each count. -/
theorem counting_of_cnt_zero {t : Tim} {psc : ℕ} (hcen : t.cen = true) (harr : 0 < t.arr)
    (hcnt : t.cnt = 0) (hactive : t.pscActive = psc) (hcount : t.pscCount = 0) :
    t.Counting ∧ t.remaining = t.arr * (psc + 1) + psc := by
  refine ⟨⟨hcen, harr, by omega, by omega⟩, ?_⟩
  rw [remaining, hcnt, hcount, hactive, Nat.sub_zero, Nat.sub_zero]

/-- Outside an update event a cycle brings the next one closer and changes nothing else. -/
theorem Counting.cycle {t : Tim} (h : t.Counting) (hrem : t.remaining ≠ 0) :
    t.cycle.Counting ∧ t.cycle.remaining + 1 = t.remaining ∧
      t.cycle = { t with cnt := t.cycle.cnt, pscCount := t.cycle.pscCount } := by
  have harr := h.arr_pos
  have hcnt := h.cnt_le
  have hpsc := h.pscCount_le
  rw [Tim.cycle, if_neg (by rw [h.cen]; simp; omega)]
  by_cases hp : t.pscCount < t.pscActive
  · rw [if_pos hp]
    refine ⟨⟨h.cen, harr, hcnt, hp⟩, ?_, rfl⟩
    simp only [remaining]
    omega
  · have hpe : t.pscCount = t.pscActive := by omega
    have hlt : t.cnt < t.arr := by
      simp only [remaining, hpe, Nat.sub_self, Nat.add_zero] at hrem
      have := Nat.pos_of_ne_zero (left_ne_zero_of_mul hrem)
      omega
    rw [if_neg hp, if_pos hlt]
    refine ⟨⟨h.cen, harr, hlt, Nat.zero_le _⟩, ?_, rfl⟩
    simp only [remaining, hpe, Nat.sub_self, Nat.add_zero, Nat.sub_zero]
    obtain ⟨d, hd⟩ : ∃ d, t.arr - t.cnt = d + 1 := ⟨t.arr - t.cnt - 1, by omega⟩
    rw [show t.arr - (t.cnt + 1) = d by omega, hd]
    ring

theorem not_updates_of_stopped {t : Tim} (h : t.cen = false) : t.updates = false := by
  simp [updates, h]

theorem cycle_of_stopped {t : Tim} (h : t.cen = false) : t.cycle = t := if_pos (Or.inl h)

@[simp] theorem arr_cycle (t : Tim) : t.cycle.arr = t.arr := by
  unfold cycle updateEvent
  split
  · rfl
  · split
    · rfl
    · split <;> rfl

@[simp] theorem psc_cycle (t : Tim) : t.cycle.psc = t.psc := by
  unfold cycle updateEvent
  split
  · rfl
  · split
    · rfl
    · split <;> rfl

@[simp] theorem cen_cycle (t : Tim) : t.cycle.cen = t.cen := by
  unfold cycle updateEvent
  split
  · rfl
  · split
    · rfl
    · split <;> rfl

end Tim

end NetworkingCard
