import NetworkingCard.Timing

/-!
# The monitor tracks the line

`LineView` is what an ideal observer knows of the line: its level, and the core cycles since its
last edge. `monitor_tracks` compares the monitor with it over every timed run, from any state of
the board: busy up to and including cycle `16 * TRANSMISSION_TIMEOUT_US` after the last edge, and
from the next cycle on idle or in collision, by the level of the line.

The invariant (`Monitor.Follows`) gives the registers of SysTick for every age of the last edge.
-/

namespace NetworkingCard

/-! ## The one-shot timeout -/

namespace SysTick

/-- SysTick `k` cycles after `resetTimer` has started it. -/
def running (load k : ℕ) : SysTick := ⟨true, load, if k = 0 then 0 else load + 1 - k⟩

/-- The first cycle loads the counter, each of the next ones counts. -/
theorem cycle_running {load k : ℕ} (hk : k ≤ load) :
    (running load k).cycle = running load (k + 1) := by
  unfold running cycle
  rw [if_pos rfl, if_neg (Nat.succ_ne_zero k)]
  by_cases h0 : k = 0
  · subst h0
    rfl
  · have hval : load + 1 - k ≠ 0 := by omega
    have hnext : load + 1 - k - 1 = load + 1 - (k + 1) := by omega
    rw [if_neg h0, if_neg hval, hnext]

theorem expires_running {load k : ℕ} (hload : 0 < load) (hk : k ≤ load) :
    (running load k).expires = decide (k = load) := by
  show (true && decide ((if k = 0 then 0 else load + 1 - k) = 1)) = decide (k = load)
  rw [Bool.true_and, decide_eq_decide]
  split
  · omega
  · omega

end SysTick

/-! ## The observer -/

/-- What an observer of the line knows: its level, and the core cycles since its last edge, if
there has been one. -/
structure LineView where
  level : Bool
  sinceEdge : Option ℕ

namespace LineView

/-- One event, as the observer sees it. -/
def step (v : LineView) : Node.TimedEvent → LineView
  | .line level => if level = v.level then v else ⟨level, some 0⟩
  | .cycle => { v with sinceEdge := v.sinceEdge.map (· + 1) }
  | .transmitterUpdate _ _ => v
  | .receiverUpdate => v

theorem step_line_same {v : LineView} {level : Bool} (h : level = v.level) :
    v.step (.line level) = v :=
  if_pos h

theorem step_line_edge {v : LineView} {level : Bool} (h : level ≠ v.level) :
    v.step (.line level) = ⟨level, some 0⟩ :=
  if_neg h

theorem level_step_line (v : LineView) (b : Bool) : (v.step (.line b)).level = b := by
  by_cases hedge : b = v.level
  · rw [step_line_same hedge, hedge]
  · rw [step_line_edge hedge]

/-- The view after these events, of a line that has been watched from `level` on. -/
def after (level : Bool) (es : List Node.TimedEvent) : LineView := es.foldl step ⟨level, none⟩

end LineView

namespace Monitor

/-- The monitor is where the age of the last edge puts it: the timeout is running and the monitor
busy, or the timeout is over and the level of the line has decided. -/
structure Follows (m : Monitor) (v : LineView) : Prop where
  lineState : ∀ k, v.sinceEdge = some k → m.lineState = v.level
  busy : ∀ k, v.sinceEdge = some k → k ≤ 16 * transmissionTimeoutUs →
    m.monitorState = .busy ∧ m.stk = SysTick.running (16 * transmissionTimeoutUs) k
  settled : ∀ k, v.sinceEdge = some k → 16 * transmissionTimeoutUs < k →
    m.monitorState = (if v.level then .idle else .collision) ∧ m.stk.enable = false

/-- Before the first edge nothing is asked of the monitor. -/
theorem follows_unknown (m : Monitor) (level : Bool) : m.Follows ⟨level, none⟩ := by
  constructor
  · intro k hk
    cases hk
  · intro k hk
    cases hk
  · intro k hk
    cases hk

/-- Every edge starts the timeout anew. -/
theorem follows_edgeIntrr (m : Monitor) (level : Bool) :
    (m.edgeIntrr level).Follows ⟨level, some 0⟩ := by
  constructor
  · intro k _
    rfl
  · intro k hk _
    cases hk
    exact ⟨rfl, rfl⟩
  · intro k hk hlt
    cases hk
    omega

theorem cycle_of_stopped {m : Monitor} (h : m.stk.enable = false) : m.cycle = m := by
  unfold cycle SysTick.expires SysTick.cycle
  rw [h]
  rfl

theorem cycle_of_running {m : Monitor} {load k : ℕ} (hstk : m.stk = SysTick.running load k)
    (hk : k < load) : m.cycle = { m with stk := SysTick.running load (k + 1) } := by
  unfold cycle
  rw [hstk, SysTick.expires_running (by omega) (by omega), decide_eq_false (by omega),
    SysTick.cycle_running (by omega)]
  rfl

/-- The interrupt comes with the cycle in which the counter reaches 0. -/
theorem cycle_of_expiring {m : Monitor} {load : ℕ} (hload : 0 < load)
    (hstk : m.stk = SysTick.running load load) :
    m.cycle = { m with stk := SysTick.running load (load + 1) }.sysTickHandler := by
  unfold cycle
  rw [hstk, SysTick.expires_running hload le_rfl, decide_eq_true rfl, SysTick.cycle_running le_rfl]
  rfl

theorem Follows.cycle {m : Monitor} {v : LineView} (h : m.Follows v) :
    m.cycle.Follows (v.step .cycle) := by
  cases hage : v.sinceEdge with
  | none =>
    have hview : v.step .cycle = ⟨v.level, none⟩ := by
      unfold LineView.step
      rw [hage]
      rfl
    rw [hview]
    exact follows_unknown m.cycle v.level
  | some k =>
    have hview : v.step .cycle = ⟨v.level, some (k + 1)⟩ := by
      unfold LineView.step
      rw [hage]
      rfl
    have hline := h.lineState k hage
    have hpos : 0 < 16 * transmissionTimeoutUs := by decide
    rw [hview]
    rcases Nat.lt_trichotomy k (16 * transmissionTimeoutUs) with hlt | heq | hgt
    -- still counting
    · obtain ⟨hbusy, hstk⟩ := h.busy k hage (by omega)
      rw [cycle_of_running hstk hlt]
      constructor
      · intro j _
        exact hline
      · intro j hj _
        cases hj
        exact ⟨hbusy, rfl⟩
      · intro j hj hgt
        cases hj
        omega
    -- the last cycle of the timeout
    · obtain ⟨-, hstk⟩ := h.busy k hage (by omega)
      rw [heq] at hstk ⊢
      rw [cycle_of_expiring hpos hstk]
      constructor
      · intro j _
        rw [lineState_sysTickHandler]
        exact hline
      · intro j hj hle
        cases hj
        omega
      · intro j _ _
        rw [monitorState_sysTickHandler, stk_sysTickHandler]
        exact ⟨by rw [hline], rfl⟩
    -- the timeout is over
    · obtain ⟨hstate, hstk⟩ := h.settled k hage hgt
      rw [cycle_of_stopped hstk]
      constructor
      · intro j _
        exact hline
      · intro j hj hle
        cases hj
        omega
      · intro j _ _
        exact ⟨hstate, hstk⟩

end Monitor

namespace Node

/-- One event keeps the monitor where the observer expects it. -/
theorem follows_timedStep {n : Node} {v : LineView} (hlevel : v.level = n.idr4)
    (h : n.mon.Follows v) (e : TimedEvent) :
    (v.step e).level = (n.timedStep e).idr4 ∧ (n.timedStep e).mon.Follows (v.step e) := by
  cases e with
  | transmitterUpdate c random => exact ⟨hlevel, h⟩
  | receiverUpdate => exact ⟨hlevel, h⟩
  | line level =>
    rw [timedStep]
    by_cases hedge : level = v.level
    · rw [LineView.step_line_same hedge, setLine_same (hedge.trans hlevel)]
      exact ⟨hlevel, h⟩
    · rw [LineView.step_line_edge hedge, setLine_edge (by rwa [← hlevel])]
      exact ⟨rfl, Monitor.follows_edgeIntrr n.mon level⟩
  | cycle => exact ⟨hlevel, h.cycle⟩

theorem follows_foldl {n : Node} {v : LineView} (hlevel : v.level = n.idr4)
    (h : n.mon.Follows v) (es : List TimedEvent) :
    (n.timedRun es).mon.Follows (es.foldl LineView.step v) := by
  induction es generalizing n v with
  | nil => exact h
  | cons e es ih =>
    obtain ⟨hlevel', h'⟩ := follows_timedStep hlevel h e
    exact ih hlevel' h'

/-- From any state of a board, the monitor follows what the observer sees. -/
theorem follows_timedRun (n : Node) (es : List TimedEvent) :
    (n.timedRun es).mon.Follows (LineView.after n.idr4 es) := by
  have hunknown : n.mon.Follows ⟨n.idr4, none⟩ := Monitor.follows_unknown n.mon n.idr4
  exact follows_foldl rfl hunknown es

/-- **The monitor tracks the line.** Whatever the state of the board at the beginning and whatever
happens on it: after the first edge, the monitor is busy until the timeout has passed since the
last one, and then idle on a high line and in collision on a low line. -/
theorem monitor_tracks (n : Node) (es : List TimedEvent) (k : ℕ)
    (hedge : (LineView.after n.idr4 es).sinceEdge = some k) :
    (k ≤ 16 * transmissionTimeoutUs → (n.timedRun es).mon.getState = .busy) ∧
      (16 * transmissionTimeoutUs < k → (n.timedRun es).mon.getState =
        if (LineView.after n.idr4 es).level then .idle else .collision) := by
  have h := follows_timedRun n es
  constructor
  · intro hk
    exact (h.busy k hedge hk).1
  · intro hk
    exact (h.settled k hedge hk).1

theorem after_cycles (v : LineView) (k : ℕ) :
    (List.replicate k TimedEvent.cycle).foldl LineView.step v =
      ⟨v.level, v.sinceEdge.map (· + k)⟩ := by
  induction k generalizing v with
  | zero => simp
  | succ k ih =>
    rw [List.replicate_succ, List.foldl_cons, ih]
    simp only [LineView.step, Option.map_map, LineView.mk.injEq, true_and]
    congr 1
    funext n
    simp only [Function.comp]
    omega

/-- After the first edge of a line that was high: the monitor is busy up to the last cycle of the
timeout, and shows a collision in the next one. -/
theorem monitor_tracks_low :
    ((boot 0xAA 0xBB true true true).timedRun
        (.line false :: List.replicate (16 * transmissionTimeoutUs) .cycle)).mon.getState = .busy ∧
      ((boot 0xAA 0xBB true true true).timedRun
        (.line false :: List.replicate (16 * transmissionTimeoutUs + 1) .cycle)).mon.getState =
          .collision := by
  have hafter : ∀ k, LineView.after (boot 0xAA 0xBB true true true).idr4
      (.line false :: List.replicate k .cycle) = ⟨false, some (0 + k)⟩ := fun k => after_cycles _ k
  refine ⟨(monitor_tracks _ _ _ (congrArg LineView.sinceEdge (hafter _))).1 (by omega), ?_⟩
  rw [(monitor_tracks _ _ _ (congrArg LineView.sinceEdge (hafter _))).2 (by omega), hafter]
  rfl

end Node

end NetworkingCard
