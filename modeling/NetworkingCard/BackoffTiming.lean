import NetworkingCard.Attempts
import NetworkingCard.Timing

/-!
# How long a back-off and a half-bit last

`toggleRetransmission` writes the prescaler of TIM2 without an update event, so the value it
writes becomes active one interrupt late. In every timed run from boot:

* the back-off itself is counted with the prescaler of the bit clock: `w + 1` core cycles
  (`nextTick_backoff`), and not `w` milliseconds;
* the wait for the first half-bit afterwards is counted with the prescaler of the back-off
  (`nextTick_firstSlot`); from then on a slot lasts `TRANSMISSION_TICKS + 1` core cycles
  (`nextTick_slot`).

The invariant is `Unscaled`: whenever a back-off may be started, prescaler 0 is active.
-/

namespace NetworkingCard

namespace Node

open Transmitter (backoff)

/-- The next TIM2 interrupt comes with the `t`-th cycle from here on, whatever else happens. -/
structure NextTick (n : Node) (t : ℕ) : Prop where
  pos : 0 < t
  updates : ∀ es, es.count .cycle < t →
    (n.timedRun es).tx.tim2.updates = decide (es.count .cycle + 1 = t)

theorem NextTick.not_lt {n : Node} {s t : ℕ} (hs : n.NextTick s) (ht : n.NextTick t) : ¬s < t := by
  intro hlt
  -- one cycle before the earlier of the two, the next cycle would and would not update
  have hpos := hs.pos
  have hcount : (List.replicate (s - 1) TimedEvent.cycle).count .cycle = s - 1 :=
    List.count_replicate_self
  have h1 := hs.updates (List.replicate (s - 1) .cycle) (by rw [hcount]; omega)
  have h2 := ht.updates (List.replicate (s - 1) .cycle) (by rw [hcount]; omega)
  rw [h1, hcount, decide_eq_decide] at h2
  omega

/-- Only one number can be the time to the next interrupt. -/
theorem NextTick.unique {n : Node} {s t : ℕ} (hs : n.NextTick s) (ht : n.NextTick t) : s = t := by
  have h1 := hs.not_lt ht
  have h2 := ht.not_lt hs
  omega

/-- During a transmission nothing but TIM2 acts on the transmitter. -/
theorem tx_timedStep_of_inTransmission {n : Node} (h : n.tx.inTransmission = true)
    {e : TimedEvent} (he : e ≠ .cycle) : (n.timedStep e).tx = n.tx := by
  cases e with
  | transmitterUpdate c random =>
    obtain ⟨-, -, heq⟩ | ⟨hr, -, -⟩ | ⟨hr, -, -, -⟩ | ⟨hr, -, -, -⟩ :=
      n.tx.mainRoutineUpdate_cases n.mon.getState c random
    · exact heq
    · simp [Transmitter.readsChar, h] at hr
    · simp [Transmitter.readsChar, h] at hr
    · exact absurd (hr.symm.trans h) (by simp)
  | receiverUpdate => rfl
  | line level => exact tx_setLine n level
  | cycle => exact absurd rfl he

/-- While a counter has not run out, a transmission only waits. -/
theorem timedRun_counting {n : Node} (hcount : n.tx.tim2.Counting)
    (htx : n.tx.inTransmission = true) {es : List TimedEvent}
    (hes : es.count .cycle ≤ n.tx.tim2.remaining) :
    (n.timedRun es).tx = { n.tx with tim2 := (n.timedRun es).tx.tim2 } ∧
      (n.timedRun es).tx.tim2.Counting ∧
      (n.timedRun es).tx.tim2.remaining + es.count .cycle = n.tx.tim2.remaining := by
  induction es generalizing n with
  | nil => exact ⟨rfl, hcount, rfl⟩
  | cons e es ih =>
    rw [timedRun_cons]
    -- only a cycle takes from what remains
    by_cases he : e = .cycle
    · subst he
      rw [List.count_cons_self] at hes ⊢
      have hrem : n.tx.tim2.remaining ≠ 0 := by omega
      have hupd : n.tx.tim2.updates = false := by
        rw [← Bool.not_eq_true, hcount.updates_iff]
        exact hrem
      obtain ⟨hcount', hrem', -⟩ := hcount.cycle hrem
      have htx' : (n.timedStep .cycle).tx = { n.tx with tim2 := n.tx.tim2.cycle } :=
        Transmitter.cycle_of_not_updates hupd _
      have ih := @ih (n.timedStep .cycle)
      rw [htx'] at ih
      obtain ⟨hframe, hcounting, hleft⟩ := ih hcount' htx (by dsimp only; omega)
      refine ⟨hframe, hcounting, ?_⟩
      dsimp only at hleft
      omega
    · rw [List.count_cons_of_ne he] at hes ⊢
      have htx' := tx_timedStep_of_inTransmission htx he
      have ih := @ih (n.timedStep e)
      rw [htx'] at ih
      exact ih hcount htx hes

/-- A counting timer fires when what remains has passed. -/
theorem nextTick_of_counting {n : Node} (hcount : n.tx.tim2.Counting)
    (htx : n.tx.inTransmission = true) : n.NextTick (n.tx.tim2.remaining + 1) := by
  refine ⟨Nat.succ_pos _, fun es hes => ?_⟩
  obtain ⟨-, hcounting, hleft⟩ := timedRun_counting hcount htx (Nat.le_of_lt_succ hes)
  rw [Bool.eq_iff_iff, hcounting.updates_iff, decide_eq_true_iff]
  omega

/-! ## Which prescaler is active -/

/-- The prescaler of the bit clock is active whenever a back-off may be started, and while one
is counted. -/
structure Unscaled (n : Node) : Prop where
  inv : n.tx.Inv
  active : n.tx.inTransmission = false ∨ n.tx.retransmissionTimeoutActive = true →
    n.tx.tim2.pscActive = 0 ∧ n.tx.tim2.pscCount = 0

theorem unscaled_boot (src dest : Byte) (packetMode pin line : Bool) :
    (boot src dest packetMode pin line).Unscaled :=
  ⟨inv_boot src dest packetMode pin line, fun _ => ⟨rfl, rfl⟩⟩

/-- The registers of TIM2 and the flags after a call of the main routine. -/
theorem active_mainRoutineUpdate {t : Transmitter} (state : MonitorState) (c : Byte) (random : ℕ)
    (h : t.inTransmission = false ∨ t.retransmissionTimeoutActive = true →
      t.tim2.pscActive = 0 ∧ t.tim2.pscCount = 0) (hinv : t.Inv) :
    let t' := t.mainRoutineUpdate state c random
    t'.inTransmission = false ∨ t'.retransmissionTimeoutActive = true →
      t'.tim2.pscActive = 0 ∧ t'.tim2.pscCount = 0 := by
  intro t' hor
  obtain ⟨-, -, heq⟩ | ⟨-, -, heq⟩ | ⟨hreads, -, -, heq⟩ | ⟨htx, -, -, heq⟩ :=
    t.mainRoutineUpdate_cases state c random
  · rw [show t' = t from heq] at hor ⊢
    exact h hor
  · rw [show t' = t.readChar c from heq, Transmitter.readChar_frame] at hor ⊢
    exact h hor
  · -- a loaded message is no back-off
    simp only [Transmitter.readsChar, Bool.and_eq_true, Bool.not_eq_true'] at hreads
    have hto := hinv.not_backoff_of_complete hreads.2
    rw [show t' = (t.readChar c).transmitData from heq, Transmitter.transmitData_frame,
      Transmitter.readChar_frame] at hor
    simp [hto] at hor
  · rw [show t' = t.retransmit random from heq]
    exact h (Or.inl htx)

theorem active_cycle {t : Transmitter} (state : MonitorState)
    (h : t.inTransmission = false ∨ t.retransmissionTimeoutActive = true →
      t.tim2.pscActive = 0 ∧ t.tim2.pscCount = 0) (hinv : t.Inv) :
    let t' := t.cycle state
    t'.inTransmission = false ∨ t'.retransmissionTimeoutActive = true →
      t'.tim2.pscActive = 0 ∧ t'.tim2.pscCount = 0 := by
  intro t' hor
  cases hupd : t.tim2.updates
  · have heq : t' = { t with tim2 := t.tim2.cycle } := Transmitter.cycle_of_not_updates hupd state
    rw [heq] at hor ⊢
    obtain ⟨hactive, hcount⟩ := h hor
    rw [Tim.cycle_prescaler_zero hactive hcount hupd]
    exact ⟨hactive, hcount⟩
  · have heq : t' = _ := Transmitter.cycle_of_updates hupd state
    have hpsc := hinv.psc
    obtain ⟨-, heq'⟩ | ⟨hto, -, heq'⟩ | ⟨hto, -, -, heq'⟩ | ⟨hto, -, -, heq'⟩ :=
      Transmitter.tim2IRQHandler_cases { t with tim2 := t.tim2.updateEvent } state <;>
      rw [heq, heq'] at hor ⊢
    · simp at hor
    all_goals
      rw [show t.retransmissionTimeoutActive = false from hto, if_neg (by simp)] at hpsc
      exact ⟨hpsc, rfl⟩

theorem unscaled_timedStep (n : Node) (e : TimedEvent) (h : n.Unscaled) :
    (n.timedStep e).Unscaled := by
  refine ⟨inv_timedStep n e h.inv, ?_⟩
  cases e with
  | transmitterUpdate c random => exact active_mainRoutineUpdate _ c random h.active h.inv
  | receiverUpdate => exact h.active
  | line level =>
    rw [timedStep, tx_setLine]
    exact h.active
  | cycle => exact active_cycle _ h.active h.inv

theorem unscaled_timedRun (src dest : Byte) (packetMode pin line : Bool) (es : List TimedEvent) :
    ((boot src dest packetMode pin line).timedRun es).Unscaled :=
  timedRun_invariant unscaled_timedStep (unscaled_boot src dest packetMode pin line) es

/-! ## The three durations -/

/-- A back-off that was just started: its timer counts the auto-reload value down unscaled. -/
theorem counting_backoff {n : Node} (h : n.Unscaled) {c : Byte} {random : ℕ}
    (hstart : n.startsBackoff (.transmitterUpdate c random) = true) (hw : 1 ≤ backoff random) :
    let n' := n.transmitterUpdate c random
    n'.tx.tim2.Counting ∧ n'.tx.tim2.remaining = backoff random ∧ n'.tx.inTransmission = true ∧
      n'.tx.retransmissionTimeoutActive = true := by
  simp only [startsBackoff, Bool.and_eq_true, Bool.not_eq_true', decide_eq_true_eq] at hstart
  obtain ⟨⟨hidle, htx⟩, hcomplete⟩ := hstart
  obtain ⟨hactive, hcount⟩ := h.active (Or.inl htx)
  have heq : (n.transmitterUpdate c random).tx = n.tx.retransmit random := by
    obtain ⟨-, hno, -⟩ | ⟨hr, -, -⟩ | ⟨hr, -, -, -⟩ | ⟨-, -, -, heq⟩ :=
      n.tx.mainRoutineUpdate_cases n.mon.getState c random
    · exact absurd ⟨hidle, htx⟩ hno
    · simp [Transmitter.readsChar, hcomplete] at hr
    · simp [Transmitter.readsChar, hcomplete] at hr
    · exact heq
  intro n'
  rw [show n'.tx = _ from heq]
  -- `startTransmission` clears the count, and no update event has made the new prescaler active
  obtain ⟨hcounting, hrem⟩ := Tim.counting_of_cnt_zero
    (t := (n.tx.retransmit random).tim2) rfl hw rfl hactive hcount
  refine ⟨hcounting, hrem.trans ?_, rfl, rfl⟩
  show backoff random * (0 + 1) + 0 = backoff random
  omega

/-- It lasts one cycle for each unit of the auto-reload value, and one more. -/
theorem nextTick_backoff {n : Node} (h : n.Unscaled) {c : Byte} {random : ℕ}
    (hstart : n.startsBackoff (.transmitterUpdate c random) = true) (hw : 1 ≤ backoff random) :
    (n.transmitterUpdate c random).NextTick (backoff random + 1) := by
  obtain ⟨hcounting, hrem, htx, -⟩ := counting_backoff h hstart hw
  have := nextTick_of_counting hcounting htx
  rwa [hrem] at this

/-- The transmitter after the interrupt that ends a back-off. -/
theorem tx_backoff_end {n : Node} (hupd : n.tx.tim2.updates = true)
    (hto : n.tx.retransmissionTimeoutActive = true) :
    n.cycle.tx = { n.tx with
      retransmissionTimeoutActive := false, inTransmission := true,
      tim2 := { n.tx.tim2.updateEvent with
        uif := false, cen := true, cnt := 0, psc := 0,
        arr := transmissionTicks, ccr1 := transmissionTicks } } := by
  rw [tx_cycle, Transmitter.cycle_of_updates hupd]
  obtain ⟨-, heq⟩ | ⟨hf, -⟩ | ⟨hf, -⟩ | ⟨hf, -⟩ := Transmitter.tim2IRQHandler_cases
    { n.tx with tim2 := n.tx.tim2.updateEvent } n.mon.getState
  · exact heq
  all_goals exact absurd (hf.symm.trans hto) (by simp)

/-- The interrupt that ends a back-off makes the prescaler of the back-off active, and programs
that of the bit clock too late. -/
theorem nextTick_firstSlot {n : Node} (h : n.Unscaled) (hupd : n.tx.tim2.updates = true)
    (hto : n.tx.retransmissionTimeoutActive = true) :
    n.cycle.NextTick ((transmissionTicks + 1) * 16001) := by
  have hpsc := h.inv.psc
  rw [if_pos hto] at hpsc
  have heq := tx_backoff_end hupd hto
  obtain ⟨hcounting, hrem⟩ : n.cycle.tx.tim2.Counting ∧
      n.cycle.tx.tim2.remaining = transmissionTicks * (16000 + 1) + 16000 := by
    rw [heq]
    exact Tim.counting_of_cnt_zero rfl (by decide : 0 < transmissionTicks) rfl hpsc rfl
  have := nextTick_of_counting hcounting (by rw [heq])
  rwa [hrem] at this

/-- Every other interrupt that leaves the transmission going starts a slot of the bit clock. -/
theorem nextTick_slot {n : Node} (h : n.Unscaled) (hupd : n.tx.tim2.updates = true)
    (hto : n.tx.retransmissionTimeoutActive = false) (htx : n.cycle.tx.inTransmission = true) :
    n.cycle.NextTick (transmissionTicks + 1) := by
  have hpsc := h.inv.psc
  have harr := h.inv.arr hto
  rw [if_neg (by simp [hto])] at hpsc
  have hcen := Transmitter.cen_of_updates hupd
  -- the end of the message and a collision would stop the transmission
  have htim : n.cycle.tx.tim2 = { n.tx.tim2.updateEvent with uif := false } := by
    rw [tx_cycle, Transmitter.cycle_of_updates hupd] at htx ⊢
    obtain ⟨hf, -⟩ | ⟨-, -, heq⟩ | ⟨-, -, -, heq⟩ | ⟨-, -, -, heq⟩ :=
      Transmitter.tim2IRQHandler_cases { n.tx with tim2 := n.tx.tim2.updateEvent } n.mon.getState
    · exact absurd (hf.symm.trans hto) (by simp)
    · rw [heq] at htx
      cases htx
    · rw [heq] at htx
      cases htx
    · rw [heq]
  have hpos : 0 < n.tx.tim2.arr := by
    rw [harr]
    decide
  obtain ⟨hcounting, hrem⟩ : n.cycle.tx.tim2.Counting ∧
      n.cycle.tx.tim2.remaining = n.tx.tim2.arr * (0 + 1) + 0 := by
    rw [htim]
    exact Tim.counting_of_cnt_zero hcen hpos rfl hpsc rfl
  rw [harr] at hrem
  have := nextTick_of_counting hcounting htx
  rwa [hrem] at this

/-! ## Not as programmed -/

/-- The back-off of `w` ms that starts here ends after `w` units of 16000 cycles, give or take
what the prescaler and the auto-reload value add. -/
def BackoffAsProgrammed (n : Node) (w : ℕ) : Prop :=
  ∃ t, n.NextTick t ∧ 16000 * w ≤ t ∧ t ≤ 16001 * (w + 1)

/-- Every half-bit slot from here on, the wait for a first half-bit included, has the length of
the bit clock. -/
def SlotsAsProgrammed (n : Node) : Prop :=
  ∀ es, (n.timedRun es).tx.tim2.updates = true → (n.timedRun es).cycle.tx.inTransmission = true →
    (n.timedRun es).cycle.tx.retransmissionTimeoutActive = false →
    (n.timedRun es).cycle.NextTick (transmissionTicks + 1)

/-- What a back-off and the slots after it really last, from the call that starts it. -/
structure Durations (n : Node) (w : ℕ) : Prop where
  backoff : n.NextTick (w + 1)
  firstSlot : ∀ es, (n.timedRun es).tx.tim2.updates = true →
    (n.timedRun es).tx.retransmissionTimeoutActive = true →
    (n.timedRun es).cycle.NextTick ((transmissionTicks + 1) * 16001)
  slot : ∀ es, (n.timedRun es).tx.tim2.updates = true →
    (n.timedRun es).tx.retransmissionTimeoutActive = false →
    (n.timedRun es).cycle.tx.inTransmission = true →
    (n.timedRun es).cycle.NextTick (transmissionTicks + 1)

/-- In no run does a back-off of 1 ms or more, or the wait after it, last as programmed. -/
theorem not_asProgrammed_of_run {src dest : Byte} {packetMode pin line : Bool}
    {es₀ : List TimedEvent} {c : Byte} {random : ℕ} {n₂ : Node}
    (hstart : ((boot src dest packetMode pin line).timedRun es₀).startsBackoff
      (.transmitterUpdate c random) = true)
    (hw : 1 ≤ backoff random)
    (hn₂ : n₂ = ((boot src dest packetMode pin line).timedRun es₀).transmitterUpdate c random) :
    Durations n₂ (backoff random) ∧ ¬BackoffAsProgrammed n₂ (backoff random) ∧
      ¬SlotsAsProgrammed n₂ := by
  have hn₁ := unscaled_timedRun src dest packetMode pin line es₀
  have hbackoff := nextTick_backoff hn₁ hstart hw
  obtain ⟨hcounting, hrem, htx, hto⟩ := counting_backoff hn₁ hstart hw
  have hunscaled : n₂.Unscaled := by
    rw [hn₂]
    exact unscaled_timedStep _ (.transmitterUpdate c random) hn₁
  rw [← hn₂] at hbackoff hcounting hrem htx hto
  have hruns : ∀ es, (n₂.timedRun es).Unscaled :=
    fun es => timedRun_invariant unscaled_timedStep hunscaled es
  refine ⟨⟨hbackoff, fun es hupd hto' => nextTick_firstSlot (hruns es) hupd hto',
    fun es hupd hto' htx' => nextTick_slot (hruns es) hupd hto' htx'⟩, ?_, ?_⟩
  · rintro ⟨t, ht, hlow, -⟩
    have := ht.unique hbackoff
    omega
  · intro hslots
    -- the first tick after the start is the one that ends the back-off
    have hcount : (List.replicate (backoff random) TimedEvent.cycle).count .cycle =
        backoff random := List.count_replicate_self
    obtain ⟨hframe, -, -⟩ := timedRun_counting hcounting htx
      (Nat.le_of_eq (hcount.trans hrem.symm))
    have hto' : (n₂.timedRun (List.replicate (backoff random) .cycle)).tx.retransmissionTimeoutActive
        = true := by
      rw [hframe]
      exact hto
    have hupd := hbackoff.updates (List.replicate (backoff random) .cycle) (by omega)
    rw [hcount, decide_eq_true rfl] at hupd
    have hfirst := nextTick_firstSlot (hruns _) hupd hto'
    have heq := tx_backoff_end hupd hto'
    have hslot := hslots _ hupd (by rw [heq]) (by rw [heq])
    have := hslot.unique hfirst
    revert this
    decide

/-- A first half-bit, a collision found in the third slot, and the line idle again. -/
def collidedAttempt : List TimedEvent :=
  [.transmitterUpdate 0x61 0, .transmitterUpdate carriageReturn 0, .line false] ++
    List.replicate 24003 .cycle ++ [.line true] ++ List.replicate 17761 .cycle

theorem startsBackoff_collidedAttempt :
    ((boot 0xAA 0xBB true true true).timedRun collidedAttempt).startsBackoff
      (.transmitterUpdate 0 1) = true := by
  unfold collidedAttempt
  rw [timedRun_append, timedRun_append, timedRun_append, ← wait_eq 100, ← wait_eq 100]
  decide +kernel

/-- The back-off of 5 ms that follows is over after 6 cycles. -/
theorem not_asProgrammed_collidedAttempt :
    ¬BackoffAsProgrammed
      (((boot 0xAA 0xBB true true true).timedRun collidedAttempt).transmitterUpdate 0 1)
      (backoff 1) := by
  rintro ⟨t, ht, hlow, -⟩
  have hbackoff := nextTick_backoff (unscaled_timedRun 0xAA 0xBB true true true collidedAttempt)
    startsBackoff_collidedAttempt (by decide)
  have := ht.unique hbackoff
  rw [this] at hlow
  revert hlow
  decide

theorem durations_collidedAttempt :
    ∃ n₂, Durations n₂ 5 ∧ ¬BackoffAsProgrammed n₂ 5 ∧ ¬SlotsAsProgrammed n₂ :=
  ⟨_, @not_asProgrammed_of_run 0xAA 0xBB true true true collidedAttempt 0 1 _
    startsBackoff_collidedAttempt (by decide) rfl⟩

end Node

end NetworkingCard
