import NetworkingCard.TransmitterInvariant

/-!
# Transmission attempts under collisions

What holds over whole runs of a board, whatever the order of its events:

* carrier sense: a transmission starts on an idle line, unless a back-off ends while the line is
  not idle: `TIM2_IRQHandler` then starts it without asking the monitor (`carrierSense_of_run`);
* a collided attempt is reported as incomplete, unless an edge hides the collision before the next
  tick, or it comes after the last half-bit (`collisionReported_of_run`);
* a transmission always has a running timer, unless a back-off of length 0 is drawn, which stops
  the counter for good (`neverWedged_iff`).
-/

namespace NetworkingCard

namespace Node

open Transmitter (backoff)

/-- The half-bits of the current attempt that have been driven. -/
def position (n : Node) : ℕ := 8 * n.tx.currByte + n.tx.currBit

/-- A TIM2 interrupt would drive a half-bit. -/
def drives (n : Node) : Bool :=
  !n.tx.retransmissionTimeoutActive && !n.tx.atEnd && decide (n.mon.getState ≠ .collision)

/-- The event calls `startTransmission`. -/
def starts (n : Node) : Event → Bool
  | .transmitterUpdate c random =>
    !n.tx.inTransmission && (n.transmitterUpdate c random).tx.inTransmission
  | .tim2 => n.tx.retransmissionTimeoutActive
  | _ => false

/-- The event is a call of the main routine that starts a back-off. -/
def startsBackoff (n : Node) : Event → Bool
  | .transmitterUpdate _ _ =>
    decide (n.mon.getState = .idle) && !n.tx.inTransmission && !n.tx.transmissionComplete
  | _ => false

/-! ## The transmitter's part of a step -/

theorem step_tim2 {n : Node} (h : n.tx.tim2.cen = true) :
    n.step .tim2 = some { n with tx :=
      { n.tx with tim2 := n.tx.tim2.updateEvent }.tim2IRQHandler n.mon.getState } :=
  if_pos h

/-- A call of the main routine during a transmission does nothing. -/
theorem transmitterUpdate_of_inTransmission {n : Node} (h : n.tx.inTransmission = true) (c : Byte)
    (random : ℕ) : n.transmitterUpdate c random = n := by
  obtain ⟨-, -, heq⟩ | ⟨hr, -, -⟩ | ⟨hr, -, -, -⟩ | ⟨hr, -, -, -⟩ :=
    n.tx.mainRoutineUpdate_cases n.mon.getState c random
  · rw [transmitterUpdate, heq]
  · simp [Transmitter.readsChar, h] at hr
  · simp [Transmitter.readsChar, h] at hr
  · rw [h] at hr
    cases hr

/-! ## Carrier sense -/

/-- Every start of a transmission that is followed by the frame's first half-bit at the next
TIM2 interrupt happens on an idle line. -/
def CarrierSense (n₀ : Node) (es : List Event) : Prop :=
  ∀ es₁ e es₂ es₃ n₁ n₂, es = es₁ ++ e :: (es₂ ++ .tim2 :: es₃) → n₀.run es₁ = some n₁ →
    n₁.starts e = true → n₁.run (e :: es₂) = some n₂ → .tim2 ∉ es₂ →
    n₂.drives = true → n₂.position = 0 → n₁.mon.getState = .idle

/-- The interrupt that ends a back-off finds the line idle. -/
def EndsBackoffIdle (n : Node) (e : Event) : Prop :=
  e = .tim2 → n.tx.retransmissionTimeoutActive = true → n.mon.getState = .idle

instance (n : Node) (e : Event) : Decidable (EndsBackoffIdle n e) :=
  inferInstanceAs (Decidable (_ → _ → _))

/-- The main routine starts a transmission on an idle line only. -/
theorem idle_of_starts_main {n : Node} {c : Byte} {random : ℕ}
    (h : n.starts (.transmitterUpdate c random) = true) : n.mon.getState = .idle := by
  simp only [starts, Bool.and_eq_true, Bool.not_eq_true'] at h
  obtain ⟨htx, htx'⟩ := h
  obtain ⟨-, -, heq⟩ | ⟨-, -, heq⟩ | ⟨-, hidle, -, -⟩ | ⟨-, -, hidle, -⟩ :=
    n.tx.mainRoutineUpdate_cases n.mon.getState c random
  · rw [transmitterUpdate, heq, htx] at htx'
    cases htx'
  · rw [transmitterUpdate, heq, Transmitter.readChar_frame] at htx'
    rw [htx] at htx'
    cases htx'
  · exact hidle
  · exact hidle

theorem idle_of_starts {n : Node} {e : Event} (h : n.starts e = true) (hb : EndsBackoffIdle n e) :
    n.mon.getState = .idle := by
  cases e with
  | transmitterUpdate c random => exact idle_of_starts_main h
  | tim2 => exact hb rfl h
  | receiverUpdate => cases h
  | tim4 => cases h
  | exti4 level => cases h
  | sysTick => cases h

/-- A back-off that ends while the line is not idle can be followed by the first half-bit. -/
theorem exists_drives_of_backoff_end {n : Node} (h : n.tx.Inv)
    (hto : n.tx.retransmissionTimeoutActive = true) :
    ∃ es n₂, .tim2 ∉ es ∧ n.run (.tim2 :: es) = some n₂ ∧ n₂.drives = true ∧ n₂.position = 0 ∧
      n₂.tx.tim2.cen = true := by
  obtain ⟨htx, -, hbyte, hbit⟩ := h.backoff hto
  have hcen := h.running htx
  obtain ⟨n', hstep⟩ : ∃ n', n.step .tim2 = some n' := ⟨_, step_tim2 hcen⟩
  have hinv := inv_step n .tim2 n' h hstep
  -- the tick only ends the back-off
  have htx' : n'.tx.retransmissionTimeoutActive = false ∧ n'.tx.inTransmission = true ∧
      n'.tx.currByte = 0 ∧ n'.tx.currBit = 0 := by
    rw [step_tim2 hcen] at hstep
    cases hstep
    obtain ⟨-, heq⟩ | ⟨hf, -⟩ | ⟨hf, -⟩ | ⟨hf, -⟩ := Transmitter.tim2IRQHandler_cases
      { n.tx with tim2 := n.tx.tim2.updateEvent } n.mon.getState
    · rw [heq]
      exact ⟨rfl, rfl, hbyte, hbit⟩
    all_goals
      rw [show n.tx.retransmissionTimeoutActive = false from hf] at hto
      cases hto
  obtain ⟨hto', htxt', hbyte', hbit'⟩ := htx'
  have hend : n'.tx.atEnd = false := by
    rw [hinv.not_atEnd_iff, hbyte']
    exact hinv.put_pos (Or.inl htxt')
  -- an edge takes the monitor out of a collision
  obtain ⟨n₂, hn₂⟩ : ∃ n₂, n'.step (.exti4 true) = some n₂ := ⟨_, rfl⟩
  have htx₂ : n₂.tx = n'.tx := tx_of_step hn₂ (fun _ _ => by simp) (by simp)
  have hmon₂ : n₂.mon.getState = .busy := by
    cases hn₂
    rfl
  refine ⟨[.exti4 true], n₂, by simp, ?_, ?_, ?_, ?_⟩
  · exact Runs.run_cons_eq_some.mpr ⟨n', hstep, by rw [Runs.run_singleton, hn₂]⟩
  · simp [drives, htx₂, hto', hend, hmon₂]
  · simp [position, htx₂, hbyte', hbit']
  · rw [htx₂]
    exact hinv.running htxt'

/-- Carrier sense holds in every run whose back-offs all end on an idle line, and a run in which
a back-off ends on any other line can go on so that it fails. -/
theorem carrierSense_of_run (src dest : Byte) (packetMode pin line : Bool) (es : List Event) :
    (Runs.Along step EndsBackoffIdle (boot src dest packetMode pin line) es →
      CarrierSense (boot src dest packetMode pin line) es) ∧
    (∀ n, (boot src dest packetMode pin line).run es = some n →
      ¬EndsBackoffIdle n .tim2 → ∃ fs, ((boot src dest packetMode pin line).run
        (es ++ .tim2 :: fs)).isSome ∧
          ¬CarrierSense (boot src dest packetMode pin line) (es ++ .tim2 :: fs)) := by
  constructor
  · intro h es₁ e es₂ es₃ n₁ n₂ hes hrun hstarts _ _ _ _
    rw [hes] at h
    exact idle_of_starts hstarts (h.at_split hrun)
  · intro n hrun hnot
    simp only [EndsBackoffIdle, forall_const, Classical.not_imp] at hnot
    obtain ⟨hto, hidle⟩ := hnot
    obtain ⟨fs, n₂, hmem, hn₂, hdrives, hpos, hcen₂⟩ :=
      exists_drives_of_backoff_end (inv_of_run hrun) hto
    have hall : (boot src dest packetMode pin line).run (es ++ .tim2 :: fs) = some n₂ :=
      Runs.run_append_eq_some.mpr ⟨n, hrun, hn₂⟩
    -- the tick after the edge drives the first half-bit, and the start was not on an idle line
    refine ⟨fs ++ [.tim2], ?_, fun hcs => hidle ?_⟩
    · rw [show es ++ .tim2 :: (fs ++ [.tim2]) = es ++ .tim2 :: fs ++ [.tim2] by simp,
        run, Runs.run_append_of_eq_some hall, Runs.run_singleton, step_tim2 hcen₂]
      rfl
    · exact hcs es .tim2 fs [] n n₂ rfl hrun hto hn₂ hmem hdrives hpos

/-- A collision, a back-off of 5 ms, and another node's frame that begins inside it. -/
def busyBackoff : List Event :=
  [.transmitterUpdate 0x61 0, .transmitterUpdate carriageReturn 0, .tim2, .tim2, .exti4 false,
    .sysTick, .tim2, .exti4 true, .sysTick, .transmitterUpdate 0x62 1, .exti4 false, .tim2, .tim2]

/-- After the back-off the transmission starts on a busy line, and the next tick drives. -/
theorem not_carrierSense_busyBackoff :
    ¬CarrierSense (boot 0xAA 0xBB true true true) busyBackoff := by
  intro h
  have hcheck : ((boot 0xAA 0xBB true true true).run (busyBackoff.take 11)).map
      (fun n => (n.starts .tim2, n.mon.getState, (n.step .tim2).map fun n' =>
        (n'.drives, n'.position))) = some (true, .busy, some (true, 0)) := by
    decide +kernel
  obtain ⟨n, hn, heq⟩ := Option.map_eq_some_iff.mp hcheck
  simp only [Prod.mk.injEq, Option.map_eq_some_iff] at heq
  obtain ⟨hstarts, hbusy, n', hn', hdrives, hpos⟩ := heq
  have hidle := h (busyBackoff.take 11) .tim2 [] [] n n' rfl hn hstarts
    ((Runs.run_singleton n Event.tim2).trans hn') (by simp) hdrives hpos
  rw [hbusy] at hidle
  cases hidle

/-- The same back-off, with the line left idle until it ends. -/
def idleBackoff : List Event := busyBackoff.take 10 ++ [.tim2, .tim2]

theorem carrierSense_idleBackoff :
    ((boot 0xAA 0xBB true true true).run idleBackoff).isSome = true ∧
      CarrierSense (boot 0xAA 0xBB true true true) idleBackoff :=
  ⟨by decide +kernel, (carrierSense_of_run 0xAA 0xBB true true true idleBackoff).1
    (by decide +kernel)⟩

/-! ## Collided attempts -/

/-- The current attempt has driven its first half-bit and has not ended. -/
def attempting (n : Node) : Bool :=
  n.tx.inTransmission && !n.tx.retransmissionTimeoutActive && decide (0 < n.position)

/-- If the monitor enters the collision state during an attempt, the interrupt that ends this
attempt reports the message as incomplete. -/
def CollisionReported (n₀ : Node) (es : List Event) : Prop :=
  ∀ es₁ e es₂ es₃ n₁ n₂ n₃ n₄, es = es₁ ++ e :: (es₂ ++ .tim2 :: es₃) →
    n₀.run es₁ = some n₁ → n₁.attempting = true → n₁.mon.getState ≠ .collision →
    n₁.step e = some n₂ → n₂.mon.getState = .collision →
    Runs.Along step (fun n _ => n.tx.inTransmission = true) n₂ es₂ → n₂.run es₂ = some n₃ →
    n₃.tx.inTransmission = true → n₃.step .tim2 = some n₄ → n₄.tx.inTransmission = false →
    n₄.tx.transmissionComplete = false

/-- During an attempt no edge arrives while the monitor shows a collision, and none is found
once the last half-bit has been driven. -/
def CollisionSeen (n : Node) : Event → Prop
  | .exti4 _ => n.attempting = true → n.mon.getState ≠ .collision
  | .sysTick => n.attempting = true → n.mon.lineState = false → n.tx.atEnd = false
  | _ => True

instance (n : Node) : ∀ e, Decidable (CollisionSeen n e)
  | .exti4 _ => inferInstanceAs (Decidable (_ → _))
  | .sysTick => inferInstanceAs (Decidable (_ → _ → _))
  | .transmitterUpdate _ _ | .receiverUpdate | .tim2 | .tim4 => isTrue trivial

/-- Only SysTick takes the monitor into the collision state. -/
theorem sysTick_of_collision {n n' : Node} {e : Event} (h : n.step e = some n')
    (hn : n.mon.getState ≠ .collision) (hn' : n'.mon.getState = .collision) :
    e = .sysTick ∧ n.mon.lineState = false ∧ n' = n.sysTickHandler := by
  cases e with
  | transmitterUpdate c random =>
    cases h
    exact absurd hn' hn
  | receiverUpdate =>
    cases h
    exact absurd hn' hn
  | tim2 =>
    obtain ⟨-, rfl⟩ := step_tim2_eq_some.mp h
    exact absurd hn' hn
  | tim4 =>
    obtain ⟨-, rfl⟩ := step_tim4_eq_some.mp h
    exact absurd hn' hn
  | exti4 level =>
    -- an edge makes the line busy
    cases h
    cases hn'
  | sysTick =>
    obtain ⟨-, rfl⟩ := step_sysTick_eq_some.mp h
    refine ⟨rfl, ?_, rfl⟩
    rw [sysTickHandler, Monitor.getState, Monitor.monitorState_sysTickHandler] at hn'
    by_contra hl
    rw [if_pos (Bool.eq_true_of_not_eq_false hl)] at hn'
    cases hn'

/-- Between the collision and the tick that sees it: the attempt, unfinished, and a low line. -/
structure Collided (n : Node) : Prop where
  attempting : n.attempting = true
  atEnd : n.tx.atEnd = false
  collision : n.mon.getState = .collision
  lineState : n.mon.lineState = false

theorem Collided.inTransmission {n : Node} (h : Collided n) : n.tx.inTransmission = true := by
  have := h.attempting
  simp only [Node.attempting, Bool.and_eq_true] at this
  exact this.1.1

theorem Collided.not_backoff {n : Node} (h : Collided n) :
    n.tx.retransmissionTimeoutActive = false := by
  have := h.attempting
  simp only [Node.attempting, Bool.and_eq_true, Bool.not_eq_true'] at this
  exact this.1.2

/-- A tick that finds the collision gives the attempt up. -/
theorem Collided.tim2 {n n' : Node} (h : Collided n) (hs : n.step .tim2 = some n') :
    n'.tx.inTransmission = false ∧ n'.tx.transmissionComplete = false := by
  obtain ⟨-, rfl⟩ := step_tim2_eq_some.mp hs
  obtain ⟨ht, -⟩ | ⟨-, ht, -⟩ | ⟨-, -, -, heq⟩ | ⟨-, -, ht, -⟩ :=
    Transmitter.tim2IRQHandler_cases { n.tx with tim2 := n.tx.tim2.updateEvent } n.mon.getState
  · exact absurd (h.not_backoff.symm.trans ht) (by simp)
  · exact absurd (h.atEnd.symm.trans ht) (by simp)
  · rw [heq]
    exact ⟨rfl, rfl⟩
  · exact absurd h.collision ht

/-- Every other event leaves the collision to be seen. -/
theorem Collided.step {n n' : Node} {e : Event} (h : Collided n) (hc : CollisionSeen n e)
    (hs : n.step e = some n') (htim2 : e ≠ .tim2) : Collided n' := by
  cases e with
  | transmitterUpdate c random =>
    cases hs
    rwa [transmitterUpdate_of_inTransmission h.inTransmission]
  | receiverUpdate =>
    cases hs
    exact ⟨h.attempting, h.atEnd, h.collision, h.lineState⟩
  | tim2 => exact absurd rfl htim2
  | tim4 =>
    obtain ⟨-, rfl⟩ := step_tim4_eq_some.mp hs
    exact ⟨h.attempting, h.atEnd, h.collision, h.lineState⟩
  | exti4 level => exact absurd h.collision (hc h.attempting)
  | sysTick =>
    -- the line is still low, so the monitor finds a collision again
    obtain ⟨-, rfl⟩ := step_sysTick_eq_some.mp hs
    refine ⟨h.attempting, h.atEnd, ?_, ?_⟩
    · rw [sysTickHandler, Monitor.getState, Monitor.monitorState_sysTickHandler, h.lineState]
      rfl
    · rw [sysTickHandler, Monitor.lineState_sysTickHandler, h.lineState]

theorem Collided.run {n n' : Node} {es : List Event} (h : Collided n)
    (hc : Runs.Along Node.step CollisionSeen n es)
    (htx : Runs.Along Node.step (fun n _ => n.tx.inTransmission = true) n es)
    (hr : n.run es = some n') (htx' : n'.tx.inTransmission = true) : Collided n' := by
  induction es generalizing n with
  | nil =>
    cases hr
    exact h
  | cons e es ih =>
    obtain ⟨m, hm, hr'⟩ := Runs.run_cons_eq_some.mp hr
    by_cases htim2 : e = .tim2
    · -- the tick ends the attempt, so it is not among these events
      subst htim2
      have hstop := (h.tim2 hm).1
      have hgoes : m.tx.inTransmission = true := by
        cases es with
        | nil =>
          cases hr'
          exact htx'
        | cons f fs => exact (htx.2 m hm).1
      rw [hstop] at hgoes
      cases hgoes
    · exact ih (h.step hc.1 hm htim2) (hc.2 m hm) (htx.2 m hm) hr'

/-- In every run in which collisions stay visible until the next tick, a collided attempt is
reported as incomplete. -/
theorem collisionReported_of_run (src dest : Byte) (packetMode pin line : Bool) (es : List Event)
    (h : Runs.Along step CollisionSeen (boot src dest packetMode pin line) es) :
    CollisionReported (boot src dest packetMode pin line) es := by
  intro es₁ e es₂ es₃ n₁ n₂ n₃ n₄ hes hrun hatt hn₁ hstep hn₂ htx hrun₂ htx₃ htim2 _
  rw [hes] at h
  obtain ⟨-, hstep_seen, hrest⟩ := h.append hrun
  obtain ⟨rfl, hlow, rfl⟩ := sysTick_of_collision hstep hn₁ hn₂
  have hcollided : Collided n₁.sysTickHandler :=
    ⟨hatt, hstep_seen hatt hlow, hn₂, by
      rw [sysTickHandler, Monitor.lineState_sysTickHandler, hlow]⟩
  exact ((hcollided.run ((hrest _ hstep).append hrun₂).1 htx hrun₂ htx₃).tim2 htim2).2

/-- A collision in the third half-bit slot, hidden by an edge before the next tick; the attempt
goes on to its end. -/
def hiddenCollision : List Event :=
  [.transmitterUpdate 0x61 0, .transmitterUpdate carriageReturn 0, .tim2, .tim2, .exti4 false] ++
    .sysTick :: ((.exti4 true :: List.replicate 126 .tim2) ++ .tim2 :: [])

theorem not_collisionReported_hiddenCollision :
    ¬CollisionReported (boot 0xAA 0xBB true true true) hiddenCollision := by
  intro h
  have hcheck : ((boot 0xAA 0xBB true true true).run (hiddenCollision.take 5)).any (fun n₁ =>
      n₁.attempting && n₁.mon.getState = .busy && (n₁.step .sysTick).any fun n₂ =>
        n₂.mon.getState = .collision && Runs.Along step (fun n _ => n.tx.inTransmission = true) n₂
          (.exti4 true :: List.replicate 126 .tim2) &&
        (n₂.run (.exti4 true :: List.replicate 126 .tim2)).any fun n₃ =>
          n₃.tx.inTransmission && (n₃.step .tim2).any fun n₄ =>
            !n₄.tx.inTransmission && n₄.tx.transmissionComplete) = true := by
    decide +kernel
  simp only [Option.any_eq_true, Bool.and_eq_true, decide_eq_true_eq, Bool.not_eq_true'] at hcheck
  obtain ⟨n₁, hn₁, ⟨hatt, hbusy⟩, n₂, hn₂, ⟨hcollision, halong⟩, n₃, hn₃, htx₃, n₄, hn₄, htx₄,
    hcomplete⟩ := hcheck
  have := h _ .sysTick _ [] n₁ n₂ n₃ n₄ rfl hn₁ hatt (by rw [hbusy]; simp) hn₂ hcollision halong
    hn₃ htx₃ hn₄ htx₄
  rw [hcomplete] at this
  cases this

/-- The same collision, found by the next tick. -/
def seenCollision : List Event := hiddenCollision.take 6 ++ [.tim2]

theorem collisionReported_seenCollision :
    ((boot 0xAA 0xBB true true true).run seenCollision).isSome = true ∧
      CollisionReported (boot 0xAA 0xBB true true true) seenCollision :=
  ⟨by decide +kernel, collisionReported_of_run 0xAA 0xBB true true true seenCollision
    (by decide +kernel)⟩

/-! ## A transmission always has a next interrupt -/

/-- During a transmission TIM2 runs, with an auto-reload value that lets its counter advance. -/
def NotWedged (n : Node) : Prop :=
  n.tx.inTransmission = true → n.tx.tim2.cen = true ∧ 1 ≤ n.tx.tim2.arr

instance (n : Node) : Decidable (NotWedged n) := inferInstanceAs (Decidable (_ → _))

/-- A back-off is started with a draw other than 0. -/
def DrawsPositive (n : Node) : Event → Prop
  | .transmitterUpdate c random =>
    n.startsBackoff (.transmitterUpdate c random) = true → random % transmitterNMax ≠ 0
  | _ => True

instance (n : Node) : ∀ e, Decidable (DrawsPositive n e)
  | .transmitterUpdate _ _ => inferInstanceAs (Decidable (_ → _))
  | .receiverUpdate | .tim2 | .tim4 | .exti4 _ | .sysTick => isTrue trivial

theorem backoff_pos_iff (random : ℕ) : 1 ≤ backoff random ↔ random % transmitterNMax ≠ 0 := by
  unfold backoff transmitterNMax
  omega

/-- The registers TIM2 has after a back-off was started. -/
theorem tim2_of_startsBackoff {n n' : Node} {c : Byte} {random : ℕ}
    (h : n.startsBackoff (.transmitterUpdate c random) = true)
    (hs : n.step (.transmitterUpdate c random) = some n') :
    n'.tx.inTransmission = true ∧ n'.tx.tim2.arr = backoff random := by
  simp only [startsBackoff, Bool.and_eq_true, Bool.not_eq_true', decide_eq_true_eq] at h
  obtain ⟨⟨hidle, htx⟩, hc⟩ := h
  cases hs
  obtain ⟨-, hno, -⟩ | ⟨hr, -, -⟩ | ⟨hr, -, -, -⟩ | ⟨-, -, -, heq⟩ :=
    n.tx.mainRoutineUpdate_cases n.mon.getState c random
  · exact absurd ⟨hidle, htx⟩ hno
  · simp [Transmitter.readsChar, hc] at hr
  · simp [Transmitter.readsChar, hc] at hr
  · rw [transmitterUpdate, heq]
    exact ⟨rfl, rfl⟩

/-- A running back-off has a positive auto-reload value. -/
def BackoffRuns (n : Node) : Prop :=
  n.tx.Inv ∧ (n.tx.retransmissionTimeoutActive = true → 1 ≤ n.tx.tim2.arr)

theorem BackoffRuns.notWedged {n : Node} (h : BackoffRuns n) : NotWedged n := by
  intro htx
  refine ⟨h.1.running htx, ?_⟩
  by_cases hto : n.tx.retransmissionTimeoutActive = true
  · exact h.2 hto
  · rw [h.1.arr (Bool.eq_false_of_not_eq_true hto)]
    decide

theorem backoffRuns_step (n : Node) (e : Event) (n' : Node) (h : BackoffRuns n)
    (hd : DrawsPositive n e) (hs : n.step e = some n') : BackoffRuns n' := by
  refine ⟨inv_step n e n' h.1 hs, ?_⟩
  obtain ⟨c, random, rfl, htx⟩ | ⟨rfl, -, htx⟩ | ⟨-, -, htx⟩ := tx_step_cases hs <;> rw [htx]
  · intro hto
    obtain ⟨-, -, heq⟩ | ⟨-, -, heq⟩ | ⟨-, -, -, heq⟩ | ⟨hnot, hc, hidle, heq⟩ :=
      n.tx.mainRoutineUpdate_cases n.mon.getState c random
    · rw [heq] at hto ⊢
      exact h.2 hto
    · rw [heq, Transmitter.readChar_frame] at hto ⊢
      exact h.2 hto
    · rw [heq, Transmitter.transmitData_frame, Transmitter.readChar_frame] at hto ⊢
      exact h.2 hto
    · -- the only place where a back-off is drawn
      rw [heq]
      exact (backoff_pos_iff random).mpr (hd (by simp [startsBackoff, hidle, hnot, hc]))
  · intro hto
    obtain ⟨-, heq⟩ | ⟨hf, -, heq⟩ | ⟨hf, -, -, heq⟩ | ⟨hf, -, -, heq⟩ :=
      Transmitter.tim2IRQHandler_cases { n.tx with tim2 := n.tx.tim2.updateEvent }
        n.mon.getState <;> rw [heq] at hto ⊢
    · cases hto
    · exact absurd (hf.symm.trans hto) (by simp)
    · exact absurd (hf.symm.trans hto) (by simp)
    · exact absurd (hf.symm.trans hto) (by simp)
  · exact h.2

theorem drawsPositive_of_notWedged {n : Node} {es : List Event}
    (h : ∀ es₁ n', es₁ <+: es → n.run es₁ = some n' → NotWedged n') :
    Runs.Along step DrawsPositive n es := by
  induction es generalizing n with
  | nil => trivial
  | cons e es ih =>
    refine ⟨?_, fun n' hn' => ih fun es₁ m hpre hm => h (e :: es₁) m ?_ ?_⟩
    · cases e with
      | transmitterUpdate c random =>
        intro hstart
        -- the state after the call shows the auto-reload value that was drawn
        obtain ⟨n', hn'⟩ : ∃ n', n.step (.transmitterUpdate c random) = some n' := ⟨_, rfl⟩
        obtain ⟨htx, harr⟩ := tim2_of_startsBackoff hstart hn'
        have hnot := h [.transmitterUpdate c random] n' (List.prefix_append _ es)
          ((Runs.run_singleton n _).trans hn')
        rw [← backoff_pos_iff, ← harr]
        exact (hnot htx).2
      | _ => trivial
    · exact (List.prefix_cons_inj e).mpr hpre
    · exact Runs.run_cons_eq_some.mpr ⟨n', hn', hm⟩

/-- The transmitter never wedges in a run exactly when no back-off of the run is drawn as 0. -/
theorem neverWedged_iff (src dest : Byte) (packetMode pin line : Bool) (es : List Event) :
    (∀ es₁ n, es₁ <+: es → (boot src dest packetMode pin line).run es₁ = some n → NotWedged n) ↔
      Runs.Along step DrawsPositive (boot src dest packetMode pin line) es := by
  refine ⟨drawsPositive_of_notWedged, ?_⟩
  rintro h es₁ n ⟨es₂, rfl⟩ hrun
  have hboot : BackoffRuns (boot src dest packetMode pin line) :=
    ⟨inv_boot src dest packetMode pin line, by simp [boot, Transmitter.init]⟩
  exact (Runs.run_invariant_along backoffRuns_step hboot (h.append hrun).1 hrun).notWedged

/-- A collision, after which the back-off is drawn as 0. -/
def zeroBackoff : List Event := busyBackoff.take 9 ++ [.transmitterUpdate 0x62 0]

theorem wedged_zeroBackoff :
    ¬∀ es₁ n, es₁ <+: zeroBackoff →
      (boot 0xAA 0xBB true true true).run es₁ = some n → NotWedged n := by
  intro h
  have hcheck : ((boot 0xAA 0xBB true true true).run zeroBackoff).map
      (fun n => decide (NotWedged n)) = some false := by
    decide +kernel
  obtain ⟨n, hn, heq⟩ := Option.map_eq_some_iff.mp hcheck
  exact of_decide_eq_false heq (h zeroBackoff n List.prefix_rfl hn)

end Node

end NetworkingCard
