import NetworkingCard.Quiescence

/-!
# A message that is under way

How many core cycles a board still needs for a message, where its pin alone makes the level of the
line. A message can be in an attempt that finds a collision, wait for an idle line and then for a
call of the main loop, back off, and begin the attempt that nobody disturbs (`Node.Stage`); each
stage has a bound on what is left, and each cycle lowers it (`Node.UnderWay.watch`). Any message of
a transmitter that has drawn no back-off of length 0 is in one of them (`Node.underWay_of_speaks`).

The first slot after a back-off is counted with the prescaler of the back-off, so that it takes
16001 times as long as the others. By then the line has been idle for long.
-/

namespace NetworkingCard

open Transmitter (backoff)

namespace Tim

theorem pscActive_cycle_of_not_updates {t : Tim} (h : t.updates = false) :
    t.cycle.pscActive = t.pscActive := by
  unfold cycle
  split
  · rfl
  · next hrun =>
    split
    · rfl
    · next hpsc =>
      split
      · rfl
      · next hcnt =>
        simp only [not_or, Bool.not_eq_false] at hrun
        simp [updates, hrun.1] at h
        omega

end Tim

namespace Transmitter

/-- Between a collision and the back-off the line is released. -/
theorem Inv.pin_of_collided {t : Transmitter} (h : t.Inv) (htx : t.inTransmission = false)
    (hcomplete : t.transmissionComplete = false) : t.pin = true := by
  have hput := h.put_pos (Or.inr hcomplete)
  rcases h.released htx with hpin | hempty
  · exact hpin
  · omega

theorem backoff_le (random : ℕ) : backoff random ≤ transmissionTicks := by
  unfold backoff transmitterNMax transmissionTicks
  omega

/-- What a transmitter keeps in real time while no back-off of length 0 is drawn. -/
structure Ticking (t : Transmitter) : Prop where
  inv : t.Inv
  unscaled : t.inTransmission = false ∨ t.retransmissionTimeoutActive = true →
    t.tim2.pscActive = 0 ∧ t.tim2.pscCount = 0
  counting : t.inTransmission = true → t.tim2.Counting
  pscActive_le : t.tim2.pscActive ≤ 16000
  arr_le : t.tim2.arr ≤ transmissionTicks
  released : t.retransmissionTimeoutActive = true → t.pin = true
  -- since boot, or since the last message
  rested : t.inTransmission = false → t.pin = true ∨ ∃ r, t.tim2.BitClock r
  coded : ∃ bits, bitsOf t.transBuf = LineCode.encode bits

theorem ticking_init (src dest : Byte) (packetMode pin : Bool) :
    (init src dest packetMode pin).Ticking where
  inv := inv_init src dest packetMode pin
  unscaled := fun _ => ⟨rfl, rfl⟩
  counting := by simp [init]
  pscActive_le := Nat.zero_le _
  arr_le := Nat.le_refl _
  released := by simp [init]
  rested := fun _ => Or.inr ⟨_, (booting_init src dest packetMode pin).clock⟩
  coded := ⟨[], rfl⟩

theorem Ticking.mainRoutineUpdate {t : Transmitter} (h : t.Ticking) {state : MonitorState} {c : Byte}
    {random : ℕ} (hdraw : state = .idle → t.inTransmission = false →
      t.transmissionComplete = false → backoff random ≠ 0) :
    (t.mainRoutineUpdate state c random).Ticking := by
  have hinv := h.inv.mainRoutineUpdate state c random
  have hunscaled := Node.active_mainRoutineUpdate state c random h.unscaled h.inv
  rcases t.mainRoutineUpdate_cases state c random with
    ⟨-, -, heq⟩ | ⟨-, -, heq⟩ | ⟨hreads, -, -, heq⟩ | ⟨htx, hcomplete, hidle, heq⟩
  · rwa [heq]
  · rw [heq, readChar_frame] at hinv ⊢
    exact { h with inv := hinv }
  · simp only [readsChar, Bool.and_eq_true, Bool.not_eq_true'] at hreads
    have hto := h.inv.not_backoff_of_complete hreads.2
    have hload := loaded_transmitData (t.readChar c) (h.inv.readChar c).dataCur_le
    have harr : 0 < t.tim2.arr := by
      rw [h.inv.arr hto]
      decide
    obtain ⟨hactive, hcount⟩ := h.unscaled (Or.inl hreads.1)
    have hcoded : ∃ bits, bitsOf (t.readChar c).transmitData.transBuf = LineCode.encode bits := by
      rw [bitsOf, hload.stored_eq, flatMap_msbFirst_symbolBytes]
      exact ⟨_, rfl⟩
    dsimp only at hunscaled
    rw [heq] at hinv hunscaled ⊢
    rw [transmitData_frame, readChar_frame] at hinv hunscaled hcoded ⊢
    refine ⟨hinv, hunscaled, fun _ => ⟨rfl, harr, Nat.zero_le _, ?_⟩, h.pscActive_le, h.arr_le, ?_,
      fun htx => absurd htx (by simp), hcoded⟩
    · show t.tim2.pscCount ≤ _
      rw [hcount]
      exact Nat.zero_le _
    · exact fun hback => absurd (hto.symm.trans hback) (by simp)
  · have hpos : 0 < backoff random := Nat.pos_of_ne_zero (hdraw hidle htx hcomplete)
    obtain ⟨-, hcount⟩ := h.unscaled (Or.inl htx)
    dsimp only at hunscaled
    rw [heq] at hinv hunscaled ⊢
    refine ⟨hinv, hunscaled, fun _ => ⟨rfl, hpos, Nat.zero_le _, ?_⟩, h.pscActive_le,
      backoff_le random, fun _ => h.inv.pin_of_collided htx hcomplete,
      (by rintro ⟨⟩), h.coded⟩
    show t.tim2.pscCount ≤ _
    rw [hcount]
    exact Nat.zero_le _

theorem Ticking.cycle {t : Transmitter} (h : t.Ticking) (state : MonitorState) :
    (t.cycle state).Ticking := by
  have hinv := h.inv.cycle state
  have hunscaled := Node.active_cycle state h.unscaled h.inv
  dsimp only at hunscaled
  cases hupd : t.tim2.updates
  · rw [cycle_of_not_updates hupd] at hinv hunscaled ⊢
    refine ⟨hinv, hunscaled, ?_, ?_, ?_, h.released, ?_, h.coded⟩
    · intro htx
      have hcounting := h.counting htx
      refine (hcounting.cycle fun hzero => ?_).1
      rw [hcounting.updates_iff.mpr hzero] at hupd
      cases hupd
    · show t.tim2.cycle.pscActive ≤ 16000
      rw [Tim.pscActive_cycle_of_not_updates hupd]
      exact h.pscActive_le
    · show t.tim2.cycle.arr ≤ transmissionTicks
      rw [Tim.arr_cycle]
      exact h.arr_le
    · intro htx
      refine (h.rested htx).imp id ?_
      rintro ⟨r, hclock⟩
      obtain _ | r := r
      · rw [hclock.updates_iff.mpr rfl] at hupd
        cases hupd
      · exact ⟨r, hclock.cycle⟩
  · have hcen := cen_of_updates hupd
    have hpsc : t.tim2.psc ≤ 16000 := by
      rw [h.inv.psc]
      split <;> decide
    rw [cycle_of_updates hupd] at hinv hunscaled ⊢
    rcases tim2IRQHandler_cases { t with tim2 := t.tim2.updateEvent } state with
      ⟨-, heq⟩ | ⟨-, -, heq⟩ | ⟨-, -, -, heq⟩ | ⟨hto, hend, -, heq⟩ <;>
      rw [heq] at hinv hunscaled ⊢
    · refine ⟨hinv, hunscaled, fun _ => ⟨rfl, (by decide : 0 < transmissionTicks), Nat.zero_le _,
        Nat.zero_le _⟩, hpsc, Nat.le_refl _, ?_, ?_, h.coded⟩
      · exact fun hback => absurd hback (by simp)
      · exact fun htx => absurd htx (by simp)
    · exact ⟨hinv, hunscaled, fun htx => absurd htx (by simp), hpsc, h.arr_le, fun _ => rfl,
        fun _ => Or.inl rfl, h.coded⟩
    · exact ⟨hinv, hunscaled, fun htx => absurd htx (by simp), hpsc, h.arr_le, fun _ => rfl,
        fun _ => Or.inl rfl, h.coded⟩
    · have htx := h.inv.inTransmission_of_cen hcen hend
      refine ⟨hinv, hunscaled, ?_, hpsc, h.arr_le, ?_, ?_, h.coded⟩
      · exact fun _ => ⟨hcen, (h.counting htx).arr_pos, Nat.zero_le _, Nat.zero_le _⟩
      · exact fun hback => absurd (hto.symm.trans hback) (by simp)
      · exact fun htx' => absurd (htx.symm.trans htx') (by simp)

/-- The cycles up to the next tick are at most those of a slot that is counted in milliseconds. -/
theorem Ticking.remaining_lt {t : Transmitter} (h : t.Ticking) :
    t.tim2.remaining + 1 ≤ (transmissionTicks + 1) * 16001 := by
  have harr := h.arr_le
  have hpsc := h.pscActive_le
  have hmul : (t.tim2.arr - t.tim2.cnt) * (t.tim2.pscActive + 1) ≤ transmissionTicks * 16001 := by
    apply Nat.mul_le_mul
    · omega
    · omega
  unfold Tim.remaining
  rw [Nat.succ_mul]
  omega

end Transmitter

namespace Node

/-! ## A board and its line -/

/-- The pin of the board makes the level of the line, and its monitor has followed the line. -/
structure Speaks (s : Node × LineView) : Prop where
  ticking : s.1.tx.Ticking
  watches : s.1.Watches s.2
  level : s.2.level = s.1.tx.pin

theorem tx_watch (s : Node × LineView) : (watch s).1.tx = s.1.tx.cycle s.1.mon.getState :=
  tx_alone s.1

theorem Speaks.watch {s : Node × LineView} (h : Speaks s) : Speaks (watch s) := by
  refine ⟨?_, h.watches.watch, ?_⟩
  · rw [tx_watch]
    exact h.ticking.cycle _
  · rw [h.watches.watch.level, tx_watch]
    exact idr4_setLine _ _

/-- Without a change of the pin there is no edge. -/
theorem Speaks.view_watch {s : Node × LineView} (h : Speaks s)
    (hpin : (Node.watch s).1.tx.pin = s.1.tx.pin) : (Node.watch s).2 = s.2.step .cycle := by
  rw [tx_watch] at hpin
  exact LineView.step_line_same (hpin.trans h.level.symm)

/-- An idle line stays idle until the next edge. -/
theorem Speaks.idle_watch {s : Node × LineView} (h : Speaks s) (hidle : s.1.mon.getState = .idle)
    (hpin : s.1.tx.pin = true) (hpin' : (Node.watch s).1.tx.pin = true) :
    (Node.watch s).1.mon.getState = .idle := by
  have hforget := h.watches.forget (h.level.trans hpin) hidle
  have hspeaks : Speaks (s.1, ⟨true, none⟩) := ⟨h.ticking, hforget, hpin.symm⟩
  have hview := hspeaks.view_watch (hpin'.trans hpin.symm)
  have hwatches := hspeaks.watch.watches
  rw [hview] at hwatches
  exact (hwatches.fresh rfl).1

/-- On a high line the monitor is busy until the timeout has passed, and then idle. -/
theorem Speaks.idle_of_high {s : Node × LineView} (h : Speaks s) (hpin : s.1.tx.pin = true)
    (hage : ∀ age, s.2.sinceEdge = some age → 16 * transmissionTimeoutUs < age) :
    s.1.mon.getState = .idle := by
  cases hedge : s.2.sinceEdge with
  | none => exact (h.watches.fresh hedge).1
  | some age =>
    have hsettled := (h.watches.follows.settled age hedge (hage age hedge)).1
    rwa [h.level, hpin, if_pos rfl] at hsettled

theorem transBuf_cycle (t : Transmitter) (state : MonitorState) :
    (t.cycle state).transBuf = t.transBuf := by
  cases hupd : t.tim2.updates
  · rw [Transmitter.cycle_of_not_updates hupd]
  · rw [Transmitter.cycle_of_updates hupd]
    rcases Transmitter.tim2IRQHandler_cases { t with tim2 := t.tim2.updateEvent } state with
      ⟨-, heq⟩ | ⟨-, -, heq⟩ | ⟨-, -, -, heq⟩ | ⟨-, -, -, heq⟩ <;> rw [heq]

/-! ## How far a message has come -/

/-- The cycles of the wait for the first half-bit after a back-off. -/
def firstSlot : ℕ := slot * 16001

/-- The cycles that a message of `len` half-bits takes at most from the call that starts its
back-off. -/
def afterCall (len : ℕ) : ℕ := slot + firstSlot + len * slot

/-- The cycles that it takes at most from a collision on, if the main loop calls the transmitter at
least once in `patience` cycles. -/
def afterCollision (patience len : ℕ) : ℕ :=
  16 * transmissionTimeoutUs + 1 + patience + afterCall len

/-- Where a message of `len` half-bits is, `since` cycles after the last call of the main routine,
and a bound on the cycles that are `left` until it is complete. -/
inductive Stage (patience len : ℕ) (s : Node × LineView) (since left : ℕ) : Prop
  /-- in an attempt that may still collide with what the monitor has seen before -/
  | attempting (htx : s.1.tx.inTransmission = true)
      (hto : s.1.tx.retransmissionTimeoutActive = false)
      (hleft : s.1.tx.tim2.remaining + 1 + (len - s.1.position) * slot +
        afterCollision patience len ≤ left)
  /-- after a collision, on a line that is not idle yet -/
  | collided {age : ℕ} (htx : s.1.tx.inTransmission = false)
      (hcomplete : s.1.tx.transmissionComplete = false) (hage : s.2.sinceEdge = some age)
      (hbusy : age ≤ 16 * transmissionTimeoutUs)
      (hleft : 16 * transmissionTimeoutUs + 1 - age + patience + afterCall len ≤ left)
  /-- on an idle line since at least `idle` cycles, with no call so far -/
  | waiting {idle : ℕ} (htx : s.1.tx.inTransmission = false)
      (hcomplete : s.1.tx.transmissionComplete = false) (hidle : s.1.mon.getState = .idle)
      (hsince : idle ≤ since) (hleft : patience - idle + afterCall len ≤ left)
  | backingOff (hto : s.1.tx.retransmissionTimeoutActive = true)
      (hleft : s.1.tx.tim2.remaining + 1 + firstSlot + len * slot ≤ left)
  /-- before the first half-bit after a back-off, when the line will be idle -/
  | beginning (htx : s.1.tx.inTransmission = true)
      (hto : s.1.tx.retransmissionTimeoutActive = false) (hpin : s.1.tx.pin = true)
      (hbyte : s.1.tx.currByte = 0) (hbit : s.1.tx.currBit = 0)
      (hage : ∀ age, s.2.sinceEdge = some age →
        16 * transmissionTimeoutUs < age + s.1.tx.tim2.remaining)
      (hleft : s.1.tx.tim2.remaining + 1 + len * slot ≤ left)
  /-- in an attempt that nobody disturbs -/
  | sending {all rest : List Bool} {r : ℕ} (sends : Sends all s rest r)
      (hleft : rest.length * slot + (r + 1) ≤ left)

/-- A message of `len` half-bits that is not complete. -/
structure UnderWay (patience len : ℕ) (s : Node × LineView) (since left : ℕ) : Prop where
  speaks : Speaks s
  length_eq : (bitsOf s.1.tx.transBuf).length = len
  stage : Stage patience len s since left

/-- The transmitter has nothing to send any more. -/
def Done (n : Node) : Prop := n.tx.inTransmission = false ∧ n.tx.transmissionComplete = true

instance (n : Node) : Decidable n.Done := inferInstanceAs (Decidable (_ ∧ _))

/-- After one more cycle the message is complete, or less is left. -/
def Advances (patience len : ℕ) (n : Node) (since left : ℕ) : Prop :=
  n.Done ∨ ∃ v left', left' + 1 ≤ left ∧ UnderWay patience len (n, v) since left'

variable {patience len since left : ℕ} {s : Node × LineView}

theorem Stage.mono {left' : ℕ} (h : Stage patience len s since left) (hle : left ≤ left') :
    Stage patience len s since left' := by
  cases h with
  | attempting htx hto hleft => exact .attempting htx hto (hleft.trans hle)
  | collided htx hcomplete hage hbusy hleft =>
    exact .collided htx hcomplete hage hbusy (hleft.trans hle)
  | waiting htx hcomplete hidle hsince hleft =>
    exact .waiting htx hcomplete hidle hsince (hleft.trans hle)
  | backingOff hto hleft => exact .backingOff hto (hleft.trans hle)
  | beginning htx hto hpin hbyte hbit hage hleft =>
    exact .beginning htx hto hpin hbyte hbit hage (hleft.trans hle)
  | sending sends hleft => exact .sending sends (hleft.trans hle)

theorem UnderWay.pos (h : UnderWay patience len s since left) : 0 < left := by
  have hafter : 0 < afterCall len := by
    unfold afterCall slot
    omega
  cases h.stage with
  | attempting _ _ hleft => omega
  | collided _ _ _ _ hleft => omega
  | waiting _ _ _ _ hleft => omega
  | backingOff _ hleft => omega
  | beginning _ _ _ _ _ _ hleft => omega
  | sending _ hleft => omega

theorem advances_of_stage (left' : ℕ) (h : Speaks s) (hlen : (bitsOf s.1.tx.transBuf).length = len)
    (hstage : Stage patience len (Node.watch s) (since + 1) left') (hless : left' + 1 ≤ left) :
    Advances patience len (Node.watch s).1 (since + 1) left := by
  refine Or.inr ⟨(Node.watch s).2, left', hless, h.watch, ?_, hstage⟩
  rw [tx_watch, transBuf_cycle]
  exact hlen

/-- After a collision the line is released. -/
theorem stage_of_collided (patience len : ℕ) (h : Speaks s) (htx : s.1.tx.inTransmission = false)
    (hcomplete : s.1.tx.transmissionComplete = false) (since : ℕ) :
    Stage patience len s since (afterCollision patience len) := by
  have hpin := h.ticking.inv.pin_of_collided htx hcomplete
  by_cases hage : ∃ age, s.2.sinceEdge = some age ∧ age ≤ 16 * transmissionTimeoutUs
  · obtain ⟨age, hage, hbusy⟩ := hage
    refine .collided htx hcomplete hage hbusy ?_
    unfold afterCollision
    omega
  · have hidle := h.idle_of_high hpin fun age hedge => by
      by_contra hle
      exact hage ⟨age, hedge, by omega⟩
    refine .waiting htx hcomplete hidle (Nat.zero_le _) ?_
    unfold afterCollision
    omega

/-! ## One cycle -/

/-- The transmitter after a cycle between two ticks. -/
theorem counting_watch (h : Speaks s) (htx : s.1.tx.inTransmission = true)
    (hupd : s.1.tx.tim2.updates = false) :
    (watch s).1.tx = { s.1.tx with tim2 := s.1.tx.tim2.cycle } ∧
      s.1.tx.tim2.cycle.remaining + 1 = s.1.tx.tim2.remaining := by
  have hcounting := h.ticking.counting htx
  refine ⟨?_, (hcounting.cycle fun hzero => ?_).2.1⟩
  · rw [tx_watch, Transmitter.cycle_of_not_updates hupd]
  · rw [hcounting.updates_iff.mpr hzero] at hupd
    cases hupd

theorem remaining_of_updates (h : Speaks s) (htx : s.1.tx.inTransmission = true)
    (hupd : s.1.tx.tim2.updates = true) : s.1.tx.tim2.remaining = 0 :=
  (h.ticking.counting htx).updates_iff.mp hupd

/-- A tick of an attempt goes on, completes the message, or finds a collision. -/
theorem advances_attempting (h : Speaks s) (hlen : (bitsOf s.1.tx.transBuf).length = len)
    (htx : s.1.tx.inTransmission = true) (hto : s.1.tx.retransmissionTimeoutActive = false)
    (hleft : s.1.tx.tim2.remaining + 1 + (len - s.1.position) * slot +
      afterCollision patience len ≤ left) :
    Advances patience len (watch s).1 (since + 1) left := by
  have hinv := h.ticking.inv
  cases hupd : s.1.tx.tim2.updates
  · obtain ⟨hcycle, hrem⟩ := counting_watch h htx hupd
    refine advances_of_stage (left - 1) h hlen (.attempting ?_ ?_ ?_) (by omega)
    · rw [hcycle]
      exact htx
    · rw [hcycle]
      exact hto
    · rw [position, hcycle]
      show s.1.tx.tim2.cycle.remaining + 1 + (len - s.1.position) * slot + _ ≤ _
      omega
  · have hzero := remaining_of_updates h htx hupd
    have htick : (watch s).1.tx = { s.1.tx with
        tim2 := s.1.tx.tim2.updateEvent }.tim2IRQHandler s.1.mon.getState := by
      rw [tx_watch, Transmitter.cycle_of_updates hupd]
    rcases Transmitter.tim2IRQHandler_cases { s.1.tx with tim2 := s.1.tx.tim2.updateEvent }
      s.1.mon.getState with ⟨hf, -⟩ | ⟨-, -, heq⟩ | ⟨-, -, -, heq⟩ | ⟨-, hend, -, heq⟩
    · exact absurd (hto.symm.trans hf) (by simp)
    · left
      rw [Done, htick, heq]
      exact ⟨rfl, rfl⟩
    · rw [heq] at htick
      have hstage := stage_of_collided patience len h.watch (by rw [htick]) (by rw [htick]) (since + 1)
      exact advances_of_stage _ h hlen hstage (by omega)
    · -- the next half-bit is driven
      rw [heq] at htick
      have hlt := hinv.not_atEnd_iff.mp hend
      have hbit := hinv.currBit_lt
      rw [length_bitsOf] at hlen
      have hrem : (watch s).1.tx.tim2.remaining = transmissionTicks := by
        rw [htick]
        show (s.1.tx.tim2.arr - 0) * (s.1.tx.tim2.psc + 1) + (s.1.tx.tim2.psc - 0) = _
        rw [hinv.arr hto, hinv.psc, hto]
        rfl
      have hpos : (watch s).1.position = s.1.position + 1 := by
        rw [position, position, htick]
        dsimp only
        split <;> omega
      have hstep : len - s.1.position = len - (s.1.position + 1) + 1 := by
        unfold position
        omega
      rw [hstep, Nat.succ_mul] at hleft
      refine advances_of_stage (left - 1) h (by rwa [length_bitsOf]) (.attempting ?_ ?_ ?_)
        (by omega)
      · rw [htick]
        exact htx
      · rw [htick]
        exact hto
      · rw [hrem, hpos]
        have hslot : slot = transmissionTicks + 1 := rfl
        omega

/-- Between a collision and the back-off the timer is stopped. -/
theorem stopped_watch (h : Speaks s) (htx : s.1.tx.inTransmission = false)
    (hcomplete : s.1.tx.transmissionComplete = false) : (watch s).1.tx = s.1.tx := by
  have hcen : s.1.tx.tim2.cen = false := by
    by_contra hrun
    have hput := h.ticking.inv.stopped htx (Bool.eq_true_of_not_eq_false hrun)
    have := h.ticking.inv.put_pos (Or.inr hcomplete)
    omega
  rw [tx_watch, Transmitter.cycle_of_not_updates (Tim.not_updates_of_stopped hcen),
    Tim.cycle_of_stopped hcen]

theorem advances_collided {age : ℕ} (h : Speaks s) (hlen : (bitsOf s.1.tx.transBuf).length = len)
    (htx : s.1.tx.inTransmission = false) (hcomplete : s.1.tx.transmissionComplete = false)
    (hage : s.2.sinceEdge = some age) (hbusy : age ≤ 16 * transmissionTimeoutUs)
    (hleft : 16 * transmissionTimeoutUs + 1 - age + patience + afterCall len ≤ left) :
    Advances patience len (watch s).1 (since + 1) left := by
  have hsame := stopped_watch h htx hcomplete
  have hpin := h.ticking.inv.pin_of_collided htx hcomplete
  have hview := h.view_watch (congrArg Transmitter.pin hsame)
  have hedge : (watch s).2.sinceEdge = some (age + 1) := by
    rw [hview]
    show s.2.sinceEdge.map (· + 1) = _
    rw [hage]
    rfl
  by_cases hnext : age + 1 ≤ 16 * transmissionTimeoutUs
  · refine advances_of_stage (left - 1) h hlen
      (.collided ?_ ?_ hedge hnext (by omega)) (by omega)
    · rw [hsame]
      exact htx
    · rw [hsame]
      exact hcomplete
  · -- the timeout is over
    have hidle : (watch s).1.mon.getState = .idle := by
      apply h.watch.idle_of_high
      · rw [hsame]
        exact hpin
      · intro k hk
        rw [hedge] at hk
        cases hk
        omega
    refine advances_of_stage (left - 1) h hlen
      (.waiting ?_ ?_ hidle (Nat.zero_le _) (by omega)) (by omega)
    · rw [hsame]
      exact htx
    · rw [hsame]
      exact hcomplete

theorem advances_waiting {idle : ℕ} (h : Speaks s) (hlen : (bitsOf s.1.tx.transBuf).length = len)
    (htx : s.1.tx.inTransmission = false) (hcomplete : s.1.tx.transmissionComplete = false)
    (hidle : s.1.mon.getState = .idle) (hsince : idle ≤ since) (hcall : since < patience)
    (hleft : patience - idle + afterCall len ≤ left) :
    Advances patience len (watch s).1 (since + 1) left := by
  have hsame := stopped_watch h htx hcomplete
  have hpin := h.ticking.inv.pin_of_collided htx hcomplete
  have hidle' := h.idle_watch hidle hpin (by rw [hsame]; exact hpin)
  refine advances_of_stage (left - 1) h hlen
    (.waiting ?_ ?_ hidle' (Nat.succ_le_succ hsince) (by omega)) (by omega)
  · rw [hsame]
    exact htx
  · rw [hsame]
    exact hcomplete

theorem advances_backingOff (h : Speaks s) (hlen : (bitsOf s.1.tx.transBuf).length = len)
    (hto : s.1.tx.retransmissionTimeoutActive = true)
    (hleft : s.1.tx.tim2.remaining + 1 + firstSlot + len * slot ≤ left) :
    Advances patience len (watch s).1 (since + 1) left := by
  obtain ⟨htx, -, hbyte, hbit⟩ := h.ticking.inv.backoff hto
  cases hupd : s.1.tx.tim2.updates
  · obtain ⟨hcycle, hrem⟩ := counting_watch h htx hupd
    refine advances_of_stage (left - 1) h hlen (.backingOff ?_ ?_) (by omega)
    · rw [hcycle]
      exact hto
    · rw [hcycle]
      show s.1.tx.tim2.cycle.remaining + 1 + firstSlot + len * slot ≤ _
      omega
  · have hzero := remaining_of_updates h htx hupd
    have hend := tx_backoff_end hupd hto
    have htick : (watch s).1.tx = s.1.cycle.tx := tx_watch s
    rw [hend] at htick
    have hpsc := h.ticking.inv.psc
    rw [hto, if_pos rfl] at hpsc
    -- the prescaler of the back-off is active in the first slot
    have hrem : (watch s).1.tx.tim2.remaining + 1 = firstSlot := by
      rw [htick]
      show (transmissionTicks - 0) * (s.1.tx.tim2.psc + 1) + (s.1.tx.tim2.psc - 0) + 1 = _
      rw [hpsc]
      rfl
    have hlong : 16 * transmissionTimeoutUs + 1 < firstSlot := by decide
    refine advances_of_stage (left - 1) h hlen
      (.beginning ?_ ?_ ?_ ?_ ?_ ?_ ?_) (by omega)
    · rw [htick]
    · rw [htick]
    · rw [htick]
      exact h.ticking.released hto
    · rw [htick]
      exact hbyte
    · rw [htick]
      exact hbit
    · intro age _
      omega
    · omega

/-! ## The first half-bit after a back-off -/

/-- The timer that would tick in the same cycle, had the prescaler of the bit clock been active. -/
def unscaled (t : Tim) : Tim := { t with pscActive := 0, pscCount := 0, cnt := t.arr }

/-- The slot after a tick is counted with the buffered prescaler. -/
theorem cycle_unscaled {t : Transmitter} (hupd : t.tim2.updates = true) (state : MonitorState) :
    Transmitter.cycle { t with tim2 := unscaled t.tim2 } state = t.cycle state := by
  have hupd' : (unscaled t.tim2).updates = true := by
    have harr := hupd
    simp only [Tim.updates, Bool.and_eq_true, decide_eq_true_eq] at harr
    simp [Tim.updates, unscaled, harr.1.1.1, harr.1.1.2]
  rw [Transmitter.cycle_of_updates hupd, Transmitter.cycle_of_updates hupd']
  rfl

theorem watch_unscaled {n : Node} (hupd : n.tx.tim2.updates = true) (v : LineView) :
    watch ({ n with tx := { n.tx with tim2 := unscaled n.tx.tim2 } }, v) = watch (n, v) := by
  have hcycle : Node.cycle { n with tx := { n.tx with tim2 := unscaled n.tx.tim2 } } = n.cycle := by
    unfold Node.cycle
    dsimp only
    rw [cycle_unscaled hupd]
  rw [watch, watch, alone, alone]
  dsimp only [timedStep]
  rw [hcycle]

/-- The first half-bit after a back-off comes on an idle line. -/
theorem sends_beginning {n : Node} {v : LineView} (h : Speaks (n, v))
    (htx : n.tx.inTransmission = true) (hto : n.tx.retransmissionTimeoutActive = false)
    (hpin : n.tx.pin = true) (hbyte : n.tx.currByte = 0) (hbit : n.tx.currBit = 0)
    (hidle : n.mon.getState = .idle) (hupd : n.tx.tim2.updates = true) :
    ∃ rest, (bitsOf n.tx.transBuf).length = rest.length + 1 ∧
      Sends (bitsOf n.tx.transBuf) (watch (n, ⟨true, none⟩)) rest transmissionTicks := by
  have hinv := h.ticking.inv
  have hput := hinv.put_pos (Or.inl htx)
  obtain ⟨b, rest, hbits⟩ : ∃ b rest, bitsOf n.tx.transBuf = b :: rest := by
    apply List.exists_cons_of_ne_nil
    intro hnil
    have hlen := length_bitsOf n.tx.transBuf
    rw [hnil, List.length_nil] at hlen
    dsimp only at hput
    omega
  have hforget := h.watches.forget (h.level.trans hpin) hidle
  have hpsc := hinv.psc
  rw [hto, if_neg Bool.false_ne_true] at hpsc
  have hclock : (unscaled n.tx.tim2).BitClock 0 :=
    ⟨hinv.running htx, hinv.arr hto, hpsc, rfl, rfl, hinv.arr hto⟩
  have htransmitting : Transmitter.Transmitting { n.tx with tim2 := unscaled n.tx.tim2 }
      (bitsOf n.tx.transBuf) 0 := by
    refine ⟨htx, hto, hinv.get_eq, hinv.currBit_lt, hinv.currByte_le, hinv.currBit_end, ?_, hclock⟩
    dsimp only
    rw [hbyte, hbit]
    rfl
  obtain ⟨bits, hcode⟩ := h.ticking.coded
  have hedges : EdgesCome ⟨true, none⟩ (bitsOf n.tx.transBuf) 0 := by
    rw [hcode]
    exact edgesCome_encode (fun k hk => absurd hk (by simp)) bits (Nat.zero_le _)
  have hsends : Sends (bitsOf n.tx.transBuf)
      ({ n with tx := { n.tx with tim2 := unscaled n.tx.tim2 } }, ⟨true, none⟩)
      (bitsOf n.tx.transBuf) 0 :=
    ⟨htransmitting, hpin, ⟨hforget.level, hforget.follows, hforget.fresh⟩, hedges, fun _ => ⟨0, rfl⟩⟩
  refine ⟨rest, by rw [hbits, List.length_cons], ?_⟩
  rw [← watch_unscaled hupd]
  generalize bitsOf n.tx.transBuf = all at hbits hsends
  subst hbits
  exact hsends.drive

theorem advances_beginning (h : Speaks s) (hlen : (bitsOf s.1.tx.transBuf).length = len)
    (htx : s.1.tx.inTransmission = true) (hto : s.1.tx.retransmissionTimeoutActive = false)
    (hpin : s.1.tx.pin = true) (hbyte : s.1.tx.currByte = 0) (hbit : s.1.tx.currBit = 0)
    (hage : ∀ age, s.2.sinceEdge = some age →
      16 * transmissionTimeoutUs < age + s.1.tx.tim2.remaining)
    (hleft : s.1.tx.tim2.remaining + 1 + len * slot ≤ left) :
    Advances patience len (watch s).1 (since + 1) left := by
  cases hupd : s.1.tx.tim2.updates
  · obtain ⟨hcycle, hrem⟩ := counting_watch h htx hupd
    have hpin' : (watch s).1.tx.pin = s.1.tx.pin := by
      rw [hcycle]
    refine advances_of_stage (left - 1) h hlen
      (.beginning ?_ ?_ ?_ ?_ ?_ ?_ ?_) (by omega)
    · rw [hcycle]
      exact htx
    · rw [hcycle]
      exact hto
    · rw [hpin']
      exact hpin
    · rw [hcycle]
      exact hbyte
    · rw [hcycle]
      exact hbit
    · intro age hedge
      rw [h.view_watch hpin'] at hedge
      obtain ⟨k, hk, rfl⟩ := Option.map_eq_some_iff.mp hedge
      have hk := hage k hk
      rw [hcycle]
      show _ < k + 1 + s.1.tx.tim2.cycle.remaining
      omega
    · rw [hcycle]
      show s.1.tx.tim2.cycle.remaining + 1 + len * slot ≤ _
      omega
  · have hzero := remaining_of_updates h htx hupd
    have hidle := h.idle_of_high hpin fun age hedge => by
      have := hage age hedge
      omega
    obtain ⟨n, v⟩ := s
    obtain ⟨rest, hrest, hsends⟩ := sends_beginning h htx hto hpin hbyte hbit hidle hupd
    have hspeaks : Speaks (n, ⟨true, none⟩) :=
      ⟨h.ticking, h.watches.forget (h.level.trans hpin) hidle, hpin.symm⟩
    replace hlen : rest.length + 1 = len := hrest.symm.trans hlen
    subst hlen
    rw [Nat.succ_mul] at hleft
    have hslot : slot = transmissionTicks + 1 := rfl
    show Advances patience (rest.length + 1) (watch (n, ⟨true, none⟩)).1 (since + 1) left
    exact advances_of_stage (left - 1) hspeaks hrest (.sending hsends (by omega)) (by omega)

theorem advances_sending {all rest : List Bool} {r : ℕ} (h : Speaks s)
    (hlen : (bitsOf s.1.tx.transBuf).length = len) (hsends : Sends all s rest r)
    (hleft : rest.length * slot + (r + 1) ≤ left) :
    Advances patience len (watch s).1 (since + 1) left := by
  cases r with
  | succ r =>
    exact advances_of_stage (left - 1) h hlen (.sending hsends.wait (by omega)) (by omega)
  | zero =>
    cases rest with
    | nil =>
      have hstopped := hsends.finish.tx
      exact Or.inl ⟨hstopped.inTransmission, hstopped.complete⟩
    | cons b rest =>
      rw [List.length_cons, Nat.succ_mul] at hleft
      have hslot : slot = transmissionTicks + 1 := rfl
      exact advances_of_stage (left - 1) h hlen (.sending hsends.drive (by omega))
        (by omega)

/-- One cycle brings the message closer to its end. -/
theorem UnderWay.watch (h : UnderWay patience len s since left) (hcall : since < patience) :
    Advances patience len (Node.watch s).1 (since + 1) left := by
  cases h.stage with
  | attempting htx hto hleft => exact advances_attempting h.speaks h.length_eq htx hto hleft
  | collided htx hcomplete hage hbusy hleft =>
    exact advances_collided h.speaks h.length_eq htx hcomplete hage hbusy hleft
  | waiting htx hcomplete hidle hsince hleft =>
    exact advances_waiting h.speaks h.length_eq htx hcomplete hidle hsince hcall hleft
  | backingOff hto hleft => exact advances_backingOff h.speaks h.length_eq hto hleft
  | beginning htx hto hpin hbyte hbit hage hleft =>
    exact advances_beginning h.speaks h.length_eq htx hto hpin hbyte hbit hage hleft
  | sending sends hleft => exact advances_sending h.speaks h.length_eq sends hleft

/-! ## Calls of the main loop -/

/-- A call that starts no back-off leaves a message that is under way alone. -/
theorem tx_transmitterUpdate_of_busy {n : Node} (hbusy : n.tx.inTransmission = true ∨
    n.tx.transmissionComplete = false ∧ n.mon.getState ≠ .idle) (c : Byte) (random : ℕ) :
    n.transmitterUpdate c random = n := by
  rcases hbusy with htx | ⟨hcomplete, hstate⟩
  · exact transmitterUpdate_of_inTransmission htx c random
  · have hreads : n.tx.readsChar = false := by
      rw [Transmitter.readsChar, hcomplete, Bool.and_false]
    rcases n.tx.mainRoutineUpdate_cases n.mon.getState c random with
      ⟨-, -, heq⟩ | ⟨hr, -, -⟩ | ⟨hr, -, -, -⟩ | ⟨-, -, hidle, -⟩
    · rw [transmitterUpdate, heq]
    · exact absurd (hr.symm.trans hreads) (by simp)
    · exact absurd (hr.symm.trans hreads) (by simp)
    · exact absurd hidle hstate

/-- The call that starts a back-off. -/
theorem tx_transmitterUpdate_of_idle {n : Node} (htx : n.tx.inTransmission = false)
    (hcomplete : n.tx.transmissionComplete = false) (hidle : n.mon.getState = .idle) (c : Byte)
    (random : ℕ) : (n.transmitterUpdate c random).tx = n.tx.retransmit random := by
  rw [transmitterUpdate, Transmitter.mainRoutineUpdate, htx, hcomplete, hidle]
  rfl

theorem Speaks.transmitterUpdate (h : Speaks s) {c : Byte} {random : ℕ}
    (hdraw : s.1.startsBackoff (.transmitterUpdate c random) = true → backoff random ≠ 0) :
    Speaks (s.1.transmitterUpdate c random, s.2) := by
  refine ⟨h.ticking.mainRoutineUpdate fun hidle htx hcomplete => hdraw ?_,
    h.watches.other (e := .transmitterUpdate c random) rfl, ?_⟩
  · rw [startsBackoff, hidle, htx, hcomplete]
    rfl
  · rw [h.level]
    exact (s.1.tx.pin_mainRoutineUpdate s.1.mon.getState c random).symm

/-- A call of the main routine starts the back-off that the message has been waiting for. -/
theorem UnderWay.transmitterUpdate (h : UnderWay patience len s since left) {c : Byte} {random : ℕ}
    (hdraw : s.1.startsBackoff (.transmitterUpdate c random) = true → backoff random ≠ 0) :
    UnderWay patience len (s.1.transmitterUpdate c random, s.2) 0 left := by
  have hspeaks := h.speaks.transmitterUpdate hdraw
  have hlen := h.length_eq
  have hsame (hbusy : s.1.tx.inTransmission = true ∨
      s.1.tx.transmissionComplete = false ∧ s.1.mon.getState ≠ .idle)
      (hstage : Stage patience len s 0 left) :
      UnderWay patience len (s.1.transmitterUpdate c random, s.2) 0 left := by
    rw [tx_transmitterUpdate_of_busy hbusy]
    exact ⟨h.speaks, hlen, hstage⟩
  cases h.stage with
  | attempting htx hto hleft => exact hsame (Or.inl htx) (.attempting htx hto hleft)
  | collided htx hcomplete hage hbusy hleft =>
    apply hsame _ (.collided htx hcomplete hage hbusy hleft)
    right
    rw [Monitor.getState, (h.speaks.watches.follows.busy _ hage hbusy).1]
    exact ⟨hcomplete, by simp⟩
  | @waiting idle htx hcomplete hidle hsince hleft =>
    have hback := tx_transmitterUpdate_of_idle htx hcomplete hidle c random
    refine ⟨hspeaks, ?_, .backingOff ?_ ?_⟩
    · rw [hback]
      exact hlen
    · rw [hback]
      rfl
    · -- the back-off is counted in core cycles
      obtain ⟨hactive, hcount⟩ := h.speaks.ticking.unscaled (Or.inl htx)
      have hdraws := Transmitter.backoff_le random
      have hrem : (s.1.tx.retransmit random).tim2.remaining = backoff random := by
        show (backoff random - 0) * (s.1.tx.tim2.pscActive + 1) +
          (s.1.tx.tim2.pscActive - s.1.tx.tim2.pscCount) = _
        rw [hactive, hcount]
        omega
      have hslot : slot = transmissionTicks + 1 := rfl
      rw [hback, hrem]
      unfold afterCall at hleft
      omega
  | backingOff hto hleft =>
    exact hsame (Or.inl (h.speaks.ticking.inv.backoff hto).1) (.backingOff hto hleft)
  | beginning htx hto hpin hbyte hbit hage hleft =>
    exact hsame (Or.inl htx) (.beginning htx hto hpin hbyte hbit hage hleft)
  | sending sends hleft => exact hsame (Or.inl sends.tx.inTransmission) (.sending sends hleft)

theorem UnderWay.receiverUpdate (h : UnderWay patience len s since left) :
    UnderWay patience len (s.1.receiverUpdate, s.2) since left := by
  refine ⟨⟨h.speaks.ticking, h.speaks.watches.other (e := .receiverUpdate) rfl, h.speaks.level⟩,
    h.length_eq, ?_⟩
  cases h.stage with
  | attempting htx hto hleft => exact .attempting htx hto hleft
  | collided htx hcomplete hage hbusy hleft => exact .collided htx hcomplete hage hbusy hleft
  | waiting htx hcomplete hidle hsince hleft => exact .waiting htx hcomplete hidle hsince hleft
  | backingOff hto hleft => exact .backingOff hto hleft
  | beginning htx hto hpin hbyte hbit hage hleft =>
    exact .beginning htx hto hpin hbyte hbit hage hleft
  | sending sends hleft => exact .sending (sends.other (e := .receiverUpdate) rfl) hleft

/-! ## Where a message is at any time -/

/-- Any message that is not complete is in one of these stages. -/
theorem underWay_of_speaks (patience since : ℕ) (h : Speaks s) (hnot : ¬s.1.Done) :
    UnderWay patience (bitsOf s.1.tx.transBuf).length s since
      (firstSlot + (bitsOf s.1.tx.transBuf).length * slot +
        afterCollision patience (bitsOf s.1.tx.transBuf).length) := by
  refine ⟨h, rfl, ?_⟩
  generalize (bitsOf s.1.tx.transBuf).length = len
  have hrem : s.1.tx.tim2.remaining + 1 ≤ firstSlot := h.ticking.remaining_lt
  have hslots : (len - s.1.position) * slot ≤ len * slot :=
    Nat.mul_le_mul_right _ (Nat.sub_le _ _)
  cases htx : s.1.tx.inTransmission
  · have hcomplete : s.1.tx.transmissionComplete = false := by
      rw [← Bool.not_eq_true]
      exact fun hcomplete => hnot ⟨htx, hcomplete⟩
    exact (stage_of_collided patience len h htx hcomplete since).mono (Nat.le_add_left _ _)
  · cases hto : s.1.tx.retransmissionTimeoutActive
    · exact .attempting htx hto (by omega)
    · refine .backingOff hto ?_
      unfold afterCollision afterCall
      omega

end Node

end NetworkingCard
