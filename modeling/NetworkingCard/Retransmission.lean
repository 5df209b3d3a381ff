import NetworkingCard.Attempts

/-!
# Every attempt sends the same message

An attempt begins with a call of `startTransmission` that does not start a back-off, and lasts
until `inTransmission` is cleared. `faithful_of_run` states, for the attempts of every run, that
they start at the first bit, that each tick drives the next bit of the loaded buffer, that PC9 is
high afterwards, that an attempt reported as complete has driven all of it, and that the loaded
buffer stays as it is until then.

`InAttempt` is what holds between the ticks of an attempt: the half-bits driven so far are those
of the buffer before the current position.
-/

namespace NetworkingCard

namespace Node

/-! ## What a run drives -/

/-- The level of PC9 after the event, if the event is a tick that drives a half-bit. -/
def drivenBy (n : Node) (e : Event) : List Bool :=
  if e = .tim2 ∧ n.drives = true then ((n.step e).map fun n' => n'.tx.pin).toList else []

/-- The half-bits driven on PC9 by the ticks of a run, in order. -/
def driven (n : Node) (es : List Event) : List Bool := Runs.outputs step drivenBy n es

theorem driven_cons {n n' : Node} {e : Event} (h : n.step e = some n') (es : List Event) :
    n.driven (e :: es) = n.drivenBy e ++ n'.driven es :=
  Runs.outputs_cons h es

theorem drivenBy_of_ne_tim2 {n : Node} {e : Event} (h : e ≠ .tim2) : n.drivenBy e = [] :=
  if_neg fun h' => h h'.1

theorem drivenBy_tim2 {n n' : Node} (h : n.drives = true) (hs : n.step .tim2 = some n') :
    n.drivenBy .tim2 = [n'.tx.pin] := by
  rw [drivenBy, if_pos ⟨rfl, h⟩, hs]
  rfl

/-- Testing a bit against the interrupt's mask reads it, counted from the most significant. -/
theorem mask_ne_zero : ∀ (i : Fin 8) (b : Byte),
    decide (b &&& (1#8 <<< (7 - i.val)) ≠ 0) = b.getMsbD i.val := by
  decide +kernel

/-- The half-bit to be driven next is the one at the current position of the buffer's bits. -/
theorem getElem?_bitsOf_of_lt {t : Transmitter} (hbit : t.currBit < 8)
    (hbyte : t.currByte < t.transBuf.put) :
    (bitsOf t.transBuf)[8 * t.currByte + t.currBit]? = some t.nextHalfBit := by
  have hmask := mask_ne_zero ⟨t.currBit, hbit⟩ (Ringbuffer.cell t.transBuf t.currByte)
  rw [bitsOf, Bits.getElem?_flatMap_msbFirst _ hbit, stored, List.getElem?_map,
    List.getElem?_range hbyte, Option.map_some, Option.map_some, ← hmask]
  rfl

theorem getElem?_bitsOf {t : Transmitter} (h : t.Inv) (hend : t.atEnd = false) :
    (bitsOf t.transBuf)[8 * t.currByte + t.currBit]? = some t.nextHalfBit :=
  getElem?_bitsOf_of_lt h.currBit_lt (h.not_atEnd_iff.mp hend)

/-! ## One attempt -/

/-- The event begins an attempt: it calls `startTransmission`, and not for a back-off. -/
def beginsAttempt (n : Node) (e : Event) : Bool := n.starts e && !n.startsBackoff e

/-- The event `e` begins an attempt, and `es` happens while it lasts; its last event may end it. -/
structure Attempt (n₁ : Node) (e : Event) (n₂ : Node) (es : List Event) (n₃ : Node) : Prop where
  begins : n₁.beginsAttempt e = true
  first : n₁.step e = some n₂
  lasts : Runs.Along step (fun n _ => n.tx.inTransmission = true) n₂ es
  rest : n₂.run es = some n₃

/-- Inside an attempt that has driven `bits` so far. -/
structure InAttempt (n : Node) (buffer : RingBuffer Byte) (bits : List Bool) : Prop where
  inv : n.tx.Inv
  inTransmission : n.tx.inTransmission = true
  not_backoff : n.tx.retransmissionTimeoutActive = false
  transBuf : n.tx.transBuf = buffer
  bits_eq : bits = (bitsOf buffer).take n.position

/-- After an attempt has ended: PC9 is high, and a complete one has driven everything. -/
structure AttemptEnded (n : Node) (buffer : RingBuffer Byte) (bits : List Bool) : Prop where
  inTransmission : n.tx.inTransmission = false
  pin : n.tx.pin = true
  prefix_bits : bits <+: bitsOf buffer
  complete : n.tx.transmissionComplete = true → bits = bitsOf buffer

/-- The first event leaves the transmitter at the first bit of the buffer. -/
theorem inAttempt_of_begins {n n' : Node} {e : Event} (h : n.tx.Inv)
    (hb : n.beginsAttempt e = true) (hs : n.step e = some n') :
    InAttempt n' n'.tx.transBuf [] ∧ n'.tx.currByte = 0 ∧ n'.tx.currBit = 0 := by
  have hinv := inv_step n e n' h hs
  have main (hpos : n'.tx.currByte = 0 ∧ n'.tx.currBit = 0) (htx : n'.tx.inTransmission = true)
      (hto : n'.tx.retransmissionTimeoutActive = false) :
      InAttempt n' n'.tx.transBuf [] ∧ n'.tx.currByte = 0 ∧ n'.tx.currBit = 0 := by
    refine ⟨⟨hinv, htx, hto, rfl, ?_⟩, hpos⟩
    rw [position, hpos.1, hpos.2]
    rfl
  simp only [beginsAttempt, Bool.and_eq_true, Bool.not_eq_true'] at hb
  obtain ⟨hstarts, hnot⟩ := hb
  cases e with
  | transmitterUpdate c random =>
    have hidle := idle_of_starts_main hstarts
    cases hs
    simp only [starts, Bool.and_eq_true, Bool.not_eq_true'] at hstarts
    simp only [startsBackoff, hidle, hstarts.1, decide_true, Bool.not_false, Bool.true_and,
      Bool.not_eq_false'] at hnot
    obtain ⟨-, hno, -⟩ | ⟨-, -, heq⟩ | ⟨-, -, -, heq⟩ | ⟨-, hc, -, -⟩ :=
      n.tx.mainRoutineUpdate_cases n.mon.getState c random
    · exact absurd ⟨hidle, hstarts.1⟩ hno
    · have := hstarts.2
      rw [transmitterUpdate, heq, Transmitter.readChar_frame] at this
      exact absurd (hstarts.1.symm.trans this) (by simp)
    · -- a first attempt: the bit position is 0 although only the byte position was reset
      have hbit : n.tx.currBit = 0 := h.currBit_end (h.ready hstarts.1 hnot)
      have hto := h.not_backoff_of_complete hnot
      rw [transmitterUpdate, heq, Transmitter.transmitData_frame,
        Transmitter.readChar_frame] at main ⊢
      exact main ⟨rfl, hbit⟩ rfl hto
    · exact absurd (hnot.symm.trans hc) (by simp)
  | tim2 =>
    obtain ⟨-, rfl⟩ := step_tim2_eq_some.mp hs
    -- the main routine has set both positions back before the back-off
    obtain ⟨-, -, hbyte, hbit⟩ := h.backoff hstarts
    obtain ⟨-, heq⟩ | ⟨hf, -⟩ | ⟨hf, -⟩ | ⟨hf, -⟩ := Transmitter.tim2IRQHandler_cases
      { n.tx with tim2 := n.tx.tim2.updateEvent } n.mon.getState
    · rw [heq] at main ⊢
      exact main ⟨hbyte, hbit⟩ rfl rfl
    all_goals exact absurd (hf.symm.trans hstarts) (by simp)
  | receiverUpdate => cases hstarts
  | tim4 => cases hstarts
  | exti4 level => cases hstarts
  | sysTick => cases hstarts

/-- One tick of an attempt drives the next bit, or ends the attempt. -/
theorem InAttempt.tim2 {n n' : Node} {buffer : RingBuffer Byte} {bits : List Bool}
    (h : InAttempt n buffer bits) (hs : n.step .tim2 = some n') :
    (∃ b, n.drivenBy .tim2 = [b] ∧ InAttempt n' buffer (bits ++ [b])) ∨
      (n.drivenBy .tim2 = [] ∧ AttemptEnded n' buffer bits) := by
  have hinv := inv_step n .tim2 n' h.inv hs
  have hs' := hs
  obtain ⟨-, rfl⟩ := step_tim2_eq_some.mp hs
  have hpre : bits <+: bitsOf buffer := by
    rw [h.bits_eq]
    exact List.take_prefix _ _
  obtain ⟨ht, -⟩ | ⟨-, hend, heq⟩ | ⟨-, -, hcol, heq⟩ | ⟨hto, hend, hcol, heq⟩ :=
    Transmitter.tim2IRQHandler_cases { n.tx with tim2 := n.tx.tim2.updateEvent } n.mon.getState
  · exact absurd (h.not_backoff.symm.trans ht) (by simp)
  · -- the end of the message
    refine Or.inr ⟨if_neg ?_, ?_⟩
    · have : n.tx.atEnd = true := hend
      simp [drives, this]
    · rw [heq]
      refine ⟨rfl, rfl, hpre, fun _ => ?_⟩
      have hbyte : n.tx.currByte = n.tx.transBuf.put := h.inv.atEnd_iff.mp hend
      rw [h.bits_eq, ← h.transBuf, List.take_of_length_le]
      rw [length_bitsOf, position, hbyte]
      exact Nat.le_add_right _ _
  · -- a collision
    refine Or.inr ⟨if_neg ?_, ?_⟩
    · simp [drives, show n.mon.monitorState = .collision from hcol, Monitor.getState]
    · rw [heq]
      exact ⟨rfl, rfl, hpre, by simp⟩
  · -- a half-bit
    have hdrives : n.drives = true := by
      simp only [drives, Bool.and_eq_true, Bool.not_eq_true', decide_eq_true_eq]
      exact ⟨⟨hto, hend⟩, hcol⟩
    -- the half-bit driven is the next one of the buffer
    have hnext := getElem?_bitsOf h.inv hend
    refine Or.inl ⟨n.tx.nextHalfBit, ?_, hinv, ?_, ?_, ?_, ?_⟩
    · rw [drivenBy_tim2 hdrives hs', heq]
      rfl
    all_goals rw [heq]
    · exact h.inTransmission
    · exact h.not_backoff
    · exact h.transBuf
    · have hbit := h.inv.currBit_lt
      have hpos : 8 * (if n.tx.currBit + 1 = 8 then n.tx.currByte + 1 else n.tx.currByte) +
          (if n.tx.currBit + 1 = 8 then 0 else n.tx.currBit + 1) = n.position + 1 := by
        unfold position
        split <;> omega
      rw [position]
      dsimp only
      rw [hpos, List.take_add_one, ← h.transBuf, position, hnext, h.bits_eq, ← h.transBuf, position]
      rfl

/-- Any other event leaves the attempt as it is. -/
theorem InAttempt.other {n n' : Node} {buffer : RingBuffer Byte} {bits : List Bool} {e : Event}
    (h : InAttempt n buffer bits) (hs : n.step e = some n') (he : e ≠ .tim2) :
    InAttempt n' buffer bits := by
  -- a call of the main routine during a transmission does nothing either
  have htx : n'.tx = n.tx := by
    cases e with
    | transmitterUpdate c random =>
      cases hs
      rw [transmitterUpdate_of_inTransmission h.inTransmission]
    | tim2 => exact absurd rfl he
    | receiverUpdate => exact tx_of_step hs (by simp) (by simp)
    | tim4 => exact tx_of_step hs (by simp) (by simp)
    | exti4 level => exact tx_of_step hs (by simp) (by simp)
    | sysTick => exact tx_of_step hs (by simp) (by simp)
  refine ⟨?_, ?_, ?_, ?_, ?_⟩
  · rw [htx]
    exact h.inv
  · rw [htx]
    exact h.inTransmission
  · rw [htx]
    exact h.not_backoff
  · rw [htx]
    exact h.transBuf
  · rw [position, htx]
    exact h.bits_eq

/-- The events of an attempt: each tick drives one more bit, and the one that ends it none. -/
theorem InAttempt.run {n n' : Node} {buffer : RingBuffer Byte} {bits : List Bool}
    {es : List Event} (h : InAttempt n buffer bits)
    (hl : Runs.Along step (fun n _ => n.tx.inTransmission = true) n es) (hr : n.run es = some n') :
    (InAttempt n' buffer (bits ++ n.driven es) ∧ es.count .tim2 = (n.driven es).length) ∨
      (AttemptEnded n' buffer (bits ++ n.driven es) ∧
        es.count .tim2 = (n.driven es).length + 1) := by
  induction es generalizing n bits with
  | nil =>
    cases hr
    rw [driven, Runs.outputs_nil, List.append_nil]
    exact Or.inl ⟨h, rfl⟩
  | cons e es ih =>
    obtain ⟨m, hm, hr'⟩ := Runs.run_cons_eq_some.mp hr
    have hlm := hl.2 m hm
    rw [driven_cons hm]
    by_cases he : e = .tim2
    · subst he
      obtain ⟨b, hb, hm'⟩ | ⟨hb, hm'⟩ := h.tim2 hm
      · rw [hb, ← List.append_assoc]
        obtain ⟨hn, hcount⟩ | ⟨hn, hcount⟩ := ih hm' hlm hr'
        · exact Or.inl ⟨hn, by rw [List.count_cons_self, hcount, List.length_append,
            List.length_singleton, Nat.add_comm]⟩
        · exact Or.inr ⟨hn, by rw [List.count_cons_self, hcount, List.length_append,
            List.length_singleton, Nat.add_comm 1]⟩
      · -- the attempt has ended, so nothing follows
        cases es with
        | nil =>
          cases hr'
          rw [hb, driven, Runs.outputs_nil, List.append_nil, List.append_nil]
          exact Or.inr ⟨hm', rfl⟩
        | cons f fs => exact absurd (hm'.inTransmission.symm.trans hlm.1) (by simp)
    · rw [drivenBy_of_ne_tim2 he, List.nil_append, List.count_cons_of_ne he]
      exact ih (h.other hm he) hlm hr'

/-! ## Between attempts -/

/-- A step that drives nothing leaves PC9 high if it is high. -/
theorem pin_of_step {n n' : Node} {e : Event} (hs : n.step e = some n') (hd : n.drivenBy e = [])
    (hpin : n.tx.pin = true) : n'.tx.pin = true := by
  obtain ⟨c, random, rfl, htx⟩ | ⟨rfl, -, htx⟩ | ⟨-, -, htx⟩ := tx_step_cases hs <;> rw [htx]
  · obtain ⟨-, -, heq⟩ | ⟨-, -, heq⟩ | ⟨-, -, -, heq⟩ | ⟨-, -, -, heq⟩ :=
      n.tx.mainRoutineUpdate_cases n.mon.getState c random <;> rw [heq]
    · exact hpin
    · rw [Transmitter.readChar_frame]
      exact hpin
    · rw [Transmitter.transmitData_frame, Transmitter.readChar_frame]
      exact hpin
    · exact hpin
  · have hnot : n.drives = false := by
      by_contra hdrives
      rw [drivenBy_tim2 (Bool.eq_true_of_not_eq_false hdrives) hs] at hd
      cases hd
    obtain ⟨-, heq⟩ | ⟨-, -, heq⟩ | ⟨-, -, -, heq⟩ | ⟨hto, hend, hcol, -⟩ :=
      Transmitter.tim2IRQHandler_cases { n.tx with tim2 := n.tx.tim2.updateEvent } n.mon.getState
    · rw [heq]
      exact hpin
    · rw [heq]
    · rw [heq]
    · -- this tick would drive a half-bit
      have hto' : n.tx.retransmissionTimeoutActive = false := hto
      have hend' : n.tx.atEnd = false := hend
      simp [drives, hto', hend', hcol] at hnot
  · exact hpin

theorem pin_of_run {n n' : Node} {es : List Event} (hr : n.run es = some n')
    (hd : n.driven es = []) (hpin : n.tx.pin = true) : n'.tx.pin = true := by
  induction es generalizing n with
  | nil =>
    cases hr
    exact hpin
  | cons e es ih =>
    obtain ⟨m, hm, hr'⟩ := Runs.run_cons_eq_some.mp hr
    rw [driven_cons hm, List.append_eq_nil_iff] at hd
    exact ih hr' hd.2 (pin_of_step hm hd.1 hpin)

/-- Only a call of the main routine that reads a character may load another message. -/
theorem transBuf_of_step {n n' : Node} {e : Event} (hs : n.step e = some n')
    (hreads : n.tx.readsChar = false) : n'.tx.transBuf = n.tx.transBuf := by
  obtain ⟨c, random, rfl, htx⟩ | ⟨rfl, -, htx⟩ | ⟨-, -, htx⟩ := tx_step_cases hs <;> rw [htx]
  · obtain ⟨-, -, heq⟩ | ⟨hr, -, -⟩ | ⟨hr, -, -, -⟩ | ⟨-, -, -, heq⟩ :=
      n.tx.mainRoutineUpdate_cases n.mon.getState c random
    · rw [heq]
    · exact absurd (hreads.symm.trans hr) (by simp)
    · exact absurd (hreads.symm.trans hr) (by simp)
    · rw [heq]
      rfl
  · obtain ⟨-, heq⟩ | ⟨-, -, heq⟩ | ⟨-, -, -, heq⟩ | ⟨-, -, -, heq⟩ :=
      Transmitter.tim2IRQHandler_cases { n.tx with tim2 := n.tx.tim2.updateEvent }
        n.mon.getState <;> rw [heq]

theorem transBuf_of_run {n n' : Node} {es : List Event}
    (hl : Runs.Along step (fun n _ => n.tx.readsChar = false) n es) (hr : n.run es = some n') :
    n'.tx.transBuf = n.tx.transBuf :=
  Runs.run_invariant_along (I := fun m => m.tx.transBuf = n.tx.transBuf)
    (fun _ _ _ heq hreads hs => (transBuf_of_step hs hreads).trans heq) rfl hl hr

/-! ## All attempts of a run -/

/-- A finished attempt leaves PC9 high until a later one drives it, and has driven the whole
buffer if it is reported as complete. -/
def EndsWell (n : Node) (buffer : RingBuffer Byte) (bits : List Bool) : Prop :=
  (∀ fs n', n.run fs = some n' → n.driven fs = [] → n'.tx.pin = true) ∧
    (n.tx.transmissionComplete = true → bits = bitsOf buffer)

/-- What an attempt drives, for the state `n₂` in which it starts and the state `n₃` after the
events `es`: from the first bit on one bit per tick, all of them bits of the loaded buffer. -/
structure Faithful (n₂ : Node) (es : List Event) (n₃ : Node) : Prop where
  currByte : n₂.tx.currByte = 0
  currBit : n₂.tx.currBit = 0
  prefix_bits : n₂.driven es <+: bitsOf n₂.tx.transBuf
  ticks : es.count .tim2 = (n₂.driven es).length + if n₃.tx.inTransmission then 0 else 1
  ends : n₃.tx.inTransmission = false → EndsWell n₃ n₂.tx.transBuf (n₂.driven es)

theorem Attempt.faithful {n₁ n₂ n₃ : Node} {e : Event} {es : List Event} (hinv : n₁.tx.Inv)
    (h : Attempt n₁ e n₂ es n₃) : Faithful n₂ es n₃ := by
  obtain ⟨hin, hbyte, hbit⟩ := inAttempt_of_begins hinv h.begins h.first
  obtain ⟨hn₃, hcount⟩ | ⟨hn₃, hcount⟩ := hin.run h.lasts h.rest <;>
    rw [List.nil_append] at hn₃
  · have htx := hn₃.inTransmission
    refine ⟨hbyte, hbit, ?_, ?_, fun hno => absurd (hno.symm.trans htx) (by simp)⟩
    · rw [hn₃.bits_eq]
      exact List.take_prefix _ _
    · rw [htx, if_pos rfl, hcount, Nat.add_zero]
  · refine ⟨hbyte, hbit, hn₃.prefix_bits, ?_, fun _ => ⟨?_, hn₃.complete⟩⟩
    · rw [hn₃.inTransmission, if_neg (by simp), hcount]
    · exact fun fs n' hr hd => pin_of_run hr hd hn₃.pin

/-- **Retransmission is faithful.** In every run from boot, every attempt drives a prefix of the
loaded buffer's bits, from the first bit on and one bit per tick, and all of them if it completes;
and from the call that loads a message until it is complete the buffer does not change. -/
theorem faithful_of_run {src dest : Byte} {packetMode pin line : Bool} {es₀ : List Event}
    {n₁ : Node} (h : (boot src dest packetMode pin line).run es₀ = some n₁) :
    (∀ e n₂ es n₃, Attempt n₁ e n₂ es n₃ → Faithful n₂ es n₃) ∧
      ∀ e n₂ es n₃, n₁.tx.readsChar = true → n₁.starts e = true → n₁.step e = some n₂ →
        Runs.Along step (fun n _ => n.tx.readsChar = false) n₂ es → n₂.run es = some n₃ →
        n₃.tx.transBuf = n₂.tx.transBuf :=
  ⟨fun _ _ _ _ hatt => hatt.faithful (inv_of_run h),
    fun _ _ _ _ _ _ _ hl hr => transBuf_of_run hl hr⟩

/-- A typed character and its `'\r'`: the second one loads the message. -/
def lineA : List Event := [.transmitterUpdate 0x61 0] ++ [.transmitterUpdate carriageReturn 0]

/-- An attempt that a collision ends in its third tick, and the call that starts the back-off. -/
def collidedOnce : List Event :=
  [.tim2, .tim2, .exti4 false, .sysTick, .tim2, .exti4 true, .sysTick, .transmitterUpdate 0 1]

/-- The line `a`, its attempt that collides, and three ticks of the second attempt. -/
theorem faithful_secondAttempt :
    ∃ m₁ m₂ n₁ n₂ n₃, (boot 0xAA 0xBB true true true).run [.transmitterUpdate 0x61 0] = some m₁ ∧
      m₁.step (.transmitterUpdate carriageReturn 0) = some m₂ ∧ m₂.run collidedOnce = some n₁ ∧
      Attempt n₁ .tim2 n₂ [.tim2, .tim2, .tim2] n₃ ∧ Faithful n₂ [.tim2, .tim2, .tim2] n₃ ∧
      n₂.driven [.tim2, .tim2, .tim2] = [true, false, false] ∧ n₃.tx.transBuf = m₂.tx.transBuf := by
  obtain ⟨b, hb⟩ : ∃ b, b = boot 0xAA 0xBB true true true := ⟨_, rfl⟩
  -- what the run does up to the second attempt, and in it
  have hall : (b.run (lineA ++ collidedOnce ++ [.tim2] ++ [.tim2, .tim2, .tim2])).isSome = true := by
    subst hb
    decide +kernel
  have hreads : (b.run [.transmitterUpdate 0x61 0]).map (fun n => n.tx.readsChar &&
      n.starts (.transmitterUpdate carriageReturn 0)) = some true := by
    subst hb
    decide +kernel
  have hnever : (b.run lineA).map (fun n => decide (Runs.Along step
      (fun n _ => n.tx.readsChar = false) n (collidedOnce ++ [.tim2] ++ [.tim2, .tim2, .tim2]))) =
        some true := by
    subst hb
    decide +kernel
  have hbegins : (b.run (lineA ++ collidedOnce)).map (fun n => n.beginsAttempt .tim2) =
      some true := by
    subst hb
    decide +kernel
  have hlasts : (b.run (lineA ++ collidedOnce ++ [.tim2])).map (fun n => decide (Runs.Along step
      (fun n _ => n.tx.inTransmission = true) n [.tim2, .tim2, .tim2])) = some true := by
    subst hb
    decide +kernel
  have hdriven : (b.run (lineA ++ collidedOnce ++ [.tim2])).map
      (fun n => n.driven [.tim2, .tim2, .tim2]) = some [true, false, false] := by
    subst hb
    decide +kernel
  obtain ⟨n₃, hn₃⟩ := Option.isSome_iff_exists.mp hall
  obtain ⟨n₂, hrun₂, hrest⟩ := Runs.run_append_eq_some.mp hn₃
  obtain ⟨n₁, hrun₁, hn₂⟩ := Runs.run_concat_eq_some.mp hrun₂
  obtain ⟨m₂, hloaded, hn₁⟩ := Runs.run_append_eq_some.mp hrun₁
  obtain ⟨m₁, hm₁, hm₂⟩ := Runs.run_concat_eq_some.mp hloaded
  have hm₃ : m₂.run (collidedOnce ++ [.tim2] ++ [.tim2, .tim2, .tim2]) = some n₃ :=
    Runs.run_append_eq_some.mpr ⟨n₂, Runs.run_concat_eq_some.mpr ⟨n₁, hn₁, hn₂⟩, hrest⟩
  rw [run, hm₁, Option.map_some, Option.some.injEq, Bool.and_eq_true] at hreads
  rw [run, hloaded, Option.map_some, Option.some.injEq, decide_eq_true_eq] at hnever
  rw [run, hrun₁, Option.map_some, Option.some.injEq] at hbegins
  rw [run, hrun₂, Option.map_some, Option.some.injEq, decide_eq_true_eq] at hlasts
  rw [run, hrun₂, Option.map_some, Option.some.injEq] at hdriven
  have hattempt : Attempt n₁ .tim2 n₂ [.tim2, .tim2, .tim2] n₃ := ⟨hbegins, hn₂, hlasts, hrest⟩
  subst hb
  exact ⟨m₁, m₂, n₁, n₂, n₃, hm₁, hm₂, hn₁, hattempt, (faithful_of_run hrun₁).1 _ _ _ _ hattempt,
    hdriven, (faithful_of_run hm₁).2 _ _ _ _ hreads.1 hreads.2 hm₂ hnever hm₃⟩

end Node

end NetworkingCard
