import NetworkingCard.Node
import NetworkingCard.TransmitterTheorems

/-!
# The transmitter's invariant

`Transmitter.Inv` ties the position in the buffer, the three flags, the timer and the line buffer
together; `Node.inv_step` shows that every event of a board keeps it, and `Node.inv_of_run` that
it holds in every state reached from boot.
-/

namespace NetworkingCard

namespace Transmitter

/-- What holds of the transmitter in every reachable state. -/
structure Inv (t : Transmitter) : Prop where
  valid : Ringbuffer.Valid t.transBuf
  get_eq : t.transBuf.get = 0
  currBit_lt : t.currBit < 8
  currByte_le : t.currByte ≤ t.transBuf.put
  currBit_end : t.currByte = t.transBuf.put → t.currBit = 0
  ready : t.inTransmission = false → t.transmissionComplete = true → t.currByte = t.transBuf.put
  put_pos : t.inTransmission = true ∨ t.transmissionComplete = false → 0 < t.transBuf.put
  backoff : t.retransmissionTimeoutActive = true →
    t.inTransmission = true ∧ t.transmissionComplete = false ∧ t.currByte = 0 ∧ t.currBit = 0
  running : t.inTransmission = true → t.tim2.cen = true
  -- before the first message the counter still runs, and PC9 may not have been released yet
  stopped : t.inTransmission = false → t.tim2.cen = true → t.transBuf.put = 0
  released : t.inTransmission = false → t.pin = true ∨ t.transBuf.put = 0
  arr : t.retransmissionTimeoutActive = false → t.tim2.arr = transmissionTicks
  psc : t.tim2.psc = if t.retransmissionTimeoutActive then 16000 else 0
  dataCur_le : t.dataCur ≤ phMsgSize - 1
  line : t.gotMessage = true → blank t.line = false

theorem Inv.atEnd_iff {t : Transmitter} (h : t.Inv) :
    t.atEnd = true ↔ t.currByte = t.transBuf.put := by
  have hle := h.currByte_le
  have hget := h.get_eq
  simp only [atEnd, Ringbuffer.hasElement, Bool.or_eq_true, Bool.not_eq_true',
    decide_eq_true_eq, decide_eq_false_iff_not, ne_eq, not_not]
  omega

theorem Inv.not_atEnd_iff {t : Transmitter} (h : t.Inv) :
    t.atEnd = false ↔ t.currByte < t.transBuf.put := by
  rw [← Bool.not_eq_true, h.atEnd_iff]
  have := h.currByte_le
  omega

/-- While the message is not fully transmitted and the timer runs, a transmission is going on. -/
theorem Inv.inTransmission_of_cen {t : Transmitter} (h : t.Inv) (hcen : t.tim2.cen = true)
    (hend : t.atEnd = false) : t.inTransmission = true := by
  by_contra htx
  have hput := h.stopped (Bool.eq_false_of_not_eq_true htx) hcen
  have := h.not_atEnd_iff.mp hend
  omega

theorem Inv.not_backoff_of_complete {t : Transmitter} (h : t.Inv)
    (hc : t.transmissionComplete = true) : t.retransmissionTimeoutActive = false := by
  by_contra hto
  have := (h.backoff (Bool.eq_true_of_not_eq_false hto)).2.1
  simp [hc] at this

theorem inv_init (src dest : Byte) (packetMode pin : Bool) : (init src dest packetMode pin).Inv where
  valid := ⟨Nat.zero_lt_succ _, Nat.zero_lt_succ _⟩
  get_eq := rfl
  currBit_lt := Nat.zero_lt_succ _
  currByte_le := Nat.le_refl _
  currBit_end := fun _ => rfl
  ready := fun _ _ => rfl
  put_pos := by simp [init]
  backoff := by simp [init]
  running := by simp [init]
  stopped := fun _ _ => rfl
  released := fun _ => Or.inr rfl
  arr := fun _ => rfl
  psc := rfl
  dataCur_le := Nat.zero_le _
  line := by simp [init]

/-! ## The main routine keeps it -/

theorem blank_take_append (line : List Byte) (c : Byte) (h : blank line = false) :
    blank ((line ++ [c]).take (phMsgSize - 1)) = false := by
  cases line with
  | nil => simp [blank, cString] at h
  | cons b line =>
    rw [← Bool.not_eq_true, blank_iff] at h ⊢
    simpa [phMsgSize] using h

theorem Inv.readChar {t : Transmitter} (h : t.Inv) (c : Byte) : (t.readChar c).Inv := by
  have hlt : t.dataCur < phMsgSize := Nat.lt_of_le_of_lt h.dataCur_le (by decide)
  have hline : (t.readChar c).gotMessage = true → blank (t.readChar c).line = false := by
    intro hgot
    by_cases hc : c = carriageReturn
    · rw [hc] at hgot ⊢
      obtain ⟨hg, hl⟩ := readChar_return t hlt
      have hb : blank t.line = false := by
        rw [hg] at hgot
        simpa using hgot
      rwa [hl, hb, if_neg (by simp)]
    · obtain ⟨hg, hl⟩ := readChar_other t hc h.dataCur_le
      rw [hl]
      exact blank_take_append _ c (h.line (hg ▸ hgot))
  have hle := dataCur_readChar_le t c h.dataCur_le
  rw [readChar_frame] at hline hle ⊢
  exact { h with dataCur_le := hle, line := hline }

theorem Inv.transmitData {t : Transmitter} (h : t.Inv) (htx : t.inTransmission = false)
    (hc : t.transmissionComplete = true) (hgot : t.gotMessage = true) : t.transmitData.Inv := by
  have hload := loaded_transmitData t h.dataCur_le
  have hne : t.line ≠ [] := by
    intro hnil
    have := h.line hgot
    rw [hnil] at this
    simp [blank, cString] at this
  -- a finished line is not blank, so its frame is not empty
  have hpos : 0 < t.transmitData.transBuf.put := by
    have := length_frameOf_pos t.packetMode t.src t.dest hne
    rw [hload.put_eq, length_flatMap_symbolBytes]
    omega
  have hbit : t.currBit = 0 := h.currBit_end (h.ready htx hc)
  have hto := h.not_backoff_of_complete hc
  rw [transmitData_frame] at hload hpos ⊢
  exact
    { valid := hload.valid
      get_eq := hload.get_eq
      currBit_lt := h.currBit_lt
      currByte_le := Nat.zero_le _
      currBit_end := fun _ => hbit
      ready := by simp
      put_pos := fun _ => hpos
      backoff := by simp [hto]
      running := fun _ => rfl
      stopped := by simp
      released := by simp
      arr := h.arr
      psc := h.psc
      dataCur_le := Nat.zero_le _
      line := by simp }

theorem Inv.retransmit {t : Transmitter} (h : t.Inv) (hc : t.transmissionComplete = false)
    (random : ℕ) : (t.retransmit random).Inv where
  valid := h.valid
  get_eq := h.get_eq
  currBit_lt := Nat.zero_lt_succ _
  currByte_le := Nat.zero_le _
  currBit_end := fun _ => rfl
  ready := by simp [Transmitter.retransmit, startTransmission]
  put_pos := fun _ => h.put_pos (Or.inr hc)
  backoff := fun _ => ⟨rfl, hc, rfl, rfl⟩
  running := fun _ => rfl
  stopped := by simp [Transmitter.retransmit, startTransmission]
  released := by simp [Transmitter.retransmit, startTransmission]
  arr := by simp [Transmitter.retransmit, startTransmission, toggleRetransmission, printf]
  psc := rfl
  dataCur_le := h.dataCur_le
  line := h.line

theorem Inv.mainRoutineUpdate {t : Transmitter} (h : t.Inv) (state : MonitorState) (c : Byte)
    (random : ℕ) : (t.mainRoutineUpdate state c random).Inv := by
  obtain ⟨-, -, heq⟩ | ⟨-, -, heq⟩ | ⟨hreads, -, hgot, heq⟩ | ⟨-, hc, -, heq⟩ :=
    mainRoutineUpdate_cases t state c random
  · rwa [heq]
  · rw [heq]
    exact h.readChar c
  · rw [heq]
    simp only [readsChar, Bool.and_eq_true, Bool.not_eq_true'] at hreads
    refine (h.readChar c).transmitData ?_ ?_ hgot
    · rw [readChar_frame]
      exact hreads.1
    · rw [readChar_frame]
      exact hreads.2
  · rw [heq]
    exact h.retransmit hc random

/-! ## The timer interrupt keeps it -/

/-- The timer's registers matter to the invariant only where it names them. -/
theorem Inv.updateEvent {t : Transmitter} (h : t.Inv) :
    { t with tim2 := t.tim2.updateEvent }.Inv :=
  { h with }

theorem Inv.tim2IRQHandler {t : Transmitter} (h : t.Inv) (hcen : t.tim2.cen = true)
    (state : MonitorState) : (t.tim2IRQHandler state).Inv := by
  obtain ⟨hto, heq⟩ | ⟨hto, hend, heq⟩ | ⟨hto, hend, -, heq⟩ | ⟨hto, hend, -, heq⟩ :=
    tim2IRQHandler_cases t state <;> rw [heq]
  -- the end of a back-off: the positions are at the first bit
  · obtain ⟨htx, hc, hbyte, hbit⟩ := h.backoff hto
    exact { h with
      ready := by simp
      put_pos := fun _ => h.put_pos (Or.inl htx)
      backoff := by simp
      running := fun _ => rfl
      stopped := by simp
      released := by simp
      arr := fun _ => rfl
      psc := rfl }
  · exact { h with
      ready := fun _ _ => h.atEnd_iff.mp hend
      put_pos := by simp
      backoff := by simp [hto]
      running := by simp
      stopped := by simp
      released := fun _ => Or.inl rfl }
  · have hlt := h.not_atEnd_iff.mp hend
    exact { h with
      ready := by simp
      put_pos := fun _ => Nat.zero_lt_of_lt hlt
      backoff := by simp [hto]
      running := by simp
      stopped := by simp
      released := fun _ => Or.inl rfl }
  · have hlt := h.not_atEnd_iff.mp hend
    have hbit := h.currBit_lt
    have htx := h.inTransmission_of_cen hcen hend
    exact { h with
      currBit_lt := by
        dsimp only
        split <;> omega
      currByte_le := by
        dsimp only
        split <;> omega
      currBit_end := by
        dsimp only
        intro heq
        split
        · rfl
        · rw [if_neg ‹_›] at heq
          omega
      ready := by simp [htx]
      backoff := by simp [hto]
      released := by simp [htx] }

end Transmitter

namespace Node

theorem inv_boot (src dest : Byte) (packetMode pin line : Bool) :
    (boot src dest packetMode pin line).tx.Inv :=
  Transmitter.inv_init src dest packetMode pin

/-- What a step does to the transmitter: only the main routine and TIM2 act on it. -/
theorem tx_step_cases {n n' : Node} {e : Event} (hs : n.step e = some n') :
    (∃ c random, e = .transmitterUpdate c random ∧
        n'.tx = n.tx.mainRoutineUpdate n.mon.getState c random) ∨
      (e = .tim2 ∧ n.tx.tim2.cen = true ∧
        n'.tx = { n.tx with tim2 := n.tx.tim2.updateEvent }.tim2IRQHandler n.mon.getState) ∨
      ((∀ c random, e ≠ .transmitterUpdate c random) ∧ e ≠ .tim2 ∧ n'.tx = n.tx) := by
  cases e with
  | transmitterUpdate c random =>
    cases hs
    exact Or.inl ⟨c, random, rfl, rfl⟩
  | tim2 =>
    obtain ⟨hcen, rfl⟩ := step_tim2_eq_some.mp hs
    exact Or.inr (Or.inl ⟨rfl, hcen, rfl⟩)
  | receiverUpdate =>
    cases hs
    exact Or.inr (Or.inr ⟨by simp, by simp, rfl⟩)
  | tim4 =>
    obtain ⟨-, rfl⟩ := step_tim4_eq_some.mp hs
    exact Or.inr (Or.inr ⟨by simp, by simp, rfl⟩)
  | exti4 level =>
    cases hs
    exact Or.inr (Or.inr ⟨by simp, by simp, rfl⟩)
  | sysTick =>
    obtain ⟨-, rfl⟩ := step_sysTick_eq_some.mp hs
    exact Or.inr (Or.inr ⟨by simp, by simp, rfl⟩)

/-- The transmitter after an event that is neither a call of its main routine nor TIM2's. -/
theorem tx_of_step {n n' : Node} {e : Event} (hs : n.step e = some n')
    (hmain : ∀ c random, e ≠ .transmitterUpdate c random) (htim2 : e ≠ .tim2) : n'.tx = n.tx := by
  obtain ⟨c, random, he, -⟩ | ⟨he, -⟩ | ⟨-, -, htx⟩ := tx_step_cases hs
  · exact absurd he (hmain c random)
  · exact absurd he htim2
  · exact htx

/-- Every event keeps the transmitter's invariant. -/
theorem inv_step (n : Node) (e : Event) (n' : Node) (h : n.tx.Inv) (hs : n.step e = some n') :
    n'.tx.Inv := by
  obtain ⟨c, random, rfl, htx⟩ | ⟨rfl, hcen, htx⟩ | ⟨-, -, htx⟩ := tx_step_cases hs <;> rw [htx]
  · exact h.mainRoutineUpdate _ c random
  · exact h.updateEvent.tim2IRQHandler hcen _
  · exact h

/-- The invariant holds in every state reached from boot. -/
theorem inv_of_run {src dest : Byte} {packetMode pin line : Bool} {es : List Event} {n : Node}
    (h : (boot src dest packetMode pin line).run es = some n) : n.tx.Inv :=
  Runs.run_invariant inv_step (inv_boot src dest packetMode pin line) h

end Node

end NetworkingCard
