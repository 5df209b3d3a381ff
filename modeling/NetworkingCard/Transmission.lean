import NetworkingCard.BackoffTiming
import NetworkingCard.LineDecoding
import NetworkingCard.Retransmission

/-!
# One transmission of the bit clock

The transmitter from a typed line to the end of its transmission, in both modes and without a
collision: it is `Waiting` for characters, `Launched` by the `'\r'`, `Transmitting` one half-bit in
every `TRANSMISSION_TICKS + 1` cycles, and then `Stopped`.
-/

namespace NetworkingCard

namespace Tim

/-- The timer of the bit clock, `r` cycles before the cycle of the next tick. -/
structure BitClock (t : Tim) (r : ℕ) : Prop where
  cen : t.cen = true
  arr : t.arr = transmissionTicks
  psc : t.psc = 0
  pscActive : t.pscActive = 0
  pscCount : t.pscCount = 0
  cnt : t.cnt + r = transmissionTicks

theorem BitClock.updates_iff {t : Tim} {r : ℕ} (h : t.BitClock r) : t.updates = true ↔ r = 0 := by
  have harr := h.arr
  have hcnt := h.cnt
  have hpos : 0 < transmissionTicks := by decide
  simp only [updates, h.cen, h.pscActive, h.pscCount, Bool.true_and, Bool.and_eq_true,
    decide_eq_true_eq]
  omega

theorem BitClock.cycle {t : Tim} {r : ℕ} (h : t.BitClock (r + 1)) : t.cycle.BitClock r := by
  have hcnt := h.cnt
  have hupd : t.updates = false := by
    rw [← Bool.not_eq_true, h.updates_iff]
    omega
  have hrun : ¬(t.cen = false ∨ t.arr = 0) := by
    rw [h.cen, h.arr]
    decide
  rw [cycle_prescaler_zero h.pscActive h.pscCount hupd, if_neg hrun]
  exact { h with cnt := by dsimp only; omega }

/-- The timer after a tick. -/
theorem BitClock.tick {t : Tim} {r : ℕ} (h : t.BitClock r) :
    { t.updateEvent with uif := false }.BitClock transmissionTicks :=
  { h with pscActive := h.psc, pscCount := rfl, cnt := Nat.zero_add _ }

/-- The timer as `startTransmission` starts it. -/
theorem bitClock_startCounter {t : Tim} (harr : t.arr = transmissionTicks) (hpsc : t.psc = 0)
    (hactive : t.pscActive = 0) (hcount : t.pscCount = 0) :
    t.clearCnt.startCounter.BitClock transmissionTicks :=
  ⟨rfl, harr, hpsc, hactive, hcount, Nat.zero_add _⟩

end Tim

namespace Transmitter

/-- Between two messages, whatever has been typed and whatever level PC9 has. -/
structure Resting (t : Transmitter) : Prop where
  inv : t.Inv
  complete : t.transmissionComplete = true
  inTransmission : t.inTransmission = false
  pscActive : t.tim2.pscActive = 0
  pscCount : t.tim2.pscCount = 0

/-- Since boot nothing has been sent, and the first tick of TIM2, which releases PC9, comes after
`r` more cycles. -/
structure Booting (t : Transmitter) (r : ℕ) : Prop extends Resting t where
  clock : t.tim2.BitClock r

/-- Between two messages, with `line` typed so far. -/
structure Waiting (t : Transmitter) (line : List Byte) : Prop extends Resting t where
  gotMessage : t.gotMessage = false
  line_eq : t.line = line

/-- The transmission of `bytes` has been started from idle, and nothing of it sent yet. -/
structure Launched (t : Transmitter) (bytes : List Byte) : Prop where
  transBuf : ∃ buffer, t.transBuf = bytes.foldl transmitByte (Ringbuffer.reset buffer)
  currByte : t.currByte = 0
  currBit : t.currBit = 0
  inTransmission : t.inTransmission = true
  not_backoff : t.retransmissionTimeoutActive = false
  tim2 : t.tim2.BitClock transmissionTicks

/-- The half-bits `rest` are still to be driven, the first of them after `r` more cycles. -/
structure Transmitting (t : Transmitter) (rest : List Bool) (r : ℕ) : Prop where
  inTransmission : t.inTransmission = true
  not_backoff : t.retransmissionTimeoutActive = false
  get_eq : t.transBuf.get = 0
  currBit_lt : t.currBit < 8
  currByte_le : t.currByte ≤ t.transBuf.put
  currBit_end : t.currByte = t.transBuf.put → t.currBit = 0
  rest_eq : (bitsOf t.transBuf).drop (8 * t.currByte + t.currBit) = rest
  tim2 : t.tim2.BitClock r

/-- The transmission has ended, and the timer with it. -/
structure Stopped (t : Transmitter) : Prop where
  inTransmission : t.inTransmission = false
  complete : t.transmissionComplete = true
  pin : t.pin = true
  tim2 : t.tim2.cen = false

/-! ## Between two messages -/

theorem resting_init (src dest : Byte) (packetMode pin : Bool) :
    (init src dest packetMode pin).Resting :=
  ⟨inv_init src dest packetMode pin, rfl, rfl, rfl, rfl⟩

theorem booting_init (src dest : Byte) (packetMode pin : Bool) :
    (init src dest packetMode pin).Booting transmissionTicks :=
  ⟨resting_init src dest packetMode pin, ⟨rfl, rfl, rfl, rfl, rfl, Nat.zero_add _⟩⟩

theorem Resting.readsChar {t : Transmitter} (h : t.Resting) : t.readsChar = true := by
  rw [Transmitter.readsChar, h.inTransmission, h.complete]
  rfl

/-- The timer has nothing to send. It may still run once after boot: then its tick releases PC9. -/
theorem Resting.cycle_eq {t : Transmitter} (h : t.Resting) (state : MonitorState) :
    t.cycle state =
      { t with pin := t.pin || t.tim2.updates, tim2 := (t.cycle state).tim2 } := by
  cases hupd : t.tim2.updates
  · rw [cycle_of_not_updates hupd, Bool.or_false]
  · have hto := h.inv.not_backoff_of_complete h.complete
    have hend : t.atEnd = true := h.inv.atEnd_iff.mpr (h.inv.ready h.inTransmission h.complete)
    rw [cycle_of_updates hupd, Bool.or_true]
    rcases tim2IRQHandler_cases { t with tim2 := t.tim2.updateEvent } state with
      ⟨hf, -⟩ | ⟨-, -, heq⟩ | ⟨-, hf, -, -⟩ | ⟨-, hf, -, -⟩
    · exact absurd (hto.symm.trans hf) (by simp)
    · rw [heq]
      dsimp only
      rw [h.inTransmission, h.complete]
    · exact absurd (hend.symm.trans hf) (by simp)
    · exact absurd (hend.symm.trans hf) (by simp)

theorem Resting.cycle {t : Transmitter} (h : t.Resting) (state : MonitorState) :
    (t.cycle state).Resting := by
  have hto := h.inv.not_backoff_of_complete h.complete
  have hunscaled := Node.active_cycle state (fun _ => ⟨h.pscActive, h.pscCount⟩) h.inv
  have hinv := h.inv.cycle state
  have hcycle := h.cycle_eq state
  have htx : (t.cycle state).inTransmission = false := by
    rw [hcycle]
    exact h.inTransmission
  refine ⟨hinv, ?_, htx, (hunscaled (Or.inl htx)).1, (hunscaled (Or.inl htx)).2⟩
  rw [hcycle]
  exact h.complete

/-- Cycles leave what has been typed. -/
theorem Resting.typed_cycle {t : Transmitter} (h : t.Resting) (state : MonitorState) :
    (t.cycle state).line = t.line ∧ (t.cycle state).gotMessage = t.gotMessage := by
  rw [h.cycle_eq]
  exact ⟨rfl, rfl⟩

/-- A released pin stays released. -/
theorem Resting.pin_cycle {t : Transmitter} (h : t.Resting) (hpin : t.pin = true)
    (state : MonitorState) : (t.cycle state).pin = true := by
  rw [h.cycle_eq, hpin]
  rfl

/-- Before the first tick the pin keeps its level. -/
theorem Booting.wait {t : Transmitter} {r : ℕ} (h : t.Booting (r + 1)) (state : MonitorState) :
    (t.cycle state).Booting r ∧ (t.cycle state).pin = t.pin := by
  have hupd : t.tim2.updates = false := by
    rw [← Bool.not_eq_true, h.clock.updates_iff]
    omega
  have hrest := h.cycle state
  rw [cycle_of_not_updates hupd] at hrest ⊢
  exact ⟨⟨hrest, h.clock.cycle⟩, rfl⟩

/-- The first tick releases the pin. -/
theorem Booting.release {t : Transmitter} (h : t.Booting 0) (state : MonitorState) :
    (t.cycle state).pin = true := by
  rw [h.cycle_eq, h.clock.updates_iff.mpr rfl, Bool.or_true]

/-- The main routine does not act on the pin. -/
theorem pin_mainRoutineUpdate (t : Transmitter) (state : MonitorState) (c : Byte) (random : ℕ) :
    (t.mainRoutineUpdate state c random).pin = t.pin := by
  rcases t.mainRoutineUpdate_cases state c random with
    ⟨-, -, heq⟩ | ⟨-, -, heq⟩ | ⟨-, -, -, heq⟩ | ⟨-, -, -, heq⟩
  · rw [heq]
  · rw [heq, readChar_frame]
  · rw [heq, transmitData_frame, readChar_frame]
  · rw [heq]
    rfl

/-! ## Driving -/

theorem Transmitting.atEnd_iff {t : Transmitter} {rest : List Bool} {r : ℕ}
    (h : t.Transmitting rest r) : t.atEnd = true ↔ rest = [] := by
  have hle := h.currByte_le
  have hbit := h.currBit_lt
  have hget := h.get_eq
  rw [← h.rest_eq, List.drop_eq_nil_iff, length_bitsOf]
  simp only [atEnd, Ringbuffer.hasElement, Bool.or_eq_true, Bool.not_eq_true',
    decide_eq_true_eq, decide_eq_false_iff_not, ne_eq, not_not]
  constructor
  · intro hend
    have hput : t.currByte = t.transBuf.put := by omega
    have := h.currBit_end hput
    omega
  · intro hend
    omega

/-- Between two ticks only the timer counts. -/
theorem Transmitting.wait {t : Transmitter} {rest : List Bool} {r : ℕ}
    (h : t.Transmitting rest (r + 1)) (state : MonitorState) :
    t.cycle state = { t with tim2 := t.tim2.cycle } ∧ (t.cycle state).Transmitting rest r := by
  have hupd : t.tim2.updates = false := by
    rw [← Bool.not_eq_true, h.tim2.updates_iff]
    omega
  have heq := cycle_of_not_updates hupd state
  refine ⟨heq, ?_⟩
  rw [heq]
  exact { h with tim2 := h.tim2.cycle }

/-- A tick drives the next half-bit. -/
theorem Transmitting.drive {t : Transmitter} {b : Bool} {rest : List Bool}
    (h : t.Transmitting (b :: rest) 0) {state : MonitorState} (hs : state ≠ .collision) :
    t.cycle state = { t with pin := b, tim2 := (t.cycle state).tim2,
                             currBit := (t.cycle state).currBit,
                             currByte := (t.cycle state).currByte } ∧
      (t.cycle state).Transmitting rest transmissionTicks := by
  have hend : t.atEnd = false := by
    rw [← Bool.not_eq_true, h.atEnd_iff]
    simp
  have hbyte : t.currByte < t.transBuf.put := by
    have hle := h.currByte_le
    have hget := h.get_eq
    simp only [atEnd, Ringbuffer.hasElement, Bool.or_eq_false_iff, decide_eq_false_iff_not] at hend
    omega
  have hbit := h.currBit_lt
  have hdrop := h.rest_eq
  rw [List.drop_eq_getElem?_toList_append, Node.getElem?_bitsOf_of_lt hbit hbyte] at hdrop
  obtain ⟨hb, hrest⟩ := List.cons_eq_cons.mp hdrop
  rw [cycle_of_updates (h.tim2.updates_iff.mpr rfl)]
  obtain ⟨hf, -⟩ | ⟨-, hf, -⟩ | ⟨-, -, hf, -⟩ | ⟨-, -, -, heq⟩ := tim2IRQHandler_cases
    { t with tim2 := t.tim2.updateEvent } state
  · exact absurd (h.not_backoff.symm.trans hf) (by simp)
  · exact absurd (hend.symm.trans hf) (by simp)
  · exact absurd hf hs
  · rw [heq]
    have hpin : { t with tim2 := t.tim2.updateEvent }.nextHalfBit = b := hb
    have hpos : 8 * (if t.currBit + 1 = 8 then t.currByte + 1 else t.currByte) +
        (if t.currBit + 1 = 8 then 0 else t.currBit + 1) = 8 * t.currByte + t.currBit + 1 := by
      split <;> omega
    refine ⟨by rw [hpin], { h with currBit_lt := ?_, currByte_le := ?_, currBit_end := ?_,
                                   rest_eq := ?_, tim2 := h.tim2.tick }⟩
    · dsimp only
      split <;> omega
    · dsimp only
      split <;> omega
    · intro hput
      dsimp only at hput ⊢
      split at hput <;> split <;> omega
    · dsimp only
      rw [hpos]
      exact hrest

/-- The tick after the last half-bit ends the transmission. -/
theorem Transmitting.finish {t : Transmitter} (h : t.Transmitting [] 0) (state : MonitorState) :
    t.cycle state = { t with inTransmission := false, transmissionComplete := true, pin := true,
                             tim2 := { t.tim2.updateEvent with uif := false, cen := false } } ∧
      (t.cycle state).Stopped := by
  have hend : t.atEnd = true := h.atEnd_iff.mpr rfl
  rw [cycle_of_updates (h.tim2.updates_iff.mpr rfl)]
  obtain ⟨hf, -⟩ | ⟨-, -, heq⟩ | ⟨-, hf, -, -⟩ | ⟨-, hf, -, -⟩ := tim2IRQHandler_cases
    { t with tim2 := t.tim2.updateEvent } state
  · exact absurd (h.not_backoff.symm.trans hf) (by simp)
  · rw [heq]
    exact ⟨rfl, rfl, rfl, rfl, rfl⟩
  · exact absurd (hend.symm.trans hf) (by simp)
  · exact absurd (hend.symm.trans hf) (by simp)

theorem Stopped.cycle {t : Transmitter} (h : t.Stopped) (state : MonitorState) :
    t.cycle state = t := by
  rw [cycle_of_not_updates (Tim.not_updates_of_stopped h.tim2), Tim.cycle_of_stopped h.tim2]

/-! ## Loading -/

/-- The half-bits that are sent for a byte list: none if its symbols fill the buffer to the last
place, as it then looks empty. -/
def sentHalfBits (bytes : List Byte) : List Bool :=
  if 2 * bytes.length < bufSize then halfBits bytes else []

theorem bitsOf_transmitBytes (buffer : RingBuffer Byte) {bytes : List Byte}
    (hfit : 2 * bytes.length ≤ bufSize) :
    (bytes.foldl transmitByte (Ringbuffer.reset buffer)).get = 0 ∧
      bitsOf (bytes.foldl transmitByte (Ringbuffer.reset buffer)) = sentHalfBits bytes := by
  unfold sentHalfBits
  have hempty := loaded_reset buffer
  by_cases hlt : 2 * bytes.length < bufSize
  · have hload := hempty.transmitBytes bytes (by simpa using hlt)
    rw [if_pos hlt, bitsOf, hload.stored_eq]
    exact ⟨hload.get_eq, rfl⟩
  · -- the last byte of the last symbol wraps the index around
    have hsize : bufSize = 1028 := rfl
    have hne : bytes ≠ [] := by
      rintro rfl
      rw [hsize] at hlt
      simp at hlt
    have hlen : bytes.dropLast.length = 513 := by
      rw [List.length_dropLast]
      omega
    have hload := hempty.transmitBytes bytes.dropLast (by rw [hlen]; decide)
    rw [List.nil_append] at hload
    have hcount := length_flatMap_symbolBytes bytes.dropLast
    rw [hlen] at hcount
    have hlast := hload.put (by rw [hcount]; decide)
      ((encodeManchester (bytes.getLast hne) >>> 8).setWidth 8)
    have hput := hlast.put_eq
    rw [List.length_append, hcount] at hput
    have hwrap : (bytes.foldl transmitByte (Ringbuffer.reset buffer)).put = 0 := by
      rw [← List.dropLast_append_getLast hne, List.foldl_append, List.foldl_cons, List.foldl_nil,
        transmitByte, Ringbuffer.put_eq, hput]
      rfl
    have hget : (bytes.foldl transmitByte (Ringbuffer.reset buffer)).get = 0 := by
      rw [← List.dropLast_append_getLast hne, List.foldl_append, List.foldl_cons, List.foldl_nil,
        transmitByte, Ringbuffer.put_eq]
      exact hlast.get_eq
    rw [if_neg hlt]
    refine ⟨hget, List.eq_nil_of_length_eq_zero ?_⟩
    rw [length_bitsOf, hwrap]

/-- What has been launched is driven from the first half-bit on. -/
theorem Launched.transmitting {t : Transmitter} {bytes : List Byte} (h : t.Launched bytes)
    (hfit : 2 * bytes.length ≤ bufSize) :
    t.Transmitting (sentHalfBits bytes) transmissionTicks := by
  obtain ⟨buffer, hbuffer⟩ := h.transBuf
  obtain ⟨hget, hbits⟩ := bitsOf_transmitBytes buffer hfit
  rw [← hbuffer] at hget hbits
  have hbit := h.currBit
  have hbyte := h.currByte
  refine ⟨h.inTransmission, h.not_backoff, hget, ?_, ?_, fun _ => hbit, ?_, h.tim2⟩
  · rw [hbit]
    decide
  · rw [hbyte]
    exact Nat.zero_le _
  · rw [hbit, hbyte, ← hbits]
    rfl

/-! ## Typing -/

/-- What decides how a line is framed. -/
def settings (t : Transmitter) : Bool × Byte × Byte := (t.packetMode, t.src, t.dest)

theorem waiting_init (src dest : Byte) (packetMode pin : Bool) :
    (init src dest packetMode pin).Waiting [] :=
  ⟨resting_init src dest packetMode pin, rfl, rfl⟩

/-- A character other than `'\r'` is added to the line. -/
theorem Waiting.readOther {t : Transmitter} {line : List Byte} (h : t.Waiting line) {c : Byte}
    (hc : c ≠ carriageReturn) (hlen : line.length < phMsgSize - 1) (state : MonitorState)
    (random : ℕ) :
    (t.mainRoutineUpdate state c random).Waiting (line ++ [c]) ∧
      (t.mainRoutineUpdate state c random).settings = t.settings := by
  obtain ⟨hgot, hline⟩ := readChar_other t hc h.inv.dataCur_le
  rw [h.line_eq, List.take_of_length_le (by rw [List.length_append, List.length_singleton]; omega)]
    at hline
  rw [h.gotMessage] at hgot
  obtain ⟨hr, -, -⟩ | ⟨-, -, heq⟩ | ⟨-, -, hg, -⟩ | ⟨-, hc', -, -⟩ :=
    t.mainRoutineUpdate_cases state c random
  · exact absurd (h.readsChar.symm.trans hr) (by simp)
  · have hinv := h.inv.readChar c
    rw [heq]
    rw [readChar_frame] at hgot hline hinv ⊢
    exact ⟨{ h with inv := hinv, gotMessage := hgot, line_eq := hline }, rfl⟩
  · exact absurd (hgot.symm.trans hg) (by simp)
  · exact absurd (h.complete.symm.trans hc') (by simp)

/-- A `'\r'` on an idle line starts the transmission of the line's frame. -/
theorem Waiting.readReturn {t : Transmitter} {line : List Byte} (h : t.Waiting line)
    (hblank : blank line = false) (random : ℕ) :
    t.mainRoutineUpdate .idle carriageReturn random = (t.readChar carriageReturn).transmitData ∧
      (t.mainRoutineUpdate .idle carriageReturn random).Launched
        (frameOf t.packetMode t.src t.dest line) := by
  have hlt : t.dataCur < phMsgSize := Nat.lt_of_le_of_lt h.inv.dataCur_le (by decide)
  obtain ⟨hgot, hline⟩ := readChar_return t hlt
  rw [h.line_eq, hblank, if_neg (by simp)] at hline
  rw [h.line_eq, hblank] at hgot
  obtain ⟨hr, -, -⟩ | ⟨-, hno, -⟩ | ⟨-, -, -, heq⟩ | ⟨-, hc', -, -⟩ :=
    t.mainRoutineUpdate_cases .idle carriageReturn random
  · exact absurd (h.readsChar.symm.trans hr) (by simp)
  · exact absurd ⟨rfl, hgot⟩ hno
  · have hframe := readChar_frame t carriageReturn
    have hbuffer := transBuf_transmitData (t.readChar carriageReturn)
      (dataCur_readChar_le t carriageReturn h.inv.dataCur_le)
    rw [hline, show (t.readChar carriageReturn).packetMode = t.packetMode by rw [hframe],
      show (t.readChar carriageReturn).src = t.src by rw [hframe],
      show (t.readChar carriageReturn).dest = t.dest by rw [hframe]] at hbuffer
    have hto := h.inv.not_backoff_of_complete h.complete
    have hpsc := h.inv.psc
    rw [hto, if_neg (by simp)] at hpsc
    have hclock := Tim.bitClock_startCounter (h.inv.arr hto) hpsc h.pscActive h.pscCount
    refine ⟨heq, ?_⟩
    rw [heq]
    refine ⟨⟨_, hbuffer⟩, ?_, ?_, ?_, ?_, ?_⟩
    all_goals rw [transmitData_frame, hframe]
    -- only the byte position is reset; the bit position is 0 after a complete message
    · exact h.inv.currBit_end (h.inv.ready h.inTransmission h.complete)
    · exact hto
    · exact hclock
  · exact absurd (h.complete.symm.trans hc') (by simp)

theorem Waiting.cycle {t : Transmitter} {line : List Byte} (h : t.Waiting line)
    (state : MonitorState) :
    (t.cycle state).Waiting line ∧ (t.cycle state).settings = t.settings := by
  have hrest := h.toResting.cycle state
  have hcycle := h.cycle_eq state
  refine ⟨⟨hrest, ?_, ?_⟩, ?_⟩
  · rw [hcycle]
    exact h.gotMessage
  · rw [hcycle]
    exact h.line_eq
  · rw [hcycle]
    rfl

/-! ## Starting -/

/-- A call of the main routine that starts nothing reads a character. -/
theorem Resting.stays {t : Transmitter} (h : t.Resting) {state : MonitorState} {c : Byte} {random : ℕ}
    (hstay : (t.mainRoutineUpdate state c random).inTransmission = false) :
    t.mainRoutineUpdate state c random = t.readChar c ∧
      (t.mainRoutineUpdate state c random).Resting := by
  have hinv := h.inv.mainRoutineUpdate state c random
  rcases t.mainRoutineUpdate_cases state c random with
    ⟨hreads, -, -⟩ | ⟨-, -, heq⟩ | ⟨-, -, -, heq⟩ | ⟨-, hcomplete, -, -⟩
  · exact absurd (h.readsChar.symm.trans hreads) (by simp)
  · rw [heq] at hinv ⊢
    rw [readChar_frame] at hinv ⊢
    exact ⟨rfl, { h with inv := hinv }⟩
  · rw [heq, transmitData_frame] at hstay
    cases hstay
  · exact absurd (h.complete.symm.trans hcomplete) (by simp)

/-- A call that starts a transmission has found the line idle and a finished line of characters. -/
theorem Resting.starts {t : Transmitter} (h : t.Resting) {state : MonitorState} {c : Byte} {random : ℕ}
    (hstart : (t.mainRoutineUpdate state c random).inTransmission = true) :
    state = .idle ∧ (t.readChar c).gotMessage = true ∧
      t.mainRoutineUpdate state c random = (t.readChar c).transmitData ∧
      (t.mainRoutineUpdate state c random).Launched
        (frameOf t.packetMode t.src t.dest (t.readChar c).line) := by
  rcases t.mainRoutineUpdate_cases state c random with
    ⟨-, -, heq⟩ | ⟨-, -, heq⟩ | ⟨-, hidle, hgot, heq⟩ | ⟨-, hcomplete, -, -⟩
  · rw [heq, h.inTransmission] at hstart
    cases hstart
  · rw [heq, readChar_frame] at hstart
    exact absurd (h.inTransmission.symm.trans hstart) (by simp)
  · have hframe := readChar_frame t c
    have hbuffer := transBuf_transmitData (t.readChar c)
      (dataCur_readChar_le t c h.inv.dataCur_le)
    rw [show (t.readChar c).packetMode = t.packetMode by rw [hframe],
      show (t.readChar c).src = t.src by rw [hframe],
      show (t.readChar c).dest = t.dest by rw [hframe]] at hbuffer
    have hto := h.inv.not_backoff_of_complete h.complete
    have hpsc := h.inv.psc
    rw [hto, if_neg (by simp)] at hpsc
    have hclock := Tim.bitClock_startCounter (h.inv.arr hto) hpsc h.pscActive h.pscCount
    have hbit := h.inv.currBit_end (h.inv.ready h.inTransmission h.complete)
    refine ⟨hidle, hgot, heq, ?_⟩
    rw [heq]
    refine ⟨⟨_, hbuffer⟩, ?_, ?_, ?_, ?_, ?_⟩
    all_goals rw [transmitData_frame, hframe]
    · exact hbit
    · exact hto
    · exact hclock
  · exact absurd (h.complete.symm.trans hcomplete) (by simp)

theorem Resting.starts_iff {t : Transmitter} (h : t.Resting) {state : MonitorState} {c : Byte}
    {random : ℕ} : (t.mainRoutineUpdate state c random).inTransmission = true ↔
      state = .idle ∧ (t.readChar c).gotMessage = true := by
  constructor
  · intro hstart
    obtain ⟨hidle, hgot, -, -⟩ := h.starts hstart
    exact ⟨hidle, hgot⟩
  · rintro ⟨hidle, hgot⟩
    by_contra hstay
    obtain ⟨heq, -⟩ := h.stays (Bool.eq_false_of_not_eq_true hstay)
    rcases t.mainRoutineUpdate_cases state c random with
      ⟨hreads, -, -⟩ | ⟨-, hno, -⟩ | ⟨-, -, -, heq'⟩ | ⟨-, hcomplete, -, -⟩
    · exact absurd (h.readsChar.symm.trans hreads) (by simp)
    · exact hno ⟨hidle, hgot⟩
    · rw [heq', transmitData_frame] at hstay
      exact hstay rfl
    · exact absurd (h.complete.symm.trans hcomplete) (by simp)

/-- Only the `'\r'` finishes a line. -/
theorem gotMessage_readChar (t : Transmitter) (c : Byte) (h : t.dataCur ≤ phMsgSize - 1) :
    (t.readChar c).gotMessage = if c = carriageReturn then !blank t.line else t.gotMessage := by
  have hlt : t.dataCur < phMsgSize := Nat.lt_of_le_of_lt h (by decide)
  by_cases hc : c = carriageReturn
  · rw [hc, if_pos rfl, (readChar_return t hlt).1]
  · rw [if_neg hc, (readChar_other t hc h).1]

/-- The frame of a finished line fills the buffer neither to the last place nor not at all. -/
theorem Resting.frame_fits {t : Transmitter} (h : t.Resting) {c : Byte}
    (hgot : (t.readChar c).gotMessage = true) :
    frameOf t.packetMode t.src t.dest (t.readChar c).line ≠ [] ∧
      2 * (frameOf t.packetMode t.src t.dest (t.readChar c).line).length < bufSize := by
  have hinv := h.inv.readChar c
  have hlen : (t.readChar c).line.length ≤ phMsgSize - 1 := by
    rw [length_line]
    exact hinv.dataCur_le
  have hne : (t.readChar c).line ≠ [] := by
    intro hnil
    have := hinv.line hgot
    rw [hnil] at this
    simp [blank, cString] at this
  have hpos := length_frameOf_pos t.packetMode t.src t.dest hne
  have hle := length_frameOf_le t.packetMode t.src t.dest hlen
  have hsize : bufSize = 1028 := rfl
  refine ⟨List.length_pos_iff.mp hpos, ?_⟩
  omega

/-- Before the first tick of TIM2 a call that starts nothing leaves its count. -/
theorem Booting.stays {t : Transmitter} {r : ℕ} (h : t.Booting r) {state : MonitorState} {c : Byte}
    {random : ℕ} (hstay : (t.mainRoutineUpdate state c random).inTransmission = false) :
    (t.mainRoutineUpdate state c random).Booting r := by
  obtain ⟨heq, hrest⟩ := h.toResting.stays hstay
  refine ⟨hrest, ?_⟩
  rw [heq, readChar_frame]
  exact h.clock

end Transmitter

end NetworkingCard
