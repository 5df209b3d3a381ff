import NetworkingCard.TypedLines

/-!
# Every message is sent exactly once

A message is loaded into the transmission buffer once, is begun anew after each collision, and is
given up never. `sent_of_run` is the balance over a whole run, for any order of its events: what the
completed attempts have driven on PC9, and then the message that is still under way, are the messages
loaded, in order; and if the characters are read in time, together with the line that waits for an
idle line they are the lines typed.

The history `Runs.instrument` keeps is what the current attempt has driven so far; `Driving` relates
it to the position in the buffer.
-/

namespace NetworkingCard

namespace Node

open Transmitter (frameOf)

/-- The tick that ends an attempt with all of the message driven. -/
def completes (n : Node) (e : Event) : Bool :=
  decide (e = .tim2) && n.tx.inTransmission && !n.tx.retransmissionTimeoutActive && n.tx.atEnd

/-- The half-bits that the current attempt has driven after one more event. -/
def drivenAfter (bits : List Bool) (n : Node) (e : Event) (_ : Node) : List Bool :=
  if n.beginsAttempt e then [] else bits ++ n.drivenBy e

/-- The half-bits of the attempt that the event completes. -/
def completedBy (s : Node × List Bool) (e : Event) : List (List Bool) :=
  if s.1.completes e then [s.2] else []

/-- What each completed attempt of a run has driven. -/
def completed (n : Node) (es : List Event) : List (List Bool) :=
  Runs.outputs (Runs.instrument step drivenAfter) completedBy (n, []) es

/-- The half-bits of the message that is loaded and not complete. -/
def underWay (n : Node) : List (List Bool) :=
  if n.tx.inTransmission || !n.tx.transmissionComplete then [bitsOf n.tx.transBuf] else []

theorem underWay_of_complete {n : Node} (htx : n.tx.inTransmission = false)
    (hcomplete : n.tx.transmissionComplete = true) : n.underWay = [] := by
  rw [underWay, htx, hcomplete]
  rfl

theorem underWay_of_inTransmission {n : Node} (htx : n.tx.inTransmission = true) :
    n.underWay = [bitsOf n.tx.transBuf] := by
  rw [underWay, htx]
  rfl

theorem underWay_of_incomplete {n : Node} (hcomplete : n.tx.transmissionComplete = false) :
    n.underWay = [bitsOf n.tx.transBuf] := by
  rw [underWay, hcomplete, Bool.not_false, Bool.or_true]
  rfl

/-- The half-bits that stand for these bytes of the buffer. -/
def symbolBits (bytes : List Byte) : List Bool := bytes.flatMap Bits.msbFirst

/-- The current attempt has driven what lies before its position. -/
structure Driving (s : Node × List Bool) : Prop where
  inv : s.1.tx.Inv
  bits_eq : s.1.tx.inTransmission = true → s.1.tx.retransmissionTimeoutActive = false →
    s.2 = (bitsOf s.1.tx.transBuf).take s.1.position

theorem InAttempt.driving {n : Node} {buffer : RingBuffer Byte} {bits : List Bool}
    (h : InAttempt n buffer bits) : Driving (n, bits) := by
  refine ⟨h.inv, fun _ _ => ?_⟩
  rw [h.transBuf]
  exact h.bits_eq

theorem Driving.inAttempt {n : Node} {bits : List Bool} (h : Driving (n, bits))
    (htx : n.tx.inTransmission = true) (hto : n.tx.retransmissionTimeoutActive = false) :
    InAttempt n n.tx.transBuf bits :=
  ⟨h.inv, htx, hto, rfl, h.bits_eq htx hto⟩

/-- Outside a transmission nothing is asked of the history. -/
theorem driving_of_idle {n : Node} (bits : List Bool) (h : n.tx.Inv)
    (htx : n.tx.inTransmission = false) : Driving (n, bits) :=
  ⟨h, fun htx' => absurd (htx.symm.trans htx') (by simp)⟩

/-! ## One event -/

/-- What one event does to the balance. -/
def Balanced (n : Node) (bits : List Bool) (e : Event) (n' : Node) : Prop :=
  Driving (n', drivenAfter bits n e n') ∧
    completedBy (n, bits) e ++ n'.underWay = n.underWay ++ (n.loadedBy e).map symbolBits

/-- An event that only leaves the transmitter as it is. -/
theorem balanced_of_eq {n n' : Node} {bits : List Bool} {e : Event} (h : Driving (n, bits))
    (htx : n'.tx = n.tx) (he : e ≠ .tim2) (hbegins : n.beginsAttempt e = false)
    (hload : n.loadedBy e = []) : Balanced n bits e n' := by
  constructor
  · rw [drivenAfter, if_neg (by simp [hbegins]), drivenBy_of_ne_tim2 he, List.append_nil]
    refine ⟨htx ▸ h.inv, ?_⟩
    rw [position, htx]
    exact h.bits_eq
  · rw [completedBy, completes, decide_eq_false he, hload, underWay, underWay, htx]
    simp

theorem balanced_main {n : Node} {bits : List Bool} (h : Driving (n, bits)) (c : Byte)
    (random : ℕ) : Balanced n bits (.transmitterUpdate c random) (n.transmitterUpdate c random) := by
  have hinv := inv_step n (.transmitterUpdate c random) _ h.inv rfl
  rcases n.tx.mainRoutineUpdate_cases n.mon.getState c random with
    ⟨hreads, -, heq⟩ | ⟨hreads, -, heq⟩ | ⟨hreads, hidle, -, heq⟩ | ⟨htx, hcomplete, hidle, heq⟩
  · -- nothing
    have hsame : (n.transmitterUpdate c random).tx = n.tx := heq
    apply balanced_of_eq h hsame (by simp)
    · rw [beginsAttempt, starts, hsame]
      cases n.tx.inTransmission <;> rfl
    · rw [loadedBy, hreads]
      rfl
  · -- a character
    simp only [Transmitter.readsChar, Bool.and_eq_true, Bool.not_eq_true'] at hreads
    have hframe : (n.transmitterUpdate c random).tx = n.tx.readChar c := heq
    have htx : (n.transmitterUpdate c random).tx.inTransmission = false := by
      rw [hframe, Transmitter.readChar_frame]
      exact hreads.1
    have hcomplete : (n.transmitterUpdate c random).tx.transmissionComplete = true := by
      rw [hframe, Transmitter.readChar_frame]
      exact hreads.2
    have hload : n.loadedBy (.transmitterUpdate c random) = [] := by
      rw [loadedBy, starts, htx, Bool.and_false, Bool.and_false]
      rfl
    refine ⟨driving_of_idle _ hinv htx, ?_⟩
    rw [hload, underWay_of_complete htx hcomplete, underWay_of_complete hreads.1 hreads.2]
    rfl
  · -- a message is loaded, and its first attempt begins
    have hreads' := hreads
    simp only [Transmitter.readsChar, Bool.and_eq_true, Bool.not_eq_true'] at hreads'
    have htx : (n.transmitterUpdate c random).tx.inTransmission = true := by
      rw [transmitterUpdate, heq, Transmitter.transmitData_frame]
    have hstarts : n.starts (.transmitterUpdate c random) = true := by
      rw [starts, htx, hreads'.1]
      rfl
    have hbegins : n.beginsAttempt (.transmitterUpdate c random) = true := by
      rw [beginsAttempt, hstarts, startsBackoff, hreads'.2, Bool.not_true, Bool.and_false]
      rfl
    constructor
    · rw [drivenAfter, if_pos hbegins]
      exact (inAttempt_of_begins h.inv hbegins rfl).1.driving
    · rw [loadedBy, hreads, hstarts, underWay_of_inTransmission htx,
        underWay_of_complete hreads'.1 hreads'.2]
      rfl
  · -- the back-off of a message that is under way
    have hframe : (n.transmitterUpdate c random).tx = n.tx.retransmit random := heq
    have hreads : n.tx.readsChar = false := by
      rw [Transmitter.readsChar, hcomplete, Bool.and_false]
    have hcomplete' : (n.transmitterUpdate c random).tx.transmissionComplete = false := by
      rw [hframe]
      exact hcomplete
    constructor
    · refine ⟨hinv, ?_⟩
      intro _ hto
      rw [hframe] at hto
      cases hto
    · rw [loadedBy, hreads, underWay_of_incomplete hcomplete', underWay_of_incomplete hcomplete,
        hframe]
      rfl

/-- A tick ends a back-off, ends the message, gives the attempt up or drives one half-bit. -/
theorem balanced_tim2 {n n' : Node} {bits : List Bool} (h : Driving (n, bits))
    (hs : n.step .tim2 = some n') : Balanced n bits .tim2 n' := by
  have hinv := inv_step n .tim2 n' h.inv hs
  have hcen := (step_tim2_eq_some.mp hs).1
  have htx' : n'.tx = { n.tx with tim2 := n.tx.tim2.updateEvent }.tim2IRQHandler n.mon.getState := by
    rw [← (step_tim2_eq_some.mp hs).2]
  rcases Transmitter.tim2IRQHandler_cases { n.tx with tim2 := n.tx.tim2.updateEvent }
    n.mon.getState with ⟨hto, heq⟩ | ⟨hto, hend, heq⟩ | ⟨hto, hend, -, heq⟩ | ⟨hto, hend, hline, heq⟩
  · -- the attempt that the back-off has delayed begins
    replace hto : n.tx.retransmissionTimeoutActive = true := hto
    have hbegins : n.beginsAttempt .tim2 = true := by
      rw [beginsAttempt, starts, hto]
      rfl
    have htx := (h.inv.backoff hto).1
    constructor
    · rw [drivenAfter, if_pos hbegins]
      exact (inAttempt_of_begins h.inv hbegins hs).1.driving
    · have hgoes : n'.tx.inTransmission = true := by
        rw [htx', heq]
      rw [completedBy, completes, hto, underWay_of_inTransmission htx,
        underWay_of_inTransmission hgoes, htx', heq, Bool.not_true, Bool.and_false, Bool.false_and]
      rfl
  · replace hto : n.tx.retransmissionTimeoutActive = false := hto
    replace hend : n.tx.atEnd = true := hend
    have hstops : n'.tx.inTransmission = false ∧ n'.tx.transmissionComplete = true := by
      rw [htx', heq]
      exact ⟨rfl, rfl⟩
    refine ⟨driving_of_idle _ hinv hstops.1, ?_⟩
    rw [underWay_of_complete hstops.1 hstops.2, completedBy, completes, hto, hend]
    cases htx : n.tx.inTransmission
    · -- the tick after boot
      have hput := h.inv.stopped htx hcen
      have hcomplete : n.tx.transmissionComplete = true := by
        by_contra hno
        have := h.inv.put_pos (Or.inr (Bool.eq_false_of_not_eq_true hno))
        omega
      rw [underWay_of_complete htx hcomplete]
      rfl
    · -- all of the message has been driven
      have hbyte : n.tx.currByte = n.tx.transBuf.put := h.inv.atEnd_iff.mp hend
      have hbits : bits = bitsOf n.tx.transBuf := by
        rw [show bits = _ from h.bits_eq htx hto, List.take_of_length_le]
        rw [length_bitsOf, position, hbyte]
        exact Nat.le_add_right _ _
      rw [underWay_of_inTransmission htx, hbits]
      rfl
  · replace hend : n.tx.atEnd = false := hend
    have hgoes := h.inv.inTransmission_of_cen hcen hend
    have hstops : n'.tx.inTransmission = false ∧ n'.tx.transmissionComplete = false ∧
        n'.tx.transBuf = n.tx.transBuf := by
      rw [htx', heq]
      exact ⟨rfl, rfl, rfl⟩
    refine ⟨driving_of_idle _ hinv hstops.1, ?_⟩
    rw [completedBy, completes, hend, Bool.and_false, underWay_of_incomplete hstops.2.1, hstops.2.2,
      underWay_of_inTransmission hgoes]
    rfl
  · replace hto : n.tx.retransmissionTimeoutActive = false := hto
    replace hend : n.tx.atEnd = false := hend
    have hgoes := h.inv.inTransmission_of_cen hcen hend
    have hsame : n'.tx.inTransmission = true ∧ n'.tx.transBuf = n.tx.transBuf := by
      rw [htx', heq]
      exact ⟨hgoes, rfl⟩
    have hbegins : n.beginsAttempt .tim2 = false := by
      rw [beginsAttempt, starts, hto]
      rfl
    constructor
    · rw [drivenAfter, hbegins, if_neg Bool.false_ne_true]
      rcases (h.inAttempt hgoes hto).tim2 hs with ⟨b, hb, hn'⟩ | ⟨-, hn'⟩
      · rw [hb]
        exact hn'.driving
      · exact absurd (hn'.inTransmission.symm.trans hsame.1) (by simp)
    · rw [completedBy, completes, hend, Bool.and_false, underWay_of_inTransmission hsame.1, hsame.2,
        underWay_of_inTransmission hgoes]
      rfl

theorem balanced_step {n n' : Node} {bits : List Bool} {e : Event} (h : Driving (n, bits))
    (hs : n.step e = some n') : Balanced n bits e n' := by
  cases e with
  | transmitterUpdate c random =>
    cases hs
    exact balanced_main h c random
  | tim2 => exact balanced_tim2 h hs
  | receiverUpdate => exact balanced_of_eq h (tx_of_step hs (by simp) (by simp)) (by simp) rfl rfl
  | tim4 => exact balanced_of_eq h (tx_of_step hs (by simp) (by simp)) (by simp) rfl rfl
  | exti4 level => exact balanced_of_eq h (tx_of_step hs (by simp) (by simp)) (by simp) rfl rfl
  | sysTick => exact balanced_of_eq h (tx_of_step hs (by simp) (by simp)) (by simp) rfl rfl

/-! ## Whole runs -/

/-- One event of a board with its history. -/
theorem balanced_instrument {s s' : Node × List Bool} {e : Event} (h : Driving s)
    (hs : Runs.instrument step drivenAfter s e = some s') :
    Driving s' ∧ completedBy s e ++ s'.1.underWay =
      s.1.underWay ++ (s.1.loadedBy e).map symbolBits := by
  obtain ⟨n, bits⟩ := s
  obtain ⟨n', bits'⟩ := s'
  obtain ⟨hn', hbits'⟩ := Runs.instrument_eq_some.mp hs
  replace hbits' : bits' = drivenAfter bits n e n' := hbits'
  rw [hbits']
  exact balanced_step h hn'

/-- What has been completed and what is under way is what was loaded. -/
theorem completed_underWay {n₀ n : Node} {es : List Event} (h : Driving (n₀, []))
    (hrun : n₀.run es = some n) :
    n₀.completed es ++ n.underWay = n₀.underWay ++ (n₀.loaded es).map symbolBits := by
  obtain ⟨bits, hbits⟩ :
      ∃ bits, Runs.run (Runs.instrument step drivenAfter) (n₀, []) es = some (n, bits) :=
    Runs.exists_run_instrument hrun []
  rw [loaded, ← Runs.outputs_map,
    ← Runs.outputs_instrument (fun n e => (loadedBy n e).map symbolBits) (n₀, [])]
  have htrue : Runs.Along (Runs.instrument step drivenAfter) (fun _ _ => True) (n₀, []) es :=
    Runs.along_of_forall (fun _ _ _ => trivial) _
  exact Runs.conserved_of_run (I := Driving) (fun _ _ _ hs _ => balanced_instrument hs) h htrue hbits

/-- The line code of the frame that carries a line. -/
def lineCode (n : Node) (line : List Byte) : List Bool :=
  LineCode.encode ((frameOf n.tx.packetMode n.tx.src n.tx.dest line).flatMap Bits.msbFirst)

theorem symbolBits_frameSymbols (n : Node) (line : List Byte) :
    symbolBits (n.frameSymbols line) = n.lineCode line :=
  flatMap_msbFirst_symbolBytes _

theorem frameSymbols_of_run {n n' : Node} {es : List Event} (hrun : n.run es = some n') :
    n'.frameSymbols = n.frameSymbols :=
  Runs.run_invariant (I := fun m => m.frameSymbols = n.frameSymbols)
    (fun _ _ _ heq hs => (frameSymbols_step hs).trans heq) rfl hrun

/-- What has been loaded, waits and is still to be typed is what is expected. -/
theorem loaded_expected {n n' : Node} {line : List Byte} {es : List Event} (hinv : n.tx.Inv)
    (h : n.tx.LineTyped line) (hc : Runs.Along step ReadsInTime n es) (hrun : n.run es = some n') :
    ∃ line', n'.tx.LineTyped line' ∧
      n.loaded es ++ n'.expected line' [] = n.expected line (n.typed es) := by
  induction es generalizing n line with
  | nil =>
    cases hrun
    exact ⟨line, h, rfl⟩
  | cons e es ih =>
    obtain ⟨m, hm, hrest⟩ := Runs.run_cons_eq_some.mp hrun
    obtain ⟨line₁, hline₁, heq⟩ := loadedBy_step hinv h hc.1 hm (m.typed es)
    obtain ⟨line₂, hline₂, heq'⟩ := ih (inv_step n e m hinv hm) hline₁ (hc.2 m hm) hrest
    refine ⟨line₂, hline₂, ?_⟩
    rw [loaded, typed, Runs.outputs_cons hm, Runs.outputs_cons hm, List.append_assoc]
    rw [show n.expected line (n.typedBy e ++ Runs.outputs step typedBy m es) = _ from heq.symm]
    exact congrArg _ heq'

/-- Whatever the collisions, each message loaded is driven completely once, in its turn; and if the
characters are read in time, every line typed has been sent, is under way or waits. -/
theorem sent_of_run {src dest : Byte} {packetMode pin line : Bool} {es : List Event} {n : Node}
    (hrun : (boot src dest packetMode pin line).run es = some n) :
    (boot src dest packetMode pin line).completed es ++ n.underWay =
        ((boot src dest packetMode pin line).loaded es).map symbolBits ∧
      (Runs.Along step ReadsInTime (boot src dest packetMode pin line) es →
        (boot src dest packetMode pin line).completed es ++ n.underWay ++
            n.tx.waiting.map n.lineCode =
          ((typedLines [] ((boot src dest packetMode pin line).typed es)).map cut).map
            n.lineCode) := by
  have hinv := inv_boot src dest packetMode pin line
  have hsent := completed_underWay (driving_of_idle [] hinv rfl) hrun
  have hnone : (boot src dest packetMode pin line).underWay = [] := rfl
  rw [hnone, List.nil_append] at hsent
  refine ⟨hsent, fun htime => ?_⟩
  have htyped : (boot src dest packetMode pin line).tx.LineTyped [] :=
    ⟨fun _ => rfl, by simp [boot, Transmitter.init]⟩
  obtain ⟨line', -, heq⟩ := loaded_expected hinv htyped htime hrun
  have hlines := congrArg (List.map symbolBits) heq
  have hcode : symbolBits ∘ n.frameSymbols = n.lineCode := funext (symbolBits_frameSymbols n)
  unfold expected at hlines
  rw [← frameSymbols_of_run hrun, List.map_append, List.map_map, List.map_map, hcode] at hlines
  rw [hsent]
  simpa [typedLines, Transmitter.waiting, boot, Transmitter.init] using hlines

/-- The line "a" collides at its second half-bit, and is sent after a back-off of 5 ms. -/
def secondAttempt : List Event :=
  [.tim2, .transmitterUpdate 0x61 0, .transmitterUpdate carriageReturn 0, .tim2, .tim2, .exti4 false,
    .sysTick, .tim2, .exti4 true, .sysTick, .transmitterUpdate 0x62 1] ++ List.replicate 34 .tim2

theorem sent_secondAttempt : ∃ n, (boot 0xAA 0xBB false true true).run secondAttempt = some n ∧
    (boot 0xAA 0xBB false true true).completed secondAttempt = [n.lineCode [0x61]] := by
  have hcheck : ((boot 0xAA 0xBB false true true).run secondAttempt).map
      (fun n => (n.underWay, n.tx.waiting)) = some ([], []) ∧
        (boot 0xAA 0xBB false true true).typed secondAttempt = [0x61, carriageReturn] := by
    decide +kernel
  obtain ⟨n, hn, heq⟩ := Option.map_eq_some_iff.mp hcheck.1
  simp only [Prod.mk.injEq] at heq
  refine ⟨n, hn, ?_⟩
  have hsent := (sent_of_run hn).2 (by decide +kernel)
  rw [heq.1, heq.2, hcheck.2] at hsent
  simpa [typedLines, cut, carriageReturn, phMsgSize] using hsent

end Node

end NetworkingCard
