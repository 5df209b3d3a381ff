import NetworkingCard.Quiescence
import Mathlib.Data.Fintype.Basic

/-!
# Any number of boards on one line

`Bus.step` runs a family of boards whose pins together make the level of one line (`Wiring`); the
main loops of the boards run in any order. A history counts the cycles since the last start of a
transmission on any of them.

Between transmissions the bus is `Quiet`. Where one board alone has something to send it is
`Sending`, and the line has the level of its pin.
-/

namespace NetworkingCard

open Transmitter (blank frameOf sentHalfBits readChar_frame transmitData_frame)

/-! ## The line -/

/-- How the levels that the boards drive make the level of the line. A board whose neighbours all
release the line drives it alone. -/
structure Wiring (ι : Type) where
  level : (ι → Bool) → Bool
  lone : ∀ (pins : ι → Bool) (i : ι), (∀ j, j ≠ i → pins j = true) → level pins = pins i

/-- The line is high if nobody drives it low. -/
def Wiring.wiredAnd (ι : Type) [Fintype ι] : Wiring ι where
  level := fun pins => decide (∀ i, pins i = true)
  lone := by
    intro pins i hpins
    cases hi : pins i
    · exact decide_eq_false fun hall => by simp [hall i] at hi
    · refine decide_eq_true fun j => ?_
      by_cases hj : j = i
      · rw [hj, hi]
      · exact hpins j hj

/-- What can happen: a call of a main-loop routine of one of the boards, or a core cycle. -/
inductive BusEvent (ι : Type)
  | transmitterUpdate (i : ι) (c : Byte) (random : ℕ)
  | receiverUpdate (i : ι)
  | cycle

namespace Bus

variable {ι : Type} (w : Wiring ι)

/-- The level of the line after the next core cycle. -/
def level (b : ι → Node) : Bool := w.level fun i => (b i).cycle.tx.pin

/-- One core cycle of all boards. -/
def cycle (b : ι → Node) : ι → Node := fun i => (b i).cycle.setLine (level w b)

section Steps

variable [DecidableEq ι]

/-- One event. -/
def step (b : ι → Node) : BusEvent ι → ι → Node
  | .transmitterUpdate i c random => Function.update b i ((b i).transmitterUpdate c random)
  | .receiverUpdate i => Function.update b i (b i).receiverUpdate
  | .cycle => cycle w b

/-- Execute the events in order. -/
def run (b : ι → Node) (es : List (BusEvent ι)) : ι → Node := es.foldl (step w) b

end Steps

/-- All boards as `main` sets them up, started together. Until its first tick each pin has the level
that it had at reset, and the line the level that these make. -/
def boot (packetMode : ι → Bool) (src dest : ι → Byte) (pins : ι → Bool) : ι → Node :=
  fun i => Node.boot (src i) (dest i) (packetMode i) (pins i) (w.level pins)

/-- The event starts a transmission. -/
def starts (b : ι → Node) : BusEvent ι → Bool
  | .transmitterUpdate i c random => (b i).starts (.transmitterUpdate c random)
  | .receiverUpdate _ | .cycle => false

/-- The cycles since the last start of a transmission on the bus, after one more event. -/
def sinceStart (b : ι → Node) (since : Option ℕ) : BusEvent ι → Option ℕ
  | .transmitterUpdate i c random =>
    if starts b (.transmitterUpdate i c random) then some 0 else since
  | .receiverUpdate _ => since
  | .cycle => since.map (· + 1)

theorem elapsed_zero (since : Option ℕ) : since.map (· + 0) = since := by
  cases since <;> rfl

theorem elapsed_succ (since : Option ℕ) (n : ℕ) :
    (since.map (· + 1)).map (· + n) = since.map (· + (n + 1)) := by
  cases since with
  | none => rfl
  | some k => exact congrArg some (Nat.add_right_comm k 1 n)

/-- A start comes at least `d` cycles after the one before. -/
def StartsAfter (d : ℕ) (s : (ι → Node) × Option ℕ) (e : BusEvent ι) : Prop :=
  starts s.1 e = true → ∀ k, s.2 = some k → d ≤ k

section Steps

variable [DecidableEq ι]

/-- A step of the bus and of that count. -/
def clockedStep (s : (ι → Node) × Option ℕ) (e : BusEvent ι) : (ι → Node) × Option ℕ :=
  (step w s.1 e, sinceStart s.1 s.2 e)

/-- All starts of a run are at least `d` cycles apart. -/
def StartsApart (d : ℕ) (b : ι → Node) (es : List (BusEvent ι)) : Prop :=
  Runs.Along (fun s e => some (clockedStep w s e)) (StartsAfter d) (b, none) es

end Steps

/-! ## One core cycle -/

variable {w} {b : ι → Node} {v : LineView}

/-- Where the others release the line it has the level of the one board. -/
theorem level_of_free {i : ι} (hfree : ∀ j, j ≠ i → (b j).tx.Free) :
    level w b = (b i).cycle.tx.pin := by
  apply w.lone
  intro j hj
  rw [Node.tx_cycle]
  exact ((hfree j hj).cycle _).pin

theorem tx_cycle (i : ι) : (cycle w b i).tx = (b i).tx.cycle (b i).mon.getState :=
  Node.tx_setLine _ _

/-- All monitors have followed the line, which has the level that the pins make. -/
structure Follows (w : Wiring ι) (b : ι → Node) (v : LineView) : Prop where
  watches : ∀ i, (b i).Watches v
  line : v.level = w.level fun i => (b i).tx.pin

theorem follows_boot (packetMode : ι → Bool) (src dest : ι → Byte) (pins : ι → Bool) :
    Follows w (boot w packetMode src dest pins) ⟨w.level pins, none⟩ where
  watches := fun _ => ⟨rfl, Monitor.follows_unknown _ _, fun _ => ⟨rfl, rfl⟩⟩
  line := rfl

theorem watches_cycle (h : ∀ i, (b i).Watches v) (i : ι) :
    (cycle w b i).Watches ((v.step .cycle).step (.line (level w b))) :=
  ((h i).timedStep .cycle).timedStep (.line (level w b))

theorem Follows.cycle (h : Follows w b v) :
    Follows w (cycle w b) ((v.step .cycle).step (.line (level w b))) := by
  refine ⟨watches_cycle h.watches, ?_⟩
  have hpins : (fun i => (Bus.cycle w b i).tx.pin) = fun i => (b i).cycle.tx.pin := by
    funext i
    rw [tx_cycle, Node.tx_cycle]
  rw [LineView.level_step_line, hpins]
  rfl

/-- Without a change of a pin the line keeps its level. -/
theorem Follows.level_eq (h : Follows w b v)
    (hpins : ∀ i, (b i).cycle.tx.pin = (b i).tx.pin) : level w b = v.level := by
  rw [h.line, level, funext hpins]

/-- What each board keeps when one of them runs a main-loop routine. -/
theorem watches_update [DecidableEq ι] (h : ∀ j, (b j).Watches v) {e : Node.TimedEvent}
    (he : Node.physical e = false) (k j : ι) :
    (Function.update b k ((b k).timedStep e) j).Watches v := by
  by_cases hj : j = k
  · subst hj
    rw [Function.update_self]
    exact (h j).other he
  · rw [Function.update_of_ne hj]
    exact h j

theorem Follows.update [DecidableEq ι] (h : Follows w b v) (k : ι) {e : Node.TimedEvent}
    (he : Node.physical e = false) : Follows w (Function.update b k ((b k).timedStep e)) v := by
  refine ⟨watches_update h.watches he k, ?_⟩
  rw [h.line]
  congr 1
  funext i
  by_cases hi : i = k
  · subst hi
    rw [Function.update_self, Node.pin_other _ he]
  · rw [Function.update_of_ne hi]

/-! ## Between transmissions -/

/-- Every board is between two messages, and the line is high. -/
structure Quiet (b : ι → Node) (v : LineView) : Prop where
  free : ∀ i, (b i).tx.Free
  watches : ∀ i, (b i).Watches v
  high : v.level = true

/-- The line stays high. -/
theorem Quiet.level_eq (h : Quiet b v) (i : ι) : level w b = true := by
  rw [level_of_free (i := i) fun j _ => h.free j, Node.tx_cycle]
  exact ((h.free i).cycle _).pin

theorem Quiet.cycle (h : Quiet b v) : Quiet (cycle w b) (v.step .cycle) := by
  refine ⟨?_, ?_, h.high⟩
  · intro i
    rw [tx_cycle]
    exact (h.free i).cycle _
  · intro i
    have hlevel : level w b = true := h.level_eq i
    have hview : (v.step .cycle).step (.line (level w b)) = v.step .cycle :=
      LineView.step_line_same (hlevel.trans h.high.symm)
    rw [← hview]
    exact watches_cycle h.watches i

/-- A call starts a transmission if the line is idle and a line of characters is finished. -/
theorem starts_iff {i : ι} (h : (b i).tx.Resting) {c : Byte} {random : ℕ} :
    starts b (.transmitterUpdate i c random) = true ↔
      (b i).mon.getState = .idle ∧ ((b i).tx.readChar c).gotMessage = true := by
  rw [← @Transmitter.Resting.starts_iff _ h _ c random, starts, Node.starts, h.inTransmission,
    Bool.not_false, Bool.true_and]
  rfl

/-- A call that starts nothing does not put the board into a transmission. -/
theorem inTransmission_of_stays {k : ι} (h : (b k).tx.Resting) {c : Byte} {random : ℕ}
    (hstay : starts b (.transmitterUpdate k c random) = false) :
    ((b k).transmitterUpdate c random).tx.inTransmission = false := by
  simpa [starts, Node.starts, h.inTransmission] using hstay

/-- Board `i` sends the half-bits of `bytes`, of which `rest` are still to be driven, after `r` more
cycles; the others are between two messages. -/
structure Sending (b : ι → Node) (v : LineView) (i : ι) (bytes : List Byte) (rest : List Bool)
    (r : ℕ) : Prop where
  free : ∀ j, j ≠ i → (b j).tx.Free
  watches : ∀ j, (b j).Watches v
  sends : Node.Sends (sentHalfBits bytes) (b i, v) rest r
  inv : (b i).tx.Inv
  complete : (b i).tx.transmissionComplete = true
  nonempty : bytes ≠ []
  room : 2 * bytes.length < bufSize

variable {i : ι} {bytes : List Byte} {rest : List Bool} {r : ℕ}

/-- The line has the level of the sender's pin. -/
theorem Sending.level_eq (h : Sending b v i bytes rest r) :
    level w b = (b i).cycle.tx.pin :=
  level_of_free h.free

theorem Sending.cycle_sender (h : Sending b v i bytes rest r) : cycle w b i = (b i).alone := by
  rw [cycle, h.level_eq]
  rfl

/-- What one cycle does not change. -/
theorem Sending.cycle_frame (h : Sending b v i bytes rest r) :
    (∀ j, j ≠ i → (cycle w b j).tx.Free) ∧
      (∀ j, (cycle w b j).Watches (Node.watch (b i, v)).2) ∧ (cycle w b i).tx.Inv := by
  refine ⟨?_, ?_, ?_⟩
  · intro j hj
    rw [tx_cycle]
    exact (h.free j hj).cycle _
  · intro j
    have hwatch := watches_cycle (w := w) h.watches j
    rw [h.level_eq] at hwatch
    exact hwatch
  · rw [tx_cycle]
    exact h.inv.cycle _

/-- Between two ticks the half-bit stays on the line. -/
theorem Sending.wait (h : Sending b v i bytes rest (r + 1)) :
    Sending (cycle w b) (v.step .cycle) i bytes rest r ∧ level w b = v.level := by
  obtain ⟨hfree, hwatches, hinv⟩ := h.cycle_frame (w := w)
  have hlevel : level w b = v.level := h.level_eq.trans h.sends.pin_wait
  have hview : (Node.watch (b i, v)).2 = v.step .cycle :=
    LineView.step_line_same h.sends.pin_wait
  have hsends := h.sends.wait
  have hcomplete : (cycle w b i).tx.transmissionComplete = true := by
    rw [tx_cycle, (h.sends.tx.wait _).1]
    exact h.complete
  rw [show Node.watch (b i, v) = (cycle w b i, v.step .cycle) from
    Prod.ext h.cycle_sender.symm hview] at hsends
  rw [hview] at hwatches
  exact ⟨⟨hfree, hwatches, hsends, hinv, hcomplete, h.nonempty, h.room⟩, hlevel⟩

/-- A tick drives the next half-bit. -/
theorem Sending.drive {a : Bool} (h : Sending b v i bytes (a :: rest) 0) :
    Sending (cycle w b) ((v.step .cycle).step (.line a)) i bytes rest transmissionTicks ∧
      level w b = a := by
  obtain ⟨hfree, hwatches, hinv⟩ := h.cycle_frame (w := w)
  have hlevel : level w b = a := h.level_eq.trans h.sends.pin_drive
  have hview : (Node.watch (b i, v)).2 = (v.step .cycle).step (.line a) :=
    congrArg (fun a => (v.step .cycle).step (.line a)) h.sends.pin_drive
  have hsends := h.sends.drive
  have hcomplete : (cycle w b i).tx.transmissionComplete = true := by
    rw [tx_cycle, (h.sends.tx.drive h.sends.not_collision).1]
    exact h.complete
  rw [show Node.watch (b i, v) = (cycle w b i, (v.step .cycle).step (.line a)) from
    Prod.ext h.cycle_sender.symm hview] at hsends
  rw [hview] at hwatches
  exact ⟨⟨hfree, hwatches, hsends, hinv, hcomplete, h.nonempty, h.room⟩, hlevel⟩

/-- The tick after the last half-bit releases the line. -/
theorem Sending.finish (h : Sending b v i bytes [] 0) :
    Quiet (cycle w b) ((v.step .cycle).step (.line true)) ∧ level w b = true := by
  obtain ⟨hfree, hwatches, hinv⟩ := h.cycle_frame (w := w)
  have hlevel : level w b = true := h.level_eq.trans h.sends.pin_finish
  have hview : (Node.watch (b i, v)).2 = (v.step .cycle).step (.line true) :=
    congrArg (fun a => (v.step .cycle).step (.line a)) h.sends.pin_finish
  have hhigh := h.sends.finish.high
  rw [hview] at hwatches hhigh
  have hpsc := h.sends.tx.tim2.psc
  obtain ⟨heq, hstopped⟩ := h.sends.tx.finish (b i).mon.getState
  rw [← tx_cycle (w := w)] at heq hstopped
  refine ⟨⟨?_, hwatches, hhigh⟩, hlevel⟩
  intro j
  by_cases hj : j = i
  · subst hj
    refine ⟨⟨hinv, hstopped.complete, hstopped.inTransmission, ?_, ?_⟩, hstopped.pin⟩
    · rw [heq]
      exact hpsc
    · rw [heq]
      rfl
  · exact hfree j hj

/-! ## Calls of the main loops -/

section Steps

variable [DecidableEq ι]

theorem Quiet.receiverUpdate (h : Quiet b v) (k : ι) :
    Quiet (step w b (.receiverUpdate k)) v := by
  refine ⟨?_, watches_update (e := .receiverUpdate) h.watches rfl k, h.high⟩
  intro j
  by_cases hj : j = k
  · subst hj
    rw [step, Function.update_self]
    exact h.free j
  · rw [step, Function.update_of_ne hj]
    exact h.free j

/-- A call that starts nothing. -/
theorem Quiet.stays (h : Quiet b v) {k : ι} {c : Byte} {random : ℕ}
    (hstay : starts b (.transmitterUpdate k c random) = false) :
    Quiet (step w b (.transmitterUpdate k c random)) v := by
  refine ⟨?_, watches_update (e := .transmitterUpdate c random) h.watches rfl k, h.high⟩
  intro j
  by_cases hj : j = k
  · subst hj
    rw [step, Function.update_self]
    exact (h.free j).stays (inTransmission_of_stays (h.free j).toResting hstay)
  · rw [step, Function.update_of_ne hj]
    exact h.free j

/-- A call that starts a transmission: the line has been idle for all boards. -/
theorem Quiet.start (h : Quiet b v) {k : ι} {c : Byte} {random : ℕ}
    (hstart : starts b (.transmitterUpdate k c random) = true) :
    Sending (step w b (.transmitterUpdate k c random)) ⟨true, none⟩ k
      (frameOf (b k).tx.packetMode (b k).tx.src (b k).tx.dest ((b k).tx.readChar c).line)
      (sentHalfBits
        (frameOf (b k).tx.packetMode (b k).tx.src (b k).tx.dest ((b k).tx.readChar c).line))
      transmissionTicks := by
  simp only [starts, Node.starts, Bool.and_eq_true] at hstart
  obtain ⟨hidle, hgot, heq, hlaunched⟩ := (h.free k).starts hstart.2
  obtain ⟨hne, hroom⟩ := (h.free k).frame_fits hgot
  have hinv := (h.free k).inv.mainRoutineUpdate (b k).mon.getState c random
  have hforget : ∀ j, (b j).Watches ⟨true, none⟩ := by
    intro j
    exact (h.watches j).forget h.high (((h.watches j).agree (h.watches k)).trans hidle)
  have halone : ((b k).transmitterUpdate c random).StartsAlone
      (frameOf (b k).tx.packetMode (b k).tx.src (b k).tx.dest ((b k).tx.readChar c).line) := by
    obtain ⟨-, hstopped⟩ := (hforget k).fresh rfl
    have hpin : ((b k).transmitterUpdate c random).tx.pin = true :=
      ((b k).tx.pin_mainRoutineUpdate _ c random).trans (h.free k).pin
    exact ⟨hlaunched, hpin, (hforget k).level.symm, hidle, hstopped⟩
  have hsends := halone.sends hroom.le
  have hself : step w b (.transmitterUpdate k c random) k = (b k).transmitterUpdate c random :=
    Function.update_self _ _ _
  refine ⟨?_, watches_update (e := .transmitterUpdate c random) hforget rfl k, ?_, ?_, ?_, hne, hroom⟩
  · intro j hj
    rw [step, Function.update_of_ne hj]
    exact h.free j
  · rw [hself]
    exact hsends
  · rw [hself]
    exact hinv
  · rw [hself, Node.transmitterUpdate, heq, transmitData_frame, readChar_frame]
    exact (h.free k).complete

theorem Sending.receiverUpdate (h : Sending b v i bytes rest r) (k : ι) :
    Sending (step w b (.receiverUpdate k)) v i bytes rest r := by
  have hwatches := watches_update (e := .receiverUpdate) h.watches rfl k
  by_cases hk : k = i
  · subst hk
    have hself : step w b (.receiverUpdate k) k = (b k).receiverUpdate := Function.update_self _ _ _
    refine ⟨?_, hwatches, ?_, ?_, ?_, h.nonempty, h.room⟩
    · intro j hj
      rw [step, Function.update_of_ne hj]
      exact h.free j hj
    · rw [hself]
      exact h.sends.other (e := .receiverUpdate) rfl
    · rw [hself]
      exact h.inv
    · rw [hself]
      exact h.complete
  · have hsender : step w b (.receiverUpdate k) i = b i :=
      Function.update_of_ne (Ne.symm hk) _ _
    refine ⟨?_, hwatches, by rw [hsender]; exact h.sends, by rw [hsender]; exact h.inv,
      by rw [hsender]; exact h.complete, h.nonempty, h.room⟩
    intro j hj
    by_cases hjk : j = k
    · subst hjk
      rw [step, Function.update_self]
      exact h.free j hj
    · rw [step, Function.update_of_ne hjk]
      exact h.free j hj

/-- The sender's own main loop does not disturb a transmission, and the calls of the others are
those of boards between two messages. -/
theorem Sending.stays (h : Sending b v i bytes rest r) {k : ι} {c : Byte} {random : ℕ}
    (hstay : starts b (.transmitterUpdate k c random) = false) :
    Sending (step w b (.transmitterUpdate k c random)) v i bytes rest r := by
  by_cases hk : k = i
  · subst hk
    have hnothing : step w b (.transmitterUpdate k c random) = b := by
      rw [step, Node.transmitterUpdate_of_inTransmission h.sends.tx.inTransmission]
      exact Function.update_eq_self k b
    rw [hnothing]
    exact h
  · have hwatches := watches_update (e := .transmitterUpdate c random) h.watches rfl k
    have hsender : step w b (.transmitterUpdate k c random) i = b i :=
      Function.update_of_ne (Ne.symm hk) _ _
    refine ⟨?_, hwatches, by rw [hsender]; exact h.sends, by rw [hsender]; exact h.inv,
      by rw [hsender]; exact h.complete, h.nonempty, h.room⟩
    intro j hj
    by_cases hjk : j = k
    · subst hjk
      rw [step, Function.update_self]
      exact (h.free j hj).stays (inTransmission_of_stays (h.free j hj).toResting hstay)
    · rw [step, Function.update_of_ne hjk]
      exact h.free j hj

/-- A main-loop call that starts nothing. -/
theorem Quiet.other (h : Quiet b v) {e : BusEvent ι} (he : e ≠ .cycle)
    (hstay : starts b e = false) : Quiet (step w b e) v := by
  cases e with
  | transmitterUpdate k c random => exact h.stays hstay
  | receiverUpdate k => exact h.receiverUpdate k
  | cycle => exact absurd rfl he

theorem Sending.other (h : Sending b v i bytes rest r) {e : BusEvent ι} (he : e ≠ .cycle)
    (hstay : starts b e = false) : Sending (step w b e) v i bytes rest r := by
  cases e with
  | transmitterUpdate k c random => exact h.stays hstay
  | receiverUpdate k => exact h.receiverUpdate k
  | cycle => exact absurd rfl he

omit [DecidableEq ι] in
theorem sinceStart_other {since : Option ℕ} {e : BusEvent ι} (he : e ≠ .cycle)
    (hstay : starts b e = false) : sinceStart b since e = since := by
  cases e with
  | transmitterUpdate k c random => rw [sinceStart, hstay, if_neg Bool.false_ne_true]
  | receiverUpdate k => rfl
  | cycle => exact absurd rfl he

/-! ## Typing -/

/-- The character `c` and the `'\r'` are typed to board `k`. -/
def typing (k : ι) (c : Byte) : List (BusEvent ι) :=
  [.transmitterUpdate k c 0, .transmitterUpdate k carriageReturn 0]

omit [DecidableEq ι] in
/-- A board to which a line has been typed starts with its `'\r'`, if its monitor is idle. -/
theorem starts_return {k : ι} {line : List Byte} (h : (b k).tx.Waiting line)
    (hidle : (b k).mon.getState = .idle) (hblank : blank line = false) (random : ℕ) :
    starts b (.transmitterUpdate k carriageReturn random) = true := by
  rw [starts_iff h.toResting, Transmitter.gotMessage_readChar _ _ h.inv.dataCur_le, if_pos rfl,
    h.line_eq, hblank]
  exact ⟨hidle, rfl⟩

omit [DecidableEq ι] in
theorem not_starts_char {k : ι} {line : List Byte} (h : (b k).tx.Waiting line) {c : Byte}
    (hc : c ≠ carriageReturn) (random : ℕ) : starts b (.transmitterUpdate k c random) = false := by
  rw [← Bool.not_eq_true, starts_iff h.toResting,
    Transmitter.gotMessage_readChar _ _ h.inv.dataCur_le, if_neg hc, h.gotMessage]
  simp

/-- The first of these calls starts nothing, the second one starts the transmission. -/
theorem starts_typing {k : ι} (h : (b k).tx.Waiting []) (hidle : (b k).mon.getState = .idle)
    {c : Byte} (hc : c ≠ carriageReturn) (hblank : blank [c] = false) :
    starts b (.transmitterUpdate k c 0) = false ∧
      starts (step w b (.transmitterUpdate k c 0)) (.transmitterUpdate k carriageReturn 0) = true := by
  have hself : step w b (.transmitterUpdate k c 0) k = (b k).transmitterUpdate c 0 :=
    Function.update_self _ _ _
  obtain ⟨hwaiting, -⟩ := h.readOther hc (by decide) (b k).mon.getState 0
  refine ⟨not_starts_char h hc 0, starts_return (b := step w b _) ?_ ?_ hblank 0⟩
  · rw [hself]
    exact hwaiting
  · rw [hself]
    exact hidle

theorem run_typing_other {j k : ι} (hj : j ≠ k) {c : Byte} : run w b (typing k c) j = b j := by
  show step w (step w b (.transmitterUpdate k c 0)) (.transmitterUpdate k carriageReturn 0) j = b j
  rw [step, Function.update_of_ne hj, step, Function.update_of_ne hj]

theorem inTransmission_typing {k : ι} (h : (b k).tx.Waiting [])
    (hidle : (b k).mon.getState = .idle) {c : Byte} (hc : c ≠ carriageReturn)
    (hblank : blank [c] = false) : (run w b (typing k c) k).tx.inTransmission = true := by
  obtain ⟨-, hstart⟩ := starts_typing (w := w) h hidle hc hblank
  simp only [starts, Node.starts, Bool.and_eq_true] at hstart
  show (step w (step w b (.transmitterUpdate k c 0))
    (.transmitterUpdate k carriageReturn 0) k).tx.inTransmission = true
  rw [step, Function.update_self]
  exact hstart.2

/-- They may be typed where the last start was long enough ago. -/
theorem startsAfter_typing {d : ℕ} {since : Option ℕ} {k : ι} (h : (b k).tx.Waiting [])
    (hidle : (b k).mon.getState = .idle) {c : Byte} (hc : c ≠ carriageReturn)
    (hblank : blank [c] = false) (hsince : ∀ n, since = some n → d ≤ n) :
    Runs.Along (fun s e => some (clockedStep w s e)) (StartsAfter d) (b, since) (typing k c) ∧
      ((typing k c).foldl (clockedStep w) (b, since)).2 = some 0 := by
  obtain ⟨hnone, hstart⟩ := starts_typing (w := w) h hidle hc hblank
  refine ⟨⟨fun _ => hsince, ?_⟩, ?_⟩
  · rintro s' ⟨⟩
    refine ⟨fun _ => ?_, fun _ _ => trivial⟩
    rw [clockedStep, sinceStart, hnone]
    exact hsince
  · show sinceStart _ _ (.transmitterUpdate k carriageReturn 0) = _
    rw [sinceStart, clockedStep, hstart, if_pos rfl]

end Steps

end Bus

end NetworkingCard
