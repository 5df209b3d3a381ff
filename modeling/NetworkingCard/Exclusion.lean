import NetworkingCard.Bus

/-!
# One transmission at a time

Nothing in the protocol keeps two boards from starting at once: a board that finds its monitor idle
starts, and its first edge comes with its second half-bit at the latest. `exclusive_of_run`: if
every start comes at least two half-bits after the one before, then never more than one board
transmits and no monitor ever shows a collision. `overlap_iff`: how long after the first of two
boards the second one can still start.

A run goes through phases (`Phase`). Before their first tick the boards are `Booting`: the line has
any level, and a board may start (`Early`) while the others have not released the line yet. After
that the bus is quiet, or one board is sending.
-/

namespace NetworkingCard

open Transmitter (blank frameOf sentHalfBits readChar_frame transmitData_frame)

namespace Bus

variable {ι : Type} {w : Wiring ι} {b : ι → Node} {v : LineView} {i : ι} {bytes : List Byte}
  {rest : List Bool} {r : ℕ}

/-! ## The course of a transmission -/

/-- Where more slots have gone by than half-bits of one level can be sent, the transmission has made
an edge, and all monitors are busy. -/
theorem Sending.busy (h : Sending b v i bytes rest r) {k : ℕ}
    (left : k + rest.length * Node.slot + (r + 1) =
      ((sentHalfBits bytes).length + 1) * Node.slot)
    (hk : ∀ m, v.sinceEdge = none → List.replicate m v.level ++ rest = sentHalfBits bytes →
      (m + 1) * Node.slot ≤ k) (j : ι) : (b j).mon.getState = .busy := by
  cases hage : v.sinceEdge with
  | none =>
    obtain ⟨m, hm⟩ := h.sends.fresh hage
    have hle := hk m hage hm
    have hlen : m + rest.length = (sentHalfBits bytes).length := by
      rw [← hm, List.length_append, List.length_replicate]
    have hslot : Node.slot = 8001 := rfl
    rw [← hlen, hslot] at left
    rw [hslot] at hle
    omega
  | some age => exact ((h.watches j).follows.busy age hage (h.sends.edges.within age hage)).1

/-- The transmission of `bytes` by board `i`, `k` cycles after its start, on a line that had the
level `before` up to the first edge, or the line at rest after it. -/
inductive Transmission (b : ι → Node) (i : ι) (bytes : List Byte) (before : Bool) (k : ℕ) : Prop
  | sending {v : LineView} {rest : List Bool} {r : ℕ} (sending : Sending b v i bytes rest r)
      (left : k + rest.length * Node.slot + (r + 1) =
        ((sentHalfBits bytes).length + 1) * Node.slot)
      (silent : v.sinceEdge = none → v.level = before)
  | finished {v : LineView} (quiet : Quiet b v)

theorem Transmission.cycle {before : Bool} {k : ℕ} (h : Transmission b i bytes before k) :
    Transmission (cycle w b) i bytes before (k + 1) := by
  cases h with
  | finished quiet => exact .finished quiet.cycle
  | @sending v rest r sending left silent =>
    cases r with
    | succ r =>
      exact .sending sending.wait.1 (by omega) fun hnone => silent (Option.map_eq_none_iff.mp hnone)
    | zero =>
      cases rest with
      | nil => exact .finished sending.finish.1
      | cons a rest =>
        rw [List.length_cons, Nat.succ_mul] at left
        have hslot : Node.slot = transmissionTicks + 1 := rfl
        refine .sending sending.drive.1 (by omega) fun hnone => ?_
        obtain ⟨hbefore, hlevel⟩ := Node.silent_of_step hnone
        rw [LineView.level_step_line, hlevel]
        exact silent hbefore

theorem Transmission.cycles {before : Bool} {k : ℕ} (h : Transmission b i bytes before k) (n : ℕ) :
    Transmission ((Bus.cycle w)^[n] b) i bytes before (k + n) := by
  induction n with
  | zero => exact h
  | succ n ih =>
    rw [Function.iterate_succ_apply']
    exact ih.cycle

/-! ## Before the first tick -/

theorem quiet_of_free (hfree : ∀ i, (b i).tx.Free) (h : Follows w b v) : ∃ v, Quiet b v := by
  rcases isEmpty_or_nonempty ι with hι | ⟨⟨i⟩⟩
  · exact ⟨⟨true, none⟩, fun i => hι.elim i, fun i => hι.elim i, rfl⟩
  · refine ⟨v, hfree, h.watches, ?_⟩
    rw [h.line, w.lone (fun i => (b i).tx.pin) i fun j _ => (hfree j).pin]
    exact (hfree i).pin

/-- Nothing has been started since boot, and the first tick of each board comes after `s` more
cycles. -/
structure Booting (w : Wiring ι) (b : ι → Node) (v : LineView) (s : ℕ) : Prop where
  booting : ∀ i, (b i).tx.Booting s
  follows : Follows w b v
  silent : v.sinceEdge = none

theorem booting_boot (packetMode : ι → Bool) (src dest : ι → Byte) (pins : ι → Bool) :
    Booting w (boot w packetMode src dest pins) ⟨w.level pins, none⟩ transmissionTicks where
  booting := fun i => Transmitter.booting_init (src i) (dest i) (packetMode i) (pins i)
  follows := follows_boot packetMode src dest pins
  silent := rfl

/-- Boards that have released the line already are between two messages. -/
theorem Booting.quiet {s : ℕ} (h : Booting w b v s) (hpins : ∀ i, (b i).tx.pin = true) :
    ∃ v, Quiet b v :=
  quiet_of_free (fun i => ⟨(h.booting i).toResting, hpins i⟩) h.follows

theorem Booting.wait {s : ℕ} (h : Booting w b v (s + 1)) :
    Booting w (cycle w b) (v.step .cycle) s ∧ level w b = v.level := by
  have hlevel := h.follows.level_eq fun i => ((h.booting i).wait (b i).mon.getState).2
  have hfollows := h.follows.cycle
  rw [LineView.step_line_same (v := v.step .cycle) hlevel] at hfollows
  refine ⟨⟨fun i => ?_, hfollows, congrArg (Option.map _) h.silent⟩, hlevel⟩
  rw [tx_cycle]
  exact ((h.booting i).wait _).1

/-- The first ticks release the line. -/
theorem Booting.release (h : Booting w b v 0) : ∃ v, Quiet (cycle w b) v := by
  refine quiet_of_free (fun i => ?_) h.follows.cycle
  rw [tx_cycle]
  exact (h.booting i).free _

/-- Board `i` has started to send `bytes` before the first tick of the others, which comes after `s`
more cycles; its own first tick comes `r` cycles after that. -/
structure Early (w : Wiring ι) (b : ι → Node) (v : LineView) (i : ι) (bytes : List Byte) (r s : ℕ) :
    Prop where
  others : ∀ j, j ≠ i → (b j).tx.Booting s
  follows : Follows w b v
  silent : v.sinceEdge = none
  tx : (b i).tx.Transmitting (sentHalfBits bytes) (s + r)
  inv : (b i).tx.Inv
  complete : (b i).tx.transmissionComplete = true
  nonempty : bytes ≠ []
  room : 2 * bytes.length < bufSize

theorem Early.wait {s : ℕ} (h : Early w b v i bytes r (s + 1)) :
    Early w (cycle w b) (v.step .cycle) i bytes r s := by
  have htx := h.tx
  rw [Nat.add_right_comm] at htx
  obtain ⟨heq, hnext⟩ := htx.wait (b i).mon.getState
  have hpins : ∀ j, (b j).cycle.tx.pin = (b j).tx.pin := by
    intro j
    rw [Node.tx_cycle]
    by_cases hj : j = i
    · rw [hj, heq]
    · exact ((h.others j hj).wait (b j).mon.getState).2
  have hfollows := h.follows.cycle
  rw [LineView.step_line_same (v := v.step .cycle) (h.follows.level_eq hpins)] at hfollows
  refine ⟨fun j hj => ?_, hfollows, congrArg (Option.map _) h.silent, ?_, ?_, ?_, h.nonempty, h.room⟩
  · rw [tx_cycle]
    exact ((h.others j hj).wait _).1
  · rw [tx_cycle]
    exact hnext
  · rw [tx_cycle]
    exact h.inv.cycle _
  · rw [tx_cycle, heq]
    exact h.complete

/-- The line on which board `i` goes on after the first ticks of the others. -/
def joined (w : Wiring ι) (b : ι → Node) (v : LineView) : LineView :=
  (v.step .cycle).step (.line (level w b))

/-- The first ticks of the others leave the line to board `i`, which has not driven more than one
half-bit yet. -/
theorem Early.sends (h : Early w b v i bytes r 0) {k : ℕ} (left : k + r = transmissionTicks) :
    ∃ rest r', Node.Sends (sentHalfBits bytes) (cycle w b i, joined w b v) rest r' ∧
      (cycle w b i).tx.transmissionComplete = true ∧
      k + 1 + rest.length * Node.slot + (r' + 1) =
        ((sentHalfBits bytes).length + 1) * Node.slot := by
  have hslot : Node.slot = transmissionTicks + 1 := rfl
  have hlevel : level w b = (b i).cycle.tx.pin := by
    apply w.lone
    intro j hj
    exact (h.others j hj).release _
  have hpin : (cycle w b i).tx.pin = (joined w b v).level := by
    rw [tx_cycle, joined, LineView.level_step_line, hlevel]
    rfl
  have hwatches : (cycle w b i).Watches (joined w b v) := watches_cycle h.follows.watches i
  -- no edge has come before
  have hnone : Node.Within 0 v := .of_silent h.silent
  obtain ⟨a, bs, hcode⟩ := Node.sentHalfBits_eq h.nonempty h.room
  have htx := h.tx
  rw [Nat.zero_add] at htx
  cases r with
  | succ r =>
    obtain ⟨heq, hnext⟩ := htx.wait (b i).mon.getState
    refine ⟨sentHalfBits bytes, r, ⟨?_, hpin, hwatches, ?_, fun _ => ⟨0, rfl⟩⟩, ?_, ?_⟩
    · rw [tx_cycle]
      exact hnext
    · rw [hcode]
      exact Node.edgesCome_encode (Node.within_of_silent h.silent _) (a :: bs) (by omega)
    · rw [tx_cycle, heq]
      exact h.complete
    · rw [Nat.succ_mul]
      omega
  | zero =>
    have hidle : (b i).mon.getState ≠ .collision := by
      rw [((h.follows.watches i).fresh h.silent).1]
      simp
    have hedges : Node.EdgesCome v ((!a) :: a :: LineCode.encode bs) 0 :=
      Node.edgesCome_encode hnone (a :: bs) (Nat.zero_le _)
    rw [hcode, LineCode.encode_cons] at htx ⊢
    obtain ⟨heq, hnext⟩ := htx.drive hidle
    have hdriven : joined w b v = (v.step .cycle).step (.line !a) := by
      rw [joined, hlevel, Node.tx_cycle, heq]
    refine ⟨a :: LineCode.encode bs, transmissionTicks, ⟨?_, hpin, hwatches, ?_, ?_⟩, ?_, ?_⟩
    · rw [tx_cycle]
      exact hnext
    · rw [hdriven]
      exact hedges.drive
    · intro hsilent
      refine ⟨1, ?_⟩
      show (joined w b v).level :: a :: LineCode.encode bs = (!a) :: a :: LineCode.encode bs
      rw [hdriven, LineView.level_step_line]
    · rw [tx_cycle, heq]
      exact h.complete
    · rw [List.length_cons (a := !a), Nat.succ_mul, Nat.succ_mul]
      omega

theorem Early.join (h : Early w b v i bytes r 0) {k : ℕ} (left : k + r = transmissionTicks) :
    ∃ rest r', Sending (cycle w b) (joined w b v) i bytes rest r' ∧
      k + 1 + rest.length * Node.slot + (r' + 1) =
        ((sentHalfBits bytes).length + 1) * Node.slot := by
  obtain ⟨rest, r', hsends, hcomplete, hleft⟩ := h.sends (w := w) left
  have hinv : (cycle w b i).tx.Inv := by
    rw [tx_cycle]
    exact h.inv.cycle _
  refine ⟨rest, r', ⟨fun j hj => ?_, watches_cycle h.follows.watches, hsends, hinv, hcomplete,
    h.nonempty, h.room⟩, hleft⟩
  rw [tx_cycle]
  exact (h.others j hj).free _

section Steps

variable [DecidableEq ι]

/-- A main-loop call that starts nothing. -/
theorem Booting.other {s : ℕ} (h : Booting w b v s) {e : BusEvent ι} (he : e ≠ .cycle)
    (hstay : starts b e = false) : Booting w (step w b e) v s := by
  cases e with
  | cycle => exact absurd rfl he
  | receiverUpdate k =>
    refine ⟨fun j => ?_, h.follows.update (e := .receiverUpdate) k rfl, h.silent⟩
    by_cases hj : j = k
    · subst hj
      rw [step, Function.update_self]
      exact h.booting j
    · rw [step, Function.update_of_ne hj]
      exact h.booting j
  | transmitterUpdate k c random =>
    refine ⟨fun j => ?_, h.follows.update (e := .transmitterUpdate c random) k rfl, h.silent⟩
    by_cases hj : j = k
    · subst hj
      rw [step, Function.update_self]
      exact (h.booting j).stays (inTransmission_of_stays (h.booting j).toResting hstay)
    · rw [step, Function.update_of_ne hj]
      exact h.booting j

/-- A start before the first tick. -/
theorem Booting.start {s : ℕ} (h : Booting w b v s) {k : ι} {c : Byte} {random : ℕ}
    (hstart : starts b (.transmitterUpdate k c random) = true) :
    ∃ bytes r, s + r = transmissionTicks ∧
      Early w (step w b (.transmitterUpdate k c random)) v k bytes r s := by
  have hrest := (h.booting k).toResting
  simp only [starts, Node.starts, Bool.and_eq_true] at hstart
  obtain ⟨-, hgot, heq, hlaunched⟩ := hrest.starts hstart.2
  obtain ⟨hne, hroom⟩ := hrest.frame_fits hgot
  have hinv := hrest.inv.mainRoutineUpdate (b k).mon.getState c random
  have hcnt := (h.booting k).clock.cnt
  have hticks : s + (transmissionTicks - s) = transmissionTicks := by omega
  have hself : step w b (.transmitterUpdate k c random) k = (b k).transmitterUpdate c random :=
    Function.update_self _ _ _
  refine ⟨_, transmissionTicks - s, hticks, fun j hj => ?_,
    h.follows.update (e := .transmitterUpdate c random) k rfl, h.silent, ?_, ?_, ?_, hne, hroom⟩
  · rw [step, Function.update_of_ne hj]
    exact h.booting j
  · rw [hself, hticks]
    exact hlaunched.transmitting hroom.le
  · rw [hself]
    exact hinv
  · rw [hself, Node.transmitterUpdate, heq, transmitData_frame, readChar_frame]
    exact hrest.complete

theorem Early.other {s : ℕ} (h : Early w b v i bytes r s) {e : BusEvent ι} (he : e ≠ .cycle)
    (hstay : starts b e = false) : Early w (step w b e) v i bytes r s := by
  cases e with
  | cycle => exact absurd rfl he
  | receiverUpdate k =>
    have htx : ∀ j, (step w b (.receiverUpdate k) j).tx = (b j).tx := by
      intro j
      by_cases hj : j = k
      · subst hj
        rw [step, Function.update_self]
        rfl
      · rw [step, Function.update_of_ne hj]
    refine ⟨fun j hj => ?_, h.follows.update (e := .receiverUpdate) k rfl, h.silent, ?_, ?_, ?_,
      h.nonempty, h.room⟩
    · rw [htx]
      exact h.others j hj
    · rw [htx]
      exact h.tx
    · rw [htx]
      exact h.inv
    · rw [htx]
      exact h.complete
  | transmitterUpdate k c random =>
    by_cases hk : k = i
    · subst hk
      have hnothing : step w b (.transmitterUpdate k c random) = b := by
        rw [step, Node.transmitterUpdate_of_inTransmission h.tx.inTransmission]
        exact Function.update_eq_self k b
      rw [hnothing]
      exact h
    · have hsender : step w b (.transmitterUpdate k c random) i = b i :=
        Function.update_of_ne (Ne.symm hk) _ _
      refine ⟨fun j hj => ?_, h.follows.update (e := .transmitterUpdate c random) k rfl, h.silent,
        ?_, ?_, ?_, h.nonempty, h.room⟩
      · by_cases hjk : j = k
        · subst hjk
          rw [step, Function.update_self]
          exact (h.others j hj).stays (inTransmission_of_stays (h.others j hj).toResting hstay)
        · rw [step, Function.update_of_ne hjk]
          exact h.others j hj
      · rw [hsender]
        exact h.tx
      · rw [hsender]
        exact h.inv
      · rw [hsender]
        exact h.complete

end Steps

/-! ## Phases of a run -/

/-- Where the bus is, `since` cycles after the last start. -/
inductive Phase (w : Wiring ι) (b : ι → Node) (since : Option ℕ) : Prop
  | booting {v : LineView} {s : ℕ} (booting : Booting w b v s) (since_eq : since = none)
  | early {v : LineView} {i : ι} {bytes : List Byte} {r s k : ℕ} (early : Early w b v i bytes r s)
      (since_eq : since = some k) (left : k + (s + r) = transmissionTicks)
  | quiet {v : LineView} (quiet : Quiet b v)
  | sending {v : LineView} {i : ι} {bytes : List Byte} {rest : List Bool} {r k : ℕ}
      (sending : Sending b v i bytes rest r) (since_eq : since = some k)
      (left : k + rest.length * Node.slot + (r + 1) =
        ((sentHalfBits bytes).length + 1) * Node.slot)

theorem Phase.cycle {since : Option ℕ} (h : Phase w b since) :
    Phase w (cycle w b) (since.map (· + 1)) := by
  cases h with
  | @booting v s booting since_eq =>
    cases s with
    | succ s => exact .booting booting.wait.1 (by rw [since_eq, Option.map_none])
    | zero =>
      obtain ⟨v', hquiet⟩ := booting.release
      exact .quiet hquiet
  | @early v i bytes r s k early since_eq left =>
    rw [since_eq, Option.map_some]
    cases s with
    | succ s => exact .early early.wait rfl (by omega)
    | zero =>
      rw [Nat.zero_add] at left
      obtain ⟨rest, r', hsending, hleft⟩ := early.join (w := w) left
      exact .sending hsending rfl hleft
  | quiet quiet => exact .quiet quiet.cycle
  | @sending v i bytes rest r k sending since_eq left =>
    rw [since_eq, Option.map_some]
    have hcourse : Transmission b i bytes v.level k := .sending sending left fun _ => rfl
    cases hcourse.cycle (w := w) with
    | sending sending left => exact .sending sending rfl left
    | finished quiet => exact .quiet quiet

/-- A start that is late enough finds that no other board transmits. -/
theorem Phase.free_of_starts {since : Option ℕ} (h : Phase w b since) {e : BusEvent ι}
    (hapart : StartsAfter (2 * Node.slot) (b, since) e) (hstart : starts b e = true) :
    (∃ v s, Booting w b v s) ∨ ∃ v, Quiet b v := by
  cases h with
  | booting booting since_eq => exact Or.inl ⟨_, _, booting⟩
  | quiet quiet => exact Or.inr ⟨_, quiet⟩
  | early early since_eq left =>
    have hk := hapart hstart _ since_eq
    have hslot : Node.slot = transmissionTicks + 1 := rfl
    omega
  | @sending v i bytes rest r k sending since_eq left =>
    have hk := hapart hstart k since_eq
    have hbusy := sending.busy left fun m _ hm =>
      (Nat.mul_le_mul_right Node.slot (Nat.succ_le_succ
        (Node.replicate_le_one sending.nonempty sending.room hm))).trans hk
    cases e with
    | receiverUpdate j => cases hstart
    | cycle => cases hstart
    | transmitterUpdate j c random =>
      have hidle : (b j).mon.getState = .idle := Node.idle_of_starts_main hstart
      exact absurd ((hbusy j).symm.trans hidle) (by simp)

/-- At most one board transmits, and nobody has noticed a collision. -/
structure Exclusive (b : ι → Node) : Prop where
  alone : ∀ i j, (b i).tx.inTransmission = true → (b j).tx.inTransmission = true → i = j
  complete : ∀ i, (b i).tx.transmissionComplete = true
  not_collision : ∀ i, (b i).mon.getState ≠ .collision
  agree : ∀ i j, (b i).mon.getState = (b j).mon.getState

/-- All boards are between two messages. -/
theorem exclusive_of_resting (hresting : ∀ i, (b i).tx.Resting) (hwatches : ∀ i, (b i).Watches v)
    (hline : v.level = true ∨ Node.Within (16 * transmissionTimeoutUs) v) : Exclusive b where
  alone := by
    intro i j hi
    exact absurd ((hresting i).inTransmission.symm.trans hi) (by simp)
  complete := fun i => (hresting i).complete
  not_collision := fun i => (hwatches i).not_collision hline
  agree := fun i j => (hwatches i).agree (hwatches j)

/-- All boards but one are. -/
theorem exclusive_of_sender {k : ι} (hothers : ∀ i, i ≠ k → (b i).tx.Resting)
    (hcomplete : (b k).tx.transmissionComplete = true) (hwatches : ∀ i, (b i).Watches v)
    (hline : v.level = true ∨ Node.Within (16 * transmissionTimeoutUs) v) : Exclusive b where
  alone := by
    have honly : ∀ i, (b i).tx.inTransmission = true → i = k := by
      intro i hi
      by_contra hne
      exact absurd ((hothers i hne).inTransmission.symm.trans hi) (by simp)
    intro i j hi hj
    rw [honly i hi, honly j hj]
  complete := by
    intro i
    by_cases hi : i = k
    · rw [hi]
      exact hcomplete
    · exact (hothers i hi).complete
  not_collision := fun i => (hwatches i).not_collision hline
  agree := fun i j => (hwatches i).agree (hwatches j)

theorem Phase.exclusive {since : Option ℕ} (h : Phase w b since) : Exclusive b := by
  cases h with
  | booting booting since_eq =>
    exact exclusive_of_resting (fun i => (booting.booting i).toResting) booting.follows.watches
      (Or.inr (Node.Within.of_silent booting.silent))
  | early early since_eq left =>
    exact exclusive_of_sender (fun i hi => (early.others i hi).toResting) early.complete
      early.follows.watches (Or.inr (Node.Within.of_silent early.silent))
  | quiet quiet =>
    exact exclusive_of_resting (fun i => (quiet.free i).toResting) quiet.watches
      (Or.inl quiet.high)
  | sending sending since_eq left =>
    exact exclusive_of_sender (fun i hi => (sending.free i hi).toResting) sending.complete
      sending.watches (Or.inr sending.sends.edges.within)

theorem Phase.cycles {since : Option ℕ} (h : Phase w b since) (n : ℕ) :
    Phase w ((Bus.cycle w)^[n] b) (since.map (· + n)) := by
  induction n with
  | zero =>
    rw [elapsed_zero]
    exact h
  | succ n ih =>
    have hnext := ih.cycle
    rw [Option.map_map] at hnext
    rw [Function.iterate_succ_apply']
    exact hnext

theorem length_sentHalfBits_le {bytes : List Byte} (hroom : 2 * bytes.length < bufSize) :
    (sentHalfBits bytes).length ≤ 8 * bufSize := by
  rw [sentHalfBits, if_pos hroom, length_halfBits, Bits.length_flatMap_msbFirst]
  omega

/-- No transmission lasts longer than the buffer. -/
theorem Phase.ended {k : ℕ} (h : Phase w b (some k)) (hk : (8 * bufSize + 1) * Node.slot ≤ k) :
    ∃ v, Quiet b v := by
  cases h with
  | booting booting since_eq => cases since_eq
  | early early since_eq left =>
    obtain rfl := Option.some.inj since_eq
    have hlong : transmissionTicks < (8 * bufSize + 1) * Node.slot := by decide
    omega
  | quiet quiet => exact ⟨_, quiet⟩
  | @sending v i bytes rest r k sending since_eq left =>
    obtain rfl := Option.some.inj since_eq
    have hlen : ((sentHalfBits bytes).length + 1) * Node.slot ≤ (8 * bufSize + 1) * Node.slot :=
      Nat.mul_le_mul_right _ (Nat.succ_le_succ (length_sentHalfBits_le sending.room))
    omega

/-- After the monitors' timeout a quiet bus is idle. -/
theorem Quiet.idle_cycles (h : Quiet b v) {n : ℕ} (hn : 16 * transmissionTimeoutUs < n) (j : ι) :
    ((Bus.cycle w)^[n] b j).mon.getState = .idle := by
  have hcycles : Quiet ((Bus.cycle w)^[n] b) ⟨v.level, v.sinceEdge.map (· + n)⟩ := by
    clear hn
    induction n with
    | zero =>
      rw [elapsed_zero]
      exact h
    | succ n ih =>
      have hnext := ih.cycle (w := w)
      rw [LineView.step, Option.map_map] at hnext
      rw [Function.iterate_succ_apply']
      exact hnext
  have hhigh : v.level = true := h.high
  cases hage : v.sinceEdge.map (· + n) with
  | none => exact ((hcycles.watches j).fresh hage).1
  | some age =>
    obtain ⟨k, -, rfl⟩ := Option.map_eq_some_iff.mp hage
    have hsettled := ((hcycles.watches j).follows.settled _ hage (by omega)).1
    rwa [if_pos hhigh] at hsettled

theorem waiting_cycles {line : List Byte} (h : (b i).tx.Waiting line) (n : ℕ) :
    ((cycle w)^[n] b i).tx.Waiting line := by
  induction n with
  | zero => exact h
  | succ n ih =>
    rw [Function.iterate_succ_apply', tx_cycle]
    exact (ih.cycle _).1

/-- The cycles of the longest transmission and of the monitors' timeout. -/
def pause : ℕ := (16 * transmissionTimeoutUs + 1) + (8 * bufSize + 1) * Node.slot

/-- After that time all monitors are idle. -/
theorem Phase.idle_pause (h : Phase w b (some 0)) (j : ι) :
    ((Bus.cycle w)^[pause] b j).mon.getState = .idle := by
  obtain ⟨v, hquiet⟩ := (h.cycles ((8 * bufSize + 1) * Node.slot)).ended (Nat.le_add_left _ _)
  rw [pause, Function.iterate_add_apply]
  exact hquiet.idle_cycles (Nat.lt_succ_self _) j

section Steps

variable [DecidableEq ι]

/-- One event. -/
theorem Phase.step {since : Option ℕ} (h : Phase w b since) {e : BusEvent ι}
    (hapart : StartsAfter (2 * Node.slot) (b, since) e) :
    Phase w (step w b e) (sinceStart b since e) := by
  cases hstart : starts b e
  · by_cases he : e = .cycle
    · subst he
      exact h.cycle
    rw [sinceStart_other he hstart]
    cases h with
    | booting booting since_eq => exact .booting (booting.other he hstart) since_eq
    | early early since_eq left => exact .early (early.other he hstart) since_eq left
    | quiet quiet => exact .quiet (quiet.other he hstart)
    | sending sending since_eq left => exact .sending (sending.other he hstart) since_eq left
  · cases e with
    | cycle => cases hstart
    | receiverUpdate j => cases hstart
    | transmitterUpdate j c random =>
      rw [sinceStart, hstart, if_pos rfl]
      rcases h.free_of_starts hapart hstart with ⟨v, s, hbooting⟩ | ⟨v, hquiet⟩
      · obtain ⟨bytes, r, hticks, hearly⟩ := hbooting.start hstart
        exact .early hearly rfl (by omega)
      · refine .sending (hquiet.start hstart) rfl ?_
        rw [Node.slot, Nat.succ_mul]
        omega

theorem fst_clockedRun (s : (ι → Node) × Option ℕ) (es : List (BusEvent ι)) :
    (es.foldl (clockedStep w) s).1 = run w s.1 es := by
  induction es generalizing s with
  | nil => rfl
  | cons e es ih => exact ih (clockedStep w s e)

/-- Whole runs. -/
theorem Phase.run {since : Option ℕ} (h : Phase w b since) {es : List (BusEvent ι)}
    (hapart : Runs.Along (fun s e => some (clockedStep w s e)) (StartsAfter (2 * Node.slot))
      (b, since) es) :
    Phase w (run w b es) (es.foldl (clockedStep w) (b, since)).2 := by
  rw [← fst_clockedRun (b, since)]
  apply Runs.run_invariant_along (I := fun s => Phase w s.1 s.2) ?_ h hapart
    (Runs.run_total (clockedStep w) (b, since) es)
  intro s e s' hs hP hstep
  cases hstep
  exact hs.step hP

/-- **One at a time.** Whatever levels the pins have at boot, whatever is typed to the boards and
however their main loops interleave: if every start of a transmission comes at least two half-bits
after the one before, then never more than one board transmits, no monitor shows a collision, no
board has anything to retransmit, and all monitors are in the same state. -/
theorem exclusive_of_run {packetMode : ι → Bool} {src dest : ι → Byte} {pins : ι → Bool}
    {es : List (BusEvent ι)}
    (hapart : StartsApart w (2 * Node.slot) (boot w packetMode src dest pins) es) :
    Exclusive (run w (boot w packetMode src dest pins) es) := by
  have hboot : Phase w (boot w packetMode src dest pins) none :=
    .booting (booting_boot packetMode src dest pins) rfl
  exact (hboot.run hapart).exclusive

theorem run_cycles (b : ι → Node) (n : ℕ) :
    run w b (List.replicate n .cycle) = (cycle w)^[n] b := by
  induction n generalizing b with
  | zero => rfl
  | succ n ih => exact ih (cycle w b)

theorem clockedRun_cycles (b : ι → Node) (since : Option ℕ) (n : ℕ) :
    (List.replicate n .cycle).foldl (clockedStep w) (b, since) =
      ((cycle w)^[n] b, since.map (· + n)) := by
  induction n generalizing b since with
  | zero =>
    rw [elapsed_zero]
    rfl
  | succ n ih =>
    rw [List.replicate_succ, List.foldl_cons, Function.iterate_succ_apply, ← elapsed_succ]
    exact ih (cycle w b) (since.map (· + 1))

/-- Cycles start nothing. -/
theorem startsAfter_cycles (s : (ι → Node) × Option ℕ) (d n : ℕ) :
    Runs.Along (fun s e => some (clockedStep w s e)) (StartsAfter d) s
      (List.replicate n .cycle) := by
  refine Runs.along_of_forall (fun s e he => ?_) s
  rw [List.eq_of_mem_replicate he]
  intro hstart
  cases hstart

/-- The pins are low at boot. The line `a` is typed to the first of two boards at once, and the line
`b` to the second one when the first has been heard. -/
theorem exclusive_twoLines :
    let b := boot (Wiring.wiredAnd Bool) (fun _ => true) (fun _ => 0xAA) (fun _ => 0xBB)
      fun _ => false
    let es := typing false 0x61 ++ (List.replicate pause .cycle ++ typing true 0x62)
    (run (Wiring.wiredAnd Bool) b (typing false 0x61) false).tx.inTransmission = true ∧
      (run (Wiring.wiredAnd Bool) b es true).tx.inTransmission = true ∧
      Exclusive (run (Wiring.wiredAnd Bool) b es) := by
  intro b es
  have hphase : Phase (Wiring.wiredAnd Bool) b none := .booting (booting_boot _ _ _ _) rfl
  have hwaiting : ∀ i, (b i).tx.Waiting [] := fun _ => Transmitter.waiting_init _ _ _ _
  have hidle : (b false).mon.getState = .idle := rfl
  have hbyte : (0x61 : Byte) ≠ carriageReturn ∧ blank [0x61] = false := by decide
  have hbyte' : (0x62 : Byte) ≠ carriageReturn ∧ blank [0x62] = false := by decide
  obtain ⟨halong, hcount⟩ := startsAfter_typing (w := Wiring.wiredAnd Bool) (d := 2 * Node.slot)
    (hwaiting false) hidle hbyte.1 hbyte.2 (fun n hn => absurd hn (Option.some_ne_none n).symm)
  have hfirst := hphase.run halong
  rw [hcount] at hfirst
  have hidle' := hfirst.idle_pause true
  have hwaiting' : ((cycle (Wiring.wiredAnd Bool))^[pause] (run (Wiring.wiredAnd Bool) b
      (typing false 0x61)) true).tx.Waiting [] := by
    apply waiting_cycles
    rw [run_typing_other (by simp)]
    exact hwaiting true
  have hpause : ∀ n, some (0 + pause) = some n → 2 * Node.slot ≤ n := by
    intro n hn
    rw [← Option.some.inj hn]
    decide
  obtain ⟨halong', -⟩ := startsAfter_typing (w := Wiring.wiredAnd Bool) hwaiting' hidle' hbyte'.1
    hbyte'.2 hpause
  have hapart : StartsApart (Wiring.wiredAnd Bool) (2 * Node.slot) b es := by
    refine halong.concat (Runs.run_total _ _ _)
      ((startsAfter_cycles _ _ _).concat (Runs.run_total _ _ _) ?_)
    rw [show (typing false 0x61).foldl (clockedStep (Wiring.wiredAnd Bool)) (b, none) =
      (run (Wiring.wiredAnd Bool) b (typing false 0x61), some 0) from
      Prod.ext (fst_clockedRun _ _) hcount, clockedRun_cycles]
    exact halong'
  refine ⟨inTransmission_typing (hwaiting false) hidle hbyte.1 hbyte.2, ?_,
    exclusive_of_run hapart⟩
  have hes : run (Wiring.wiredAnd Bool) b es = run (Wiring.wiredAnd Bool)
      ((cycle (Wiring.wiredAnd Bool))^[pause] (run (Wiring.wiredAnd Bool) b (typing false 0x61)))
      (typing true 0x62) := by
    rw [← run_cycles, run, List.foldl_append, List.foldl_append]
    rfl
  rw [hes]
  exact inTransmission_typing hwaiting' hidle' hbyte'.1 hbyte'.2

/-! ## How long a start goes unnoticed -/

omit [DecidableEq ι] in
/-- As long as the half-bits are high, nobody has seen an edge. -/
theorem Sending.unheard (h : Sending b ⟨true, none⟩ i bytes rest r) {k : ℕ}
    (hk : k < Node.leadingHigh rest * Node.slot + (r + 1)) :
    (∃ rest' r', Sending ((cycle w)^[k] b) ⟨true, none⟩ i bytes rest' r') ∧
      ∀ j, j ≠ i → ((cycle w)^[k] b j).tx.line = (b j).tx.line ∧
        ((cycle w)^[k] b j).tx.gotMessage = (b j).tx.gotMessage := by
  induction k generalizing b rest r with
  | zero => exact ⟨⟨rest, r, h⟩, fun j _ => ⟨rfl, rfl⟩⟩
  | succ k ih =>
    obtain ⟨rest', r', hnext, hbound⟩ : ∃ rest' r',
        Sending (cycle w b) ⟨true, none⟩ i bytes rest' r' ∧
          k < Node.leadingHigh rest' * Node.slot + (r' + 1) := by
      cases r with
      | succ r => exact ⟨rest, r, h.wait.1, by omega⟩
      | zero =>
        rcases rest with _ | ⟨_ | _, rest⟩
        · simp [Node.leadingHigh] at hk
        · simp [Node.leadingHigh_cons_false] at hk
        · rw [Node.leadingHigh_cons_true, Nat.succ_mul] at hk
          have hslot : Node.slot = transmissionTicks + 1 := rfl
          exact ⟨rest, transmissionTicks, h.drive.1, by omega⟩
    obtain ⟨hsending, htyped⟩ := ih hnext hbound
    rw [Function.iterate_succ_apply]
    refine ⟨hsending, ?_⟩
    intro j hj
    rw [(htyped j hj).1, (htyped j hj).2, tx_cycle]
    exact (h.free j hj).typed_cycle _

/-- A call of the main routine of board `i`, and `d` cycles later one of that of board `j`. -/
def twoCalls (i j : ι) (c c' : Byte) (random random' d : ℕ) : List (BusEvent ι) :=
  .transmitterUpdate i c random ::
    (List.replicate d .cycle ++ [.transmitterUpdate j c' random'])

/-- **How long a start goes unnoticed.** Two boards are ready to start on a quiet line. If one of
them starts, then the other can still start, and both transmit, for exactly as long as the first
half-bits of the frame are high. -/
theorem overlap_iff (h : Quiet b v) {i j : ι} (hij : i ≠ j) {c c' : Byte} {random random' : ℕ}
    (hi : starts b (.transmitterUpdate i c random) = true)
    (hj : starts b (.transmitterUpdate j c' random') = true) (d : ℕ) :
    ((run w b (twoCalls i j c c' random random' d) i).tx.inTransmission = true ∧
        (run w b (twoCalls i j c c' random random' d) j).tx.inTransmission = true) ↔
      d < Node.silence
        (frameOf (b i).tx.packetMode (b i).tx.src (b i).tx.dest ((b i).tx.readChar c).line) := by
  have hsending := h.start (w := w) hi
  have hb : run w b (twoCalls i j c c' random random' d) =
      step w ((cycle w)^[d] (step w b (.transmitterUpdate i c random)))
        (.transmitterUpdate j c' random') := by
    rw [← run_cycles]
    exact List.foldl_append
  rw [hb]
  generalize hfirst : step w b (.transmitterUpdate i c random) = b₁ at hsending
  have hother : b₁ j = b j := by
    rw [← hfirst]
    exact Function.update_of_ne (Ne.symm hij) _ _
  -- the second call acts on board `j` only
  have hsender : ∀ b₂ : ι → Node, step w b₂ (.transmitterUpdate j c' random') i = b₂ i :=
    fun b₂ => Function.update_of_ne hij _ _
  have hsecond : ∀ b₂ : ι → Node, step w b₂ (.transmitterUpdate j c' random') j =
      (b₂ j).transmitterUpdate c' random' := fun b₂ => Function.update_self _ _ _
  rw [hsender, hsecond]
  constructor
  · rintro ⟨htx, htx'⟩
    have hcourse : Transmission ((cycle w)^[d] b₁) i
        (frameOf (b i).tx.packetMode (b i).tx.src (b i).tx.dest ((b i).tx.readChar c).line) true
        (0 + d) := by
      apply Transmission.cycles
      refine .sending hsending ?_ fun _ => rfl
      rw [Node.slot, Nat.succ_mul]
      omega
    rw [Nat.zero_add] at hcourse
    cases hcourse with
    | finished quiet => exact absurd ((quiet.free i).inTransmission.symm.trans htx) (by simp)
    | sending sending left silent =>
      by_contra hlate
      have hbusy := sending.busy left (fun m hnone hm => by
        rw [silent hnone] at hm
        have hle := Nat.mul_le_mul_right Node.slot (Nat.succ_le_succ (Node.le_leadingHigh hm))
        exact hle.trans (Nat.le_of_not_lt hlate)) j
      have hidle := ((sending.free j (Ne.symm hij)).starts htx').1
      exact absurd (hbusy.symm.trans hidle) (by simp)
  · intro hd
    have hfew : d < Node.leadingHigh (sentHalfBits (frameOf (b i).tx.packetMode (b i).tx.src
        (b i).tx.dest ((b i).tx.readChar c).line)) * Node.slot + (transmissionTicks + 1) := by
      rw [Node.silence, Nat.succ_mul] at hd
      exact hd
    obtain ⟨⟨rest', r', hunheard⟩, htyped⟩ := hsending.unheard (w := w) hfew
    refine ⟨hunheard.sends.tx.inTransmission, ?_⟩
    have hready := (starts_iff (h.free j).toResting).mp hj
    obtain ⟨hline, hgot⟩ := htyped j (Ne.symm hij)
    rw [hother] at hline hgot
    have hidle := ((hunheard.watches j).fresh rfl).1
    refine (hunheard.free j (Ne.symm hij)).starts_iff.mpr ⟨hidle, ?_⟩
    rw [Transmitter.gotMessage_readChar _ c' (hunheard.free j (Ne.symm hij)).inv.dataCur_le, hline,
      hgot, ← Transmitter.gotMessage_readChar _ c' (h.free j).inv.dataCur_le]
    exact hready.2

/-- Two boards with the line `a` typed to both; the second follows half a slot before the edge. -/
theorem overlap_typedA :
    let b : Bool → Node := fun _ => (Node.boot 0xAA 0xBB true true true).transmitterUpdate 0x61 0
    ∀ i, (run (Wiring.wiredAnd Bool) b
      (twoCalls false true carriageReturn carriageReturn 0 0 12000) i).tx.inTransmission = true := by
  intro b
  have hboot := Transmitter.waiting_init 0xAA 0xBB true true
  obtain ⟨htyped, hset⟩ := hboot.readOther (c := 0x61) (by decide) (by decide) .idle 0
  have hwaiting : ∀ i, (b i).tx.Waiting [0x61] := fun _ => htyped
  have hpin : ∀ i, (b i).tx.pin = true := fun _ => Transmitter.pin_mainRoutineUpdate _ _ _ _
  have hquiet : Quiet b ⟨true, none⟩ :=
    ⟨fun i => ⟨(hwaiting i).toResting, hpin i⟩,
      fun _ => ⟨rfl, Monitor.follows_unknown _ true, fun _ => ⟨rfl, rfl⟩⟩, rfl⟩
  have hsettings : (b false).tx.settings = (true, 0xAA, 0xBB) := hset
  clear_value b
  have hmode : (b false).tx.packetMode = true := by
    simpa [Transmitter.settings] using congrArg Prod.fst hsettings
  have hready : ∀ i, starts b (.transmitterUpdate i carriageReturn 0) = true := fun i =>
    starts_return (hwaiting i) ((hquiet.watches i).fresh rfl).1 (by decide) 0
  have hlen : ((b false).tx.readChar carriageReturn).line.length ≤ phMsgSize - 1 := by
    rw [Transmitter.length_line]
    exact ((hwaiting false).inv.readChar carriageReturn).dataCur_le
  have hshort : 12000 < Node.silence (frameOf (b false).tx.packetMode (b false).tx.src
      (b false).tx.dest ((b false).tx.readChar carriageReturn).line) := by
    rw [hmode, Node.silence_frameOf hlen]
    decide
  have hboth := (overlap_iff (w := Wiring.wiredAnd Bool) hquiet (by simp) (hready false)
    (hready true) 12000).mpr hshort
  intro i
  cases i
  · exact hboth.1
  · exact hboth.2

end Steps

end Bus

end NetworkingCard
