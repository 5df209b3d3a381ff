import NetworkingCard.Broadcast

/-!
# Total-order broadcast

What any number of boards in packet mode deliver to each other, whatever levels their pins have at
boot, if every start comes at least two half-bits after the one before, and the first one when all
boards have released the line.

* `broadcast_of_run`: if the receiver of every board is called in every idle gap of the line, then
  all boards, senders included, parse the same packets in the same order: one for each transmission,
  with the addresses and the line of its sender.
* `reaches_of_run`: no transmission lasts for ever, so that every line that is sent is parsed by
  every board when the line has come to rest and each receiver has been called once.
-/

namespace NetworkingCard

open Transmitter (frameOf sentHalfBits)

namespace Bus

open Node (CaughtUp Gap OnAir GapPolled watchedStep watchedRun watchedRun_append)

variable {ι : Type} [DecidableEq ι] {w : Wiring ι} {b : ι → Node} {polled : ι → Bool}
  {since : Option ℕ} {sent : List (List Byte)}

/-! ## Every transmission ends -/

/-- While a board transmits, every receiver has been called since its monitor became idle. -/
def Attentive (b : ι → Node) (polled : ι → Bool) : Prop :=
  (∃ i, (b i).tx.inTransmission = true) → ∀ j, Link.Attended (b j, polled j)

/-- The edges of a transmission find that the gap before it was polled, if it was. -/
theorem OnBus.attentive_cycle (h : OnBus w b polled since sent) (hatt : Attentive b polled) :
    (∀ j, GapPolled (watchedStep (b j, polled j) .cycle) (.line (level w b))) ∧
      Attentive (Bus.step w b .cycle) (polledAfter w b polled .cycle) := by
  cases h with
  | @booting v s booting since_eq sent_eq caughtUp =>
    refine ⟨fun j _ _ _ _ => (caughtUp j).cycle.polled, ?_⟩
    rintro ⟨i, hi⟩
    have hrest := (booting.booting i).toResting.cycle (b i).mon.getState
    rw [Bus.step, tx_cycle] at hi
    exact absurd (hrest.inTransmission.symm.trans hi) (by simp)
  | quiet quiet gap =>
    refine ⟨?_, ?_⟩
    · intro j level' hlevel hne
      obtain rfl := Node.TimedEvent.line.inj hlevel
      refine absurd ?_ hne
      rw [quiet.level_eq j]
      exact quiet.high.symm.trans (quiet.watches j).level
    · rintro ⟨i, hi⟩
      have hfree : (Bus.step w b .cycle i).tx.Free := quiet.cycle.free i
      exact absurd (hfree.inTransmission.symm.trans hi) (by simp)
  | @sending v i done p rest r k sending since_eq left length_le onAir sent_eq =>
    have hcycle : ∀ j, Link.Attended (watchedStep (b j, polled j) .cycle) := by
      intro j
      exact (hatt ⟨i, sending.sends.tx.inTransmission⟩ j).cycle (onAir j)
    refine ⟨fun j => (hcycle j).gapPolled _, ?_⟩
    intro _ j
    rw [← watchedRun_heardBy]
    exact (hcycle j).line _

theorem OnBus.cycles (h : OnBus w b polled since sent) (hatt : Attentive b polled) (n : ℕ) :
    (∀ j, Runs.Along (fun s e => some (watchedStep s e)) GapPolled (b j, polled j)
        (heard w b j (List.replicate n .cycle))) ∧
      OnBus w (Bus.run w b (List.replicate n .cycle))
        (fun j => (watchedRun (b j, polled j) (heard w b j (List.replicate n .cycle))).2)
        (since.map (· + n)) sent := by
  induction n generalizing b polled since with
  | zero =>
    refine ⟨fun j => trivial, ?_⟩
    rw [elapsed_zero]
    exact h
  | succ n ih =>
    obtain ⟨hedge, hnext⟩ := h.attentive_cycle hatt
    obtain ⟨halong, hrun⟩ := ih (h.cycle hedge) hnext
    rw [elapsed_succ] at hrun
    have hheard : ∀ j, watchedRun (b j, polled j) (heard w b j (List.replicate (n + 1) .cycle)) =
        watchedRun (Bus.step w b .cycle j, polledAfter w b polled .cycle j)
          (heard w (Bus.step w b .cycle) j (List.replicate n .cycle)) := by
      intro j
      rw [List.replicate_succ, heard_cons, watchedRun_append, watchedRun_heardBy]
    simp only [hheard]
    refine ⟨?_, hrun⟩
    intro j
    rw [List.replicate_succ, heard_cons]
    have hfirst : Runs.Along (fun s e => some (watchedStep s e)) GapPolled (b j, polled j)
        (heardBy w j b .cycle) := by
      refine ⟨?_, ?_⟩
      · intro level' hlevel
        cases hlevel
      · rintro s' ⟨⟩
        exact ⟨hedge j, fun _ _ => trivial⟩
    refine hfirst.concat (Runs.run_total watchedStep _ _) ?_
    rw [← watchedRun, watchedRun_heardBy]
    exact halong j

theorem heard_append (b : ι → Node) (j : ι) (es fs : List (BusEvent ι)) :
    heard w b j (es ++ fs) = heard w b j es ++ heard w (run w b es) j fs :=
  Runs.outputs_append (Runs.run_total (step w) b es) fs

theorem board_run (b : ι → Node) (j : ι) (es : List (BusEvent ι)) :
    run w b es j = (b j).timedRun (heard w b j es) := by
  induction es generalizing b with
  | nil => rfl
  | cons e es ih =>
    rw [heard_cons, Node.timedRun_append, ← board_step]
    exact ih (step w b e)

theorem watchedRun_heard (b : ι → Node) (polled : ι → Bool) (j : ι) (es : List (BusEvent ι)) :
    watchedRun (b j, polled j) (heard w b j es) =
      (run w b es j, (watchedRun (b j, polled j) (heard w b j es)).2) := by
  refine Prod.ext ?_ rfl
  rw [Node.fst_watchedRun, board_run]

/-- On a quiet bus time only makes the gaps longer. -/
theorem Quiet.cycles {v : LineView} (h : Quiet b v) {m : ℕ}
    (hgap : ∀ j, ∃ age, m ≤ age ∧ Gap (b j, polled j) sent age) (n : ℕ) :
    (∃ v', Quiet (run w b (List.replicate n .cycle)) v') ∧
      ∀ j, ∃ age, m + n ≤ age ∧
        Gap (watchedRun (b j, polled j) (heard w b j (List.replicate n .cycle))) sent age := by
  induction n generalizing b v polled m with
  | zero => exact ⟨⟨v, h⟩, hgap⟩
  | succ n ih =>
    have hstep : ∀ j, (step w b .cycle j, polledAfter w b polled .cycle j) =
        watchedStep (b j, polled j) .cycle := by
      intro j
      obtain ⟨age, -, hgap⟩ := hgap j
      rw [← watchedRun_heardBy, heardBy, h.level_eq j]
      exact hgap.cycle.high
    have hgap' : ∀ j, ∃ age, m + 1 ≤ age ∧
        Gap (step w b .cycle j, polledAfter w b polled .cycle j) sent age := by
      intro j
      obtain ⟨age, hage, hgap⟩ := hgap j
      rw [hstep]
      exact ⟨age + 1, by omega, hgap.cycle⟩
    obtain ⟨hquiet, hgaps⟩ := ih (h.cycle (w := w)) hgap'
    refine ⟨hquiet, ?_⟩
    intro j
    obtain ⟨age, hage, hgap⟩ := hgaps j
    rw [List.replicate_succ, heard_cons, watchedRun_append, watchedRun_heardBy]
    exact ⟨age, by omega, hgap⟩

/-- One call of each receiver's main routine. -/
def polls (js : List ι) : List (BusEvent ι) := js.map .receiverUpdate

theorem heard_polls (b : ι → Node) (j : ι) (js : List ι) :
    heard w b j (polls js) = List.replicate (js.count j) .receiverUpdate := by
  induction js generalizing b with
  | nil => rfl
  | cons i js ih =>
    rw [polls, List.map_cons, heard_cons, ← polls, ih, heardBy, List.count_cons]
    by_cases hij : i = j
    · rw [if_pos hij, if_pos (by simp [hij])]
      rfl
    · rw [if_neg hij, if_neg (by simp [hij])]
      rfl

omit [DecidableEq ι] in
/-- A recorded call is forgotten with the next edge only. -/
theorem recorded_others {s : Node × Bool} (h : s.2 = true) {es : List Node.TimedEvent}
    (hes : ∀ e ∈ es, Node.physical e = false) : (watchedRun s es).2 = true := by
  refine Node.watchedRun_others (I := fun s => s.2 = true) ?_ h hes
  intro s e hs he
  cases e with
  | transmitterUpdate c random => exact hs
  | receiverUpdate => simp [watchedStep, Node.polledAfter, hs]
  | line level => cases he
  | cycle => cases he

omit [DecidableEq ι] in
/-- A call on the idle line is recorded. -/
theorem polled_receiverUpdates {s : Node × Bool} (hidle : s.1.mon.monitorState = .idle) {n : ℕ}
    (hn : 0 < n) : (watchedRun s (List.replicate n .receiverUpdate)).2 = true := by
  obtain ⟨n, rfl⟩ : ∃ k, n = k + 1 := ⟨n - 1, by omega⟩
  refine recorded_others (s := watchedStep s .receiverUpdate) ?_ fun e he => ?_
  · simp [watchedStep, Node.polledAfter, hidle]
  · rw [List.eq_of_mem_replicate he]
    rfl

omit [DecidableEq ι] in
theorem along_others {es : List Node.TimedEvent} (hes : ∀ e ∈ es, Node.physical e = false)
    (s : Node × Bool) : Runs.Along (fun s e => some (watchedStep s e)) GapPolled s es := by
  refine Runs.along_of_forall ?_ s
  rintro s e he level rfl
  cases hes _ he

/-- The cycles that the longest transmission takes, up to the tick that ends it. -/
def longest : ℕ := (16 * sizeofPacketHeader + 1) * Node.slot

/-- What brings every transmission to its end, and its packet to the main loops of all boards. -/
def drain (js : List ι) : List (BusEvent ι) :=
  List.replicate longest .cycle ++ (List.replicate (Node.monitorTimeout + 1) .cycle ++ polls js)

theorem Quiet.polls {v : LineView} (h : Quiet b v) (js : List ι) :
    Quiet (run w b (Bus.polls js)) v := by
  induction js generalizing b with
  | nil => exact h
  | cons i js ih => exact ih (h.receiverUpdate i)

theorem free_cycles {i : ι} (h : (b i).tx.Free) (n : ℕ) :
    (run w b (List.replicate n .cycle) i).tx.Free := by
  induction n generalizing b with
  | zero => exact h
  | succ n ih =>
    apply ih
    rw [step, tx_cycle]
    exact h.cycle _

/-- The first tick of each board has come. -/
theorem booting_cycles {i : ι} {s n : ℕ} (h : (b i).tx.Booting s) (hn : s < n) :
    (run w b (List.replicate n .cycle) i).tx.Free := by
  induction n generalizing b s with
  | zero => omega
  | succ n ih =>
    have htx : (step w b .cycle i).tx = (b i).tx.cycle (b i).mon.getState := tx_cycle i
    obtain _ | s := s
    · refine free_cycles (b := step w b .cycle) ?_ n
      rw [htx]
      exact h.free _
    · refine ih (b := step w b .cycle) (s := s) ?_ (by omega)
      rw [htx]
      exact (h.wait _).1

omit [DecidableEq ι] in
theorem length_le_longest {p : List Byte} (hlen : p.length ≤ sizeofPacketHeader) :
    ((sentHalfBits p).length + 1) * Node.slot ≤ longest := by
  have hhalf : (sentHalfBits p).length ≤ 16 * sizeofPacketHeader := by
    unfold sentHalfBits
    split
    · rw [length_halfBits, Bits.length_flatMap_msbFirst]
      omega
    · exact Nat.zero_le _
  exact Nat.mul_le_mul_right _ (by omega)

/-- After the cycles of the longest transmission the bus is quiet. -/
theorem OnBus.finished (h : OnBus w b polled since sent) (hatt : Attentive b polled) :
    (∀ j, Runs.Along (fun s e => some (watchedStep s e)) GapPolled (b j, polled j)
        (heard w b j (List.replicate longest .cycle))) ∧
      ∃ v, Quiet (Bus.run w b (List.replicate longest .cycle)) v ∧ ∀ j, ∃ age, Gap
        (watchedRun (b j, polled j) (heard w b j (List.replicate longest .cycle))) sent age := by
  obtain ⟨halong, hend⟩ := h.cycles hatt longest
  refine ⟨halong, ?_⟩
  have hticks : transmissionTicks < longest := by decide
  cases hend with
  | @quiet v quiet gap =>
    refine ⟨v, quiet, fun j => ?_⟩
    rw [watchedRun_heard]
    exact gap j
  | @sending v i done p rest r k sending since_eq left length_le onAir sent_eq =>
    -- no transmission lasts that long
    obtain ⟨k', -, rfl⟩ := Option.map_eq_some_iff.mp since_eq
    have := length_le_longest length_le
    omega
  | booting booting since_eq sent_eq caughtUp =>
    -- nor does it take that long until the line is released
    have hfree : ∀ i, (Bus.run w b (List.replicate longest .cycle) i).tx.Free := by
      intro i
      cases h with
      | booting booting =>
        have hcnt := (booting.booting i).clock.cnt
        exact booting_cycles (booting.booting i) (by omega)
      | quiet quiet => exact free_cycles (quiet.free i) longest
      | sending sending since_eq' =>
        rw [since_eq'] at since_eq
        cases since_eq
    obtain ⟨v, hquiet⟩ := booting.quiet fun i => (hfree i).pin
    refine ⟨v, hquiet, fun j => ⟨0, ?_⟩⟩
    rw [watchedRun_heard, sent_eq]
    exact .polled (caughtUp j) ((hquiet.watches j).level.symm.trans hquiet.high)

/-- After the monitors' timeout and one call of each receiver, the gaps of a quiet bus have been
polled. -/
theorem Quiet.attended {v : LineView} (h : Quiet b v)
    (hgap : ∀ j, ∃ age, Gap (b j, polled j) sent age) {js : List ι} (hjs : ∀ j, j ∈ js) (j : ι) :
    Runs.Along (fun s e => some (watchedStep s e)) GapPolled (b j, polled j)
        (heard w b j (List.replicate (Node.monitorTimeout + 1) .cycle ++ Bus.polls js)) ∧
      (watchedRun (b j, polled j)
        (heard w b j (List.replicate (Node.monitorTimeout + 1) .cycle ++ Bus.polls js))).2 = true ∧
      ∃ age, Node.monitorTimeout + 1 ≤ age ∧ Gap (watchedRun (b j, polled j)
        (heard w b j (List.replicate (Node.monitorTimeout + 1) .cycle ++ Bus.polls js))) sent age := by
  have hatt : Attentive b polled := by
    rintro ⟨i, hi⟩
    exact absurd ((h.free i).inTransmission.symm.trans hi) (by simp)
  have honBus : OnBus w b polled none sent := .quiet h hgap
  obtain ⟨halong, -⟩ := honBus.cycles hatt (Node.monitorTimeout + 1)
  have hgap₀ : ∀ j, ∃ age, 0 ≤ age ∧ Gap (b j, polled j) sent age := by
    intro j
    obtain ⟨age, hgap⟩ := hgap j
    exact ⟨age, Nat.zero_le _, hgap⟩
  obtain ⟨age, hage, hlong⟩ := (h.cycles (w := w) hgap₀ (Node.monitorTimeout + 1)).2 j
  have hidle := hlong.monitor_idle (by omega)
  have hcalls : ∀ e ∈ List.replicate (js.count j) Node.TimedEvent.receiverUpdate,
      Node.physical e = false := by
    intro e he
    rw [(List.mem_replicate.mp he).2]
    rfl
  rw [heard_append, heard_polls, watchedRun_append]
  refine ⟨?_, ?_, age, by omega, hlong.others hcalls⟩
  · exact (halong j).concat (Runs.run_total watchedStep _ _) (along_others hcalls _)
  · exact polled_receiverUpdates hidle (List.count_pos_iff.mpr (hjs j))

/-- The line is idle, and every board has been in its gap. -/
structure Rested (b : ι → Node) (polled : ι → Bool) : Prop where
  quiet : ∃ v, Quiet b v
  idle : ∀ j, (b j).mon.getState = .idle
  polled : ∀ j, polled j = true

/-- **Every transmission ends.** When the cycles of a transmission and the monitors' timeout are
over, the next call of each receiver's main routine finds the packet. -/
theorem drained_of_onBus (h : OnBus w b polled since sent) (hatt : Attentive b polled) {js : List ι}
    (hjs : ∀ j, j ∈ js) :
    (∀ j, Runs.Along (fun s e => some (watchedStep s e)) GapPolled (b j, polled j)
        (heard w b j (drain js))) ∧
      Rested (run w b (drain js)) (fun j => (watchedRun (b j, polled j) (heard w b j (drain js))).2) ∧
      ∀ j, (run w b (drain js) j).Delivered sent := by
  obtain ⟨halong, v, hquiet, hgap⟩ := h.finished hatt
  have hsplit : run w b (drain js) = run w (run w (run w b (List.replicate longest .cycle))
      (List.replicate (Node.monitorTimeout + 1) .cycle)) (polls js) := by
    unfold run drain
    rw [List.foldl_append, List.foldl_append]
  have hgap' : ∀ j, ∃ age, Gap (run w b (List.replicate longest .cycle) j,
      (watchedRun (b j, polled j) (heard w b j (List.replicate longest .cycle))).2) sent age := by
    intro j
    rw [← watchedRun_heard]
    exact hgap j
  have hcalled := hquiet.attended (w := w) hgap' hjs
  have hlast : ∀ j, (watchedRun (b j, polled j) (heard w b j (drain js))).2 = true ∧
      ∃ age, Node.monitorTimeout + 1 ≤ age ∧ Gap (run w b (drain js) j, true) sent age := by
    intro j
    obtain ⟨-, hpolled, age, hage, hlast⟩ := hcalled j
    rw [← watchedRun_heard, ← watchedRun_append, ← heard_append, ← drain] at hpolled hlast
    rw [watchedRun_heard, hpolled] at hlast
    exact ⟨hpolled, age, hage, hlast⟩
  refine ⟨?_, ⟨?_, ?_, fun j => (hlast j).1⟩, ?_⟩
  · intro j
    rw [drain, heard_append]
    refine (halong j).concat (Runs.run_total watchedStep _ _) ?_
    rw [← watchedRun, watchedRun_heard]
    exact (hcalled j).1
  · obtain ⟨⟨v', hquiet'⟩, -⟩ := hquiet.cycles (w := w) (m := 0)
      (fun j => (hgap' j).imp fun age hgap => ⟨Nat.zero_le _, hgap⟩) (Node.monitorTimeout + 1)
    rw [hsplit]
    exact ⟨v', hquiet'.polls js⟩
  · intro j
    obtain ⟨-, age, hage, hlast⟩ := hlast j
    have hidle := hlast.monitor_idle hage
    dsimp only at hidle
    rw [Monitor.getState]
    exact hidle
  · intro j
    obtain ⟨-, age, -, hlast⟩ := hlast j
    have hdelivered := hlast.delivered rfl
    dsimp only at hdelivered
    exact hdelivered

omit [DecidableEq ι] in
/-- Time and calls of receivers start nothing. -/
theorem starts_of_mem_drain {js : List ι} {e : BusEvent ι} (he : e ∈ drain js) (b : ι → Node) :
    starts b e = false := by
  unfold drain polls at he
  rcases List.mem_append.mp he with he | he
  · rw [(List.mem_replicate.mp he).2]
    rfl
  rcases List.mem_append.mp he with he | he
  · rw [(List.mem_replicate.mp he).2]
    rfl
  · obtain ⟨j, -, rfl⟩ := List.mem_map.mp he
    rfl

theorem sentLines_append (b : ι → Node) (es fs : List (BusEvent ι)) :
    sentLines w b (es ++ fs) = sentLines w b es ++ sentLines w (run w b es) fs :=
  Runs.outputs_append (Runs.run_total (step w) b es) fs

theorem sentLines_drain (b : ι → Node) (js : List ι) : sentLines w b (drain js) = [] := by
  have hnone : ∀ (es : List (BusEvent ι)) (b : ι → Node), (∀ e ∈ es, ∀ b, starts b e = false) →
      sentLines w b es = [] := by
    intro es
    induction es with
    | nil => exact fun b _ => rfl
    | cons e es ih =>
      intro b hes
      rw [sentLines_cons, sentBy_of_not_starts (hes e List.mem_cons_self b), List.nil_append]
      exact ih _ fun f hf => hes f (List.mem_cons_of_mem e hf)
  exact hnone _ b fun e he b => starts_of_mem_drain he b

/-! ## Delivery -/

/-- **Total-order broadcast.** Boards in packet mode, whatever levels their pins have at boot,
whatever is typed to them and however their main loops interleave. If every start of a transmission
comes at least two half-bits after the one before, the first one when all boards have released the
line, the receiver of every board is called in every idle gap, and no transmission is under way at
the end, then every board has parsed one packet for each transmission, in the order of their starts:
`ph_parse` returned true and found the sender's addresses and its line. -/
theorem broadcast_of_run {src dest : ι → Byte} {pins : ι → Bool} {es : List (BusEvent ι)}
    (hapart : StartsApart w (2 * Node.slot) (boot w (fun _ => true) src dest pins) es)
    (hreleased : Runs.Along (fun b e => some (step w b e)) StartsReleased
      (boot w (fun _ => true) src dest pins) es)
    (hpolls : ∀ j, (boot w (fun _ => true) src dest pins j).PollsGaps
      (heard w (boot w (fun _ => true) src dest pins) j es))
    (hend : ∀ i, (run w (boot w (fun _ => true) src dest pins) es i).tx.inTransmission = false)
    (j : ι) :
    List.Forall₂ (fun s call => Carries (src s.1) (dest s.1) s.2 call)
      (sentLines w (boot w (fun _ => true) src dest pins) es)
      (run w (boot w (fun _ => true) src dest pins) es j).rx.parses := by
  obtain ⟨hlines, hrun⟩ := onBus_run hapart hreleased fun j => (hpolls j).1
  apply carries_of_delivered hlines
  cases hrun with
  | booting booting since_eq sent_eq caughtUp =>
    rw [sent_eq]
    exact (caughtUp j).delivered
  | quiet quiet gap =>
    obtain ⟨age, hgap⟩ := gap j
    exact hgap.delivered (hpolls j).2
  | sending sending since_eq left length_le onAir sent_eq =>
    exact absurd (sending.sends.tx.inTransmission.symm.trans (hend _)) (by simp)

/-- **Every line reaches every board.** After any run whose starts are apart, the first one when the
line has been released, and in which the receivers have kept up with the gaps so far, all lines that
have been sent are parsed by all boards once the last transmission is over and each receiver has
been called. -/
theorem reaches_of_run {src dest : ι → Byte} {pins : ι → Bool} {es : List (BusEvent ι)}
    (hapart : StartsApart w (2 * Node.slot) (boot w (fun _ => true) src dest pins) es)
    (hreleased : Runs.Along (fun b e => some (step w b e)) StartsReleased
      (boot w (fun _ => true) src dest pins) es)
    (hpolls : ∀ j, Runs.Along (fun s e => some (watchedStep s e)) GapPolled
      (boot w (fun _ => true) src dest pins j, true)
      (heard w (boot w (fun _ => true) src dest pins) j es))
    (hatt : Attentive (run w (boot w (fun _ => true) src dest pins) es) fun j => (watchedRun
      (boot w (fun _ => true) src dest pins j, true)
      (heard w (boot w (fun _ => true) src dest pins) j es)).2)
    {js : List ι} (hjs : ∀ j, j ∈ js) (j : ι) :
    List.Forall₂ (fun s call => Carries (src s.1) (dest s.1) s.2 call)
      (sentLines w (boot w (fun _ => true) src dest pins) es)
      (run w (boot w (fun _ => true) src dest pins) (es ++ drain js) j).rx.parses := by
  obtain ⟨hlines, hrun⟩ := onBus_run hapart hreleased hpolls
  obtain ⟨-, -, hdelivered⟩ := drained_of_onBus hrun hatt hjs
  have hsplit : run w (boot w (fun _ => true) src dest pins) (es ++ drain js) =
      run w (run w (boot w (fun _ => true) src dest pins) es) (drain js) := List.foldl_append
  rw [hsplit]
  exact carries_of_delivered hlines (hdelivered j)

/-! ## A run of two boards -/

/-- The starts of a run are late enough, and the receivers have kept up with it. -/
structure Polite (w : Wiring ι) (b : ι → Node) (es : List (BusEvent ι)) : Prop where
  apart : StartsApart w (2 * Node.slot) b es
  released : Runs.Along (fun b e => some (step w b e)) StartsReleased b es
  polls : ∀ j, Runs.Along (fun s e => some (watchedStep s e)) GapPolled (b j, true) (heard w b j es)
  attentive : Attentive (run w b es) fun j => (watchedRun (b j, true) (heard w b j es)).2

/-- At its end the line has been idle for long. -/
structure Settled (w : Wiring ι) (b : ι → Node) (es : List (BusEvent ι)) : Prop
    extends Polite w b es where
  rested : Rested (run w b es) fun j => (watchedRun (b j, true) (heard w b j es)).2
  late : ∀ n, (es.foldl (clockedStep w) (b, none)).2 = some n → 2 * Node.slot ≤ n

theorem run_append (b : ι → Node) (es fs : List (BusEvent ι)) :
    run w b (es ++ fs) = run w (run w b es) fs :=
  List.foldl_append

theorem recorded_append (b : ι → Node) (j : ι) (es fs : List (BusEvent ι)) :
    (watchedRun (b j, true) (heard w b j (es ++ fs))).2 =
      (watchedRun (run w b es j, (watchedRun (b j, true) (heard w b j es)).2)
        (heard w (run w b es) j fs)).2 := by
  rw [heard_append, watchedRun_append, watchedRun_heard b (fun _ => true)]

theorem clockedRun_append (b : ι → Node) (es fs : List (BusEvent ι)) :
    (es ++ fs).foldl (clockedStep w) (b, none) =
      fs.foldl (clockedStep w) (run w b es, (es.foldl (clockedStep w) (b, none)).2) := by
  rw [List.foldl_append, ← fst_clockedRun (b, none)]

/-- Further events. -/
theorem Polite.append {es fs : List (BusEvent ι)} (h : Polite w b es)
    (hapart : Runs.Along (fun s e => some (clockedStep w s e)) (StartsAfter (2 * Node.slot))
      (run w b es, (es.foldl (clockedStep w) (b, none)).2) fs)
    (hreleased : Runs.Along (fun b e => some (step w b e)) StartsReleased (run w b es) fs)
    (hpolls : ∀ j, Runs.Along (fun s e => some (watchedStep s e)) GapPolled
      (run w b es j, (watchedRun (b j, true) (heard w b j es)).2) (heard w (run w b es) j fs))
    (hattentive : Attentive (run w (run w b es) fs) fun j => (watchedRun
      (run w b es j, (watchedRun (b j, true) (heard w b j es)).2) (heard w (run w b es) j fs)).2) :
    Polite w b (es ++ fs) := by
  refine ⟨?_, ?_, fun j => ?_, ?_⟩
  · refine h.apart.concat (Runs.run_total (clockedStep w) _ _) ?_
    rw [← fst_clockedRun (b, none)] at hapart
    exact hapart
  · exact h.released.concat (Runs.run_total (step w) _ _) hreleased
  · rw [heard_append]
    refine (h.polls j).concat (Runs.run_total watchedStep _ _) ?_
    rw [← watchedRun, watchedRun_heard b (fun _ => true)]
    exact hpolls j
  · simp only [recorded_append, run_append]
    exact hattentive

theorem heard_typing (b : ι → Node) (j k : ι) (c : Byte) :
    ∀ e ∈ heard w b j (typing k c), Node.physical e = false := by
  intro e he
  rw [typing, heard_cons, heard_cons] at he
  rcases List.mem_append.mp he with he | he
  · exact not_physical_of_mem_heardBy (by simp) j he
  rcases List.mem_append.mp he with he | he
  · exact not_physical_of_mem_heardBy (by simp) j he
  · cases he

theorem sentLines_typing {k : ι} (h : (b k).tx.Waiting []) (hidle : (b k).mon.getState = .idle)
    {c : Byte} (hc : c ≠ carriageReturn) (hblank : Transmitter.blank [c] = false) :
    sentLines w b (typing k c) = [(k, [c])] := by
  obtain ⟨hnone, hstart⟩ := starts_typing (w := w) h hidle hc hblank
  obtain ⟨hwaiting, -⟩ := h.readOther hc (by decide) (b k).mon.getState 0
  have hself : step w b (.transmitterUpdate k c 0) k = (b k).transmitterUpdate c 0 :=
    Function.update_self _ _ _
  have hread : (((b k).transmitterUpdate c 0).tx.readChar carriageReturn).line = [c] := by
    have hlt := Nat.lt_of_le_of_lt hwaiting.inv.dataCur_le (show phMsgSize - 1 < phMsgSize by decide)
    rw [Node.transmitterUpdate, (Transmitter.readChar_return _ hlt).2, hwaiting.line_eq,
      List.nil_append, hblank, if_neg Bool.false_ne_true]
  rw [typing, sentLines_cons, sentLines_cons, sentBy_of_not_starts hnone, sentBy, hstart,
    if_pos rfl, hself, hread]
  rfl

/-- A character and a `'\r'` on a line that has come to rest. -/
theorem Settled.typing {es : List (BusEvent ι)} (h : Settled w b es) {k : ι} {c : Byte}
    (hwaiting : (run w b es k).tx.Waiting []) (hc : c ≠ carriageReturn)
    (hblank : Transmitter.blank [c] = false) :
    Polite w b (es ++ Bus.typing k c) ∧
      sentLines w b (es ++ Bus.typing k c) = sentLines w b es ++ [(k, [c])] := by
  obtain ⟨v, hquiet⟩ := h.rested.quiet
  have hidle := h.rested.idle k
  obtain ⟨hnone, -⟩ := starts_typing (w := w) hwaiting hidle hc hblank
  refine ⟨h.toPolite.append ?_ ?_ ?_ ?_, ?_⟩
  · exact (startsAfter_typing hwaiting hidle hc hblank h.late).1
  · refine ⟨fun hstart => absurd (hnone.symm.trans hstart) (by simp), ?_⟩
    rintro s' ⟨⟩
    exact ⟨fun _ i => ((hquiet.stays hnone).free i).pin, fun _ _ => trivial⟩
  · exact fun j => along_others (heard_typing _ j k c) _
  · intro _ j _
    exact recorded_others (s := (run w b es j, _)) (h.rested.polled j) (heard_typing _ j k c)
  · rw [sentLines_append, sentLines_typing hwaiting hidle hc hblank]

theorem clockedRun_polls (s : (ι → Node) × Option ℕ) (js : List ι) :
    ((polls js).foldl (clockedStep w) s).2 = s.2 := by
  induction js generalizing s with
  | nil => rfl
  | cons i js ih => exact ih (clockedStep w s (.receiverUpdate i))

/-- The drain is longer than two half-bits. -/
theorem late_drain (b : ι → Node) (since : Option ℕ) (js : List ι) {n : ℕ}
    (hn : ((drain js).foldl (clockedStep w) (b, since)).2 = some n) : 2 * Node.slot ≤ n := by
  have hlong : 2 * Node.slot ≤ longest := Nat.mul_le_mul_right _ (by decide)
  rw [drain, ← List.append_assoc, List.replicate_append_replicate, List.foldl_append,
    clockedRun_polls, clockedRun_cycles] at hn
  obtain ⟨k, -, rfl⟩ := Option.map_eq_some_iff.mp hn
  exact hlong.trans ((Nat.le_add_right _ _).trans (Nat.le_add_left _ k))

/-- What has been sent is heard, and the line comes to rest. -/
theorem Polite.settled {es : List (BusEvent ι)} (h : Polite w b es)
    (honBus : OnBus w (run w b es) (fun j => (watchedRun (b j, true) (heard w b j es)).2)
      (es.foldl (clockedStep w) (b, none)).2 sent) {js : List ι} (hjs : ∀ j, j ∈ js) :
    Settled w b (es ++ drain js) := by
  obtain ⟨halong, hrested, -⟩ := drained_of_onBus honBus h.attentive hjs
  have hnone : ∀ s : (ι → Node), ∀ e ∈ drain js, starts s e = false :=
    fun s e he => starts_of_mem_drain he s
  refine ⟨h.append ?_ ?_ halong ?_, ?_, ?_⟩
  · refine Runs.along_of_forall (fun s e he hstart => ?_) _
    exact absurd ((hnone s.1 e he).symm.trans hstart) (by simp)
  · refine Runs.along_of_forall (fun s e he hstart => ?_) _
    exact absurd ((hnone s e he).symm.trans hstart) (by simp)
  · rintro ⟨i, hi⟩
    obtain ⟨v, hquiet⟩ := hrested.quiet
    exact absurd ((hquiet.free i).inTransmission.symm.trans hi) (by simp)
  · simp only [recorded_append, run_append]
    exact hrested
  · intro n hn
    rw [clockedRun_append] at hn
    exact late_drain _ _ js hn

theorem waiting_drain {i : ι} {line : List Byte} (h : (b i).tx.Waiting line) (js : List ι) :
    (run w b (drain js) i).tx.Waiting line := by
  have hpolls : ∀ (js : List ι) (b : ι → Node), (b i).tx.Waiting line →
      (run w b (polls js) i).tx.Waiting line := by
    intro js
    induction js with
    | nil => exact fun b h => h
    | cons j js ih =>
      intro b h
      apply ih
      by_cases hij : i = j
      · subst hij
        rw [step, Function.update_self]
        exact h
      · rw [step, Function.update_of_ne hij]
        exact h
  rw [drain, run_append, run_append, run_cycles, run_cycles]
  exact hpolls js _ (waiting_cycles (waiting_cycles h _) _)

/-- Two boards with the addresses `AA` and `BB`, whose pins are low at boot. -/
def pair : Bool → Node :=
  boot (Wiring.wiredAnd Bool) (fun _ => true) (fun i => if i then 0xBB else 0xAA)
    (fun i => if i then 0xAA else 0xBB) fun _ => false

/-- The line is released, the first board sends the line `a`, and then the second one the line
`b`. -/
def twoLines : List (BusEvent Bool) :=
  drain [false, true] ++ typing false 0x61 ++ drain [false, true] ++ typing true 0x62

theorem polite_twoLines : Polite (Wiring.wiredAnd Bool) pair twoLines ∧
    sentLines (Wiring.wiredAnd Bool) pair twoLines = [(false, [0x61]), (true, [0x62])] := by
  have hjs : ∀ j, j ∈ [false, true] := by simp
  have hwaiting : ∀ i, (pair i).tx.Waiting [] := fun _ => Transmitter.waiting_init _ _ _ _
  have hstart : Polite (Wiring.wiredAnd Bool) pair [] := by
    refine ⟨trivial, trivial, fun _ => trivial, ?_⟩
    rintro ⟨i, hi⟩
    exact absurd ((hwaiting i).inTransmission.symm.trans hi) (by simp)
  have hreleased := hstart.settled (onBus_run hstart.apart hstart.released hstart.polls).2 hjs
  rw [List.nil_append] at hreleased
  have hline : ∀ i, (run (Wiring.wiredAnd Bool) pair (drain [false, true]) i).tx.Waiting [] :=
    fun i => waiting_drain (hwaiting i) _
  obtain ⟨hfirst, hsent⟩ := hreleased.typing (c := 0x61) (hline false) (by decide) (by decide)
  have hheard := hfirst.settled (onBus_run hfirst.apart hfirst.released hfirst.polls).2 hjs
  have hline' : (run (Wiring.wiredAnd Bool) pair (drain [false, true] ++
      typing false 0x61 ++ drain [false, true]) true).tx.Waiting [] := by
    rw [run_append]
    apply waiting_drain
    rw [run_append, run_typing_other (by simp)]
    exact hline true
  obtain ⟨hsecond, hsent'⟩ := hheard.typing (c := 0x62) hline' (by decide) (by decide)
  rw [sentLines_append _ _ (drain _), sentLines_drain, List.append_nil, hsent, sentLines_drain]
    at hsent'
  rw [twoLines]
  exact ⟨hsecond, hsent'⟩

/-- The first board hears both lines, its own one included. -/
theorem broadcast_twoLines :
    List.Forall₂ (fun s call => Carries (if s.1 then 0xBB else 0xAA) (if s.1 then 0xAA else 0xBB)
        s.2 call) [(false, [0x61]), (true, [0x62])]
      (run (Wiring.wiredAnd Bool) pair (twoLines ++ drain [false, true]) false).rx.parses := by
  obtain ⟨hpolite, hsent⟩ := polite_twoLines
  have hall : ∀ j, j ∈ [false, true] := by simp
  unfold pair at hpolite hsent ⊢
  have hsettled :=
    hpolite.settled (onBus_run hpolite.apart hpolite.released hpolite.polls).2 hall
  obtain ⟨v, hquiet⟩ := hsettled.rested.quiet
  have hbroadcast := broadcast_of_run hsettled.apart hsettled.released
    (fun j => ⟨hsettled.polls j, hsettled.rested.polled j⟩)
    (fun i => (hquiet.free i).inTransmission) false
  rw [sentLines_append, hsent, sentLines_drain, List.append_nil] at hbroadcast
  exact hbroadcast

/-- The second board hears both lines. -/
theorem reaches_twoLines :
    List.Forall₂ (fun s call => Carries (if s.1 then 0xBB else 0xAA) (if s.1 then 0xAA else 0xBB)
        s.2 call) [(false, [0x61]), (true, [0x62])]
      (run (Wiring.wiredAnd Bool) pair (twoLines ++ drain [false, true]) true).rx.parses := by
  obtain ⟨hpolite, hsent⟩ := polite_twoLines
  have hall : ∀ j, j ∈ [false, true] := by simp
  unfold pair at hpolite hsent ⊢
  have hreaches := reaches_of_run hpolite.apart hpolite.released hpolite.polls hpolite.attentive
    hall true
  rw [hsent] at hreaches
  exact hreaches

end Bus

end NetworkingCard
