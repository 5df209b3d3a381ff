import NetworkingCard.Link
import NetworkingCard.Sampling

/-!
# A board that is alone on its line

`Node.alone` is one core cycle of a board whose pin drives the line and that hears nothing else.
`asSent`: whatever bytes it sends, its monitor takes them neither for a collision nor, before the
end, for idle.

While half-bits are still to come (`Sends`), the line never keeps its level for longer than the
monitor's timeout (`EdgesCome`), by the run-length law of the line code; afterwards it is high
(`Released`). A cycle leads from one to the next (`Course.watch`).
-/

namespace NetworkingCard

open Transmitter (blank frameOf sentHalfBits)

namespace Node

/-! ## The monitor, from an idle line -/

/-- The monitor follows the line, and was idle before its first edge. -/
structure Watches (n : Node) (v : LineView) : Prop where
  level : v.level = n.idr4
  follows : n.mon.Follows v
  fresh : v.sinceEdge = none → n.mon.getState = .idle ∧ n.mon.stk.enable = false

theorem Watches.timedStep {n : Node} {v : LineView} (h : n.Watches v) (e : TimedEvent) :
    (n.timedStep e).Watches (v.step e) := by
  obtain ⟨hlevel, hfollows⟩ := follows_timedStep h.level h.follows e
  refine ⟨hlevel, hfollows, ?_⟩
  intro hnone
  cases e with
  | transmitterUpdate c random => exact h.fresh hnone
  | receiverUpdate => exact h.fresh hnone
  | line level =>
    by_cases hedge : level = v.level
    · rw [LineView.step_line_same hedge] at hnone
      rw [Node.timedStep, setLine_same (hedge.trans h.level)]
      exact h.fresh hnone
    · rw [LineView.step_line_edge hedge] at hnone
      cases hnone
  | cycle =>
    obtain ⟨hidle, hstopped⟩ := h.fresh (Option.map_eq_none_iff.mp hnone)
    have hmon : n.cycle.mon = n.mon := Monitor.cycle_of_stopped hstopped
    show n.cycle.mon.getState = .idle ∧ n.cycle.mon.stk.enable = false
    rw [hmon]
    exact ⟨hidle, hstopped⟩

/-- Where no edge has come up to now, none has come before, and the level is the same. -/
theorem silent_of_step {v : LineView} {b : Bool}
    (h : ((v.step .cycle).step (.line b)).sinceEdge = none) :
    v.sinceEdge = none ∧ b = v.level := by
  by_cases hedge : b = (v.step .cycle).level
  · rw [LineView.step_line_same hedge] at h
    exact ⟨Option.map_eq_none_iff.mp h, hedge⟩
  · rw [LineView.step_line_edge hedge] at h
    cases h

theorem Within.of_silent {limit : ℕ} {v : LineView} (h : v.sinceEdge = none) : Within limit v :=
  fun _ hk => absurd (h.symm.trans hk) (by simp)

/-- The first edge has just come, or none has come yet. -/
theorem within_of_silent {v : LineView} (h : v.sinceEdge = none) (b : Bool) :
    Within 0 ((v.step .cycle).step (.line b)) := by
  have hsilent : Within 0 (v.step .cycle) := .of_silent (congrArg (Option.map _) h)
  have hline := (hsilent.step_line b).1
  rwa [ite_self] at hline

/-- A collision takes a silence longer than the timeout on a low line. -/
theorem Watches.not_collision {n : Node} {v : LineView} (h : n.Watches v)
    (hline : v.level = true ∨ Within (16 * transmissionTimeoutUs) v) :
    n.mon.getState ≠ .collision := by
  cases hage : v.sinceEdge with
  | none =>
    rw [(h.fresh hage).1]
    simp
  | some k =>
    by_cases hk : k ≤ 16 * transmissionTimeoutUs
    · have hbusy := (h.follows.busy k hage hk).1
      rw [Monitor.getState, hbusy]
      simp
    · have hsettled := (h.follows.settled k hage (by omega)).1
      rcases hline with hhigh | hwithin
      · rw [hhigh, if_pos rfl] at hsettled
        rw [Monitor.getState, hsettled]
        simp
      · exact absurd (hwithin k hage) hk

/-! ## What is still to come on the line -/

/-- In `r + 1` cycles the half-bits `rest` begin, each for one slot, and until their end the line
never keeps its level for longer than the monitor's timeout. -/
def EdgesCome (v : LineView) (rest : List Bool) (r : ℕ) : Prop :=
  ∃ age, Within age v ∧ KeepsBusy v.level age rest r

/-- On a line on which no edge has come before, or only just now: the line code of any bits. -/
theorem edgesCome_encode {v : LineView} (h : Within 0 v) (bits : List Bool) {r : ℕ}
    (hr : r ≤ transmissionTicks) : EdgesCome v (LineCode.encode bits) r :=
  ⟨0, h, keepsBusy_encode v.level bits hr⟩

theorem EdgesCome.within {v : LineView} {rest : List Bool} {r : ℕ} (h : EdgesCome v rest r) :
    Within (16 * transmissionTimeoutUs) v := by
  obtain ⟨age, hwithin, hlimit, -⟩ := h
  unfold monitorTimeout at hlimit
  intro k hk
  have := hwithin k hk
  omega

theorem EdgesCome.within_cycle {v : LineView} {rest : List Bool} {r : ℕ} (h : EdgesCome v rest r) :
    Within (16 * transmissionTimeoutUs) (v.step .cycle) := by
  obtain ⟨age, hwithin, hlimit, -⟩ := h
  unfold monitorTimeout at hlimit
  intro k hk
  have := hwithin.step_cycle k hk
  omega

theorem EdgesCome.wait {v : LineView} {rest : List Bool} {r : ℕ} (h : EdgesCome v rest (r + 1)) :
    EdgesCome (v.step .cycle) rest r := by
  obtain ⟨age, hwithin, hbusy⟩ := h
  exact ⟨age + 1, hwithin.step_cycle, hbusy.wait⟩

/-- The next half-bit begins, with an edge or without. -/
theorem EdgesCome.drive {v : LineView} {b : Bool} {rest : List Bool}
    (h : EdgesCome v (b :: rest) 0) :
    EdgesCome ((v.step .cycle).step (.line b)) rest transmissionTicks := by
  obtain ⟨age, hwithin, hbusy⟩ := h
  obtain ⟨hline, hlevel⟩ := hwithin.step_cycle.step_line b
  refine ⟨_, hline, ?_⟩
  rw [hlevel]
  exact hbusy.drive

/-- After the last half-bit the line takes any level. -/
theorem EdgesCome.finish {v : LineView} (h : EdgesCome v [] 0) (b : Bool) :
    Within (16 * transmissionTimeoutUs) ((v.step .cycle).step (.line b)) := by
  obtain ⟨age, hwithin, hlimit, -⟩ := h
  unfold monitorTimeout at hlimit
  have hline := (hwithin.step_cycle.step_line b).1
  intro k hk
  have hle := hline k hk
  split at hle <;> omega

/-! ## The course of a transmission -/

/-- One core cycle of a board that is alone on its line: the line takes the level of its pin. -/
def alone (n : Node) : Node := (n.timedStep .cycle).timedStep (.line n.cycle.tx.pin)

/-- The same cycle, with an observer of the line. -/
def watch (s : Node × LineView) : Node × LineView :=
  (s.1.alone, (s.2.step .cycle).step (.line s.1.cycle.tx.pin))

/-- Of the half-bits `all`, the last ones `rest` are still to be driven, after `r` more cycles. -/
structure Sends (all : List Bool) (s : Node × LineView) (rest : List Bool) (r : ℕ) : Prop where
  tx : s.1.tx.Transmitting rest r
  pin : s.1.tx.pin = s.2.level
  watches : s.1.Watches s.2
  edges : EdgesCome s.2 rest r
  -- without an edge so far, only half-bits of one level have been driven
  fresh : s.2.sinceEdge = none → ∃ m, List.replicate m s.2.level ++ rest = all

/-- The transmission of the half-bits `all` ended `since` cycles ago. -/
structure Released (all : List Bool) (s : Node × LineView) (since : ℕ) : Prop where
  tx : s.1.tx.Stopped
  high : s.2.level = true
  watches : s.1.Watches s.2
  ages : ∀ k, s.2.sinceEdge = some k → since ≤ k ∧ k ≤ since + 16 * transmissionTimeoutUs
  fresh : s.2.sinceEdge = none → ∃ m, List.replicate m s.2.level = all

theorem tx_alone (n : Node) : n.alone.tx = n.tx.cycle n.mon.getState := tx_setLine _ _

theorem Watches.watch {s : Node × LineView} (h : s.1.Watches s.2) :
    (Node.watch s).1.Watches (Node.watch s).2 :=
  (h.timedStep .cycle).timedStep (.line s.1.cycle.tx.pin)

/-- During a transmission the main loop does not act on the transmitter. -/
theorem Sends.other {all : List Bool} {s : Node × LineView} {rest : List Bool} {r : ℕ}
    (h : Sends all s rest r) {e : TimedEvent} (he : physical e = false) :
    Sends all (s.1.timedStep e, s.2) rest r := by
  have hview : s.2.step e = s.2 := by
    cases e with
    | transmitterUpdate c random => rfl
    | receiverUpdate => rfl
    | line level => cases he
    | cycle => cases he
  have htx : (s.1.timedStep e).tx = s.1.tx := by
    apply tx_timedStep_of_inTransmission h.tx.inTransmission
    rintro rfl
    cases he
  have hwatches := h.watches.timedStep e
  rw [hview] at hwatches
  refine ⟨?_, ?_, hwatches, h.edges, h.fresh⟩
  · rw [htx]
    exact h.tx
  · rw [htx]
    exact h.pin

theorem Sends.pin_wait {all : List Bool} {s : Node × LineView} {rest : List Bool} {r : ℕ}
    (h : Sends all s rest (r + 1)) : s.1.cycle.tx.pin = s.2.level := by
  rw [tx_cycle, (h.tx.wait s.1.mon.getState).1]
  exact h.pin

theorem Sends.not_collision {all : List Bool} {s : Node × LineView} {rest : List Bool} {r : ℕ}
    (h : Sends all s rest r) : s.1.mon.getState ≠ .collision :=
  h.watches.not_collision (Or.inr h.edges.within)

theorem Sends.pin_drive {all : List Bool} {s : Node × LineView} {b : Bool} {rest : List Bool}
    (h : Sends all s (b :: rest) 0) : s.1.cycle.tx.pin = b := by
  rw [tx_cycle, (h.tx.drive h.not_collision).1]

theorem Sends.pin_finish {all : List Bool} {s : Node × LineView} (h : Sends all s [] 0) :
    s.1.cycle.tx.pin = true := by
  rw [tx_cycle, (h.tx.finish s.1.mon.getState).1]

theorem Sends.wait {all : List Bool} {s : Node × LineView} {rest : List Bool} {r : ℕ}
    (h : Sends all s rest (r + 1)) : Sends all (watch s) rest r := by
  obtain ⟨-, htx⟩ := h.tx.wait s.1.mon.getState
  have hpin := h.pin_wait
  have hview : (watch s).2 = s.2.step .cycle := LineView.step_line_same hpin
  refine ⟨?_, ?_, h.watches.watch, ?_, ?_⟩
  · rw [watch, tx_alone]
    exact htx
  · rw [hview, watch, tx_alone, ← tx_cycle, hpin]
    rfl
  · rw [hview]
    exact h.edges.wait
  · intro hnone
    rw [hview] at hnone ⊢
    exact h.fresh (Option.map_eq_none_iff.mp hnone)

theorem Sends.drive {all : List Bool} {s : Node × LineView} {b : Bool} {rest : List Bool}
    (h : Sends all s (b :: rest) 0) : Sends all (watch s) rest transmissionTicks := by
  obtain ⟨-, htx⟩ := h.tx.drive h.not_collision
  have hpin := h.pin_drive
  have hview : (watch s).2 = (s.2.step .cycle).step (.line b) := by
    rw [watch, hpin]
  refine ⟨?_, ?_, h.watches.watch, ?_, ?_⟩
  · rw [watch, tx_alone]
    exact htx
  · have hlevel : (watch s).2.level = b := by
      rw [h.watches.watch.level]
      show (s.1.cycle.setLine s.1.cycle.tx.pin).idr4 = b
      rw [idr4_setLine, hpin]
    rw [hlevel, watch, tx_alone, ← tx_cycle, hpin]
  · rw [hview]
    exact h.edges.drive
  · intro hnone
    rw [hview] at hnone
    obtain ⟨hbefore, rfl⟩ := silent_of_step hnone
    obtain ⟨m, hm⟩ := h.fresh hbefore
    have hsame : (s.2.step .cycle).step (.line s.2.level) = s.2.step .cycle :=
      LineView.step_line_same rfl
    refine ⟨m + 1, ?_⟩
    rw [hview, hsame, List.replicate_succ', List.append_assoc]
    exact hm

theorem Sends.finish {all : List Bool} {s : Node × LineView} (h : Sends all s [] 0) :
    Released all (watch s) 0 := by
  obtain ⟨-, htx⟩ := h.tx.finish s.1.mon.getState
  have hpin := h.pin_finish
  have hwithin := h.edges.finish s.1.cycle.tx.pin
  have hhigh : (watch s).2.level = true := by
    rw [h.watches.watch.level]
    show (s.1.cycle.setLine s.1.cycle.tx.pin).idr4 = true
    rw [idr4_setLine, hpin]
  refine ⟨?_, hhigh, h.watches.watch, ?_, ?_⟩
  · rw [watch, tx_alone]
    exact htx
  · intro k hk
    exact ⟨Nat.zero_le k, (hwithin k hk).trans (Nat.le_add_left _ _)⟩
  · intro hnone
    obtain ⟨hbefore, hlevel⟩ := silent_of_step hnone
    obtain ⟨m, hm⟩ := h.fresh hbefore
    have hsame : (watch s).2 = s.2.step .cycle := LineView.step_line_same hlevel
    refine ⟨m, ?_⟩
    rw [hsame, ← List.append_nil (List.replicate m _)]
    exact hm

theorem Released.watch {all : List Bool} {s : Node × LineView} {since : ℕ}
    (h : Released all s since) : Released all (watch s) (since + 1) := by
  have hpin : s.1.cycle.tx.pin = s.2.level := by
    rw [tx_cycle, h.tx.cycle, h.tx.pin, h.high]
  have hview : (Node.watch s).2 = s.2.step .cycle := LineView.step_line_same hpin
  refine ⟨?_, ?_, h.watches.watch, ?_, ?_⟩
  · rw [Node.watch, tx_alone, h.tx.cycle]
    exact h.tx
  · rw [hview]
    exact h.high
  · intro k hk
    rw [hview] at hk
    obtain ⟨j, hj, rfl⟩ := Option.map_eq_some_iff.mp hk
    have := h.ages j hj
    omega
  · intro hnone
    rw [hview] at hnone ⊢
    exact h.fresh (Option.map_eq_none_iff.mp hnone)

/-- Where the transmission of the half-bits `all` is after `k` cycles. -/
inductive Course (all : List Bool) (s : Node × LineView) (k : ℕ) : Prop
  | sends {rest : List Bool} {r : ℕ} (sends : Sends all s rest r)
      (left : k + rest.length * slot + (r + 1) = (all.length + 1) * slot)
  | released {since : ℕ} (released : Released all s since)
      (ended : k = (all.length + 1) * slot + since)

theorem Course.watch {all : List Bool} {s : Node × LineView} {k : ℕ} (h : Course all s k) :
    Course all (watch s) (k + 1) := by
  cases h with
  | @sends rest r sends left =>
    cases r with
    | succ r => exact .sends sends.wait (by omega)
    | zero =>
      cases rest with
      | nil =>
        rw [List.length_nil, Nat.zero_mul] at left
        exact .released sends.finish (by omega)
      | cons b rest =>
        rw [List.length_cons, Nat.succ_mul] at left
        have hslot : slot = transmissionTicks + 1 := rfl
        exact .sends sends.drive (by omega)
  | released released ended => exact .released released.watch (by omega)

/-- The transmission of `bytes` starts on a line that is high and idle. -/
structure StartsAlone (n : Node) (bytes : List Byte) : Prop where
  launched : n.tx.Launched bytes
  pin : n.tx.pin = true
  high : n.idr4 = true
  idle : n.mon.getState = .idle
  stopped : n.mon.stk.enable = false

/-- A `'\r'` typed on an idle line starts such a transmission. -/
theorem startsAlone_transmitterUpdate {n : Node} {line : List Byte} (h : n.tx.Waiting line)
    (hblank : blank line = false) (hpin : n.tx.pin = true) (hhigh : n.idr4 = true)
    (hidle : n.mon.getState = .idle) (hstopped : n.mon.stk.enable = false) (random : ℕ) :
    (n.transmitterUpdate carriageReturn random).StartsAlone
      (frameOf n.tx.packetMode n.tx.src n.tx.dest line) := by
  have hlaunched := (h.readReturn hblank random).2
  rw [← hidle] at hlaunched
  exact ⟨hlaunched, (n.tx.pin_mainRoutineUpdate _ _ _).trans hpin, hhigh, hidle, hstopped⟩

theorem StartsAlone.sends {n : Node} {bytes : List Byte} (h : n.StartsAlone bytes)
    (hfit : 2 * bytes.length ≤ bufSize) :
    Sends (sentHalfBits bytes) (n, ⟨true, none⟩) (sentHalfBits bytes) transmissionTicks := by
  have hcode : ∃ bits, sentHalfBits bytes = LineCode.encode bits := by
    unfold sentHalfBits
    split
    · exact ⟨_, halfBits_eq bytes⟩
    · exact ⟨[], rfl⟩
  obtain ⟨bits, hbits⟩ := hcode
  refine ⟨h.launched.transmitting hfit, h.pin, ?_, ?_, fun _ => ⟨0, rfl⟩⟩
  · exact ⟨h.high.symm, Monitor.follows_unknown n.mon true, fun _ => ⟨h.idle, h.stopped⟩⟩
  · rw [hbits]
    exact edgesCome_encode (fun k hk => by cases hk) bits (Nat.le_refl _)

theorem StartsAlone.course {n : Node} {bytes : List Byte} (h : n.StartsAlone bytes)
    (hfit : 2 * bytes.length ≤ bufSize) (k : ℕ) :
    Course (sentHalfBits bytes) (Node.watch^[k] (n, ⟨true, none⟩)) k := by
  induction k with
  | zero =>
    refine .sends (h.sends hfit) ?_
    rw [Nat.zero_add, Nat.succ_mul, slot]
  | succ k ih =>
    rw [Function.iterate_succ_apply']
    exact ih.watch

/-- The number of cycles up to the tick that ends the transmission. -/
def lastTick (bytes : List Byte) : ℕ := ((sentHalfBits bytes).length + 1) * slot

/-- How a transmission goes on a line without disturbance: what holds after `k` cycles. -/
structure AsSent (bytes : List Byte) (k : ℕ) (s : Node × LineView) : Prop where
  inTransmission : s.1.tx.inTransmission = decide (k < lastTick bytes)
  complete : lastTick bytes ≤ k → s.1.tx.transmissionComplete = true
  -- an edge has come at the latest with the last half-bit
  edge : bytes ≠ [] → 2 * bytes.length < bufSize → lastTick bytes ≤ k → s.2.sinceEdge ≠ none
  busy : s.2.sinceEdge ≠ none → k ≤ lastTick bytes → s.1.mon.getState = .busy
  not_collision : s.1.mon.getState ≠ .collision
  -- the last edge comes at the latest with the tick that ends the transmission
  released : lastTick bytes ≤ k →
    s.2.level = true ∧ ∀ age, s.2.sinceEdge = some age → k ≤ lastTick bytes + age
  idle : ∀ age, s.2.sinceEdge = some age → 16 * transmissionTimeoutUs < age →
    s.1.mon.getState = .idle

/-- The line code of a byte is not high all the time. -/
theorem replicate_ne_halfBits {bytes : List Byte} (hne : bytes ≠ []) (m : ℕ) :
    List.replicate m true ≠ halfBits bytes := by
  intro heq
  obtain ⟨b, rest, rfl⟩ := List.exists_cons_of_ne_nil hne
  have hlow : false ∈ halfBits (b :: rest) := by
    rw [halfBits_eq, List.flatMap_cons]
    show false ∈ LineCode.encode (b.getMsbD 0 :: _)
    rw [LineCode.encode_cons]
    cases b.getMsbD 0 <;> simp
  rw [← heq] at hlow
  cases List.eq_of_mem_replicate hlow

/-- **A lone transmission is taken neither for a collision nor for idle.** Whatever bytes fit into
the buffer, from the first edge to the tick that ends the transmission the monitor stays busy; it
never shows a collision, the transmission ends complete, and once the timeout has passed since the
last edge the monitor is idle. -/
theorem asSent {n : Node} {bytes : List Byte} (h : n.StartsAlone bytes)
    (hfit : 2 * bytes.length ≤ bufSize) (k : ℕ) :
    AsSent bytes k (watch^[k] (n, ⟨true, none⟩)) := by
  have hcourse := h.course hfit k
  generalize watch^[k] (n, ⟨true, none⟩) = s at hcourse
  have hlast : lastTick bytes = ((sentHalfBits bytes).length + 1) * slot := rfl
  cases hcourse with
  | @sends rest r sends left =>
    have hbefore : k < lastTick bytes := by
      rw [hlast]
      omega
    have hwithin := sends.edges.within
    refine ⟨?_, ?_, ?_, ?_, ?_, ?_, ?_⟩
    · rw [sends.tx.inTransmission, decide_eq_true hbefore]
    · intro hle
      omega
    · intro _ _ hle
      omega
    · intro hedge _
      obtain ⟨age, hage⟩ := Option.ne_none_iff_exists'.mp hedge
      exact (sends.watches.follows.busy age hage (hwithin age hage)).1
    · exact sends.not_collision
    · intro hle
      omega
    · intro age hage hlong
      have := hwithin age hage
      omega
  | @released since released ended =>
    rw [← hlast] at ended
    refine ⟨?_, ?_, ?_, ?_, ?_, ?_, ?_⟩
    · rw [released.tx.inTransmission, decide_eq_false (by omega)]
    · intro _
      exact released.tx.complete
    · intro hne hroom _ hnone
      obtain ⟨m, hm⟩ := released.fresh hnone
      rw [sentHalfBits, if_pos hroom, released.high] at hm
      exact replicate_ne_halfBits hne m hm
    · intro hedge hle
      obtain ⟨age, hage⟩ := Option.ne_none_iff_exists'.mp hedge
      have := released.ages age hage
      exact (released.watches.follows.busy age hage (by omega)).1
    · exact released.watches.not_collision (Or.inl released.high)
    · intro _
      refine ⟨released.high, ?_⟩
      intro age hage
      have := released.ages age hage
      omega
    · intro age hage hlong
      have hsettled := (released.watches.follows.settled age hage hlong).1
      rw [released.high, if_pos rfl] at hsettled
      exact hsettled

/-- The packet of the line `a`, typed to a board that was just booted. -/
theorem asSent_typedA :
    AsSent (frameOf true 0xAA 0xBB [0x61]) 1100000 (watch^[1100000]
      (((boot 0xAA 0xBB true true true).transmitterUpdate 0x61 0).transmitterUpdate
        carriageReturn 0, ⟨true, none⟩)) := by
  have hboot := Transmitter.waiting_init 0xAA 0xBB true true
  obtain ⟨hwaiting, -⟩ := hboot.readOther (c := 0x61) (by decide) (by decide) .idle 0
  have hstarts := startsAlone_transmitterUpdate
    (n := (boot 0xAA 0xBB true true true).transmitterUpdate 0x61 0) hwaiting rfl rfl rfl rfl rfl 0
  exact asSent hstarts (by decide) 1100000

end Node

end NetworkingCard
