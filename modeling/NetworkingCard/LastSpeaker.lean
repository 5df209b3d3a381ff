import NetworkingCard.Bus
import NetworkingCard.Completion

/-!
# The last board to speak is heard

However boards have collided on the line: once all others are between two messages and stay there,
the message that a board has under way is complete within a bounded number of cycles
(`completes_of_run`). It takes a main loop that calls the transmitter at least once in `patience`
cycles, and no back-off of length 0, which would stop TIM2 for good.

`Sound` is what every run without such a back-off keeps. Boards that have sent nothing since boot
may still hold the line low, for one slot at most (`Transmitter.Releasing`); from then on the line
has the level of the one board's pin, and `Node.UnderWay` bounds the cycles that are left.
-/

namespace NetworkingCard

open Transmitter (backoff)

/-- The core cycles of an event. -/
def BusEvent.cycles {ι : Type} : BusEvent ι → ℕ
  | .cycle => 1
  | .transmitterUpdate _ _ _ | .receiverUpdate _ => 0

namespace Transmitter

/-- Between two messages, with the pin released, or before the tick that releases it, which comes
within `r` cycles. -/
structure Releasing (t : Transmitter) (r : ℕ) : Prop where
  resting : t.Resting
  released : t.pin = true ∨ ∃ k < r, t.Booting k

theorem Releasing.free {t : Transmitter} (h : t.Releasing 0) : t.Free := by
  rcases h.released with hpin | ⟨k, hk, -⟩
  · exact ⟨h.resting, hpin⟩
  · exact absurd hk (Nat.not_lt_zero k)

theorem Releasing.cycle {t : Transmitter} {r : ℕ} (h : t.Releasing (r + 1)) (state : MonitorState) :
    (t.cycle state).Releasing r := by
  refine ⟨h.resting.cycle state, ?_⟩
  rcases h.released with hpin | ⟨k, hk, hboot⟩
  · exact Or.inl (h.resting.pin_cycle hpin state)
  · obtain _ | k := k
    · exact Or.inl (hboot.release state)
    · exact Or.inr ⟨k, by omega, (hboot.wait state).1⟩

theorem Releasing.stays {t : Transmitter} {r : ℕ} (h : t.Releasing r) {state : MonitorState}
    {c : Byte} {random : ℕ} (hstay : (t.mainRoutineUpdate state c random).inTransmission = false) :
    (t.mainRoutineUpdate state c random).Releasing r := by
  refine ⟨(h.resting.stays hstay).2, ?_⟩
  rcases h.released with hpin | ⟨k, hk, hboot⟩
  · exact Or.inl ((t.pin_mainRoutineUpdate state c random).trans hpin)
  · exact Or.inr ⟨k, hk, hboot.stays hstay⟩

end Transmitter

namespace Bus

variable {ι : Type} {w : Wiring ι} {b : ι → Node} {v : LineView}

/-- A back-off that is started is not of length 0. -/
def DrawsBackoff (b : ι → Node) : BusEvent ι → Prop
  | .transmitterUpdate i c random =>
    (b i).startsBackoff (.transmitterUpdate c random) = true → backoff random ≠ 0
  | .receiverUpdate _ | .cycle => True

/-! ## What every run keeps -/

/-- The transmitters tick, and all monitors have followed the line. -/
structure Sound (w : Wiring ι) (b : ι → Node) (v : LineView) : Prop extends Follows w b v where
  ticking : ∀ i, (b i).tx.Ticking

theorem sound_boot (packetMode : ι → Bool) (src dest : ι → Byte) (pins : ι → Bool) :
    Sound w (boot w packetMode src dest pins) ⟨w.level pins, none⟩ where
  toFollows := follows_boot packetMode src dest pins
  ticking := fun j => Transmitter.ticking_init (src j) (dest j) (packetMode j) (pins j)

theorem Sound.cycle (h : Sound w b v) :
    Sound w (Bus.cycle w b) ((v.step .cycle).step (.line (Bus.level w b))) := by
  refine ⟨h.toFollows.cycle, ?_⟩
  intro i
  rw [tx_cycle]
  exact (h.ticking i).cycle _

section Steps

variable [DecidableEq ι]

theorem Sound.update (h : Sound w b v) (k : ι) {e : Node.TimedEvent} (he : Node.physical e = false)
    (hticking : ((b k).timedStep e).tx.Ticking) :
    Sound w (Function.update b k ((b k).timedStep e)) v := by
  refine ⟨h.toFollows.update k he, ?_⟩
  intro i
  by_cases hi : i = k
  · subst hi
    rw [Function.update_self]
    exact hticking
  · rw [Function.update_of_ne hi]
    exact h.ticking i

theorem Sound.step (h : Sound w b v) {e : BusEvent ι} (hdraw : DrawsBackoff b e) :
    ∃ v', Sound w (step w b e) v' := by
  cases e with
  | transmitterUpdate k c random =>
    have hticking : ((b k).transmitterUpdate c random).tx.Ticking := by
      apply (h.ticking k).mainRoutineUpdate
      intro hidle htx hcomplete
      apply hdraw
      rw [Node.startsBackoff, hidle, htx, hcomplete]
      rfl
    exact ⟨v, h.update (e := .transmitterUpdate c random) k rfl hticking⟩
  | receiverUpdate k => exact ⟨v, h.update (e := .receiverUpdate) k rfl (h.ticking k)⟩
  | cycle => exact ⟨_, h.cycle⟩

/-- Whole runs from boot. -/
theorem sound_of_run {packetMode : ι → Bool} {src dest : ι → Byte} {pins : ι → Bool}
    {es : List (BusEvent ι)} (h : Runs.Along (fun b e => some (Bus.step w b e)) DrawsBackoff
      (boot w packetMode src dest pins) es) :
    ∃ v, Sound w (run w (boot w packetMode src dest pins) es) v := by
  apply Runs.run_invariant_along (I := fun b => ∃ v, Sound w b v) ?_
    ⟨_, sound_boot packetMode src dest pins⟩ h (Runs.run_total (Bus.step w) _ es)
  rintro b e b' ⟨v, hv⟩ hdraw hstep
  cases hstep
  exact hv.step hdraw

end Steps

/-- A board without a message releases the line within a slot. -/
theorem Sound.releasing (h : Sound w b v) {i : ι} (hdone : (b i).Done) :
    (b i).tx.Releasing Node.slot := by
  have hticking := h.ticking i
  obtain ⟨hactive, hcount⟩ := hticking.unscaled (Or.inl hdone.1)
  have hrest : (b i).tx.Resting := ⟨hticking.inv, hdone.2, hdone.1, hactive, hcount⟩
  refine ⟨hrest, (hticking.rested hdone.1).imp id ?_⟩
  rintro ⟨r, hclock⟩
  have hcnt := hclock.cnt
  have hslot : Node.slot = transmissionTicks + 1 := rfl
  exact ⟨r, by omega, hrest, hclock⟩

/-- Where all others release the line, it is that of the one board. -/
theorem Sound.speaks (h : Sound w b v) {i : ι} (hothers : ∀ j, j ≠ i → (b j).tx.Free) :
    Node.Speaks (b i, v) := by
  refine ⟨h.ticking i, h.watches i, ?_⟩
  rw [h.line]
  exact w.lone (fun j => (b j).tx.pin) i fun j hj => (hothers j hj).pin

/-! ## One board that has something to send -/

/-- Board `i` has a message under way; the others are between two messages. -/
structure LastSpeaker (b : ι → Node) (i : ι) (patience len since left : ℕ) : Prop where
  others : ∀ j, j ≠ i → (b j).tx.Free
  underWay : ∃ v, Node.UnderWay patience len (b i, v) since left

variable {i : ι} {patience len since left : ℕ}

/-- The line has the level of the one board's pin. -/
theorem LastSpeaker.cycle_speaker (h : LastSpeaker b i patience len since left) :
    cycle w b i = (b i).alone := by
  rw [cycle, level_of_free h.others]
  rfl

theorem LastSpeaker.cycle (h : LastSpeaker b i patience len since left) (hcall : since < patience) :
    (cycle w b i).Done ∨ ∃ left', left' + 1 ≤ left ∧
      LastSpeaker (Bus.cycle w b) i patience len (since + 1) left' := by
  obtain ⟨v, hv⟩ := h.underWay
  have hadvances := hv.watch hcall
  rw [show (Node.watch (b i, v)).1 = Bus.cycle w b i from h.cycle_speaker.symm] at hadvances
  rcases hadvances with hdone | ⟨v', left', hless, hv'⟩
  · exact Or.inl hdone
  · right
    refine ⟨left', hless, ?_, v', hv'⟩
    intro j hj
    rw [tx_cycle]
    exact (h.others j hj).cycle _

section Steps

variable [DecidableEq ι]

/-- The bus, and the cycles since board `i` has last called its transmitter. -/
def polledStep (w : Wiring ι) (i : ι) (s : (ι → Node) × ℕ) (e : BusEvent ι) : (ι → Node) × ℕ :=
  (step w s.1 e, match e with
    | .transmitterUpdate j _ _ => if j = i then 0 else s.2
    | .receiverUpdate _ => s.2
    | .cycle => s.2 + 1)

/-- The others start nothing, and board `i` calls its transmitter once in `patience` cycles. -/
def LeavesLine (i : ι) (patience : ℕ) (s : (ι → Node) × ℕ) (e : BusEvent ι) : Prop :=
  DrawsBackoff s.1 e ∧ match e with
    | .transmitterUpdate j _ _ => j ≠ i → starts s.1 e = false
    | .receiverUpdate _ => True
    | .cycle => s.2 < patience

theorem LastSpeaker.transmitterUpdate (h : LastSpeaker b i patience len since left) {j : ι}
    {c : Byte} {random : ℕ} (hleaves : LeavesLine i patience (b, since)
      (.transmitterUpdate j c random)) :
    LastSpeaker (step w b (.transmitterUpdate j c random)) i patience len
      (if j = i then 0 else since) left := by
  obtain ⟨v, hv⟩ := h.underWay
  obtain ⟨hdraw, hstay⟩ := hleaves
  by_cases hj : j = i
  · subst hj
    rw [if_pos rfl]
    refine ⟨?_, v, ?_⟩
    · intro k hk
      rw [step, Function.update_of_ne hk]
      exact h.others k hk
    · rw [step, Function.update_self]
      exact hv.transmitterUpdate hdraw
  · rw [if_neg hj]
    refine ⟨?_, v, ?_⟩
    · intro k hk
      by_cases hkj : k = j
      · subst hkj
        have hfree := h.others k hk
        have hno := hstay hj
        rw [starts, Node.starts, hfree.inTransmission, Bool.not_false, Bool.true_and] at hno
        rw [step, Function.update_self]
        exact hfree.stays hno
      · rw [step, Function.update_of_ne hkj]
        exact h.others k hk
    · rw [step, Function.update_of_ne (Ne.symm hj)]
      exact hv

theorem LastSpeaker.receiverUpdate (h : LastSpeaker b i patience len since left) (j : ι) :
    LastSpeaker (step w b (.receiverUpdate j)) i patience len since left := by
  obtain ⟨v, hv⟩ := h.underWay
  refine ⟨?_, v, ?_⟩
  · intro k hk
    by_cases hkj : k = j
    · subst hkj
      rw [step, Function.update_self]
      exact h.others k hk
    · rw [step, Function.update_of_ne hkj]
      exact h.others k hk
  · by_cases hj : i = j
    · subst hj
      rw [step, Function.update_self]
      exact hv.receiverUpdate
    · rw [step, Function.update_of_ne hj]
      exact hv

/-- One event: the message is complete, or a cycle has brought it closer to its end. -/
theorem LastSpeaker.step {e : BusEvent ι} (h : LastSpeaker b i patience len since left)
    (hleaves : LeavesLine i patience (b, since) e) :
    (step w b e i).Done ∨ ∃ left', left' + e.cycles ≤ left ∧
      LastSpeaker (polledStep w i (b, since) e).1 i patience len
        (polledStep w i (b, since) e).2 left' := by
  cases e with
  | transmitterUpdate j c random =>
    exact Or.inr ⟨left, Nat.le_refl _, h.transmitterUpdate (w := w) hleaves⟩
  | receiverUpdate j => exact Or.inr ⟨left, Nat.le_refl _, h.receiverUpdate (w := w) j⟩
  | cycle => exact h.cycle hleaves.2

theorem fst_polledRun (s : (ι → Node) × ℕ) (es : List (BusEvent ι)) :
    (es.foldl (polledStep w i) s).1 = run w s.1 es := by
  induction es generalizing s with
  | nil => rfl
  | cons e es ih => exact ih (polledStep w i s e)

/-- The core cycles of a run. -/
def cycles (es : List (BusEvent ι)) : ℕ := (es.map BusEvent.cycles).sum

/-- The cycles after which a message is complete once the others have released the line: an attempt
that collides, the time until the next call, a back-off, and an attempt that does not collide. -/
def loneWord (patience : ℕ) : ℕ :=
  Node.firstSlot + 8 * bufSize * Node.slot + Node.afterCollision patience (8 * bufSize)

/-- The cycles after which a message is complete, from any state of the bus. -/
def lastWord (patience : ℕ) : ℕ := Node.slot + loneWord patience

theorem lastWord_eq (patience : ℕ) : lastWord patience = lastWord 0 + patience := by
  unfold lastWord loneWord Node.afterCollision
  generalize Node.firstSlot = first
  generalize 8 * bufSize * Node.slot = attempt
  generalize Node.afterCall _ = after
  generalize 16 * transmissionTimeoutUs = timeout
  omega

omit [DecidableEq ι] in
theorem length_bitsOf_le (h : Sound w b v) (i : ι) :
    (bitsOf (b i).tx.transBuf).length ≤ 8 * bufSize := by
  have hput := (h.ticking i).inv.valid.1
  rw [length_bitsOf]
  omega

omit [DecidableEq ι] in
/-- Once the others have released the line, a message that is not complete is the last one. -/
theorem Sound.lastSpeaker (h : Sound w b v) (hothers : ∀ j, j ≠ i → (b j).tx.Free)
    (hnot : ¬(b i).Done) (patience since : ℕ) :
    ∃ len left, left ≤ loneWord patience ∧ LastSpeaker b i patience len since left := by
  have hunderWay := Node.underWay_of_speaks patience since (h.speaks hothers) hnot
  have hslots : (bitsOf (b i).tx.transBuf).length * Node.slot ≤ 8 * bufSize * Node.slot :=
    Nat.mul_le_mul_right _ (length_bitsOf_le h i)
  refine ⟨_, _, ?_, hothers, v, hunderWay⟩
  unfold loneWord Node.afterCollision Node.afterCall
  dsimp only
  omega

/-- Board `i` has the last message that is not complete, and at most `left` cycles until it is: the
others have not all released the line yet, or it has the line to itself. -/
inductive Nears (w : Wiring ι) (i : ι) (patience : ℕ) (s : (ι → Node) × ℕ) (left : ℕ) : Prop
  | settling {v : LineView} {k : ℕ} (sound : Sound w s.1 v)
      (others : ∀ j, j ≠ i → (s.1 j).tx.Releasing (k + 1))
      (left_le : k + 1 + loneWord patience ≤ left)
  | speaking {len : ℕ} (speaker : LastSpeaker s.1 i patience len s.2 left)

omit [DecidableEq ι] in
theorem Nears.pos {s : (ι → Node) × ℕ} (h : Nears w i patience s left) : 0 < left := by
  cases h with
  | settling sound others left_le => omega
  | speaking speaker =>
    obtain ⟨v, hv⟩ := speaker.underWay
    exact hv.pos

/-- The others start nothing. -/
theorem releasing_other {k : ℕ} {e : BusEvent ι} (he : e ≠ .cycle)
    (hothers : ∀ j, j ≠ i → (b j).tx.Releasing k) (hleaves : LeavesLine i patience (b, since) e) :
    ∀ j, j ≠ i → (step w b e j).tx.Releasing k := by
  intro j hj
  cases e with
  | cycle => exact absurd rfl he
  | receiverUpdate l =>
    by_cases hjl : j = l
    · subst hjl
      rw [step, Function.update_self]
      exact hothers j hj
    · rw [step, Function.update_of_ne hjl]
      exact hothers j hj
  | transmitterUpdate l c random =>
    by_cases hjl : j = l
    · subst hjl
      have hstay := inTransmission_of_stays (hothers j hj).resting (hleaves.2 hj)
      rw [step, Function.update_self]
      exact (hothers j hj).stays hstay
    · rw [step, Function.update_of_ne hjl]
      exact hothers j hj

theorem Nears.step {s : (ι → Node) × ℕ} (h : Nears w i patience s left) {e : BusEvent ι}
    (hleaves : LeavesLine i patience s e) :
    (Bus.step w s.1 e i).Done ∨
      ∃ left', left' + e.cycles ≤ left ∧ Nears w i patience (polledStep w i s e) left' := by
  cases h with
  | speaking speaker =>
    refine (speaker.step hleaves).imp id ?_
    rintro ⟨left', hless, hnext⟩
    exact ⟨left', hless, .speaking hnext⟩
  | @settling v k sound others left_le =>
    by_cases he : e = .cycle
    · subst he
      have hothers : ∀ j, j ≠ i → (Bus.cycle w s.1 j).tx.Releasing k := by
        intro j hj
        rw [tx_cycle]
        exact (others j hj).cycle _
      obtain _ | k := k
      · -- the line is that of board `i`
        by_cases hdone : (Bus.cycle w s.1 i).Done
        · exact Or.inl hdone
        obtain ⟨len, left', hless, hspeaker⟩ := sound.cycle.lastSpeaker
          (fun j hj => (hothers j hj).free) hdone patience (s.2 + 1)
        exact Or.inr ⟨left', by simp only [BusEvent.cycles]; omega, .speaking hspeaker⟩
      · refine Or.inr ⟨k + 1 + loneWord patience, ?_, .settling sound.cycle hothers (Nat.le_refl _)⟩
        simp only [BusEvent.cycles]
        omega
    · obtain ⟨v', hsound⟩ := sound.step hleaves.1
      have hzero : e.cycles = 0 := by
        cases e with
        | cycle => exact absurd rfl he
        | transmitterUpdate j c random => rfl
        | receiverUpdate j => rfl
      refine Or.inr ⟨left, by omega, .settling hsound (releasing_other he others hleaves) left_le⟩

/-- **The last board to speak is heard.** Whatever levels the pins have at boot and whatever has
happened on the bus since, if from some moment on the other boards have nothing to send, then the
message that one board has under way is complete after a bounded number of cycles. -/
theorem completes_of_run {packetMode : ι → Bool} {src dest : ι → Byte} {pins : ι → Bool}
    {es₀ es : List (BusEvent ι)}
    (hdraws : Runs.Along (fun b e => some (Bus.step w b e)) DrawsBackoff
      (boot w packetMode src dest pins) es₀)
    (hothers : ∀ j, j ≠ i → (run w (boot w packetMode src dest pins) es₀ j).Done)
    (hleaves : Runs.Along (fun s e => some (polledStep w i s e)) (LeavesLine i patience)
      (run w (boot w packetMode src dest pins) es₀, 0) es)
    (hlong : lastWord patience ≤ cycles es) :
    ∃ es₁ es₂, es = es₁ ++ es₂ ∧
      (run w (boot w packetMode src dest pins) (es₀ ++ es₁) i).Done := by
  obtain ⟨v, hsound⟩ := sound_of_run hdraws
  have hrun (es₁ : List (BusEvent ι)) : run w (boot w packetMode src dest pins) (es₀ ++ es₁) =
      run w (run w (boot w packetMode src dest pins) es₀) es₁ := List.foldl_append
  simp only [hrun]
  generalize run w (boot w packetMode src dest pins) es₀ = b at hothers hleaves hsound
  have hstart : Nears w i patience (b, 0) (lastWord patience) :=
    .settling hsound (fun j hj => hsound.releasing (hothers j hj)) (Nat.le_refl _)
  obtain ⟨es₁, es₂, s, hsplit, hs, hgoal⟩ := Runs.reaches_of_rank
    (I := Nears w i patience) (D := fun s => (s.1 i).Done) (fun s k hs => hs.pos)
    (fun s k e s' hs hP hstep => by
      cases hstep
      exact hs.step hP)
    hstart hleaves (Runs.run_total (polledStep w i) _ es) hlong
  refine ⟨es₁, es₂, hsplit, ?_⟩
  rw [Runs.run_total (polledStep w i)] at hs
  cases hs
  rw [fst_polledRun] at hgoal
  exact hgoal

/-- The main loop may leave the transmitter alone for `patience` cycles. -/
theorem leavesLine_cycles {n : ℕ} (s : (ι → Node) × ℕ) (hn : s.2 + n ≤ patience) :
    Runs.Along (fun s e => some (polledStep w i s e)) (LeavesLine i patience) s
      (List.replicate n .cycle) := by
  induction n generalizing s with
  | zero => trivial
  | succ n ih =>
    refine ⟨⟨trivial, show s.2 < patience by omega⟩, ?_⟩
    rintro s' ⟨⟩
    apply ih
    show s.2 + 1 + n ≤ patience
    omega

/-- The line `a` is typed to the first of two boards, which calls its transmitter once more. -/
theorem completes_typedA :
    let b := boot (Wiring.wiredAnd Bool) (fun _ => true) (fun _ => 0xAA) (fun _ => 0xBB)
      fun _ => false
    let es := List.replicate (lastWord 0) (BusEvent.cycle (ι := Bool)) ++
      .transmitterUpdate false 0 1 :: List.replicate (lastWord 0) .cycle
    ∃ es₁ es₂, es = es₁ ++ es₂ ∧
      (run (Wiring.wiredAnd Bool) b ([.transmitterUpdate false 0x61 1,
        .transmitterUpdate false carriageReturn 1] ++ es₁) false).Done := by
  intro b
  have hnonzero : backoff 1 ≠ 0 := by decide
  obtain ⟨patience, hpatience⟩ : ∃ patience, patience = lastWord 0 := ⟨_, rfl⟩
  have hlast : lastWord patience = patience + patience := by
    rw [lastWord_eq, ← hpatience]
  rw [← hpatience]
  intro es
  have hdraws : Runs.Along (fun b e => some (Bus.step (Wiring.wiredAnd Bool) b e)) DrawsBackoff b
      [.transmitterUpdate false 0x61 1, .transmitterUpdate false carriageReturn 1] := by
    apply Runs.along_of_forall
    intro s e he
    simp only [List.mem_cons, List.not_mem_nil, or_false] at he
    rcases he with rfl | rfl <;> exact fun _ => hnonzero
  have hothers : ∀ j, j ≠ false → (run (Wiring.wiredAnd Bool) b
      [.transmitterUpdate false 0x61 1, .transmitterUpdate false carriageReturn 1] j).Done := by
    intro j hj
    have hidle : run (Wiring.wiredAnd Bool) b
        [.transmitterUpdate false 0x61 1, .transmitterUpdate false carriageReturn 1] j = b j := by
      simp only [run, List.foldl_cons, List.foldl_nil, step]
      rw [Function.update_of_ne hj, Function.update_of_ne hj]
    rw [hidle]
    exact ⟨rfl, rfl⟩
  have hcycles : cycles es = patience + patience := by
    simp [cycles, es, BusEvent.cycles]
  refine completes_of_run hdraws hothers ?_ (by rw [hcycles, hlast])
  generalize run (Wiring.wiredAnd Bool) b _ = b₁
  refine (leavesLine_cycles (b₁, 0) (Nat.zero_add patience).le).concat
    (Runs.run_total (polledStep (Wiring.wiredAnd Bool) false) _ _) ?_
  -- the call begins a new count
  generalize List.foldl _ _ _ = s
  refine ⟨⟨fun _ => hnonzero, fun hne => absurd rfl hne⟩, ?_⟩
  rintro s' ⟨⟩
  exact leavesLine_cycles _ (Nat.zero_add patience).le

end Steps

end Bus

end NetworkingCard
