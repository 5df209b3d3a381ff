import NetworkingCard.Delivery
import NetworkingCard.Exclusion

/-!
# Broadcast on the line

What all boards of a bus hear, in packet mode. `OnBus` adds to the phases of the bus what each board
has decoded: it is in a gap (`Node.Gap`), or hears the frame that is on the air (`Node.OnAir`), the
same one as all others. `OnBus.step` follows it over one event, and `OnBus.run` over a run in which
the starts are apart and every idle gap is polled.

The first of these gaps begins when the first ticks of the boards release the line. A frame that is
started before that may be lost (`StartsReleased`).
-/

namespace NetworkingCard

open Transmitter (frameOf sentHalfBits readChar_frame transmitData_frame)

namespace Transmitter

/-- A board set up with these settings, that has stored no `'\r'`. -/
structure Typing (t : Transmitter) (settings : Bool × Byte × Byte) : Prop where
  settings_eq : t.settings = settings
  no_return : carriageReturn ∉ t.line

theorem Typing.readChar {t : Transmitter} {settings : Bool × Byte × Byte} (h : t.Typing settings)
    (hinv : t.Inv) (c : Byte) : (t.readChar c).Typing settings := by
  have hlt : t.dataCur < phMsgSize := Nat.lt_of_le_of_lt hinv.dataCur_le (by decide)
  refine ⟨?_, ?_⟩
  · rw [readChar_frame]
    exact h.settings_eq
  · by_cases hc : c = carriageReturn
    · rw [hc, (readChar_return t hlt).2]
      split
      · simp
      · exact h.no_return
    · rw [(readChar_other t hc hinv.dataCur_le).2]
      intro hmem
      rcases List.mem_append.mp (List.mem_of_mem_take hmem) with hold | hnew
      · exact h.no_return hold
      · exact hc (List.mem_singleton.mp hnew).symm

theorem Typing.mainRoutineUpdate {t : Transmitter} {settings : Bool × Byte × Byte}
    (h : t.Typing settings) (hinv : t.Inv) (state : MonitorState) (c : Byte) (random : ℕ) :
    (t.mainRoutineUpdate state c random).Typing settings := by
  have hread := h.readChar hinv c
  rcases t.mainRoutineUpdate_cases state c random with
    ⟨-, -, heq⟩ | ⟨-, -, heq⟩ | ⟨-, -, -, heq⟩ | ⟨-, -, -, heq⟩
  · rw [heq]
    exact h
  · rw [heq]
    exact hread
  · rw [heq, transmitData_frame]
    exact ⟨hread.settings_eq, List.not_mem_nil⟩
  · rw [heq]
    exact ⟨h.settings_eq, h.no_return⟩

/-- A finished line has been typed, and fits into a packet. -/
theorem Typing.typedLine {t : Transmitter} {settings : Bool × Byte × Byte} (h : t.Typing settings)
    (hinv : t.Inv) (hgot : t.gotMessage = true) : TypedLine t.line := by
  have hblank := hinv.line hgot
  have hlen := hinv.dataCur_le
  rw [← Bool.not_eq_true, blank_iff] at hblank
  refine ⟨?_, ?_, h.no_return, ?_⟩
  · intro hnil
    exact hblank (by rw [hnil]; rfl)
  · rw [length_line]
    exact hlen
  · intro hzero
    rw [List.head?_eq_getElem?] at hzero
    exact hblank (by rw [hzero]; rfl)

end Transmitter

namespace Node

theorem typing_timedStep {n : Node} {settings : Bool × Byte × Byte} (hinv : n.tx.Inv)
    (h : n.tx.Typing settings) (e : TimedEvent) : (n.timedStep e).tx.Typing settings := by
  cases e with
  | transmitterUpdate c random => exact h.mainRoutineUpdate hinv _ c random
  | receiverUpdate => exact h
  | line level =>
    rw [timedStep, tx_setLine]
    exact h
  | cycle =>
    rw [timedStep, tx_cycle]
    cases hupd : n.tx.tim2.updates
    · rw [Transmitter.cycle_of_not_updates hupd]
      exact ⟨h.settings_eq, h.no_return⟩
    · rw [Transmitter.cycle_of_updates hupd]
      rcases Transmitter.tim2IRQHandler_cases { n.tx with tim2 := n.tx.tim2.updateEvent }
        n.mon.getState with ⟨-, heq⟩ | ⟨-, -, heq⟩ | ⟨-, -, -, heq⟩ | ⟨-, -, -, heq⟩
      all_goals
        rw [heq]
        exact ⟨h.settings_eq, h.no_return⟩

end Node

namespace Bus

variable {ι : Type} [DecidableEq ι] {w : Wiring ι} {b : ι → Node}

/-! ## What each board hears -/

/-- What an event is for board `j`. -/
def heardBy (w : Wiring ι) (j : ι) (b : ι → Node) : BusEvent ι → List Node.TimedEvent
  | .transmitterUpdate i c random => if i = j then [.transmitterUpdate c random] else []
  | .receiverUpdate i => if i = j then [.receiverUpdate] else []
  | .cycle => [.cycle, .line (level w b)]

/-- The run of board `j`. -/
def heard (w : Wiring ι) (b : ι → Node) (j : ι) (es : List (BusEvent ι)) : List Node.TimedEvent :=
  Runs.outputs (fun b e => some (step w b e)) (heardBy w j) b es

theorem heard_cons (b : ι → Node) (j : ι) (e : BusEvent ι) (es : List (BusEvent ι)) :
    heard w b j (e :: es) = heardBy w j b e ++ heard w (step w b e) j es :=
  Runs.outputs_cons rfl es

/-- Each board does what it hears. -/
theorem board_step (b : ι → Node) (e : BusEvent ι) (j : ι) :
    step w b e j = (b j).timedRun (heardBy w j b e) := by
  cases e with
  | transmitterUpdate i c random =>
    by_cases hij : i = j
    · subst hij
      rw [heardBy, if_pos rfl, step, Function.update_self]
      rfl
    · rw [heardBy, if_neg hij, step, Function.update_of_ne (Ne.symm hij), Node.timedRun_nil]
  | receiverUpdate i =>
    by_cases hij : i = j
    · subst hij
      rw [heardBy, if_pos rfl, step, Function.update_self]
      rfl
    · rw [heardBy, if_neg hij, step, Function.update_of_ne (Ne.symm hij), Node.timedRun_nil]
  | cycle => rfl

/-- What every timed step of a board keeps, every event of the bus keeps. -/
theorem board_invariant {I : Node → Prop} (hstep : ∀ n e, I n → I (n.timedStep e)) {j : ι}
    (h : I (b j)) (e : BusEvent ι) : I (step w b e j) := by
  rw [board_step]
  exact Node.timedRun_invariant hstep h _

/-! ## What is sent -/

/-- The board and the line of the transmission that an event starts. -/
def sentBy (b : ι → Node) : BusEvent ι → List (ι × List Byte)
  | .transmitterUpdate i c random =>
    if starts b (.transmitterUpdate i c random) then [(i, ((b i).tx.readChar c).line)] else []
  | .receiverUpdate _ | .cycle => []

/-- The lines sent, each with its sender, in the order in which their transmissions start. -/
def sentLines (w : Wiring ι) (b : ι → Node) (es : List (BusEvent ι)) : List (ι × List Byte) :=
  Runs.outputs (fun b e => some (step w b e)) sentBy b es

theorem sentLines_cons (b : ι → Node) (e : BusEvent ι) (es : List (BusEvent ι)) :
    sentLines w b (e :: es) = sentBy b e ++ sentLines w (step w b e) es :=
  Runs.outputs_cons rfl es

omit [DecidableEq ι] in
theorem sentBy_of_not_starts {e : BusEvent ι} (h : starts b e = false) : sentBy b e = [] := by
  cases e with
  | transmitterUpdate i c random => rw [sentBy, h, if_neg Bool.false_ne_true]
  | receiverUpdate i => rfl
  | cycle => rfl

/-- The frames of the lines sent. -/
def frames (src dest : ι → Byte) (lines : List (ι × List Byte)) : List (List Byte) :=
  lines.map fun s => frameOf true (src s.1) (dest s.1) s.2

/-! ## What all boards hear -/

open Node (CaughtUp Gap OnAir GapPolled watchedStep watchedRun watchedRun_append)

/-- No board starts a transmission while one of them still holds the line low since boot. -/
def StartsReleased (b : ι → Node) (e : BusEvent ι) : Prop :=
  starts b e = true → ∀ i, (b i).tx.pin = true

/-- The record of each board's receiver calls after one event. -/
def polledAfter (w : Wiring ι) (b : ι → Node) (polled : ι → Bool) (e : BusEvent ι) : ι → Bool :=
  fun j => (watchedRun (b j, polled j) (heardBy w j b e)).2

theorem watchedRun_heardBy (b : ι → Node) (polled : ι → Bool) (e : BusEvent ι) (j : ι) :
    watchedRun (b j, polled j) (heardBy w j b e) = (step w b e j, polledAfter w b polled e j) := by
  refine Prod.ext ?_ rfl
  rw [Node.fst_watchedRun, board_step]

/-- No board has released the line yet, or all boards are in a gap after the packets `sent`, or all
hear the last of them, of which the half-bits `rest` are still to come. -/
inductive OnBus (w : Wiring ι) (b : ι → Node) (polled : ι → Bool) (since : Option ℕ)
    (sent : List (List Byte)) : Prop
  | booting {v : LineView} {s : ℕ} (booting : Booting w b v s) (since_eq : since = none)
      (sent_eq : sent = []) (caughtUp : ∀ j, CaughtUp (b j, polled j) [])
  | quiet {v : LineView} (quiet : Quiet b v) (gap : ∀ j, ∃ age, Gap (b j, polled j) sent age)
  | sending {v : LineView} {i : ι} {done : List (List Byte)} {p : List Byte} {rest : List Bool}
      {r k : ℕ} (sending : Sending b v i p rest r) (since_eq : since = some k)
      (left : k + rest.length * Node.slot + (r + 1) =
        ((sentHalfBits p).length + 1) * Node.slot)
      (length_le : p.length ≤ sizeofPacketHeader)
      (onAir : ∀ j, OnAir (b j, polled j) done p rest r) (sent_eq : sent = done ++ [p])

variable {polled : ι → Bool} {since : Option ℕ} {sent : List (List Byte)}

omit [DecidableEq ι] in
/-- A level that the line has already is no edge. -/
theorem heard_same {j : ι} {level : Bool} (h : level = (b j).idr4) :
    watchedStep (watchedStep (b j, polled j) .cycle) (.line level) =
      watchedStep (b j, polled j) .cycle :=
  Link.watchedStep_same (s := watchedStep (b j, polled j) .cycle) h

/-- One core cycle: each board hears the level that the bus takes. -/
theorem OnBus.cycle (h : OnBus w b polled since sent)
    (hpolled : ∀ j, GapPolled (watchedStep (b j, polled j) .cycle) (.line (level w b))) :
    OnBus w (step w b .cycle) (polledAfter w b polled .cycle) (since.map (· + 1)) sent := by
  have hheard : ∀ j, (step w b .cycle j, polledAfter w b polled .cycle j) =
      watchedStep (watchedStep (b j, polled j) .cycle) (.line (level w b)) := by
    intro j
    rw [← watchedRun_heardBy]
    rfl
  cases h with
  | @booting v s booting since_eq sent_eq caughtUp =>
    cases s with
    | succ s =>
      obtain ⟨hbooting, hlevel⟩ := booting.wait
      refine .booting hbooting (by rw [since_eq, Option.map_none]) sent_eq fun j => ?_
      rw [hheard, heard_same (hlevel.trans (booting.follows.watches j).level)]
      exact (caughtUp j).cycle
    | zero =>
      -- the first ticks release the line
      obtain ⟨v', hquiet⟩ := booting.release
      refine .quiet hquiet fun j => ?_
      have hpin : ∀ i, (b i).cycle.tx.pin = true := fun i => (booting.booting i).release _
      have hlevel : level w b = true := (w.lone _ j fun i _ => hpin i).trans (hpin j)
      rw [hheard, hlevel, sent_eq]
      exact ⟨0, (caughtUp j).cycle.released⟩
  | quiet quiet gap =>
    refine .quiet quiet.cycle ?_
    intro j
    obtain ⟨age, hgap⟩ := gap j
    rw [hheard, quiet.level_eq j, hgap.cycle.high]
    exact ⟨age + 1, hgap.cycle⟩
  | @sending v i done p rest r k sending since_eq left length_le onAir sent_eq =>
    rw [since_eq, Option.map_some]
    cases r with
    | succ r =>
      -- between two ticks the level stays
      obtain ⟨hsending, hlevel⟩ := sending.wait (w := w)
      refine .sending hsending rfl (by omega) length_le ?_ sent_eq
      intro j
      rw [hheard, heard_same (hlevel.trans (sending.watches j).level)]
      exact (onAir j).wait
    | zero =>
      cases rest with
      | nil =>
        -- the packet is over: the line is released
        obtain ⟨hquiet, hlevel⟩ := sending.finish (w := w)
        refine .quiet hquiet ?_
        intro j
        rw [hheard, hlevel, sent_eq]
        exact ⟨0, (onAir j).release sending.nonempty length_le⟩
      | cons a rest =>
        -- the next half-bit
        obtain ⟨hsending, hlevel⟩ := sending.drive (w := w)
        rw [List.length_cons, Nat.succ_mul] at left
        have hslot : Node.slot = transmissionTicks + 1 := rfl
        refine .sending hsending rfl (by omega) length_le ?_ sent_eq
        intro j
        have hedge := hpolled j
        rw [hlevel] at hedge
        rw [hheard, hlevel]
        exact (onAir j).drive length_le hedge

/-- Calls of main-loop routines are no physical events. -/
theorem not_physical_of_mem_heardBy {e : BusEvent ι} (he : e ≠ .cycle) (j : ι)
    {f : Node.TimedEvent} (hf : f ∈ heardBy w j b e) : Node.physical f = false := by
  cases e with
  | transmitterUpdate i c random =>
    rw [heardBy] at hf
    split at hf
    · rw [List.mem_singleton.mp hf]
      rfl
    · cases hf
  | receiverUpdate i =>
    rw [heardBy] at hf
    split at hf
    · rw [List.mem_singleton.mp hf]
      rfl
    · cases hf
  | cycle => exact absurd rfl he

/-- They leave a board in its gap, or the packet on the air. -/
theorem gap_others {all : List (List Byte)} {age : ℕ} {j : ι} (h : Gap (b j, polled j) all age)
    {e : BusEvent ι} (he : e ≠ .cycle) :
    Gap (step w b e j, polledAfter w b polled e j) all age := by
  rw [← watchedRun_heardBy]
  exact h.others fun f hf => not_physical_of_mem_heardBy he j hf

theorem caughtUp_others {all : List (List Byte)} {j : ι} (h : CaughtUp (b j, polled j) all)
    {e : BusEvent ι} (he : e ≠ .cycle) :
    CaughtUp (step w b e j, polledAfter w b polled e j) all := by
  rw [← watchedRun_heardBy]
  have hstep : ∀ s f, CaughtUp s all → Node.physical f = false → CaughtUp (watchedStep s f) all := by
    intro s f hs hf
    exact hs.other hf
  exact Node.watchedRun_others hstep h fun f hf => not_physical_of_mem_heardBy he j hf

theorem onAir_others {done : List (List Byte)} {p : List Byte} {rest : List Bool} {r : ℕ} {j : ι}
    (h : OnAir (b j, polled j) done p rest r) {e : BusEvent ι} (he : e ≠ .cycle) :
    OnAir (step w b e j, polledAfter w b polled e j) done p rest r := by
  rw [← watchedRun_heardBy]
  have hstep : ∀ s f, OnAir s done p rest r → Node.physical f = false →
      OnAir (watchedStep s f) done p rest r := by
    intro s f hs hf
    exact hs.other hf
  exact Node.watchedRun_others hstep h fun f hf => not_physical_of_mem_heardBy he j hf

omit [DecidableEq ι] in
/-- A start finds all boards in a gap. -/
theorem OnBus.gap_of_starts (h : OnBus w b polled since sent) {e : BusEvent ι}
    (hapart : StartsAfter (2 * Node.slot) (b, since) e) (hreleased : StartsReleased b e)
    (hstart : starts b e = true) :
    ∃ v, Quiet b v ∧ ∀ j, ∃ age, Gap (b j, polled j) sent age := by
  cases h with
  | booting booting since_eq sent_eq caughtUp =>
    obtain ⟨v, hquiet⟩ := booting.quiet (hreleased hstart)
    refine ⟨v, hquiet, fun j => ⟨0, ?_⟩⟩
    rw [sent_eq]
    exact .polled (caughtUp j) ((hquiet.watches j).level.symm.trans hquiet.high)
  | quiet quiet gap => exact ⟨_, quiet, gap⟩
  | @sending v i done p rest r k sending since_eq left length_le onAir sent_eq =>
    have hphase : Phase w b since := .sending sending since_eq left
    rcases hphase.free_of_starts hapart hstart with ⟨v, s, hbooting⟩ | ⟨v, hquiet⟩
    · exact absurd ((hbooting.booting i).inTransmission.symm.trans sending.sends.tx.inTransmission)
        (by simp)
    · exact absurd ((hquiet.free i).inTransmission.symm.trans sending.sends.tx.inTransmission)
        (by simp)

/-- A start: every board's monitor is idle, and the frame is on the air. -/
theorem OnBus.start (h : OnBus w b polled since sent) {k : ι} {c : Byte} {random : ℕ}
    (hapart : StartsAfter (2 * Node.slot) (b, since) (.transmitterUpdate k c random))
    (hreleased : StartsReleased b (.transmitterUpdate k c random))
    (hstart : starts b (.transmitterUpdate k c random) = true) {src dest : Byte}
    (htyping : (b k).tx.Typing (true, src, dest)) :
    TypedLine ((b k).tx.readChar c).line ∧
      OnBus w (step w b (.transmitterUpdate k c random))
        (polledAfter w b polled (.transmitterUpdate k c random)) (some 0)
        (sent ++ [frameOf true src dest ((b k).tx.readChar c).line]) := by
  obtain ⟨v, hquiet, hgap⟩ := h.gap_of_starts hapart hreleased hstart
  obtain ⟨-, hgot⟩ := (starts_iff (hquiet.free k).toResting).mp hstart
  have hline : TypedLine ((b k).tx.readChar c).line :=
    (htyping.readChar (hquiet.free k).inv c).typedLine ((hquiet.free k).inv.readChar c) hgot
  have hsending := hquiet.start (w := w) hstart
  obtain ⟨hmode, hsrc, hdest⟩ : (b k).tx.packetMode = true ∧ (b k).tx.src = src ∧
      (b k).tx.dest = dest := by
    simpa [Transmitter.settings] using htyping.settings_eq
  rw [hmode, hsrc, hdest] at hsending
  obtain ⟨bs, hbits, -⟩ := Link.bits_frameOf src dest ((b k).tx.readChar c).line
  have hhalf : sentHalfBits (frameOf true src dest ((b k).tx.readChar c).line) =
      true :: false :: LineCode.encode (true :: bs) := by
    rw [sentHalfBits, if_pos hsending.room, Node.halfBits_of_first hbits]
  refine ⟨hline, .sending hsending rfl ?_ (hline.packet src dest).length_le ?_ rfl⟩
  · rw [Node.slot, Nat.succ_mul]
    omega
  · intro j
    obtain ⟨age, hgap⟩ := hgap j
    have hmon : (step w b (.transmitterUpdate k c random) j).mon.monitorState = .idle :=
      ((hsending.watches j).fresh rfl).1
    exact .waiting (gap_others hgap (by simp)) hmon hbits hhalf

/-- One event. -/
theorem OnBus.step (h : OnBus w b polled since sent) {e : BusEvent ι}
    (hapart : StartsAfter (2 * Node.slot) (b, since) e) (hreleased : StartsReleased b e)
    {src dest : ι → Byte} (htyping : ∀ i, (b i).tx.Typing (true, src i, dest i))
    (hpolled : ∀ j, Runs.Along (fun s e => some (watchedStep s e)) GapPolled (b j, polled j)
      (heardBy w j b e)) :
    (∀ s ∈ sentBy b e, TypedLine s.2) ∧
      OnBus w (step w b e) (polledAfter w b polled e) (sinceStart b since e)
        (sent ++ frames src dest (sentBy b e)) := by
  cases hstart : starts b e
  · rw [sentBy_of_not_starts hstart, frames, List.map_nil, List.append_nil]
    refine ⟨fun s hs => absurd hs List.not_mem_nil, ?_⟩
    by_cases he : e = .cycle
    · subst he
      refine h.cycle fun j => ?_
      exact ((hpolled j).2 (watchedStep (b j, polled j) .cycle) rfl).1
    rw [sinceStart_other he hstart]
    cases h with
    | booting booting since_eq sent_eq caughtUp =>
      exact .booting (booting.other he hstart) since_eq sent_eq
        fun j => caughtUp_others (caughtUp j) he
    | quiet quiet gap =>
      refine .quiet (quiet.other he hstart) ?_
      intro j
      obtain ⟨age, hgap⟩ := gap j
      exact ⟨age, gap_others hgap he⟩
    | sending sending since_eq left length_le onAir sent_eq =>
      exact .sending (sending.other he hstart) since_eq left length_le
        (fun j => onAir_others (onAir j) he) sent_eq
  · cases e with
    | cycle => cases hstart
    | receiverUpdate i => cases hstart
    | transmitterUpdate k c random =>
      rw [sinceStart, hstart, if_pos rfl, sentBy, hstart, if_pos rfl]
      obtain ⟨hline, hnext⟩ := h.start hapart hreleased hstart (htyping k)
      refine ⟨?_, hnext⟩
      intro s hs
      rw [List.mem_singleton.mp hs]
      exact hline

/-- Whole runs. -/
theorem OnBus.run (h : OnBus w b polled since sent) {es : List (BusEvent ι)}
    (hapart : Runs.Along (fun s e => some (clockedStep w s e)) (StartsAfter (2 * Node.slot))
      (b, since) es)
    (hreleased : Runs.Along (fun b e => some (Bus.step w b e)) StartsReleased b es)
    {src dest : ι → Byte}
    (hinv : ∀ i, (b i).tx.Inv ∧ (b i).tx.Typing (true, src i, dest i))
    (hpolled : ∀ j, Runs.Along (fun s e => some (watchedStep s e)) GapPolled (b j, polled j)
      (heard w b j es)) :
    (∀ s ∈ sentLines w b es, TypedLine s.2) ∧
      OnBus w (run w b es) (fun j => (watchedRun (b j, polled j) (heard w b j es)).2)
        (es.foldl (clockedStep w) (b, since)).2 (sent ++ frames src dest (sentLines w b es)) := by
  induction es generalizing b polled since sent with
  | nil =>
    rw [sentLines, Runs.outputs_nil, frames, List.map_nil, List.append_nil]
    exact ⟨fun s hs => absurd hs List.not_mem_nil, h⟩
  | cons e es ih =>
    have hsplit : ∀ j, Runs.Along (fun s e => some (watchedStep s e)) GapPolled (b j, polled j)
          (heardBy w j b e) ∧
        Runs.Along (fun s e => some (watchedStep s e)) GapPolled
          (Bus.step w b e j, polledAfter w b polled e j) (heard w (Bus.step w b e) j es) := by
      intro j
      have hboth := hpolled j
      rw [heard_cons] at hboth
      obtain ⟨hfirst, hrest⟩ := hboth.append (Runs.run_total watchedStep _ _)
      rw [← watchedRun, watchedRun_heardBy] at hrest
      exact ⟨hfirst, hrest⟩
    have hrecord : ∀ j, (watchedRun (b j, polled j) (heard w b j (e :: es))).2 =
        (watchedRun (Bus.step w b e j, polledAfter w b polled e j)
          (heard w (Bus.step w b e) j es)).2 := by
      intro j
      rw [heard_cons, watchedRun_append, watchedRun_heardBy]
    have hinv' : ∀ i, (Bus.step w b e i).tx.Inv ∧
        (Bus.step w b e i).tx.Typing (true, src i, dest i) := by
      intro i
      apply board_invariant (I := fun n => n.tx.Inv ∧ n.tx.Typing (true, src i, dest i)) ?_ (hinv i)
      intro n f hn
      exact ⟨Node.inv_timedStep n f hn.1, Node.typing_timedStep hn.1 hn.2 f⟩
    obtain ⟨hline, hstep⟩ := h.step hapart.1 hreleased.1 (fun i => (hinv i).2) fun j => (hsplit j).1
    obtain ⟨hlines, hrun⟩ := ih hstep (hapart.2 _ rfl) (hreleased.2 _ rfl) hinv'
      fun j => (hsplit j).2
    rw [List.append_assoc, frames, frames, ← List.map_append, ← sentLines_cons, ← frames] at hrun
    refine ⟨?_, ?_⟩
    · intro s hs
      rw [sentLines_cons] at hs
      rcases List.mem_append.mp hs with hfirst | hrest
      · exact hline s hfirst
      · exact hlines s hrest
    · rw [funext hrecord]
      exact hrun

omit [DecidableEq ι] in
theorem onBus_boot (src dest : ι → Byte) (pins : ι → Bool) :
    OnBus w (boot w (fun _ => true) src dest pins) (fun _ => true) none [] :=
  .booting (booting_boot (fun _ => true) src dest pins) rfl rfl
    fun j => Node.caughtUp_boot (src j) (dest j) (pins j) (w.level pins)

omit [DecidableEq ι] in
theorem typing_boot (src dest : ι → Byte) (pins : ι → Bool) (i : ι) :
    (boot w (fun _ => true) src dest pins i).tx.Typing (true, src i, dest i) :=
  ⟨rfl, List.not_mem_nil⟩

omit [DecidableEq ι] in
/-- The packets of these lines carry them. -/
theorem carries_of_delivered {n : Node} {src dest : ι → Byte} {lines : List (ι × List Byte)}
    (hlines : ∀ s ∈ lines, TypedLine s.2) (h : n.Delivered (frames src dest lines)) :
    List.Forall₂ (fun s call => Carries (src s.1) (dest s.1) s.2 call) lines n.rx.parses := by
  obtain ⟨hbufs, hsound⟩ := h
  have hframes : List.Forall₂
      (fun s call => frameOf true (src s.1) (dest s.1) s.2 = ParseCall.buf call)
      lines n.rx.parses := by
    -- call by call the bytes are those of a line's frame
    refine List.forall₂_map_left_iff.mp (List.forall₂_map_right_iff.mp ?_)
    rw [List.forall₂_eq_eq_eq]
    exact hbufs.symm
  refine List.forall₂_iff_zip.mpr ⟨hframes.length_eq, ?_⟩
  intro s call hmem
  obtain ⟨hline, hcall⟩ := List.of_mem_zip hmem
  have hbuf := (List.forall₂_zip hframes hmem).symm
  exact (hlines _ hline).carries (hbuf.trans (frameOf_eq _ _ _)) (hsound _ hcall)

/-- A run from boot. -/
theorem onBus_run {src dest : ι → Byte} {pins : ι → Bool} {es : List (BusEvent ι)}
    (hapart : StartsApart w (2 * Node.slot) (boot w (fun _ => true) src dest pins) es)
    (hreleased : Runs.Along (fun b e => some (step w b e)) StartsReleased
      (boot w (fun _ => true) src dest pins) es)
    (hpolls : ∀ j, Runs.Along (fun s e => some (watchedStep s e)) GapPolled
      (boot w (fun _ => true) src dest pins j, true)
      (heard w (boot w (fun _ => true) src dest pins) j es)) :
    (∀ s ∈ sentLines w (boot w (fun _ => true) src dest pins) es, TypedLine s.2) ∧
      OnBus w (run w (boot w (fun _ => true) src dest pins) es)
        (fun j => (watchedRun (boot w (fun _ => true) src dest pins j, true)
          (heard w (boot w (fun _ => true) src dest pins) j es)).2)
        (es.foldl (clockedStep w) (boot w (fun _ => true) src dest pins, none)).2
        (frames src dest (sentLines w (boot w (fun _ => true) src dest pins) es)) := by
  have hinv : ∀ i, (boot w (fun _ => true) src dest pins i).tx.Inv ∧
      (boot w (fun _ => true) src dest pins i).tx.Typing (true, src i, dest i) :=
    fun i => ⟨Transmitter.inv_init (src i) (dest i) true (pins i), typing_boot src dest pins i⟩
  exact (onBus_boot src dest pins).run hapart hreleased hinv hpolls

end Bus

end NetworkingCard
