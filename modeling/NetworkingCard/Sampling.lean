import NetworkingCard.Backlog
import NetworkingCard.Framing
import NetworkingCard.MonitorTracking

/-!
# The bytes of a waveform, whatever the main loop does

The bytes that `EXTI4_IRQHandler` puts into `receiveBuf` in a timed run (`Node.received`) do not
depend on what the main loop reads. `Node.Hears` relates a board to what its line carries: the
state of the decoder and the view of an ideal observer. One event keeps it (`hears_timedStep`) if
every silence longer than the monitor's timeout comes after whole bytes and on a high line
(`Node.Framed`), so that the reset of the main routine finds nothing to destroy.

`received_wave`: a board that rests puts exactly the bytes of the next waveform.
-/

namespace NetworkingCard

open LineCode (Decoder)

namespace Receiver

/-- The receiver has put the bytes `got`, and is in the state `d` of the decoder. -/
structure Collects (r : Receiver) (got : List Byte) (d : Decoder ℕ) : Prop
    extends Samples r d where
  bits_eq : got.flatMap Bits.msbFirst ++ (Bits.msbFirst r.dataByte).take r.currBit = d.bits

/-- A sampled bit joins the byte that is being assembled, or completes it. -/
theorem assembled_sample {r : Receiver} (h : r.Inv) (hs : r.sample = true) (got : List Byte)
    (b : Bool) :
    (got ++ r.edgePuts b).flatMap Bits.msbFirst ++
        (Bits.msbFirst (r.edge b).dataByte).take (r.edge b).currBit =
      got.flatMap Bits.msbFirst ++ (Bits.msbFirst r.dataByte).take r.currBit ++ [b] := by
  have hbit := h.currBit_lt
  have htake := Bits.take_succ_msbFirst_setMsb r.dataByte hbit b
  unfold edgePuts
  rw [edge_sample hs, hs, Bool.true_and]
  dsimp only
  by_cases h8 : r.currBit + 1 = 8
  · -- the byte is complete
    rw [h8, List.take_of_length_le (by simp)] at htake
    rw [decide_eq_true h8, if_pos rfl, if_pos h8, List.flatMap_append, List.flatMap_singleton,
      htake, List.take_zero, List.append_nil, List.append_assoc]
  · rw [decide_eq_false h8, if_neg Bool.false_ne_true, if_neg h8, List.append_nil, htake,
      List.append_assoc]

/-- A boundary edge leaves what has been assembled. -/
theorem assembled_boundary {r : Receiver} (hs : r.sample = false) (got : List Byte) (b : Bool) :
    (got ++ r.edgePuts b).flatMap Bits.msbFirst ++
        (Bits.msbFirst (r.edge b).dataByte).take (r.edge b).currBit =
      got.flatMap Bits.msbFirst ++ (Bits.msbFirst r.dataByte).take r.currBit := by
  unfold edgePuts
  rw [edge_boundary hs, hs, Bool.false_and, if_neg Bool.false_ne_true, List.append_nil]

/-- The bits of the byte that is being assembled complete those of the bytes put. -/
theorem Collects.edge {r : Receiver} {got : List Byte} {d : Decoder ℕ} (h : r.Collects got d)
    {b : Bool} (hb : b ≠ d.level) : (r.edge b).Collects (got ++ r.edgePuts b) (d.drive b) := by
  refine ⟨h.toSamples.edge hb, ?_⟩
  cases hw : d.window with
  | some e =>
    obtain ⟨hs, -, -⟩ := h.opened e hw
    rw [Decoder.drive_boundary hb hw, assembled_boundary hs]
    exact h.bits_eq
  | none =>
    rw [Decoder.drive_sample hb hw, assembled_sample h.inv (h.closed hw), h.bits_eq]

theorem Collects.cycle {r : Receiver} {got : List Byte} {d : Decoder ℕ} (h : r.Collects got d) :
    r.cycle.Collects got (d.elapse window 1) := by
  refine ⟨h.toSamples.cycle, ?_⟩
  rw [cycle_frame, Decoder.bits_elapse]
  exact h.bits_eq

/-- Whole bytes have been decoded, and these have been put. -/
theorem Collects.got_eq {r : Receiver} {got bytes : List Byte} {d : Decoder ℕ}
    (h : r.Collects got d) (hbits : d.bits = bytes.flatMap Bits.msbFirst) : got = bytes := by
  have hlt := h.inv.currBit_lt
  have heq := h.bits_eq.trans (hbits.trans (List.append_nil _).symm)
  exact (Bits.words_unique heq (by simp; omega) (by simp)).1

/-- After whole bytes nothing is being assembled. -/
theorem Collects.currBit_eq_zero {r : Receiver} {got : List Byte} {d : Decoder ℕ}
    (h : r.Collects got d) (hwhole : 8 ∣ d.bits.length) : r.currBit = 0 := by
  have hlt := h.inv.currBit_lt
  have hlen := congrArg List.length h.bits_eq
  rw [List.length_append, Bits.length_flatMap_msbFirst, List.length_take, Bits.length_msbFirst,
    Nat.min_eq_left (Nat.le_of_lt hlt)] at hlen
  omega

/-- On an idle line the main routine resets the sampling, whether it delivers or not. -/
theorem sampling_mainRoutineUpdate_idle (r : Receiver) :
    (r.mainRoutineUpdate .idle).sample = true ∧ (r.mainRoutineUpdate .idle).currBit = 0 := by
  rw [Receiver.mainRoutineUpdate_idle]
  split
  · rw [deliver_frame, idleReset_frame]
    exact ⟨rfl, rfl⟩
  · rw [idleReset_frame]
    exact ⟨rfl, rfl⟩

/-- While nothing is being assembled on a closed window, the reset finds nothing to destroy. -/
theorem Collects.mainRoutineUpdate_idle {r : Receiver} {got : List Byte} {d : Decoder ℕ}
    (h : r.Collects got d) (hwindow : d.window = none) (hbit : r.currBit = 0) :
    (r.mainRoutineUpdate .idle).Collects got d ∧ (r.mainRoutineUpdate .idle).currBit = 0 := by
  have hinv := h.inv.mainRoutineUpdate .idle
  obtain ⟨hsample, hbit'⟩ := r.sampling_mainRoutineUpdate_idle
  refine ⟨⟨⟨hinv, fun _ => hsample, ?_⟩, ?_⟩, hbit'⟩
  · intro e he
    rw [hwindow] at he
    cases he
  · have hold := h.bits_eq
    rw [hbit] at hold
    rw [hbit']
    exact hold

end Receiver

namespace Node

/-! ## What a board hears -/

/-- The bytes that an event in real time puts into `receiveBuf`. -/
def timedPuts (n : Node) : TimedEvent → List Byte
  | .line level => if level = n.idr4 then [] else n.rx.edgePuts level
  | _ => []

/-- The bytes put into `receiveBuf` in a timed run, in order. -/
def received (n : Node) (es : List TimedEvent) : List Byte :=
  Runs.outputs (fun n e => some (timedStep n e)) timedPuts n es

/-- The decoder's part in an event. -/
def decode (d : Decoder ℕ) : TimedEvent → Decoder ℕ
  | .line level => d.drive level
  | .cycle => d.elapse window 1
  | .transmitterUpdate _ _ => d
  | .receiverUpdate => d

/-- One event, for the decoder and for the observer of the line. -/
def hear (s : Decoder ℕ × LineView) (e : TimedEvent) : Decoder ℕ × LineView :=
  (decode s.1 e, s.2.step e)

theorem hear_line_same {s : Decoder ℕ × LineView} {level : Bool} (h : level = s.1.level)
    (h' : level = s.2.level) : hear s (.line level) = s := by
  unfold hear
  rw [LineView.step_line_same h', decode, Decoder.drive_same h]

theorem hear_line_edge {s : Decoder ℕ × LineView} {level : Bool} (h : level ≠ s.2.level) :
    hear s (.line level) = (s.1.drive level, ⟨level, some 0⟩) := by
  unfold hear
  rw [LineView.step_line_edge h, decode]

/-- If the last edge is further back than the monitor's timeout, whole bytes have been decoded and
the line is high. -/
def Framed (s : Decoder ℕ × LineView) : Prop :=
  ∀ k, s.2.sinceEdge = some k → 16 * transmissionTimeoutUs < k →
    s.1.level = true ∧ 8 ∣ s.1.bits.length

/-- In the middle of a message: the monitor is busy, and the main routine stays away. -/
structure Active (n : Node) (v : LineView) : Prop where
  receiving : n.rx.currentlyReceiving = true
  recent : ∃ k, v.sinceEdge = some k ∧ k ≤ 16 * transmissionTimeoutUs

/-- Between messages, on a high line: the monitor is idle, and nothing is being assembled. -/
structure Resting (n : Node) (d : Decoder ℕ) : Prop where
  idle : n.mon.getState = .idle
  stopped : n.mon.stk.enable = false
  window : d.window = none
  high : d.level = true
  currBit : n.rx.currBit = 0

/-- The board has put the bytes `got`, and knows of its line what the decoder and the observer
know. -/
structure Hears (n : Node) (got : List Byte) (s : Decoder ℕ × LineView) : Prop where
  collects : n.rx.Collects got s.1
  level : s.1.level = n.idr4
  view : s.2.level = n.idr4
  follows : n.mon.Follows s.2
  window_age : ∀ e, s.1.window = some e → s.2.sinceEdge = some e
  phase : n.Active s.2 ∨ n.Resting s.1

/-! ## One event -/

theorem Hears.edge {n : Node} {got : List Byte} {s : Decoder ℕ × LineView} (h : n.Hears got s)
    {b : Bool} (hb : b ≠ n.idr4) :
    (n.setLine b).Hears (got ++ n.rx.edgePuts b) (s.1.drive b, ⟨b, some 0⟩) := by
  rw [setLine_edge hb]
  have hdrive : b ≠ s.1.level := by rwa [h.level]
  refine ⟨h.collects.edge hdrive, Decoder.level_drive s.1 b, rfl,
    Monitor.follows_edgeIntrr n.mon b, ?_, Or.inl ⟨?_, 0, rfl, Nat.zero_le _⟩⟩
  · intro e he
    cases hw : s.1.window with
    | none =>
      rw [Decoder.drive_sample hdrive hw] at he
      exact he.symm ▸ rfl
    | some e' =>
      rw [Decoder.drive_boundary hdrive hw] at he
      cases he
  · show (n.rx.edge b).currentlyReceiving = true
    cases hs : n.rx.sample
    · -- a boundary edge comes only in the middle of a message
      rw [Receiver.edge_boundary hs]
      rcases h.phase with hactive | hresting
      · exact hactive.receiving
      · rw [h.collects.closed hresting.window] at hs
        cases hs
    · rw [Receiver.edge_sample hs]

theorem window_age_elapse {d : Decoder ℕ} {v : LineView}
    (h : ∀ e, d.window = some e → v.sinceEdge = some e) {e : ℕ}
    (he : (d.elapse window 1).window = some e) : (v.step .cycle).sinceEdge = some e := by
  obtain ⟨e', hw, rfl, -⟩ := Decoder.open_of_elapse he
  show v.sinceEdge.map (· + 1) = _
  rw [h e' hw]
  rfl

/-- Between messages a cycle changes nothing. -/
theorem Resting.cycle {n : Node} {d : Decoder ℕ} (h : n.Resting d) :
    n.cycle.Resting (d.elapse NetworkingCard.window 1) := by
  have hmon : n.cycle.mon = n.mon := Monitor.cycle_of_stopped h.stopped
  rw [Decoder.elapse_of_closed h.window]
  constructor
  · rw [hmon]
    exact h.idle
  · rw [hmon]
    exact h.stopped
  · exact h.window
  · exact h.high
  · rw [rx_cycle, Receiver.cycle_frame]
    exact h.currBit

theorem Hears.cycle {n : Node} {got : List Byte} {s : Decoder ℕ × LineView} (h : n.Hears got s)
    (hframed : Framed (hear s .cycle)) : n.cycle.Hears got (hear s .cycle) := by
  have hcollects := h.collects.cycle
  have hfollows := h.follows.cycle
  have hlevel : (hear s .cycle).1.level = n.idr4 :=
    (Decoder.level_elapse s.1 1).trans h.level
  have hage : ∀ e, (hear s .cycle).1.window = some e → (hear s .cycle).2.sinceEdge = some e :=
    fun _ he => window_age_elapse h.window_age he
  refine ⟨hcollects, hlevel, h.view, hfollows, hage, ?_⟩
  rcases h.phase with hactive | hresting
  · obtain ⟨k, hk, hle⟩ := hactive.recent
    have hk' : (hear s .cycle).2.sinceEdge = some (k + 1) := by
      show s.2.sinceEdge.map (· + 1) = _
      rw [hk]
      rfl
    by_cases hlast : k = 16 * transmissionTimeoutUs
    · -- the monitor's timeout ends the message
      obtain ⟨hhigh, hwhole⟩ := hframed (k + 1) hk' (by omega)
      obtain ⟨hidle, hstopped⟩ := hfollows.settled (k + 1) hk' (by omega)
      have hclosed : (hear s .cycle).1.window = none := by
        cases hw : (hear s .cycle).1.window with
        | none => rfl
        | some e =>
          have hshort := hcollects.toSamples.window_le hw
          have hlong := hage e hw
          rw [hk'] at hlong
          cases hlong
          rw [hlast] at hshort
          exact absurd hshort (by decide)
      have hview : (s.2.step .cycle).level = true := by
        show s.2.level = true
        rw [h.view, ← hlevel]
        exact hhigh
      rw [hview, if_pos rfl] at hidle
      exact Or.inr ⟨hidle, hstopped, hclosed, hhigh, hcollects.currBit_eq_zero hwhole⟩
    · refine Or.inl ⟨?_, k + 1, hk', by omega⟩
      rw [rx_cycle, Receiver.cycle_frame]
      exact hactive.receiving
  · exact Or.inr hresting.cycle

/-- The main routine changes nothing in the middle of a message, and only resets what is reset
already between messages. -/
theorem Hears.receiverUpdate {n : Node} {got : List Byte} {s : Decoder ℕ × LineView}
    (h : n.Hears got s) : n.receiverUpdate.Hears got s := by
  rcases h.phase with hactive | hresting
  · obtain ⟨k, hk, hle⟩ := hactive.recent
    have hbusy : n.mon.getState = .busy := (h.follows.busy k hk hle).1
    have hsame : n.receiverUpdate = n := by
      unfold Node.receiverUpdate
      rw [hbusy, Receiver.mainRoutineUpdate_receiving hactive.receiving]
    rw [hsame]
    exact h
  · have hrx : n.receiverUpdate = { n with rx := n.rx.mainRoutineUpdate .idle } := by
      unfold Node.receiverUpdate
      rw [hresting.idle]
    obtain ⟨hcollects, hbit⟩ :=
      h.collects.mainRoutineUpdate_idle hresting.window hresting.currBit
    rw [hrx]
    exact ⟨hcollects, h.level, h.view, h.follows, h.window_age,
      Or.inr { hresting with currBit := hbit }⟩

/-- One event, of the line, the clock or the main loop. -/
theorem hears_timedStep {n : Node} {got : List Byte} {s : Decoder ℕ × LineView}
    (h : n.Hears got s) (e : TimedEvent) (hframed : Framed (hear s e)) :
    (n.timedStep e).Hears (got ++ n.timedPuts e) (hear s e) := by
  cases e with
  | transmitterUpdate c random =>
    have hphase : (n.transmitterUpdate c random).Active s.2 ∨
        (n.transmitterUpdate c random).Resting s.1 := by
      rcases h.phase with hactive | hresting
      · exact Or.inl { hactive with }
      · exact Or.inr { hresting with }
    show (n.transmitterUpdate c random).Hears (got ++ []) s
    rw [List.append_nil]
    exact { h with phase := hphase }
  | receiverUpdate =>
    show n.receiverUpdate.Hears (got ++ []) s
    rw [List.append_nil]
    exact h.receiverUpdate
  | line level =>
    by_cases hedge : level = n.idr4
    · have hhear : hear s (.line level) = s :=
        hear_line_same (hedge.trans h.level.symm) (hedge.trans h.view.symm)
      rw [hhear, timedStep, setLine_same hedge, timedPuts, if_pos hedge, List.append_nil]
      exact h
    · have hview : level ≠ s.2.level := by rwa [h.view]
      rw [hear_line_edge hview, timedStep, timedPuts, if_neg hedge]
      exact h.edge hedge
  | cycle =>
    show n.cycle.Hears (got ++ []) (hear s .cycle)
    rw [List.append_nil]
    exact h.cycle hframed

/-! ## Runs -/

/-- A run, while every state of the line is framed. -/
theorem hears_timedRun {n : Node} {got : List Byte} {s : Decoder ℕ × LineView}
    (h : n.Hears got s) {es : List TimedEvent}
    (hframed : Runs.Along (fun s e => some (hear s e)) (fun s e => Framed (hear s e)) s es) :
    (n.timedRun es).Hears (got ++ n.received es) (es.foldl hear s) := by
  induction es generalizing n got s with
  | nil =>
    show n.Hears (got ++ []) s
    rw [List.append_nil]
    exact h
  | cons e es ih =>
    have hstep := hears_timedStep h e hframed.1
    have hrest := ih hstep (hframed.2 _ rfl)
    have hcons : n.received (e :: es) = n.timedPuts e ++ (n.timedStep e).received es :=
      Runs.outputs_cons rfl es
    rw [hcons, ← List.append_assoc]
    exact hrest

/-! ## Waveforms -/

/-- Calls from the main loop are not heard. -/
theorem hear_other {s : Decoder ℕ × LineView} {e : TimedEvent} (he : physical e = false) :
    hear s e = s := by
  cases e with
  | transmitterUpdate c random => rfl
  | receiverUpdate => rfl
  | line level => cases he
  | cycle => cases he

/-- Every state of the line is framed in which these events leave it. -/
def FramedAlong (s : Decoder ℕ × LineView) (es : List TimedEvent) : Prop :=
  Runs.Along (fun s e => some (hear s e)) (fun s e => Framed (hear s e)) s es

theorem FramedAlong.append {s : Decoder ℕ × LineView} {es fs : List TimedEvent}
    (h : FramedAlong s es) (h' : FramedAlong (es.foldl hear s) fs) : FramedAlong s (es ++ fs) :=
  Runs.Along.concat h (Runs.run_total hear s es) h'

/-- A condition on what the line and the clock do holds of all events, if it holds of the calls from
the main loop wherever they come. -/
theorem along_of_physical {P : Decoder ℕ × LineView → TimedEvent → Prop}
    {F : Decoder ℕ × LineView → Prop} (hother : ∀ s e, physical e = false → F s → P s e)
    (hkeep : ∀ s e, P s e → F (hear s e)) {s : Decoder ℕ × LineView} (hs : F s)
    {es : List TimedEvent}
    (h : Runs.Along (fun s e => some (hear s e)) P s (es.filter physical)) :
    Runs.Along (fun s e => some (hear s e)) P s es := by
  induction es generalizing s with
  | nil => trivial
  | cons e es ih =>
    cases he : physical e
    · rw [List.filter_cons_of_neg (by simp [he])] at h
      refine ⟨hother s e he hs, ?_⟩
      intro s' hs'
      obtain rfl : s = s' := (hear_other he).symm.trans (Option.some.inj hs')
      exact ih hs h
    · rw [List.filter_cons_of_pos he] at h
      refine ⟨h.1, ?_⟩
      intro s' hs'
      cases hs'
      exact ih (hkeep s e h.1) (h.2 _ rfl)

theorem foldl_hear_physical (s : Decoder ℕ × LineView) (es : List TimedEvent) :
    es.foldl hear s = (es.filter physical).foldl hear s := by
  induction es generalizing s with
  | nil => rfl
  | cons e es ih =>
    cases he : physical e
    · rw [List.filter_cons_of_neg (by simp [he]), List.foldl_cons, hear_other he, ih]
    · rw [List.filter_cons_of_pos he, List.foldl_cons, List.foldl_cons, ih]

/-- Calls from the main loop may come anywhere. -/
theorem framedAlong_of_physical {s : Decoder ℕ × LineView} (hs : Framed s) {es : List TimedEvent}
    (h : FramedAlong s (es.filter physical)) : FramedAlong s es := by
  refine along_of_physical (F := Framed) ?_ (fun _ _ hframed => hframed) hs h
  intro s e he hframed
  rw [hear_other he]
  exact hframed

/-- The last edge is at most `age` cycles back. -/
def Within (age : ℕ) (v : LineView) : Prop := ∀ k, v.sinceEdge = some k → k ≤ age

theorem Within.mono {age limit : ℕ} {v : LineView} (h : Within age v) (hage : age ≤ limit) :
    Within limit v := fun k hk => (h k hk).trans hage

theorem Within.framed {age : ℕ} {s : Decoder ℕ × LineView} (h : Within age s.2)
    (hage : age ≤ 16 * transmissionTimeoutUs) : Framed s := by
  intro k hk hlong
  have := h k hk
  omega

theorem Within.step_cycle {age : ℕ} {v : LineView} (h : Within age v) :
    Within (age + 1) (v.step .cycle) := by
  intro k hk
  obtain ⟨j, hj, rfl⟩ := Option.map_eq_some_iff.mp hk
  have := h j hj
  omega

theorem Within.step_line {age : ℕ} {v : LineView} (h : Within age v) (b : Bool) :
    Within (if b = v.level then age else 0) (v.step (.line b)) ∧ (v.step (.line b)).level = b := by
  refine ⟨?_, v.level_step_line b⟩
  by_cases hedge : b = v.level
  · rw [LineView.step_line_same hedge, if_pos hedge]
    exact h
  · rw [LineView.step_line_edge hedge, if_neg hedge]
    intro k hk
    cases hk
    exact le_rfl

/-- These events leave the last edge at most `limit` cycles back at all times. -/
def WithinAlong (limit : ℕ) (s : Decoder ℕ × LineView) (es : List TimedEvent) : Prop :=
  Runs.Along (fun s e => some (hear s e)) (fun s e => Within limit (hear s e).2) s es

theorem WithinAlong.framed {limit : ℕ} {s : Decoder ℕ × LineView} {es : List TimedEvent}
    (h : WithinAlong limit s es) (hlimit : limit ≤ 16 * transmissionTimeoutUs) :
    FramedAlong s es :=
  Runs.Along.mono (fun _ _ hwithin => hwithin.framed hlimit) h

theorem WithinAlong.last {limit : ℕ} {s : Decoder ℕ × LineView} {es : List TimedEvent}
    (h : WithinAlong limit s es) (hs : Within limit s.2) : Within limit (es.foldl hear s).2 := by
  refine Runs.run_invariant_along (I := fun s => Within limit s.2) ?_ hs h
    (Runs.run_total hear s es)
  intro s e s' _ hwithin hs'
  cases hs'
  exact hwithin

theorem Within.cycles {limit age : ℕ} {s : Decoder ℕ × LineView} (h : Within age s.2) (t : ℕ)
    (hage : age + t ≤ limit) :
    WithinAlong limit s (List.replicate t .cycle) ∧
      Within (age + t) ((List.replicate t .cycle).foldl hear s).2 ∧
      ((List.replicate t .cycle).foldl hear s).2.level = s.2.level := by
  induction t generalizing age s with
  | zero => exact ⟨trivial, h, rfl⟩
  | succ t ih =>
    have hnext : Within (age + 1) (hear s .cycle).2 := h.step_cycle
    obtain ⟨halong, hwithin, hlevel⟩ := ih hnext (by omega)
    refine ⟨⟨hnext.mono (by omega), ?_⟩, ?_, hlevel⟩
    · intro s' hs'
      cases hs'
      exact halong
    · rw [show age + (t + 1) = age + 1 + t by omega]
      exact hwithin

/-- In a waveform in which edges keep coming, the last one is never far back. -/
theorem withinAlong_wave {limit age : ℕ} {s : Decoder ℕ × LineView} (h : Within age s.2)
    {wave : List (Bool × ℕ)} (hwave : LineCode.EdgesWithin limit s.2.level age wave) :
    WithinAlong limit s (waveEvents wave) := by
  induction wave generalizing age s with
  | nil => trivial
  | cons half wave ih =>
    obtain ⟨hlimit, hrest⟩ := hwave
    have hline : Within (if half.1 = s.2.level then age else 0) (hear s (.line half.1)).2 ∧
        (hear s (.line half.1)).2.level = half.1 := h.step_line half.1
    obtain ⟨hcycles, hwithin, hlevel⟩ := hline.1.cycles half.2 hlimit
    rw [waveEvents, List.flatMap_cons, List.cons_append]
    refine ⟨hline.1.mono (by omega), ?_⟩
    intro s' hs'
    cases hs'
    apply Runs.Along.concat hcycles (Runs.run_total hear _ _)
    apply ih hwithin
    rw [hlevel, hline.2]
    exact hrest

theorem decode_cycles {s : Decoder ℕ × LineView} (hage : ∀ e, s.1.window = some e → e < window)
    (t : ℕ) : ((List.replicate t .cycle).foldl hear s).1 = s.1.elapse window t := by
  induction t generalizing s with
  | zero => exact (Decoder.elapse_zero hage).symm
  | succ t ih =>
    rw [List.replicate_succ, List.foldl_cons, ih fun _ he => Decoder.window_lt_elapse he,
      Nat.add_comm, Decoder.elapse_add]
    rfl

/-- The decoder follows the waveform. -/
theorem decode_wave (s : Decoder ℕ × LineView) (wave : List (Bool × ℕ))
    (hage : ∀ e, s.1.window = some e → e < window) :
    ((waveEvents wave).foldl hear s).1 = s.1.follow window wave := by
  induction wave generalizing s with
  | nil => rfl
  | cons half wave ih =>
    have hdrive : ∀ e, (s.1.drive half.1).window = some e → e < window :=
      fun _ he => Decoder.window_lt_drive (by decide) hage half.1 he
    have hcycles := decode_cycles (s := hear s (.line half.1)) hdrive half.2
    rw [waveEvents, List.flatMap_cons, List.cons_append, List.foldl_cons, List.foldl_append,
      Decoder.follow_cons]
    refine (ih _ fun e he => ?_).trans (congrArg (Decoder.follow window · wave) hcycles)
    rw [hcycles] at he
    exact Decoder.window_lt_elapse he

/-- On a high line, after whole bytes, any silence is framed. -/
theorem framedAlong_silence {s : Decoder ℕ × LineView} (hhigh : s.1.level = true)
    (hwhole : 8 ∣ s.1.bits.length) (t : ℕ) : FramedAlong s (List.replicate t .cycle) := by
  induction t generalizing s with
  | zero => trivial
  | succ t ih =>
    have hhigh' : (hear s .cycle).1.level = true := (Decoder.level_elapse s.1 1).trans hhigh
    have hwhole' : 8 ∣ (hear s .cycle).1.bits.length := by
      show 8 ∣ (s.1.elapse window 1).bits.length
      rw [Decoder.bits_elapse]
      exact hwhole
    refine ⟨fun _ _ _ => ⟨hhigh', hwhole'⟩, ?_⟩
    intro s' hs'
    cases hs'
    exact ih hhigh' hwhole'

/-- Silence adds no bit. -/
theorem bits_silence (s : Decoder ℕ × LineView) (t : ℕ) :
    ((List.replicate t .cycle).foldl hear s).1.bits = s.1.bits := by
  induction t generalizing s with
  | zero => rfl
  | succ t ih => exact (ih (hear s .cycle)).trans (Decoder.bits_elapse s.1 1)

/-- What it takes for a board to start from: nothing is being received on a high line. -/
structure Quiescent (n : Node) : Prop where
  inv : n.rx.Inv
  idle : n.mon.getState = .idle
  stopped : n.mon.stk.enable = false
  high : n.idr4 = true
  sample : n.rx.sample = true
  currBit : n.rx.currBit = 0

theorem quiescent_boot (src dest : Byte) (packetMode pin : Bool) :
    (boot src dest packetMode pin true).Quiescent where
  inv := Receiver.inv_init packetMode
  idle := rfl
  stopped := rfl
  high := rfl
  sample := rfl
  currBit := rfl

/-- What is known of a line before its first edge, when it is high. -/
def silent : Decoder ℕ × LineView := (⟨true, none, []⟩, ⟨true, none⟩)

theorem Quiescent.hears {n : Node} (h : n.Quiescent) : n.Hears [] silent := by
  have hcollects : n.rx.Collects [] silent.1 := by
    refine ⟨⟨h.inv, fun _ => h.sample, by simp [silent]⟩, ?_⟩
    rw [h.currBit]
    rfl
  exact ⟨hcollects, h.high.symm, h.high.symm, Monitor.follows_unknown n.mon true, by simp [silent],
    Or.inr ⟨h.idle, h.stopped, rfl, rfl, h.currBit⟩⟩

theorem waveEvents_release (wave : List (Bool × ℕ)) (idle : ℕ) :
    waveEvents (wave ++ [(true, idle)]) =
      (waveEvents wave ++ [.line true]) ++ List.replicate idle .cycle := by
  unfold waveEvents
  rw [List.flatMap_append, List.flatMap_singleton, List.append_assoc]
  rfl

/-- Edges keep coming until the line is released, as two neighbouring half-bits are shorter than
the limit. -/
theorem withinAlong_halfBits {bytes : List Byte} {ds : List ℕ}
    (hlen : ds.length = (halfBits bytes).length) {limit : ℕ} (hlimit : ∀ d ∈ ds, d ≤ limit)
    (hpair : ds.IsChain fun d d' => d + d' ≤ limit) :
    WithinAlong limit silent (waveEvents ((halfBits bytes).zip ds) ++ [.line true]) := by
  have hchain : (0 :: ds).IsChain fun d d' => d + d' ≤ limit := by
    cases ds with
    | nil => exact List.isChain_singleton 0
    | cons d ds =>
      have hd := hlimit d List.mem_cons_self
      exact List.isChain_cons_cons.mpr ⟨(Nat.zero_add d).trans_le hd, hpair⟩
  have hfresh : Within 0 silent.2 := by
    intro k hk
    cases hk
  rw [length_halfBits] at hlen
  have hwave : WithinAlong limit silent (waveEvents ((halfBits bytes).zip ds)) := by
    rw [halfBits_eq]
    exact withinAlong_wave hfresh (LineCode.edgesWithin_encode true hlen hchain)
  have hlast := hwave.last (hfresh.mono (Nat.zero_le limit))
  apply Runs.Along.concat hwave (Runs.run_total hear _ _)
  refine ⟨?_, fun _ _ => trivial⟩
  apply (hlast.step_line true).1.mono
  split
  · exact le_rfl
  · exact Nat.zero_le limit

/-- The bits decoded when the line is released are those that were sent. -/
theorem bits_halfBits {bytes : List Byte} (hfirst : StartsLow bytes) {ds : List ℕ}
    (hlen : ds.length = (halfBits bytes).length) (hshort : ∀ d ∈ ds, d ≤ halfbitTimeoutTicks)
    (hpair : ds.IsChain fun d d' => halfbitTimeoutTicks < d + d') :
    ((waveEvents ((halfBits bytes).zip ds) ++ [TimedEvent.line true]).foldl hear silent).1.bits =
      bytes.flatMap Bits.msbFirst := by
  rw [length_halfBits] at hlen
  have hdecode := decode_wave silent ((halfBits bytes).zip ds) (by simp [silent])
  have hbits := Decoder.bits_release (T := window) (d := silent.1) rfl rfl hfirst.head?_bits hlen
    (fun d hd => Nat.lt_succ_of_le (hshort d hd)) hpair
  rw [← halfBits_eq, ← hdecode] at hbits
  rw [List.foldl_append]
  exact hbits

/-- From a high line with a closed window, a waveform and the silence after it are framed, and
decoded as what was sent. -/
theorem framedAlong_halfBits {bytes : List Byte} (hfirst : StartsLow bytes) {ds : List ℕ}
    (hlen : ds.length = (halfBits bytes).length) (hshort : ∀ d ∈ ds, d ≤ halfbitTimeoutTicks)
    (hpair : ds.IsChain fun d d' =>
      halfbitTimeoutTicks < d + d' ∧ d + d' ≤ 16 * transmissionTimeoutUs) (idle : ℕ) :
    FramedAlong silent (waveEvents ((halfBits bytes).zip ds ++ [(true, idle)])) ∧
      ((waveEvents ((halfBits bytes).zip ds ++ [(true, idle)])).foldl hear silent).1.bits =
        bytes.flatMap Bits.msbFirst := by
  have hlimit : ∀ d ∈ ds, d ≤ 16 * transmissionTimeoutUs :=
    fun d hd => (hshort d hd).trans (by decide)
  have hwave := withinAlong_halfBits hlen hlimit (hpair.imp fun _ _ h => h.2)
  have hbits := bits_halfBits hfirst hlen hshort (hpair.imp fun _ _ h => h.1)
  have hhigh : ((waveEvents ((halfBits bytes).zip ds) ++ [TimedEvent.line true]).foldl hear
      silent).1.level = true := by
    rw [List.foldl_append]
    exact Decoder.level_drive _ true
  have hwhole : 8 ∣ (bytes.flatMap Bits.msbFirst).length := by
    rw [Bits.length_flatMap_msbFirst]
    exact Nat.dvd_mul_right 8 _
  rw [waveEvents_release]
  constructor
  · apply (hwave.framed le_rfl).append
    apply framedAlong_silence hhigh
    rw [hbits]
    exact hwhole
  · rw [List.foldl_append, bits_silence]
    exact hbits

/-- **A waveform is received as what was sent.** The bytes put are those of the waveform, whatever
the main loop does in between, for all admissible durations of the half-bits and any idle time
after them. -/
theorem received_wave {n : Node} (h : n.Quiescent) {bytes : List Byte} (hfirst : StartsLow bytes)
    {ds : List ℕ} (hlen : ds.length = (halfBits bytes).length)
    (hshort : ∀ d ∈ ds, d ≤ halfbitTimeoutTicks)
    (hpair : ds.IsChain fun d d' =>
      halfbitTimeoutTicks < d + d' ∧ d + d' ≤ 16 * transmissionTimeoutUs) {idle : ℕ}
    {es : List TimedEvent}
    (hes : es.filter physical = waveEvents ((halfBits bytes).zip ds ++ [(true, idle)])) :
    n.received es = bytes := by
  obtain ⟨hframed, hbits⟩ := framedAlong_halfBits hfirst hlen hshort hpair idle
  have hstart : Framed silent := by
    intro k hk
    cases hk
  rw [← hes] at hframed hbits
  rw [← foldl_hear_physical] at hbits
  have halong := framedAlong_of_physical hstart hframed
  have hhears := hears_timedRun h.hears halong
  rw [List.nil_append] at hhears
  exact hhears.collects.got_eq hbits

end Node

end NetworkingCard
