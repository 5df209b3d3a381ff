import NetworkingCard.Preemption
import NetworkingCard.Recovery

/-!
# The idle reset and the first edges of a packet

`receiver_mainRoutineUpdate` finds the line idle and then clears `currBit` and `dataByte`; a first
edge that comes in between has its bit cleared. `PreemptedNode.Hears` counts the bits that are lost:
one event of a preempted board keeps it (`hears_step`), and loses bits only in a reset that the
monitor has overtaken (`ResetsIdle`).

`received_iff_resetsIdle`: the bytes put are those of the packet exactly when no reset is overtaken.
-/

namespace NetworkingCard

open LineCode (Decoder)

namespace Receiver

/-! ## Bits that are lost -/

/-- The receiver has put the bytes `got` and knows the bits of the decoder without the first `lost`
ones. In the first byte, `sample` may be set again before the window closes. -/
structure Misses (r : Receiver) (got : List Byte) (lost : ℕ) (d : Decoder ℕ) : Prop where
  inv : r.Inv
  closed : d.window = none → r.sample = true
  opened : ∀ e, d.window = some e →
    r.tim4.cen = true ∧ r.tim4.cnt = e ∧ (r.sample = false ∨ d.bits.length < 8)
  bits_eq : got.flatMap Bits.msbFirst ++ (Bits.msbFirst r.dataByte).take r.currBit =
    d.bits.drop lost
  lost_le : lost ≤ d.bits.length

theorem Misses.samples {r : Receiver} {got : List Byte} {lost : ℕ} {d : Decoder ℕ}
    (h : r.Misses got lost d) (hs : d.window ≠ none → r.sample = false) : r.Samples d := by
  refine ⟨h.inv, h.closed, ?_⟩
  intro e he
  obtain ⟨hcen, hcnt, -⟩ := h.opened e he
  refine ⟨hs ?_, hcen, hcnt⟩
  rw [he]
  exact Option.some_ne_none e

/-- TIM4's interrupt sets `sample`, and counts whether it is set or not. -/
theorem cycle_sampling {r : Receiver} (hs : r.sample = true) :
    r.cycle.sample = true ∧ r.cycle.tim4 = Receiver.tim4 (cycle { r with sample := false }) := by
  cases hupd : r.tim4.updates
  · rw [cycle_of_not_updates hupd, cycle_of_not_updates (r := { r with sample := false }) hupd]
    exact ⟨hs, rfl⟩
  · rw [cycle_of_updates hupd, cycle_of_updates (r := { r with sample := false }) hupd]
    exact ⟨rfl, rfl⟩

/-- The window is closed by TIM4, whether `sample` has been set before or not. -/
theorem Misses.cycle {r : Receiver} {got : List Byte} {lost : ℕ} {d : Decoder ℕ}
    (h : r.Misses got lost d) : r.cycle.Misses got lost (d.elapse window 1) := by
  have hbits : got.flatMap Bits.msbFirst ++ (Bits.msbFirst r.cycle.dataByte).take r.cycle.currBit =
      (d.elapse window 1).bits.drop lost := by
    rw [cycle_frame, Decoder.bits_elapse]
    exact h.bits_eq
  have hle : lost ≤ (d.elapse window 1).bits.length := by
    rw [Decoder.bits_elapse]
    exact h.lost_le
  by_cases hs : d.window ≠ none → r.sample = false
  · have hsamples := (h.samples hs).cycle
    refine ⟨hsamples.inv, hsamples.closed, ?_, hbits, hle⟩
    intro e he
    obtain ⟨hs', hcen, hcnt⟩ := hsamples.opened e he
    exact ⟨hcen, hcnt, Or.inl hs'⟩
  · obtain ⟨hopen, hset⟩ : d.window ≠ none ∧ r.sample = true := by simpa using hs
    have hearly : d.bits.length < 8 := by
      obtain ⟨e, he⟩ := Option.ne_none_iff_exists'.mp hopen
      obtain ⟨-, -, hunset | hearly⟩ := h.opened e he
      · rw [hset] at hunset
        cases hunset
      · exact hearly
    have hunset : Samples { r with sample := false } d := by
      refine ⟨{ h.inv with }, fun hclosed => absurd hclosed hopen, ?_⟩
      intro e he
      obtain ⟨hcen, hcnt, -⟩ := h.opened e he
      exact ⟨rfl, hcen, hcnt⟩
    obtain ⟨hsample, htim4⟩ := cycle_sampling hset
    refine ⟨h.inv.cycle, fun _ => hsample, ?_, hbits, hle⟩
    intro e he
    obtain ⟨-, hcen, hcnt⟩ := hunset.cycle.opened e he
    rw [htim4, Decoder.bits_elapse]
    exact ⟨hcen, hcnt, Or.inr hearly⟩

/-- An edge is a step of the decoder, if an edge inside the window comes after the first byte
only. -/
theorem Misses.edge {r : Receiver} {got : List Byte} {lost : ℕ} {d : Decoder ℕ}
    (h : r.Misses got lost d) {b : Bool} (hb : b ≠ d.level)
    (hboundary : d.Boundary b → 8 ≤ d.bits.length) :
    (r.edge b).Misses (got ++ r.edgePuts b) lost (d.drive b) := by
  have hs : d.window ≠ none → r.sample = false := by
    intro hopen
    have hlate := hboundary ⟨hb, hopen⟩
    obtain ⟨e, he⟩ := Option.ne_none_iff_exists'.mp hopen
    obtain ⟨-, -, hunset | hearly⟩ := h.opened e he
    · exact hunset
    · omega
  have hsamples := (h.samples hs).edge hb
  refine ⟨hsamples.inv, hsamples.closed, ?_, ?_, ?_⟩
  · intro e he
    obtain ⟨hs', hcen, hcnt⟩ := hsamples.opened e he
    exact ⟨hcen, hcnt, Or.inl hs'⟩
  · cases hw : d.window with
    | some e =>
      have hopen : d.window ≠ none := by simp [hw]
      rw [Decoder.drive_boundary hb hw, assembled_boundary (hs hopen)]
      exact h.bits_eq
    | none =>
      rw [Decoder.drive_sample hb hw, assembled_sample h.inv (h.closed hw), h.bits_eq]
      exact (List.drop_append_of_le_length h.lost_le).symm
  · exact h.lost_le.trans (Decoder.bits_prefix_drive d b).length_le

/-- No byte is complete before the eighth bit. -/
theorem Misses.got_eq_nil {r : Receiver} {got : List Byte} {lost : ℕ} {d : Decoder ℕ}
    (h : r.Misses got lost d) (hshort : d.bits.length < 8) : got = [] := by
  have hlen := congrArg List.length h.bits_eq
  rw [List.length_append, Bits.length_flatMap_msbFirst, List.length_drop] at hlen
  apply List.eq_nil_of_length_eq_zero
  omega

/-- `currBit = dataByte = 0` in the first byte loses all its bits so far. -/
theorem Misses.clearBits {r : Receiver} {got : List Byte} {lost : ℕ} {d : Decoder ℕ}
    (h : r.Misses got lost d) (hshort : d.bits.length < 8) :
    Misses { r with currBit := 0, dataByte := 0 } got d.bits.length d := by
  refine ⟨{ h.inv with currBit_lt := Nat.zero_lt_succ _ }, h.closed, h.opened, ?_, le_rfl⟩
  rw [h.got_eq_nil hshort, List.drop_length]
  rfl

/-- Statements elsewhere change nothing that matters, but for a stop of TIM4. -/
theorem Misses.statement {r : Receiver} {got : List Byte} {lost : ℕ} {d : Decoder ℕ}
    (h : r.Misses got lost d) (state : MonitorState) {point : RoutinePoint}
    (hclear : point ≠ .clearBits) (hstop : point ≠ .stopTimeout)
    (hset : point = .setSample → d.bits.length < 8)
    (hroom : point = .readElement → r.msgCur < sizeofPacketHeader) :
    (r.statement state point).1.Misses got lost d := by
  cases point with
  | clearBits => exact absurd rfl hclear
  | stopTimeout => exact absurd rfl hstop
  | setSample =>
    refine ⟨{ h.inv with }, fun _ => rfl, ?_, h.bits_eq, h.lost_le⟩
    intro e he
    obtain ⟨hcen, hcnt, -⟩ := h.opened e he
    exact ⟨hcen, hcnt, Or.inr (hset rfl)⟩
  | clearReceiving => exact { h with inv := { h.inv with } }
  | printCollision => exact { h with inv := { h.inv with } }
  | ceaseReceiving => exact { h with inv := { h.inv with } }
  | dropMessage => exact { h with inv := { h.inv with valid := Ringbuffer.valid_reset _ } }
  | startMessage => exact { h with inv := { h.inv with msgCur_le := Nat.zero_le _ } }
  | readElement => exact { h with inv := h.inv.readElement (hroom rfl) }
  | display =>
    unfold Receiver.statement
    dsimp only
    split
    · rw [displayPacket_frame]
      exact { h with inv := { h.inv with } }
    · rw [displayRaw_frame]
      exact { h with inv := { h.inv with } }
  | outside | testSample | testReceiving | testCollision | testMessage | testElement => exact h

end Receiver

namespace PreemptedNode

open Node (TimedEvent Within hear physical waveEvents)

/-! ## What is asked of a run -/

/-- The bytes put into `receiveBuf` in a run, in order. -/
def received (s : PreemptedNode) (es : List TimedEvent) : List Byte :=
  Runs.outputs step (fun s e => s.node.timedPuts e) s es

/-- The edges that are served inside the reaction to an idle line are a packet's first ones, those of
its first byte. -/
def FirstEdges (s : PreemptedNode) (e : TimedEvent) : Prop :=
  e = .receiverUpdate → s.point.inReset = true → s.node.mon.getState ≠ .idle → s.edges < 8

/-- `currBit = dataByte = 0` is executed while the monitor is idle, as it was when it was tested. -/
def ResetsIdle (s : PreemptedNode) (e : TimedEvent) : Prop :=
  e = .receiverUpdate → s.point = .clearBits → s.node.mon.getState = .idle

theorem firstEdges_of_ne {s : PreemptedNode} {e : TimedEvent} (he : e ≠ .receiverUpdate) :
    s.FirstEdges e := fun heq => absurd heq he

theorem resetsIdle_of_ne {s : PreemptedNode} {e : TimedEvent} (he : e ≠ .receiverUpdate) :
    s.ResetsIdle e := fun heq => absurd heq he

instance (s : PreemptedNode) (e : TimedEvent) : Decidable (FirstEdges s e) :=
  inferInstanceAs (Decidable (_ → _ → _ → _))

instance (s : PreemptedNode) (e : TimedEvent) : Decidable (ResetsIdle s e) :=
  inferInstanceAs (Decidable (_ → _ → _))

/-! ## What the board knows of its line -/

/-- The board has put the bytes `got` and misses the first `lost` bits of its line; the last edge is
no further back than the monitor's timeout. -/
structure Hears (s : PreemptedNode) (got : List Byte) (lost : ℕ) (v : Decoder ℕ × LineView) :
    Prop where
  misses : s.node.rx.Misses got lost v.1
  level : v.1.level = s.node.idr4
  view : v.2.level = s.node.idr4
  follows : s.node.mon.Follows v.2
  within : Within (16 * transmissionTimeoutUs) v.2
  silent : v.2.sinceEdge = none →
    s.node.mon.getState = .idle ∧ s.node.mon.stk.enable = false ∧ v.1 = Node.silent.1
  started : v.2.sinceEdge ≠ none → v.1.bits ≠ []
  edges : v.1.bits.length ≤ s.edges
  notDropping : s.point.inDrop = false
  room : s.point = .readElement → s.node.rx.msgCur < sizeofPacketHeader

theorem Hears.busy {s : PreemptedNode} {got : List Byte} {lost : ℕ} {v : Decoder ℕ × LineView}
    (h : s.Hears got lost v) (hedge : v.2.sinceEdge ≠ none) : s.node.mon.getState = .busy := by
  obtain ⟨k, hk⟩ := Option.ne_none_iff_exists'.mp hedge
  exact (h.follows.busy k hk (h.within k hk)).1

/-- The monitor is idle until the first bit is sampled, and busy from then on. -/
theorem Hears.idle_iff {s : PreemptedNode} {got : List Byte} {lost : ℕ}
    {v : Decoder ℕ × LineView} (h : s.Hears got lost v) :
    s.node.mon.getState = .idle ↔ v.1.bits = [] := by
  by_cases hedge : v.2.sinceEdge = none
  · obtain ⟨hidle, -, hsilent⟩ := h.silent hedge
    rw [hsilent]
    exact iff_of_true hidle rfl
  · have hbusy := h.busy hedge
    exact iff_of_false (by rw [hbusy]; decide) (h.started hedge)

theorem Hears.not_collision {s : PreemptedNode} {got : List Byte} {lost : ℕ}
    {v : Decoder ℕ × LineView} (h : s.Hears got lost v) :
    s.node.mon.getState ≠ .collision := by
  by_cases hedge : v.2.sinceEdge = none
  · rw [(h.silent hedge).1]
    decide
  · rw [h.busy hedge]
    decide

/-- Inside the reaction to an idle line no byte is complete. -/
theorem Hears.length_lt {s : PreemptedNode} {got : List Byte} {lost : ℕ}
    {v : Decoder ℕ × LineView} (h : s.Hears got lost v) (hfirst : s.FirstEdges .receiverUpdate)
    (hreset : s.point.inReset = true) : v.1.bits.length < 8 := by
  by_cases hidle : s.node.mon.getState = .idle
  · rw [h.idle_iff.mp hidle]
    decide
  · exact h.edges.trans_lt (hfirst rfl hreset hidle)

/-! ## One event -/

/-- A statement loses bits if it is `currBit = dataByte = 0` after the monitor has become busy. -/
theorem Hears.statement {s : PreemptedNode} {got : List Byte} {lost : ℕ}
    {v : Decoder ℕ × LineView} (h : s.Hears got lost v) (hfirst : s.FirstEdges .receiverUpdate)
    {s' : PreemptedNode} (hstep : s.step .receiverUpdate = some s') :
    ∃ lost', s'.Hears got lost' v ∧ (lost' = 0 ↔ lost = 0 ∧ s.ResetsIdle .receiverUpdate) := by
  cases hstep
  have hdrop := s.node.rx.inDrop_statement h.not_collision h.notDropping
  by_cases hclear : s.point = .clearBits
  · have hearly := h.length_lt hfirst (by rw [hclear]; rfl)
    have hmisses := h.misses.clearBits hearly
    refine ⟨v.1.bits.length, { h with misses := ?_, notDropping := hdrop,
                                      room := Receiver.room_statement }, ?_⟩
    · rw [hclear]
      exact hmisses
    · have hle := h.misses.lost_le
      have hidle : s.ResetsIdle .receiverUpdate ↔ v.1.bits = [] :=
        ⟨fun hresets => h.idle_iff.mp (hresets rfl hclear),
          fun hnil _ _ => h.idle_iff.mpr hnil⟩
      rw [hidle, ← List.length_eq_zero_iff]
      omega
  · have hstop : s.point ≠ .stopTimeout := by
      intro hstop
      have := h.notDropping
      rw [hstop] at this
      cases this
    have hmisses := h.misses.statement s.node.mon.getState hclear hstop
      (fun hset => h.length_lt hfirst (by rw [hset]; rfl)) h.room
    refine ⟨lost, { h with misses := hmisses, notDropping := hdrop,
                           room := Receiver.room_statement }, ?_⟩
    have hresets : s.ResetsIdle .receiverUpdate := fun _ hpoint => absurd hpoint hclear
    exact (and_iff_left hresets).symm

/-- An edge adds a bit, or is not sampled. -/
theorem Hears.edge {s : PreemptedNode} {got : List Byte} {lost : ℕ} {v : Decoder ℕ × LineView}
    (h : s.Hears got lost v) {b : Bool} (hb : b ≠ s.node.idr4)
    (hboundary : v.1.Boundary b → 8 ≤ v.1.bits.length) :
    Hears { s with node := s.node.setLine b, edges := s.edges + 1 }
      (got ++ s.node.rx.edgePuts b) lost (v.1.drive b, ⟨b, some 0⟩) := by
  have hdrive : b ≠ v.1.level := by rwa [h.level]
  have hbits : (v.1.drive b).bits ≠ [] ∧ (v.1.drive b).bits.length ≤ s.edges + 1 := by
    have hedges := h.edges
    cases hw : v.1.window with
    | none =>
      rw [Decoder.drive_sample hdrive hw]
      simpa using hedges
    | some e =>
      rw [Decoder.drive_boundary hdrive hw]
      have hlate := hboundary ⟨hdrive, by simp [hw]⟩
      refine ⟨?_, by dsimp only; omega⟩
      rintro hnil
      dsimp only at hnil
      rw [hnil] at hlate
      cases hlate
  rw [Node.setLine_edge hb]
  exact {
    misses := h.misses.edge hdrive hboundary
    level := Decoder.level_drive v.1 b
    view := rfl
    follows := Monitor.follows_edgeIntrr s.node.mon b
    within := by
      intro k hk
      cases hk
      exact Nat.zero_le _
    silent := by
      intro hnone
      cases hnone
    started := fun _ => hbits.1
    edges := hbits.2
    notDropping := h.notDropping
    room := by
      intro hread
      have hroom := h.room hread
      rw [Receiver.edge_frame]
      exact hroom }

theorem Hears.cycle {s : PreemptedNode} {got : List Byte} {lost : ℕ} {v : Decoder ℕ × LineView}
    (h : s.Hears got lost v) (hwithin : Within (16 * transmissionTimeoutUs) (v.2.step .cycle)) :
    Hears { s with node := s.node.cycle } got lost (hear v .cycle) := by
  exact {
    misses := h.misses.cycle
    level := (Decoder.level_elapse v.1 1).trans h.level
    view := h.view
    follows := h.follows.cycle
    within := hwithin
    silent := by
      intro hnone
      obtain ⟨hidle, hstopped, hsilent⟩ := h.silent (Option.map_eq_none_iff.mp hnone)
      have hmon : s.node.cycle.mon = s.node.mon := Monitor.cycle_of_stopped hstopped
      have hsame : (hear v .cycle).1 = v.1 :=
        Decoder.elapse_of_closed (by rw [hsilent]; rfl) 1
      rw [hmon, hsame]
      exact ⟨hidle, hstopped, hsilent⟩
    started := by
      intro hedge
      have hbits : (hear v .cycle).1.bits = v.1.bits := Decoder.bits_elapse v.1 1
      rw [hbits]
      apply h.started
      intro hnone
      exact hedge (Option.map_eq_none_iff.mpr hnone)
    edges := by
      have hbits : (hear v .cycle).1.bits = v.1.bits := Decoder.bits_elapse v.1 1
      rw [hbits]
      exact h.edges
    notDropping := h.notDropping
    room := by
      intro hread
      have hroom := h.room hread
      rw [Node.rx_cycle, Receiver.cycle_frame]
      exact hroom }

/-- Edges inside the window come only after the first byte. -/
def Preamble (v : Decoder ℕ × LineView) (e : TimedEvent) : Prop :=
  ∀ b, e = .line b → v.1.Boundary b → 8 ≤ v.1.bits.length

/-- One event, of the line, the clock or the main loop. -/
theorem hears_step {s s' : PreemptedNode} {got : List Byte} {lost : ℕ}
    {v : Decoder ℕ × LineView} (h : s.Hears got lost v) {e : TimedEvent}
    (hstep : s.step e = some s') (hfirst : s.FirstEdges e)
    (hwithin : Within (16 * transmissionTimeoutUs) (hear v e).2) (hpreamble : Preamble v e) :
    ∃ lost', s'.Hears (got ++ s.node.timedPuts e) lost' (hear v e) ∧
      (lost' = 0 ↔ lost = 0 ∧ s.ResetsIdle e) := by
  cases e with
  | receiverUpdate =>
    show ∃ lost', s'.Hears (got ++ []) lost' v ∧ _
    rw [List.append_nil]
    exact h.statement hfirst hstep
  | transmitterUpdate c random =>
    have hresets : s.ResetsIdle (.transmitterUpdate c random) := resetsIdle_of_ne (by simp)
    refine ⟨lost, ?_, (and_iff_left hresets).symm⟩
    show s'.Hears (got ++ []) lost v
    rw [List.append_nil]
    obtain ⟨-, rfl⟩ : s.point = .outside ∧
        { s with node := s.node.transmitterUpdate c random } = s' := by
      simpa [step] using hstep
    exact { h with }
  | line level =>
    cases hstep
    have hresets : s.ResetsIdle (.line level) := resetsIdle_of_ne (by simp)
    refine ⟨lost, ?_, (and_iff_left hresets).symm⟩
    by_cases hedge : level = s.node.idr4
    · have hhear : hear v (.line level) = v :=
        Node.hear_line_same (hedge.trans h.level.symm) (hedge.trans h.view.symm)
      rw [hhear, Node.setLine_same hedge, if_pos hedge, Node.timedPuts, if_pos hedge,
        List.append_nil]
      exact h
    · have hview : level ≠ v.2.level := by rwa [h.view]
      rw [Node.hear_line_edge hview, if_neg hedge, Node.timedPuts, if_neg hedge]
      exact h.edge hedge (hpreamble level rfl)
  | cycle =>
    cases hstep
    have hresets : s.ResetsIdle .cycle := resetsIdle_of_ne (by simp)
    refine ⟨lost, ?_, (and_iff_left hresets).symm⟩
    show Hears _ (got ++ []) lost (hear v .cycle)
    rw [List.append_nil]
    exact h.cycle hwithin

/-- A run: bits are lost if and only if some reset came after the first bit. -/
theorem hears_run {s t : PreemptedNode} {got : List Byte} {lost : ℕ}
    {v : Decoder ℕ × LineView} (h : s.Hears got lost v) {es : List TimedEvent}
    (hrun : Runs.run step s es = some t) (hfirst : Runs.Along step FirstEdges s es)
    (hwithin : Node.WithinAlong (16 * transmissionTimeoutUs) v es)
    (hpreamble : Runs.Along (fun v e => some (hear v e)) Preamble v es) :
    ∃ lost', t.Hears (got ++ s.received es) lost' (es.foldl hear v) ∧
      (lost' = 0 ↔ lost = 0 ∧ Runs.Along step ResetsIdle s es) := by
  induction es generalizing s got lost v with
  | nil =>
    cases hrun
    refine ⟨lost, ?_, (and_iff_left trivial).symm⟩
    show t.Hears (got ++ []) lost v
    rw [List.append_nil]
    exact h
  | cons e es ih =>
    obtain ⟨s', hs', hrest⟩ := Runs.run_cons_eq_some.mp hrun
    obtain ⟨lost₁, hnext, hfirst₁⟩ := hears_step h hs' hfirst.1 hwithin.1 hpreamble.1
    obtain ⟨lost₂, hlast, hrest₂⟩ := ih hnext hrest (hfirst.2 s' hs') (hwithin.2 _ rfl)
      (hpreamble.2 _ rfl)
    have hcons : s.received (e :: es) = s.node.timedPuts e ++ s'.received es :=
      Runs.outputs_cons hs' es
    refine ⟨lost₂, ?_, ?_⟩
    · rw [hcons, ← List.append_assoc]
      exact hlast
    · rw [hrest₂, hfirst₁, Runs.along_cons_iff hs', and_assoc]

/-! ## A packet -/

theorem hears_quiescent {n : Node} (h : n.Quiescent) : Hears ⟨n, .outside, 0⟩ [] 0 Node.silent := by
  have hmisses : n.rx.Misses [] 0 Node.silent.1 := by
    refine ⟨h.inv, fun _ => h.sample, ?_, ?_, le_rfl⟩
    · intro e he
      cases he
    · rw [h.currBit]
      rfl
  exact {
    misses := hmisses
    level := h.high.symm
    view := h.high.symm
    follows := Monitor.follows_unknown n.mon true
    within := by
      intro k hk
      cases hk
    silent := fun _ => ⟨h.idle, h.stopped, rfl⟩
    started := fun hedge => absurd rfl hedge
    edges := le_rfl
    notDropping := rfl
    room := by
      intro hread
      cases hread }

/-- What a waveform drives is what its events drive. -/
theorem along_driven {P : Decoder ℕ → Bool → Prop} {wave : List (Bool × ℕ)}
    {v : Decoder ℕ × LineView} (hage : ∀ e, v.1.window = some e → e < window)
    (h : Decoder.Driven window P v.1 wave) :
    Runs.Along (fun v e => some (hear v e)) (fun v e => ∀ b, e = .line b → P v.1 b) v
      (waveEvents wave) := by
  induction wave generalizing v with
  | nil => trivial
  | cons half wave ih =>
    obtain ⟨hdriven, hrest⟩ := h
    have hdrive : ∀ e, (v.1.drive half.1).window = some e → e < window :=
      fun _ he => Decoder.window_lt_drive (by decide) hage half.1 he
    have hcycles := Node.decode_cycles (s := hear v (.line half.1)) hdrive half.2
    rw [waveEvents, List.flatMap_cons, List.cons_append]
    refine ⟨?_, ?_⟩
    · intro b hb
      cases hb
      exact hdriven
    · intro v' hv'
      cases hv'
      apply Runs.Along.concat (Runs.along_of_forall ?_ _) (Runs.run_total hear _ _)
      · apply ih
        · rw [hcycles]
          exact fun _ he => Decoder.window_lt_elapse he
        · rw [hcycles]
          exact hrest
      · intro _ e he b hb
        rw [List.eq_of_mem_replicate he] at hb
        cases hb

/-- In a packet, edges inside the window come only after the synch byte, whose bits alternate. -/
theorem along_preamble {bytes : List Byte} (hsynch : bytes.head? = some 0x55) {ds : List ℕ}
    (hlen : ds.length = (halfBits bytes).length) (hshort : ∀ d ∈ ds, d ≤ halfbitTimeoutTicks)
    (hpair : ds.IsChain fun d d' => halfbitTimeoutTicks < d + d') :
    Runs.Along (fun v e => some (hear v e)) Preamble Node.silent
      (waveEvents ((halfBits bytes).zip ds ++ [(true, 0)])) := by
  obtain ⟨rest, rfl⟩ := List.head?_eq_some_iff.mp hsynch
  have hclosed : ∀ e, Node.silent.1.window = some e → e < window := by
    intro e he
    cases he
  apply along_driven (P := fun d b => d.Boundary b → 8 ≤ d.bits.length) hclosed
  have hbits : (0x55 :: rest).flatMap Bits.msbFirst =
      Bits.msbFirst 0x55 ++ rest.flatMap Bits.msbFirst := List.flatMap_cons
  have hfirst : ((0x55 :: rest).flatMap Bits.msbFirst).head? ≠ some true := by
    apply StartsLow.head?_bits
    intro b hb
    cases hb
    rfl
  have hwindow : ∀ d ∈ ds, d < window := fun d hd => Nat.lt_succ_of_le (hshort d hd)
  rw [length_halfBits, hbits] at hlen
  rw [hbits] at hfirst
  rw [halfBits_eq, hbits]
  apply Decoder.Driven.append
  · exact Decoder.boundary_after_preamble (T := window) rfl rfl (Bits.msbFirst 0x55) (by decide)
      (by decide) hlen hwindow hpair
  · obtain ⟨b, u, -, hfollow⟩ := Decoder.follow_encode_open (T := window) (d := Node.silent.1) rfl
      rfl (List.append_ne_nil_of_left_ne_nil (by decide) _) hfirst hlen hwindow hpair
    apply Decoder.driven_of_length
    rw [hfollow, List.length_append, List.length_append, Bits.length_msbFirst]
    omega

/-- After the release of the line nothing is put, and the eight edges are over. -/
theorem received_released {s t : PreemptedNode} {es : List TimedEvent}
    (hhigh : s.node.idr4 = true) (hedges : 8 ≤ s.edges) (hes : ∀ e ∈ es, e ≠ .line false)
    (hrun : Runs.run step s es = some t) (hfirst : Runs.Along step FirstEdges s es) :
    s.received es = [] ∧ Runs.Along step ResetsIdle s es := by
  induction es generalizing s with
  | nil => exact ⟨rfl, trivial⟩
  | cons e es ih =>
    obtain ⟨s', hs', hrest⟩ := Runs.run_cons_eq_some.mp hrun
    have hresets : s.ResetsIdle e := by
      intro he hclear
      by_contra hbusy
      have hearly := hfirst.1 he (by rw [hclear]; rfl) hbusy
      omega
    have hstep : s'.node.idr4 = true ∧ 8 ≤ s'.edges ∧ s.node.timedPuts e = [] := by
      cases e with
      | receiverUpdate =>
        cases hs'
        exact ⟨hhigh, hedges, rfl⟩
      | transmitterUpdate c random =>
        obtain ⟨-, rfl⟩ : s.point = .outside ∧
            { s with node := s.node.transmitterUpdate c random } = s' := by
          simpa [step] using hs'
        exact ⟨hhigh, hedges, rfl⟩
      | line level =>
        obtain rfl : level = true := by
          have hlow := hes (.line level) List.mem_cons_self
          cases level
          · exact absurd rfl hlow
          · rfl
        cases hs'
        refine ⟨Node.idr4_setLine s.node true, ?_, if_pos hhigh.symm⟩
        dsimp only
        rw [if_pos hhigh.symm]
        exact hedges
      | cycle =>
        cases hs'
        exact ⟨hhigh, hedges, rfl⟩
    obtain ⟨hhigh', hedges', hputs⟩ := hstep
    obtain ⟨hreceived, halong⟩ := ih hhigh' hedges'
      (fun e he => hes e (List.mem_cons_of_mem _ he)) hrest (hfirst.2 s' hs')
    have hcons : s.received (e :: es) = s.node.timedPuts e ++ s'.received es :=
      Runs.outputs_cons hs' es
    rw [hcons, hputs, hreceived, Runs.along_cons_iff hs']
    exact ⟨rfl, hresets, halong⟩

/-- Until the line is released, all the bits of a packet have been heard. -/
theorem hears_release {n : Node} (h : n.Quiescent) {bytes : List Byte}
    (hsynch : bytes.head? = some 0x55) {ds : List ℕ} (hlen : ds.length = (halfBits bytes).length)
    (hshort : ∀ d ∈ ds, d ≤ halfbitTimeoutTicks)
    (hpair : ds.IsChain fun d d' =>
      halfbitTimeoutTicks < d + d' ∧ d + d' ≤ 16 * transmissionTimeoutUs)
    {es : List TimedEvent}
    (hes : es.filter physical = waveEvents ((halfBits bytes).zip ds) ++ [.line true])
    {s : PreemptedNode} (hrun : Runs.run step ⟨n, .outside, 0⟩ es = some s)
    (hfirst : Runs.Along step FirstEdges ⟨n, .outside, 0⟩ es) :
    ∃ lost v, s.Hears (received ⟨n, .outside, 0⟩ es) lost v ∧
      v.1.bits = bytes.flatMap Bits.msbFirst ∧ v.1.level = true ∧
      (lost = 0 ↔ Runs.Along step ResetsIdle ⟨n, .outside, 0⟩ es) := by
  have hlow : StartsLow bytes := by
    intro b hb
    rw [hsynch] at hb
    cases hb
    rfl
  have hlimit : ∀ d ∈ ds, d ≤ 16 * transmissionTimeoutUs :=
    fun d hd => (hshort d hd).trans (by decide)
  have hwave := Node.withinAlong_halfBits hlen hlimit (hpair.imp fun _ _ h => h.2)
  have hpreamble := along_preamble hsynch hlen hshort (hpair.imp fun _ _ h => h.1)
  have hbits := Node.bits_halfBits hlow hlen hshort (hpair.imp fun _ _ h => h.1)
  rw [Node.waveEvents_release, List.replicate_zero, List.append_nil] at hpreamble
  rw [← hes] at hwave hpreamble hbits
  have hwithin : Node.WithinAlong (16 * transmissionTimeoutUs) Node.silent es := by
    refine Node.along_of_physical (F := fun v => Within (16 * transmissionTimeoutUs) v.2) ?_
      (fun _ _ hwithin => hwithin) ?_ hwave
    · intro v e he hwithin
      rw [Node.hear_other he]
      exact hwithin
    · intro k hk
      cases hk
  have hboundary : Runs.Along (fun v e => some (hear v e)) Preamble Node.silent es := by
    refine Node.along_of_physical (F := fun _ => True) ?_ (fun _ _ _ => trivial) trivial hpreamble
    rintro v e he - b rfl
    cases he
  obtain ⟨lost, hhears, hlost⟩ := hears_run (hears_quiescent h) hrun hfirst hwithin hboundary
  rw [Node.foldl_hear_physical] at hhears
  refine ⟨lost, _, hhears, hbits, ?_, hlost.trans (and_iff_right rfl)⟩
  rw [hes, List.foldl_append]
  exact Decoder.level_drive _ true

/-- What is put in a run that carries one packet: its bits without the first `lost` ones, as far as
they make up bytes. -/
theorem received_bits {n : Node} (h : n.Quiescent) {bytes : List Byte}
    (hsynch : bytes.head? = some 0x55) {ds : List ℕ} (hlen : ds.length = (halfBits bytes).length)
    (hshort : ∀ d ∈ ds, d ≤ halfbitTimeoutTicks)
    (hpair : ds.IsChain fun d d' =>
      halfbitTimeoutTicks < d + d' ∧ d + d' ≤ 16 * transmissionTimeoutUs) {idle : ℕ}
    {es : List TimedEvent}
    (hes : es.filter physical = waveEvents ((halfBits bytes).zip ds ++ [(true, idle)]))
    {t : PreemptedNode} (hrun : Runs.run step ⟨n, .outside, 0⟩ es = some t)
    (hfirst : Runs.Along step FirstEdges ⟨n, .outside, 0⟩ es) :
    ∃ lost part, lost ≤ (bytes.flatMap Bits.msbFirst).length ∧ part.length < 8 ∧
      (received ⟨n, .outside, 0⟩ es).flatMap Bits.msbFirst ++ part =
        (bytes.flatMap Bits.msbFirst).drop lost ∧
      (lost = 0 ↔ Runs.Along step ResetsIdle ⟨n, .outside, 0⟩ es) := by
  rw [Node.waveEvents_release] at hes
  -- the events until the line is released, and those after
  obtain ⟨es₁, es₂, rfl, hes₁, hes₂⟩ := List.filter_eq_append_iff.mp hes
  obtain ⟨s, hrun₁, hrun₂⟩ := Runs.run_append_eq_some.mp hrun
  obtain ⟨hfirst₁, hfirst₂⟩ := hfirst.append hrun₁
  obtain ⟨lost, v, hhears, hbits, hlevel, hlost⟩ :=
    hears_release h hsynch hlen hshort hpair hes₁ hrun₁ hfirst₁
  have hhigh : s.node.idr4 = true := hhears.level.symm.trans hlevel
  have hedges : 8 ≤ s.edges := by
    obtain ⟨rest, rfl⟩ := List.head?_eq_some_iff.mp hsynch
    have hedges := hhears.edges
    rw [hbits, Bits.length_flatMap_msbFirst, List.length_cons] at hedges
    omega
  have hquiet : ∀ e ∈ es₂, e ≠ .line false := by
    rintro e he rfl
    have hmem : TimedEvent.line false ∈ es₂.filter physical := List.mem_filter.mpr ⟨he, rfl⟩
    rw [hes₂] at hmem
    cases List.eq_of_mem_replicate hmem
  obtain ⟨hreceived, halong₂⟩ := received_released hhigh hedges hquiet hrun₂ hfirst₂
  have hall : received ⟨n, .outside, 0⟩ (es₁ ++ es₂) = received ⟨n, .outside, 0⟩ es₁ := by
    have happend : received ⟨n, .outside, 0⟩ (es₁ ++ es₂) =
        received ⟨n, .outside, 0⟩ es₁ ++ s.received es₂ := Runs.outputs_append hrun₁ es₂
    rw [happend, hreceived, List.append_nil]
  have hbits_eq := hhears.misses.bits_eq
  have hle := hhears.misses.lost_le
  have hpart := hhears.misses.inv.currBit_lt
  rw [hbits] at hbits_eq hle
  rw [hall]
  refine ⟨lost, _, hle, ?_, hbits_eq, ?_⟩
  · rw [List.length_take]
    omega
  · rw [hlost]
    constructor
    · intro halong₁
      exact halong₁.concat hrun₁ halong₂
    · intro halong
      exact (halong.append hrun₁).1

theorem eq_iff_lost {got bytes : List Byte} {part : List Bool} {lost : ℕ}
    (hle : lost ≤ (bytes.flatMap Bits.msbFirst).length) (hpart : part.length < 8)
    (hbits : got.flatMap Bits.msbFirst ++ part = (bytes.flatMap Bits.msbFirst).drop lost) :
    got = bytes ↔ lost = 0 := by
  constructor
  · rintro rfl
    have hlen := congrArg List.length hbits
    rw [List.length_append, List.length_drop] at hlen
    omega
  · rintro rfl
    have heq : got.flatMap Bits.msbFirst ++ part = bytes.flatMap Bits.msbFirst ++ [] := by
      rw [hbits, List.drop_zero, List.append_nil]
    exact (Bits.words_unique heq hpart (by simp)).1

/-! ### A packet whose first bit is lost -/

/-- No statement is executed in what the line and the clock do. -/
theorem along_physical {P : PreemptedNode → TimedEvent → Prop}
    (hP : ∀ s e, e ≠ .receiverUpdate → P s e) {es : List TimedEvent}
    (hes : ∀ e ∈ es, physical e = true) (s : PreemptedNode) : Runs.Along step P s es := by
  refine Runs.along_of_forall (fun s e he => hP s e ?_) s
  rintro rfl
  cases hes _ he

theorem physical_waveEvents (wave : List (Bool × ℕ)) : ∀ e ∈ waveEvents wave, physical e = true := by
  rw [← Node.filter_waveEvents]
  exact fun e he => (List.mem_filter.mp he).2

/-- The routine has found the line idle, and then the first edge of a packet comes. -/
def firstEdgeServed (high : ℕ) : List TimedEvent :=
  (.receiverUpdate :: .line true :: List.replicate high .cycle) ++ [.line false]

theorem run_firstEdgeServed {n : Node} (h : n.Quiescent) (high : ℕ) :
    ∃ m, m.mon.getState = .busy ∧
      Runs.run step ⟨n, .outside, 0⟩ (firstEdgeServed high) = some ⟨m, .clearBits, 1⟩ := by
  have htest : step ⟨n, .outside, 0⟩ .receiverUpdate = some ⟨n, .clearBits, 0⟩ := by
    show some (mk n (if n.mon.getState = .idle then .clearBits else .testReceiving) 0) = _
    rw [if_pos h.idle]
  have hline : step ⟨n, .clearBits, 0⟩ (.line true) = some ⟨n, .clearBits, 0⟩ := by
    show some (mk (n.setLine true) .clearBits (if true = n.idr4 then 0 else 1)) = _
    rw [Node.setLine_same h.high.symm, if_pos h.high.symm]
  have hquiet : ∀ e ∈ List.replicate high TimedEvent.cycle, e ≠ .line false := by
    rintro e he rfl
    cases List.eq_of_mem_replicate he
  have hhigh := (h.timedRun hquiet).high
  generalize hm : n.timedRun (List.replicate high .cycle) = m at hhigh
  have hedge : step ⟨m, .clearBits, 0⟩ (.line false) =
      some ⟨m.setLine false, .clearBits, 1⟩ := by
    show some (mk (m.setLine false) .clearBits (if false = m.idr4 then 0 else 1)) = _
    rw [if_neg (by rw [hhigh]; decide)]
  refine ⟨m.setLine false, ?_, ?_⟩
  · rw [Node.setLine_edge (by rw [hhigh]; decide)]
    rfl
  · apply Runs.run_concat_eq_some.mpr
    refine ⟨⟨m, .clearBits, 0⟩, ?_, hedge⟩
    apply Runs.run_cons_eq_some.mpr
    refine ⟨⟨n, .clearBits, 0⟩, htest, ?_⟩
    apply Runs.run_cons_eq_some.mpr
    refine ⟨⟨n, .clearBits, 0⟩, hline, ?_⟩
    rw [run_cycles, hm]

/-- The reset goes on after the first edge, and then the rest of the packet comes. -/
theorem resets_after_firstEdge {n : Node} (h : n.Quiescent) (high : ℕ) {rest : List TimedEvent}
    (hrest : ∀ e ∈ rest, physical e = true) :
    (∃ t, Runs.run step ⟨n, .outside, 0⟩ (firstEdgeServed high ++ .receiverUpdate :: rest) =
        some t) ∧
      Runs.Along step FirstEdges ⟨n, .outside, 0⟩
        (firstEdgeServed high ++ .receiverUpdate :: rest) ∧
      ¬Runs.Along step ResetsIdle ⟨n, .outside, 0⟩
        (firstEdgeServed high ++ .receiverUpdate :: rest) := by
  obtain ⟨m, hbusy, hrun⟩ := run_firstEdgeServed h high
  refine ⟨?_, ?_, ?_⟩
  · have hevents : ∀ e ∈ TimedEvent.receiverUpdate :: rest,
        physical e = true ∨ e = .receiverUpdate := by
      intro e he
      rcases List.mem_cons.mp he with hnow | hlater
      · exact Or.inr hnow
      · exact Or.inl (hrest e hlater)
    obtain ⟨t, ht⟩ := exists_run ⟨m, .clearBits, 1⟩ hevents
    exact ⟨t, Runs.run_append_eq_some.mpr ⟨_, hrun, ht⟩⟩
  · apply Runs.Along.concat ?_ hrun
    · refine ⟨fun _ _ _ => (by decide : 1 < 8), ?_⟩
      intro s _
      exact along_physical (fun _ _ => firstEdges_of_ne) hrest s
    · refine ⟨?_, ?_⟩
      · intro _ hreset
        cases hreset
      · intro s _
        apply along_physical (fun _ _ => firstEdges_of_ne)
        intro e he
        rcases List.mem_append.mp he with hhigh | hlow
        · rcases List.mem_cons.mp hhigh with rfl | hcycle
          · rfl
          · rw [List.eq_of_mem_replicate hcycle]
            rfl
        · rw [List.mem_singleton.mp hlow]
          rfl
  · intro halong
    have hidle : m.mon.getState = .idle := halong.at_split hrun rfl rfl
    rw [hbusy] at hidle
    cases hidle

/-- A packet whose first edge comes between the test for an idle line and the reset. -/
def preempted (bytes : List Byte) (d d' : ℕ) (ds : List ℕ) (idle : ℕ) : List TimedEvent :=
  firstEdgeServed d ++ .receiverUpdate ::
    (List.replicate d' .cycle ++ waveEvents (((halfBits bytes).drop 2).zip ds ++ [(true, idle)]))

theorem filter_preempted {bytes : List Byte} (hsynch : bytes.head? = some 0x55) (d d' : ℕ)
    (ds : List ℕ) (idle : ℕ) :
    (preempted bytes d d' ds idle).filter physical =
      waveEvents ((halfBits bytes).zip (d :: d' :: ds) ++ [(true, idle)]) := by
  obtain ⟨rest, rfl⟩ := List.head?_eq_some_iff.mp hsynch
  obtain ⟨hs, hhalf⟩ : ∃ hs, halfBits (0x55 :: rest) = true :: false :: hs := ⟨_, rfl⟩
  have hcycles : ∀ t, (List.replicate t TimedEvent.cycle).filter physical =
      List.replicate t .cycle := fun t => List.filter_replicate_of_pos rfl
  have hlater := Node.filter_waveEvents (hs.zip ds ++ [(true, idle)])
  have hwave : waveEvents ((true, d) :: (false, d') :: (hs.zip ds ++ [(true, idle)])) =
      .line true :: (List.replicate d .cycle ++ .line false :: (List.replicate d' .cycle ++
        waveEvents (hs.zip ds ++ [(true, idle)]))) := rfl
  rw [hhalf, List.zip_cons_cons, List.zip_cons_cons, List.cons_append, List.cons_append, hwave]
  unfold preempted firstEdgeServed
  rw [hhalf, List.drop_succ_cons, List.drop_succ_cons, List.drop_zero]
  simp only [List.filter_append, List.filter_cons, physical, hcycles, hlater,
    List.append_assoc, List.cons_append, List.nil_append, if_true, Bool.false_eq_true, if_false]

/-- The first bit is lost, and what is put is not the packet. -/
theorem received_preempted_ne {n : Node} (h : n.Quiescent) {bytes : List Byte}
    (hsynch : bytes.head? = some 0x55) {d d' : ℕ} {ds : List ℕ}
    (hlen : (d :: d' :: ds).length = (halfBits bytes).length)
    (hshort : ∀ e ∈ d :: d' :: ds, e ≤ halfbitTimeoutTicks)
    (hpair : (d :: d' :: ds).IsChain fun e e' =>
      halfbitTimeoutTicks < e + e' ∧ e + e' ≤ 16 * transmissionTimeoutUs) (idle : ℕ) :
    Runs.Along step FirstEdges ⟨n, .outside, 0⟩ (preempted bytes d d' ds idle) ∧
      (∃ t, Runs.run step ⟨n, .outside, 0⟩ (preempted bytes d d' ds idle) = some t) ∧
      received ⟨n, .outside, 0⟩ (preempted bytes d d' ds idle) ≠ bytes := by
  have hrest : ∀ e ∈ List.replicate d' .cycle ++
      waveEvents (((halfBits bytes).drop 2).zip ds ++ [(true, idle)]), physical e = true := by
    intro e he
    rcases List.mem_append.mp he with hcycle | hwave
    · rw [List.eq_of_mem_replicate hcycle]
      rfl
    · exact physical_waveEvents _ e hwave
  obtain ⟨⟨t, hrun⟩, hfirst, hresets⟩ := resets_after_firstEdge h d hrest
  obtain ⟨lost, part, hle, hpart, hbits, hlost⟩ := received_bits h hsynch hlen hshort hpair
    (filter_preempted hsynch d d' ds idle) hrun hfirst
  refine ⟨hfirst, ⟨t, hrun⟩, ?_⟩
  intro heq
  exact hresets (hlost.mp ((eq_iff_lost hle hpart hbits).mp heq))

/-! ### The bytes of a packet -/

/-- **The idle reset destroys a bit exactly when it is overtaken.** A packet arrives at an idle
receiver, and its first edges come anywhere between the statements of the main routine: the bytes
put are those of the packet if and only if the monitor is still idle whenever
`currBit = dataByte = 0` is executed. -/
theorem received_iff_resetsIdle {n : Node} (h : n.Quiescent) {bytes : List Byte}
    (hsynch : bytes.head? = some 0x55) {ds : List ℕ} (hlen : ds.length = (halfBits bytes).length)
    (hshort : ∀ d ∈ ds, d ≤ halfbitTimeoutTicks)
    (hpair : ds.IsChain fun d d' =>
      halfbitTimeoutTicks < d + d' ∧ d + d' ≤ 16 * transmissionTimeoutUs) {idle : ℕ}
    {es : List TimedEvent}
    (hes : es.filter physical = waveEvents ((halfBits bytes).zip ds ++ [(true, idle)]))
    {t : PreemptedNode} (hrun : Runs.run step ⟨n, .outside, 0⟩ es = some t)
    (hfirst : Runs.Along step FirstEdges ⟨n, .outside, 0⟩ es) :
    received ⟨n, .outside, 0⟩ es = bytes ↔
      Runs.Along step ResetsIdle ⟨n, .outside, 0⟩ es := by
  obtain ⟨lost, part, hle, hpart, hbits, hlost⟩ :=
    received_bits h hsynch hlen hshort hpair hes hrun hfirst
  rw [← hlost]
  exact eq_iff_lost hle hpart hbits

/-- The packet of the line `a` to a board that has just been started, its first edge between the test
and the reset: bytes are put that were not sent. -/
theorem received_preemptedA :
    (preempted Node.packetA.bytes 8001 8001 (List.replicate 126 8001) 20000).filter physical =
        waveEvents Node.packetA.wave ∧
      Runs.Along step FirstEdges ⟨Node.boot 0xAA 0xBB true true true, .outside, 0⟩
        (preempted Node.packetA.bytes 8001 8001 (List.replicate 126 8001) 20000) ∧
      (∃ t, Runs.run step ⟨Node.boot 0xAA 0xBB true true true, .outside, 0⟩
        (preempted Node.packetA.bytes 8001 8001 (List.replicate 126 8001) 20000) = some t) ∧
      received ⟨Node.boot 0xAA 0xBB true true true, .outside, 0⟩
        (preempted Node.packetA.bytes 8001 8001 (List.replicate 126 8001) 20000) ≠
          Node.packetA.bytes := by
  have hquiescent := Node.quiescent_boot 0xAA 0xBB true true
  have hadmissible := Node.admissible_packetA
  refine ⟨filter_preempted rfl 8001 8001 (List.replicate 126 8001) 20000, ?_⟩
  exact received_preempted_ne hquiescent rfl hadmissible.length_eq hadmissible.short
    (hadmissible.pair.imp fun _ _ h => ⟨h.1, Nat.le_of_lt h.2⟩) 20000

/-- The same packet, when the routine has executed the reset before. -/
theorem received_afterReset :
    received ⟨Node.boot 0xAA 0xBB true true true, .outside, 0⟩
      ([.receiverUpdate, .receiverUpdate, .receiverUpdate] ++ waveEvents Node.packetA.wave) =
        Node.packetA.bytes := by
  have hquiescent := Node.quiescent_boot 0xAA 0xBB true true
  have hadmissible := Node.admissible_packetA
  obtain ⟨s, hstatements⟩ : ∃ s, Runs.run step ⟨Node.boot 0xAA 0xBB true true true, .outside, 0⟩
      [.receiverUpdate, .receiverUpdate, .receiverUpdate] = some s := ⟨_, rfl⟩
  have hphysical := physical_waveEvents Node.packetA.wave
  obtain ⟨t, hwave⟩ := exists_run s fun e he => Or.inl (hphysical e he)
  have hfirst : Runs.Along step FirstEdges ⟨Node.boot 0xAA 0xBB true true true, .outside, 0⟩
      [.receiverUpdate, .receiverUpdate, .receiverUpdate] := by decide
  have hresets : Runs.Along step ResetsIdle ⟨Node.boot 0xAA 0xBB true true true, .outside, 0⟩
      [.receiverUpdate, .receiverUpdate, .receiverUpdate] := by decide
  have hfirst' : Runs.Along step FirstEdges s (waveEvents Node.packetA.wave) :=
    along_physical (fun _ _ => firstEdges_of_ne) hphysical s
  have hresets' : Runs.Along step ResetsIdle s (waveEvents Node.packetA.wave) :=
    along_physical (fun _ _ => resetsIdle_of_ne) hphysical s
  have hes : ([TimedEvent.receiverUpdate, .receiverUpdate, .receiverUpdate] ++
      waveEvents Node.packetA.wave).filter physical = waveEvents Node.packetA.wave := by
    have hnone : [TimedEvent.receiverUpdate, .receiverUpdate, .receiverUpdate].filter physical =
        [] := rfl
    rw [List.filter_append, Node.filter_waveEvents, hnone, List.nil_append]
  exact (received_iff_resetsIdle hquiescent rfl hadmissible.length_eq hadmissible.short
    (hadmissible.pair.imp fun _ _ h => ⟨h.1, Nat.le_of_lt h.2⟩) hes
    (Runs.run_append_eq_some.mpr ⟨s, hstatements, hwave⟩)
    (hfirst.concat hstatements hfirst')).mpr (hresets.concat hstatements hresets')

end PreemptedNode

end NetworkingCard
