import NetworkingCard.Library.LineCode
import NetworkingCard.ReceiverTheorems

/-!
# The receiver as an edge decoder

`EXTI4_IRQHandler` and `TIM4_IRQHandler` together are the decoder of the line code with a window
of `HALFBIT_TIMEOUT_TICKS + 1` core cycles: `Receiver.Tracks` relates their state to a
`LineCode.Decoder`, an edge is its `drive` (`Tracks.edge`) and a core cycle its `elapse` by 1
(`Tracks.cycle`).

On a board the relation is part of two phases, between which the events of a timed run move:

* `Silent`: the monitor is idle, and some bytes of an earlier message may still be unread; when the
  receiver is ready for a first bit the board is `Idle`;
* `Receiving`: edges keep coming, the monitor is busy and the main routine stays away.
-/

namespace NetworkingCard

open LineCode (Decoder)

/-- The length of TIM4's timeout: its count passes `ARR` one cycle after reaching it. -/
def window : ℕ := halfbitTimeoutTicks + 1

namespace Receiver

/-- The sampling of the receiver is in the state `d` of the decoder: its window is open exactly
while `sample` is false, and its age is the count of TIM4. -/
structure Samples (r : Receiver) (d : Decoder ℕ) : Prop where
  inv : r.Inv
  closed : d.window = none → r.sample = true
  opened : ∀ e, d.window = some e → r.sample = false ∧ r.tim4.cen = true ∧ r.tim4.cnt = e

theorem Samples.window_le {r : Receiver} {d : Decoder ℕ} (h : r.Samples d) {e : ℕ}
    (he : d.window = some e) : e ≤ halfbitTimeoutTicks := by
  rw [← (h.opened e he).2.2]
  exact h.inv.tim4.cnt_le

/-- An edge is a step of the decoder. -/
theorem Samples.edge {r : Receiver} {d : Decoder ℕ} (h : r.Samples d) {b : Bool}
    (hb : b ≠ d.level) : (r.edge b).Samples (d.drive b) := by
  cases hw : d.window with
  | none =>
    rw [Decoder.drive_sample hb hw, edge_sample (h.closed hw)]
    refine ⟨edge_sample (h.closed hw) b ▸ h.inv.edge b, by simp, ?_⟩
    intro e he
    cases he
    exact ⟨rfl, rfl, rfl⟩
  | some e =>
    rw [Decoder.drive_boundary hb hw, edge_boundary (h.opened e hw).1]
    refine ⟨edge_boundary (h.opened e hw).1 b ▸ h.inv.edge b, fun _ => rfl, ?_⟩
    intro e he
    cases he

/-- While no window is open, a cycle changes nothing that matters. -/
theorem Samples.cycle_closed {r : Receiver} {d : Decoder ℕ} (h : r.Samples d)
    (hw : d.window = none) : r.cycle.Samples d := by
  refine ⟨h.inv.cycle, fun _ => ?_, fun e he => absurd (hw.symm.trans he) (by simp)⟩
  cases hupd : r.tim4.updates
  · rw [cycle_of_not_updates hupd]
    exact h.closed hw
  · rw [cycle_of_updates hupd]

/-- A core cycle is a unit of the decoder's time. -/
theorem Samples.cycle {r : Receiver} {d : Decoder ℕ} (h : r.Samples d) :
    r.cycle.Samples (d.elapse window 1) := by
  cases hw : d.window with
  | none =>
    rw [Decoder.elapse_of_closed hw]
    exact h.cycle_closed hw
  | some e =>
    obtain ⟨hs, hcen, hcnt⟩ := h.opened e hw
    have harr := h.inv.tim4.arr
    have hle := h.window_le hw
    have hupd : r.tim4.updates = decide (halfbitTimeoutTicks ≤ e) := by
      rw [Tim.updates, hcen, harr, h.inv.tim4.pscActive, hcnt, decide_eq_true (Nat.zero_le _),
        decide_eq_true (by decide : 0 < halfbitTimeoutTicks)]
      rfl
    -- TIM4's count is the age of the window: its timeout closes it
    by_cases hlast : halfbitTimeoutTicks ≤ e
    · rw [Decoder.elapse_close hw (by unfold window; omega)]
      rw [decide_eq_true hlast] at hupd
      refine ⟨h.inv.cycle, fun _ => ?_, by simp⟩
      rw [cycle_of_updates hupd]
    · rw [Decoder.elapse_open hw (by unfold window; omega)]
      rw [decide_eq_false hlast] at hupd
      refine ⟨h.inv.cycle, by simp, ?_⟩
      intro e' he'
      cases he'
      rw [cycle_of_not_updates hupd,
        Tim.cycle_prescaler_zero h.inv.tim4.pscActive h.inv.tim4.pscCount hupd]
      refine ⟨hs, hcen, ?_⟩
      rw [if_neg (by simp [hcen, harr, halfbitTimeoutTicks]), hcnt]

/-- A cycle acts on the sampling only. -/
theorem cycle_frame (r : Receiver) :
    r.cycle = { r with sample := r.cycle.sample, tim4 := r.cycle.tim4 } := by
  cases hupd : r.tim4.updates
  · rw [cycle_of_not_updates hupd]
  · rw [cycle_of_updates hupd]

/-- The bits that a receiver has sampled: those of the unread bytes and of the byte it is
assembling. -/
def bits (r : Receiver) : List Bool :=
  r.unread.flatMap Bits.msbFirst ++ (Bits.msbFirst r.dataByte).take r.currBit

/-- The receiver is in the state `d` of the decoder: its window is open exactly while `sample`
is false, and its age is the count of TIM4. -/
structure Tracks (r : Receiver) (d : Decoder ℕ) : Prop where
  inv : r.Inv
  closed : d.window = none → r.sample = true
  opened : ∀ e, d.window = some e → r.sample = false ∧ r.tim4.cen = true ∧ r.tim4.cnt = e
  bits_eq : r.bits = d.bits

theorem Tracks.samples {r : Receiver} {d : Decoder ℕ} (h : r.Tracks d) : r.Samples d :=
  ⟨h.inv, h.closed, h.opened⟩

theorem Tracks.window_le {r : Receiver} {d : Decoder ℕ} (h : r.Tracks d) {e : ℕ}
    (he : d.window = some e) : e ≤ halfbitTimeoutTicks :=
  h.samples.window_le he

theorem Tracks.elapse_zero {r : Receiver} {d : Decoder ℕ} (h : r.Tracks d) :
    d.elapse window 0 = d := by
  cases hw : d.window with
  | none => exact Decoder.elapse_of_closed hw 0
  | some e =>
    have := h.window_le hw
    rw [Decoder.elapse_open hw (by unfold window; omega), Nat.add_zero, ← hw]

/-- A sampled bit is appended, in the byte that is being assembled or as its last bit. -/
theorem bits_edge {r : Receiver} (h : r.Inv) (hs : r.sample = true)
    (hroom : r.bits.length < 8 * (bufSize - 1)) (b : Bool) : (r.edge b).bits = r.bits ++ [b] := by
  have hbit := h.currBit_lt
  have htake := Bits.take_succ_msbFirst_setMsb r.dataByte hbit b
  rw [edge_sample hs]
  unfold bits unread at hroom ⊢
  dsimp only
  by_cases h8 : r.currBit + 1 = 8
  · rw [if_pos h8, if_pos h8]
    -- the byte is complete
    have hspace : (Ringbuffer.contents r.receiveBuf).length < bufSize - 1 := by
      rw [List.length_append, Bits.length_flatMap_msbFirst, List.length_take,
        Bits.length_msbFirst] at hroom
      omega
    rw [h8, List.take_of_length_le (by simp)] at htake
    rw [Ringbuffer.contents_put h.valid hspace, List.flatMap_append, List.flatMap_singleton,
      htake, List.take_zero, List.append_nil, List.append_assoc]
  · rw [if_neg h8, if_neg h8, htake, List.append_assoc]

/-- An edge is a step of the decoder. -/
theorem Tracks.edge {r : Receiver} {d : Decoder ℕ} (h : r.Tracks d) {b : Bool} (hb : b ≠ d.level)
    (hroom : (d.drive b).bits.length ≤ 8 * (bufSize - 1)) : (r.edge b).Tracks (d.drive b) := by
  obtain ⟨hinv, hclosed, hopened⟩ := h.samples.edge hb
  refine ⟨hinv, hclosed, hopened, ?_⟩
  cases hw : d.window with
  | none =>
    rw [Decoder.drive_sample hb hw] at hroom ⊢
    rw [List.length_append, List.length_singleton] at hroom
    rw [bits_edge h.inv (h.closed hw) (by rw [h.bits_eq]; omega) b, h.bits_eq]
  | some e =>
    rw [Decoder.drive_boundary hb hw, edge_boundary (h.opened e hw).1]
    exact h.bits_eq

theorem bits_cycle (r : Receiver) : r.cycle.bits = r.bits := by
  rw [cycle_frame]
  rfl

theorem Tracks.cycle_closed {r : Receiver} {d : Decoder ℕ} (h : r.Tracks d)
    (hw : d.window = none) : r.cycle.Tracks d := by
  obtain ⟨hinv, hclosed, hopened⟩ := h.samples.cycle_closed hw
  exact ⟨hinv, hclosed, hopened, (bits_cycle r).trans h.bits_eq⟩

theorem Tracks.cycle {r : Receiver} {d : Decoder ℕ} (h : r.Tracks d) :
    r.cycle.Tracks (d.elapse window 1) := by
  obtain ⟨hinv, hclosed, hopened⟩ := h.samples.cycle
  refine ⟨hinv, hclosed, hopened, ?_⟩
  rw [bits_cycle, h.bits_eq, Decoder.bits_elapse]

/-- A receiver whose decoder has sampled whole bytes and less than another one holds just these. -/
theorem Tracks.unread_eq {r : Receiver} {d : Decoder ℕ} (h : r.Tracks d)
    {bytes : List Byte} {rest : List Bool} (hbits : d.bits = bytes.flatMap Bits.msbFirst ++ rest)
    (hrest : rest.length < 8) : r.unread = bytes ∧ r.currBit = rest.length := by
  have hlt := h.inv.currBit_lt
  have hlen : ((Bits.msbFirst r.dataByte).take r.currBit).length = r.currBit := by
    rw [List.length_take, Bits.length_msbFirst, Nat.min_eq_left (Nat.le_of_lt hlt)]
  have heq : r.unread.flatMap Bits.msbFirst ++ (Bits.msbFirst r.dataByte).take r.currBit =
      bytes.flatMap Bits.msbFirst ++ rest := by
    rw [← hbits, ← h.bits_eq, Receiver.bits]
  -- fewer than 8 bits are left in `dataByte`, so the bytes are determined
  obtain ⟨hbytes, htaken⟩ := Bits.words_unique heq (by omega) hrest
  exact ⟨hbytes, by rw [← hlen, htaken]⟩

end Receiver

namespace Node

/-- The events of a waveform: each half-bit as a level and the cycles for which it lasts. -/
def waveEvents (wave : List (Bool × ℕ)) : List TimedEvent :=
  wave.flatMap fun s => .line s.1 :: List.replicate s.2 .cycle

/-- The board listens: its receiver is in the state `d`, on a line with the level of `d`. -/
structure Listening (n : Node) (d : Decoder ℕ) : Prop where
  tracks : n.rx.Tracks d
  level : d.level = n.idr4

theorem Listening.setLine {n : Node} {d : Decoder ℕ} (h : n.Listening d) (b : Bool)
    (hroom : (d.drive b).bits.length ≤ 8 * (bufSize - 1)) :
    (n.setLine b).Listening (d.drive b) := by
  by_cases hb : b = d.level
  · rw [setLine_same (hb.trans h.level), Decoder.drive_same hb]
    exact h
  · rw [setLine_edge (by rwa [← h.level])]
    exact ⟨h.tracks.edge hb hroom, Decoder.level_drive d b⟩

theorem Listening.cycle {n : Node} {d : Decoder ℕ} (h : n.Listening d) :
    n.cycle.Listening (d.elapse window 1) :=
  ⟨h.tracks.cycle, (Decoder.level_elapse d 1).trans h.level⟩

theorem Listening.cycles {n : Node} {d : Decoder ℕ} (h : n.Listening d) (t : ℕ) :
    (n.timedRun (List.replicate t .cycle)).Listening (d.elapse window t) := by
  induction t generalizing n d with
  | zero =>
    rw [h.tracks.elapse_zero]
    exact h
  | succ t ih =>
    rw [Nat.add_comm, Decoder.elapse_add, List.replicate_add]
    exact ih h.cycle

/-- A waveform on the line drives the receiver as it drives the decoder. -/
theorem Listening.follow {n : Node} {d : Decoder ℕ} (h : n.Listening d) (wave : List (Bool × ℕ))
    (hroom : (d.follow window wave).bits.length ≤ 8 * (bufSize - 1)) :
    (n.timedRun (waveEvents wave)).Listening (d.follow window wave) := by
  induction wave generalizing n d with
  | nil => exact h
  | cons s wave ih =>
    rw [Decoder.follow_cons] at hroom ⊢
    have hle : (d.drive s.1).bits.length ≤ 8 * (bufSize - 1) := by
      have := (Decoder.bits_prefix_follow (T := window) ((d.drive s.1).elapse window s.2)
        wave).length_le
      rw [Decoder.bits_elapse] at this
      omega
    have hstep := (h.setLine s.1 hle).cycles s.2
    rw [waveEvents, List.flatMap_cons, List.cons_append, timedRun_cons, timedRun_append]
    exact ih hstep hroom

/-! ## Receiving -/

/-- SysTick raises its interrupt one cycle after this many cycles without an edge. -/
def monitorTimeout : ℕ := 16 * transmissionTimeoutUs

/-- In the middle of a message: the decoder is in the state `d`, and the last edge was `age`
cycles ago. The monitor is busy, so the main routine leaves the receiver alone. -/
structure Receiving (n : Node) (d : Decoder ℕ) (age : ℕ) : Prop where
  listening : n.Listening d
  packetMode : n.rx.packetMode = true
  busy : n.mon.monitorState = .busy
  lineState : n.mon.lineState = n.idr4
  stk : n.mon.stk = ⟨true, monitorTimeout, if age = 0 then 0 else monitorTimeout + 1 - age⟩
  age_le : age ≤ monitorTimeout
  window_age : ∀ e, d.window = some e → e = age
  receiving : n.rx.currentlyReceiving = true

/-- Between messages: the monitor is idle, and the bytes `q` of the last message are still unread.
Noise may have left bits in `dataByte`. -/
structure Silent (n : Node) (q : List Byte) : Prop where
  inv : n.rx.Inv
  packetMode : n.rx.packetMode = true
  idle : n.mon.monitorState = .idle
  stopped : n.mon.stk.enable = false
  unread : n.rx.unread = q

/-- Between messages, with the receiver ready for a first bit. -/
structure Idle (n : Node) (q : List Byte) : Prop extends Silent n q where
  sample : n.rx.sample = true
  currBit : n.rx.currBit = 0

/-- Every edge at which a message is or becomes received starts the monitor's timeout anew. -/
theorem Listening.edge {n : Node} {d : Decoder ℕ} (h : n.Listening d)
    (hmode : n.rx.packetMode = true) {b : Bool} (hb : b ≠ d.level)
    (hroom : (d.drive b).bits.length ≤ 8 * (bufSize - 1))
    (hreceiving : (n.rx.edge b).currentlyReceiving = true) :
    (n.setLine b).Receiving (d.drive b) 0 := by
  have hlisten := h.setLine b hroom
  rw [setLine_edge (by rwa [← h.level])] at hlisten ⊢
  refine ⟨hlisten, ?_, rfl, rfl, rfl, Nat.zero_le _, ?_, hreceiving⟩
  · show (n.rx.edge b).packetMode = true
    rw [Receiver.edge_frame]
    exact hmode
  · intro e he
    cases hw : d.window with
    | none =>
      rw [Decoder.drive_sample hb hw] at he
      cases he
      rfl
    | some e' =>
      rw [Decoder.drive_boundary hb hw] at he
      cases he

theorem Receiving.setLine {n : Node} {d : Decoder ℕ} {age : ℕ} (h : n.Receiving d age) (b : Bool)
    (hroom : (d.drive b).bits.length ≤ 8 * (bufSize - 1)) :
    (n.setLine b).Receiving (d.drive b) (if b = d.level then age else 0) := by
  by_cases hb : b = d.level
  · rw [if_pos hb, setLine_same (hb.trans h.listening.level), Decoder.drive_same hb]
    exact h
  · rw [if_neg hb]
    refine h.listening.edge h.packetMode hb hroom ?_
    cases hs : n.rx.sample
    · rw [Receiver.edge_boundary hs]
      exact h.receiving
    · rw [Receiver.edge_sample hs]

/-- The main routine does nothing in the middle of a message. -/
theorem Receiving.receiverUpdate {n : Node} {d : Decoder ℕ} {age : ℕ} (h : n.Receiving d age) :
    n.receiverUpdate = n := by
  rw [Node.receiverUpdate, Monitor.getState, h.busy,
    Receiver.mainRoutineUpdate_receiving h.receiving]

theorem Receiving.cycle {n : Node} {d : Decoder ℕ} {age : ℕ} (h : n.Receiving d age)
    (hage : age < monitorTimeout) : n.cycle.Receiving (d.elapse window 1) (age + 1) := by
  have hmon : n.cycle.mon = { n.mon with stk := ⟨true, monitorTimeout, monitorTimeout - age⟩ } := by
    rw [mon_cycle, Monitor.cycle, h.stk]
    by_cases h0 : age = 0
    · subst h0
      rfl
    · have hexp : SysTick.expires ⟨true, monitorTimeout,
          if age = 0 then 0 else monitorTimeout + 1 - age⟩ = false := by
        simp [SysTick.expires, h0]
        omega
      have hval : ¬monitorTimeout + 1 - age = 0 := by omega
      have hnext : monitorTimeout + 1 - age - 1 = monitorTimeout - age := by omega
      rw [hexp, if_neg (by simp), SysTick.cycle, if_pos rfl, if_neg h0, if_neg hval, hnext]
  have hframe := n.rx.cycle_frame
  refine ⟨h.listening.cycle, ?_, ?_, ?_, ?_, hage, ?_, ?_⟩
  · rw [rx_cycle, hframe]
    exact h.packetMode
  · rw [hmon]
    exact h.busy
  · rw [hmon]
    exact h.lineState
  · have hval : monitorTimeout + 1 - (age + 1) = monitorTimeout - age := by omega
    rw [hmon, if_neg (Nat.succ_ne_zero age), hval]
  · intro e he
    obtain ⟨e', hw, rfl, -⟩ := Decoder.open_of_elapse he
    rw [h.window_age e' hw]
  · rw [rx_cycle, hframe]
    exact h.receiving

/-- The monitor's timeout on a high line ends the message. -/
theorem Receiving.expire {n : Node} {d : Decoder ℕ} (h : n.Receiving d monitorTimeout)
    (hlevel : d.level = true) {q : List Byte} {rest : List Bool}
    (hbits : d.bits = q.flatMap Bits.msbFirst ++ rest) (hrest : rest.length < 8) :
    n.cycle.Silent q := by
  -- the window of the decoder is shorter than the monitor's timeout
  have hclosed : d.window = none := by
    cases hw : d.window with
    | none => rfl
    | some e =>
      have hage := h.window_age e hw
      have hle := h.listening.tracks.window_le hw
      rw [hage] at hle
      exact absurd hle (by decide)
  have htracks := h.listening.tracks.cycle_closed hclosed
  have hmon : n.cycle.mon =
      ({ n.mon with stk := ⟨true, monitorTimeout, 0⟩ } : Monitor).sysTickHandler := by
    rw [mon_cycle, Monitor.cycle, h.stk]
    rfl
  have hline : n.mon.lineState = true := by rw [h.lineState, ← h.listening.level, hlevel]
  refine ⟨htracks.inv, ?_, ?_, ?_, (htracks.unread_eq hbits hrest).1⟩
  · rw [rx_cycle, Receiver.cycle_frame]
    exact h.packetMode
  · rw [hmon, Monitor.monitorState_sysTickHandler, if_pos hline]
  · rw [hmon, Monitor.stk_sysTickHandler]

/-! ## Idle -/

theorem Silent.cycle {n : Node} {q : List Byte} (h : n.Silent q) : n.cycle.Silent q := by
  have hmon : n.cycle.mon = n.mon := by
    rw [mon_cycle, Monitor.cycle, SysTick.cycle, SysTick.expires, h.stopped]
    rfl
  have hframe := n.rx.cycle_frame
  refine ⟨h.inv.cycle, ?_, ?_, ?_, ?_⟩
  · rw [rx_cycle, hframe]
    exact h.packetMode
  · rw [hmon]
    exact h.idle
  · rw [hmon]
    exact h.stopped
  · rw [rx_cycle, hframe]
    exact h.unread

theorem Idle.cycle {n : Node} {q : List Byte} (h : n.Idle q) : n.cycle.Idle q := by
  refine ⟨h.toSilent.cycle, ?_, ?_⟩
  · rw [rx_cycle]
    cases hupd : n.rx.tim4.updates
    · rw [Receiver.cycle_of_not_updates hupd]
      exact h.sample
    · rw [Receiver.cycle_of_updates hupd]
  · rw [rx_cycle, Receiver.cycle_frame]
    exact h.currBit

theorem Idle.listening {n : Node} (h : n.Idle []) : n.Listening ⟨n.idr4, none, []⟩ := by
  refine ⟨⟨h.inv, fun _ => h.sample, by simp, ?_⟩, rfl⟩
  rw [Receiver.bits, h.unread, h.currBit]
  rfl

/-- The first edge after an idle time is sampled as a first bit, unless bytes are left from
before. -/
theorem Idle.firstEdge {n : Node} (h : n.Idle []) {b : Bool} (hb : b ≠ n.idr4) :
    (n.setLine b).Receiving ⟨b, some 0, [b]⟩ 0 := by
  have hdrive : Decoder.drive ⟨n.idr4, none, []⟩ b = ⟨b, some 0, [b]⟩ :=
    Decoder.drive_sample hb rfl
  have hedge := h.listening.edge h.packetMode hb
  rw [hdrive] at hedge
  refine hedge ?_ ?_
  · rw [List.length_singleton]
    decide
  · rw [Receiver.edge_sample h.sample]

/-- The main routine takes the unread bytes as one message, if it is not too long. -/
theorem Silent.receiverUpdate {n : Node} {q : List Byte} (h : n.Silent q)
    (hlen : q.length ≤ sizeofPacketHeader) :
    n.receiverUpdate.Idle [] ∧
      ∃ calls, n.receiverUpdate.rx.parses = n.rx.parses ++ calls ∧
        calls.map ParseCall.buf = (if q = [] then [] else [q]) ∧ ∀ call ∈ calls, call.Sound := by
  have hreset := Receiver.idleReset_frame n.rx
  have hrx : n.receiverUpdate.rx = if Ringbuffer.hasElement n.rx.receiveBuf
      then n.rx.idleReset.deliver else n.rx.idleReset := by
    rw [Node.receiverUpdate, Monitor.getState, h.idle, Receiver.mainRoutineUpdate_idle]
  have hunread : n.rx.idleReset.unread = q := by
    rw [hreset]
    exact h.unread
  have hmode : n.rx.idleReset.packetMode = true := by
    rw [hreset]
    exact h.packetMode
  have hparses : n.rx.idleReset.parses = n.rx.parses := by rw [hreset]
  have helem := Ringbuffer.hasElement_eq h.inv.valid
  rw [show Ringbuffer.contents n.rx.receiveBuf = q from h.unread] at helem
  by_cases hq : q = []
  -- nothing has arrived
  · rw [hq, List.isEmpty_nil, Bool.not_true] at helem
    rw [helem, if_neg (by simp)] at hrx
    refine ⟨⟨⟨?_, ?_, h.idle, h.stopped, ?_⟩, ?_, ?_⟩, [], ?_⟩
    · rw [hrx]
      exact h.inv.idleReset
    · rw [hrx, hmode]
    · rw [hrx, hunread, hq]
    · rw [hrx, hreset]
    · rw [hrx, hreset]
    · rw [hrx, hparses, List.append_nil, if_pos hq]
      exact ⟨rfl, rfl, by simp⟩
  -- everything unread is one message
  · rw [List.isEmpty_eq_false_iff.mpr hq, Bool.not_false] at helem
    rw [helem, if_pos rfl] at hrx
    obtain ⟨hinv, hrest, hcall⟩ := Receiver.deliver_spec h.inv.idleReset
    obtain ⟨call, hcalls, hbuf, hsound⟩ := hcall hmode
    have hframe := Receiver.deliver_frame n.rx.idleReset
    rw [hunread] at hrest hbuf
    rw [List.drop_eq_nil_of_le hlen] at hrest
    rw [List.take_of_length_le hlen] at hbuf
    refine ⟨⟨⟨?_, ?_, h.idle, h.stopped, ?_⟩, ?_, ?_⟩, [call], ?_⟩
    · rw [hrx]
      exact hinv
    · rw [hrx, hframe]
      exact hmode
    · rw [hrx, hrest]
    · rw [hrx, hframe, hreset]
    · rw [hrx, hframe, hreset]
    · rw [hrx, hcalls, hparses, if_neg hq, List.map_singleton, hbuf]
      exact ⟨rfl, rfl, by simpa using hsound⟩

/-- A board that was just booted is idle, whatever level the line has. -/
theorem idle_boot (src dest : Byte) (pin line : Bool) : (boot src dest true pin line).Idle [] :=
  ⟨⟨Receiver.inv_init true, rfl, rfl, rfl, rfl⟩, rfl, rfl⟩

end Node

end NetworkingCard
