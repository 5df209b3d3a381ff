import NetworkingCard.LineDecoding

/-!
# Framing of packets by the idle line

The end of a packet is not recorded: `receiveBuf` holds bytes only, and a packet is kept apart
from the next one if the main loop takes it during the idle gap. `framed_of_run`: for any packets
that arrive on the line with admissible half-bits and gaps, and any interleaving of main-loop
calls, if every gap sees a call of `receiver_mainRoutineUpdate` while the monitor is idle, then
each packet is handed to `ph_parse` exactly once, as its own bytes.

Between two packets the board is in one of three states (`Gap`): the monitor's timeout is still
running, the packet waits for the main loop, or it has been delivered. A gap may also begin with a
line that is released for the first time: its edge leaves a bit of noise, which the main loop
removes. Inside a packet the board is `Receiving`; `Receiving.wave` follows the waveform, whatever
main-loop calls come in between.
-/

namespace NetworkingCard

open LineCode (Decoder)

namespace Node

/-- The events that the line and the clock bring about, as opposed to calls from the main loop. -/
def physical : TimedEvent → Bool
  | .line _ | .cycle => true
  | .transmitterUpdate _ _ | .receiverUpdate => false

/-- The packets handed to `ph_parse` so far. -/
def Delivered (n : Node) (packets : List (List Byte)) : Prop :=
  n.rx.parses.map ParseCall.buf = packets ∧ ∀ call ∈ n.rx.parses, call.Sound

/-! ## Has the main loop been here? -/

/-- Whether the receiver's main routine has run on an idle line since the last edge. -/
def polledAfter (n : Node) (polled : Bool) : TimedEvent → Bool
  | .receiverUpdate => polled || decide (n.mon.monitorState = .idle)
  | .line level => polled && decide (level = n.idr4)
  | .transmitterUpdate _ _ | .cycle => polled

/-- A timed step of a board and of the record of the main loop's calls. -/
def watchedStep (s : Node × Bool) (e : TimedEvent) : Node × Bool :=
  (s.1.timedStep e, s.1.polledAfter s.2 e)

/-- Execute the events in order. -/
def watchedRun (s : Node × Bool) (es : List TimedEvent) : Node × Bool := es.foldl watchedStep s

theorem watchedRun_append (s : Node × Bool) (es fs : List TimedEvent) :
    watchedRun s (es ++ fs) = watchedRun (watchedRun s es) fs :=
  List.foldl_append

/-- What the main loop preserves holds after any number of its calls. -/
theorem watchedRun_others {I : Node × Bool → Prop}
    (hstep : ∀ s e, I s → physical e = false → I (watchedStep s e)) {s : Node × Bool} (hs : I s)
    {es : List TimedEvent} (hes : ∀ e ∈ es, physical e = false) : I (watchedRun s es) := by
  induction es generalizing s with
  | nil => exact hs
  | cons e es ih =>
    apply ih (hstep s e hs (hes e List.mem_cons_self))
    intro f hf
    exact hes f (List.mem_cons_of_mem e hf)

/-- The record does not act on the board. -/
theorem fst_watchedRun (s : Node × Bool) (es : List TimedEvent) :
    (watchedRun s es).1 = s.1.timedRun es := by
  induction es generalizing s with
  | nil => rfl
  | cons e es ih => exact ih (watchedStep s e)

/-- An edge that ends an idle time finds that the main loop has run in it. -/
def GapPolled (s : Node × Bool) (e : TimedEvent) : Prop :=
  ∀ level, e = .line level → level ≠ s.1.idr4 → s.1.mon.monitorState = .idle → s.2 = true

/-- In every gap between packets, and after the last one, the receiver's main routine runs at
least once on the idle line. -/
def PollsGaps (n : Node) (es : List TimedEvent) : Prop :=
  Runs.Along (fun s e => some (watchedStep s e)) GapPolled (n, true) es ∧
    (watchedRun (n, true) es).2 = true

/-! ## Inside a packet -/

/-- Inside a packet, with the earlier packets delivered. -/
structure InPacket (s : Node × Bool) (d : Decoder ℕ) (age : ℕ) (done : List (List Byte)) : Prop where
  receiving : s.1.Receiving d age
  delivered : s.1.Delivered done
  not_polled : s.2 = false

theorem InPacket.other {s : Node × Bool} {d : Decoder ℕ} {age : ℕ} {done : List (List Byte)}
    (h : InPacket s d age done) {e : TimedEvent} (he : physical e = false) :
    InPacket (watchedStep s e) d age done := by
  cases e with
  | transmitterUpdate c random =>
    exact ⟨{ h.receiving with listening := { h.receiving.listening with } }, h.delivered,
      h.not_polled⟩
  | receiverUpdate =>
    have hsame : watchedStep s .receiverUpdate = s := by
      rw [watchedStep, timedStep, h.receiving.receiverUpdate, polledAfter, h.receiving.busy]
      simp
    rw [hsame]
    exact h
  | line level => cases he
  | cycle => cases he

theorem delivered_cycle {n : Node} {packets : List (List Byte)} (h : n.Delivered packets) :
    n.cycle.Delivered packets := by
  unfold Delivered
  rw [rx_cycle, Receiver.cycle_frame]
  exact h

theorem delivered_setLine {n : Node} {packets : List (List Byte)} (h : n.Delivered packets)
    (b : Bool) : (n.setLine b).Delivered packets := by
  by_cases hb : b = n.idr4
  · rw [setLine_same hb]
    exact h
  · rw [setLine_edge hb]
    unfold Delivered
    dsimp only
    rw [Receiver.edge_frame]
    exact h

theorem InPacket.setLine {s : Node × Bool} {d : Decoder ℕ} {age : ℕ} {done : List (List Byte)}
    (h : InPacket s d age done) (b : Bool)
    (hroom : (d.drive b).bits.length ≤ 8 * (bufSize - 1)) :
    InPacket (watchedStep s (.line b)) (d.drive b) (if b = d.level then age else 0) done := by
  refine ⟨h.receiving.setLine b hroom, delivered_setLine h.delivered b, ?_⟩
  simp [watchedStep, polledAfter, h.not_polled]

/-- A physical event where the line and the clock only go through cycles is a cycle. -/
theorem split_cycle {e : TimedEvent} {es : List TimedEvent} {t : ℕ} (he : physical e = true)
    (hes : (e :: es).filter physical = List.replicate t .cycle) :
    ∃ t', t = t' + 1 ∧ e = .cycle ∧ es.filter physical = List.replicate t' .cycle := by
  rw [List.filter_cons_of_pos he] at hes
  cases t with
  | zero => cases hes
  | succ t =>
    rw [List.replicate_succ] at hes
    obtain ⟨hcycle, htail⟩ := List.cons_eq_cons.mp hes
    exact ⟨t, rfl, hcycle, htail⟩

/-- Cycles and calls of the main loop, up to the monitor's timeout. -/
theorem InPacket.quiet {s : Node × Bool} {d : Decoder ℕ} {age : ℕ} {done : List (List Byte)}
    (h : InPacket s d age done) {es : List TimedEvent} {t : ℕ}
    (hes : es.filter physical = List.replicate t .cycle) (hage : age + t ≤ monitorTimeout) :
    InPacket (watchedRun s es) (d.elapse window t) (age + t) done := by
  induction es generalizing s d age t with
  | nil =>
    obtain rfl : 0 = t := by simpa using congrArg List.length hes
    rw [h.receiving.listening.tracks.elapse_zero]
    exact h
  | cons e es ih =>
    cases he : physical e
    · rw [List.filter_cons_of_neg (by simp [he])] at hes
      exact ih (h.other he) hes hage
    · obtain ⟨t, rfl, rfl, htail⟩ := split_cycle he hes
      have hstep : InPacket (watchedStep s .cycle) (d.elapse window 1) (age + 1) done :=
        ⟨h.receiving.cycle (by omega), delivered_cycle h.delivered, h.not_polled⟩
      rw [Nat.add_comm t 1, Decoder.elapse_add, ← Nat.add_assoc]
      exact ih hstep htail (by omega)

/-- The events up to and with the next level of the line, and those after it. -/
theorem split_line {es : List TimedEvent} {b : Bool} {rest : List TimedEvent}
    (hes : es.filter physical = .line b :: rest) :
    ∃ es₀ es₁, es = es₀ ++ .line b :: es₁ ∧ (∀ e ∈ es₀, physical e = false) ∧
      es₁.filter physical = rest := by
  obtain ⟨es₀, es₁, rfl, hnone, -, hrest⟩ := List.filter_eq_cons_iff.mp hes
  exact ⟨es₀, es₁, rfl, fun e he => Bool.eq_false_of_not_eq_true (hnone e he), hrest⟩

theorem InPacket.others {s : Node × Bool} {d : Decoder ℕ} {age : ℕ} {done : List (List Byte)}
    (h : InPacket s d age done) {es : List TimedEvent} (hes : ∀ e ∈ es, physical e = false) :
    InPacket (watchedRun s es) d age done := by
  have hstep : ∀ s e, InPacket s d age done → physical e = false →
      InPacket (watchedStep s e) d age done := by
    intro s e hs he
    exact hs.other he
  exact watchedRun_others hstep h hes

/-- A waveform whose edges keep the monitor busy is followed to its end. -/
theorem InPacket.wave {s : Node × Bool} {d : Decoder ℕ} {age : ℕ} {done : List (List Byte)}
    (h : InPacket s d age done) {wave : List (Bool × ℕ)}
    (hwithin : LineCode.EdgesWithin monitorTimeout d.level age wave)
    (hroom : (d.follow window wave).bits.length ≤ 8 * (bufSize - 1)) {es : List TimedEvent}
    (hes : es.filter physical = waveEvents wave) :
    InPacket (watchedRun s es) (d.follow window wave) (LineCode.sinceEdge d.level age wave) done := by
  induction wave generalizing s d age es with
  | nil =>
    refine h.others fun e he => ?_
    have := List.filter_eq_nil_iff.mp hes e he
    exact Bool.eq_false_of_not_eq_true this
  | cons p wave ih =>
    rw [Decoder.follow_cons] at hroom ⊢
    rw [waveEvents, List.flatMap_cons, List.cons_append] at hes
    obtain ⟨es₀, es', rfl, hother, hes'⟩ := split_line hes
    obtain ⟨es₁, es₂, rfl, hes₁, hes₂⟩ := List.filter_eq_append_iff.mp hes'
    -- the bits at this point are among those at the end, which fit
    have hle : (d.drive p.1).bits.length ≤ 8 * (bufSize - 1) := by
      have := (Decoder.bits_prefix_follow (T := window) ((d.drive p.1).elapse window p.2)
        wave).length_le
      rw [Decoder.bits_elapse] at this
      omega
    have hline := (h.others hother).setLine p.1 hle
    have hquiet := hline.quiet hes₁ hwithin.1
    have hrest := ih hquiet (by rw [Decoder.level_elapse, Decoder.level_drive]; exact hwithin.2)
      hroom hes₂
    rw [Decoder.level_elapse, Decoder.level_drive] at hrest
    rw [watchedRun_append, show Node.TimedEvent.line p.1 :: (es₁ ++ es₂) =
      [.line p.1] ++ (es₁ ++ es₂) from rfl, watchedRun_append, watchedRun_append]
    exact hrest

/-! ## Between packets -/

/-- A packet that fits into `msgBuf` and is not empty. -/
structure Packet (p : List Byte) : Prop where
  startsLow : StartsLow p
  nonempty : p ≠ []
  length_le : p.length ≤ sizeofPacketHeader

/-- The bits of a packet fit into the receive buffer. -/
theorem room_of_length_le {p : List Byte} (h : p.length ≤ sizeofPacketHeader) :
    (p.flatMap Bits.msbFirst).length ≤ 8 * (bufSize - 1) := by
  rw [Bits.length_flatMap_msbFirst]
  unfold sizeofPacketHeader phMsgSize at h
  unfold bufSize
  omega

/-- The board is ready for a first bit: its main loop has been here since the last edge, and all
packets have been delivered. -/
structure CaughtUp (s : Node × Bool) (all : List (List Byte)) : Prop where
  idle : s.1.Idle []
  delivered : s.1.Delivered all
  polled : s.2 = true

theorem caughtUp_boot (src dest : Byte) (pin line : Bool) :
    CaughtUp (boot src dest true pin line, true) [] :=
  ⟨idle_boot src dest pin line, ⟨rfl, by simp [boot, Receiver.init]⟩, rfl⟩

theorem CaughtUp.cycle {s : Node × Bool} {all : List (List Byte)} (h : CaughtUp s all) :
    CaughtUp (watchedStep s .cycle) all :=
  ⟨h.idle.cycle, delivered_cycle h.delivered, h.polled⟩

/-- Further calls of the main loop find nothing to do. -/
theorem CaughtUp.other {s : Node × Bool} {all : List (List Byte)} (h : CaughtUp s all) {e : TimedEvent}
    (he : physical e = false) : CaughtUp (watchedStep s e) all := by
  cases e with
  | transmitterUpdate c random => exact ⟨{ h.idle with }, h.delivered, h.polled⟩
  | receiverUpdate =>
    obtain ⟨hidle, calls, hcalls, hbuf, -⟩ := h.idle.toSilent.receiverUpdate (Nat.zero_le _)
    rw [if_pos rfl, List.map_eq_nil_iff] at hbuf
    rw [hbuf, List.append_nil] at hcalls
    refine ⟨hidle, ?_, by simp [watchedStep, polledAfter, h.polled]⟩
    show (s.1.receiverUpdate).Delivered all
    unfold Delivered
    rw [hcalls]
    exact h.delivered
  | line level => cases he
  | cycle => cases he

/-- The main loop does not act on the line. -/
theorem idr4_other (s : Node × Bool) {e : TimedEvent} (he : physical e = false) :
    (watchedStep s e).1.idr4 = s.1.idr4 := by
  cases e with
  | transmitterUpdate c random => rfl
  | receiverUpdate => rfl
  | line level => cases he
  | cycle => cases he

/-- The message that the unread bytes `q` make. -/
def message (q : List Byte) : List (List Byte) := if q = [] then [] else [q]

/-- The line has been released after the last of the packets `all`; the last edge was at least
`since` cycles ago, unless the monitor's timeout is over. Where nothing has been sent yet there may
be bits of `noise` instead of a packet. -/
inductive Gap (s : Node × Bool) (all : List (List Byte)) (since : ℕ) : Prop
  | receiving {d : Decoder ℕ} {age : ℕ} {q : List Byte} {noise : List Bool}
      {done : List (List Byte)} (length_le : q.length ≤ sizeofPacketHeader)
      (inPacket : InPacket s d age done) (level : d.level = true)
      (bits : d.bits = q.flatMap Bits.msbFirst ++ noise) (noise_lt : noise.length < 8)
      (all_eq : all = done ++ message q) (since_le : since ≤ age)
  | waiting {q : List Byte} {done : List (List Byte)} (length_le : q.length ≤ sizeofPacketHeader)
      (silent : s.1.Silent q) (level : s.1.idr4 = true) (delivered : s.1.Delivered done)
      (all_eq : all = done ++ message q) (not_polled : s.2 = false)
  | polled (ready : CaughtUp s all) (level : s.1.idr4 = true)

/-- Once the gap has been polled, all its packets have been handed over. -/
theorem Gap.delivered {s : Node × Bool} {all : List (List Byte)} {since : ℕ} (h : Gap s all since)
    (hpolled : s.2 = true) : s.1.Delivered all := by
  cases h with
  | receiving length_le inPacket level bits noise_lt all_eq since_le =>
    exact absurd (inPacket.not_polled.symm.trans hpolled) (by simp)
  | waiting length_le silent level delivered all_eq not_polled =>
    exact absurd (not_polled.symm.trans hpolled) (by simp)
  | polled ready level => exact ready.delivered

theorem Gap.cycle {s : Node × Bool} {all : List (List Byte)} {since : ℕ} (h : Gap s all since) :
    Gap (watchedStep s .cycle) all (since + 1) := by
  cases h with
  | @receiving d age q noise done length_le inPacket level bits noise_lt all_eq since_le =>
    by_cases hage : age < monitorTimeout
    · refine .receiving length_le ⟨inPacket.receiving.cycle hage,
        delivered_cycle inPacket.delivered, inPacket.not_polled⟩ ?_ ?_ noise_lt all_eq (by omega)
      · rw [Decoder.level_elapse, level]
      · rw [Decoder.bits_elapse, bits]
    -- the monitor's timeout: the packet is complete and waits
    · have hle := inPacket.receiving.age_le
      obtain rfl : age = monitorTimeout := by omega
      have hlevel : s.1.idr4 = true := inPacket.receiving.listening.level.symm.trans level
      exact .waiting length_le (inPacket.receiving.expire level bits noise_lt) hlevel
        (delivered_cycle inPacket.delivered) all_eq inPacket.not_polled
  | waiting length_le silent level delivered all_eq not_polled =>
    exact .waiting length_le silent.cycle level (delivered_cycle delivered) all_eq not_polled
  | polled ready level => exact .polled ready.cycle level

/-- The first call of the main loop on the idle line delivers the packet, later ones find
nothing to do. -/
theorem Gap.receiverUpdate {s : Node × Bool} {all : List (List Byte)} {since : ℕ}
    (h : Gap s all since) : Gap (watchedStep s .receiverUpdate) all since := by
  cases h with
  | receiving length_le inPacket level bits noise_lt all_eq since_le =>
    exact .receiving length_le (inPacket.other rfl) level bits noise_lt all_eq since_le
  | @waiting q done length_le silent level delivered all_eq not_polled =>
    obtain ⟨hidle, calls, hcalls, hbuf, hsound⟩ := silent.receiverUpdate length_le
    refine .polled ⟨hidle, ⟨?_, ?_⟩, ?_⟩ level
    · show (s.1.receiverUpdate).rx.parses.map ParseCall.buf = all
      rw [hcalls, List.map_append, delivered.1, hbuf, all_eq]
      rfl
    · show ∀ call ∈ (s.1.receiverUpdate).rx.parses, call.Sound
      rw [hcalls]
      intro call hcall
      rcases List.mem_append.mp hcall with hold | hnew
      · exact delivered.2 call hold
      · exact hsound call hnew
    · simp [watchedStep, polledAfter, silent.idle]
  | polled ready level => exact .polled (ready.other rfl) level

theorem Gap.transmitterUpdate {s : Node × Bool} {all : List (List Byte)} {since : ℕ}
    (h : Gap s all since) (c : Byte) (random : ℕ) :
    Gap (watchedStep s (.transmitterUpdate c random)) all since := by
  cases h with
  | receiving length_le inPacket level bits noise_lt all_eq since_le =>
    exact .receiving length_le (inPacket.other rfl) level bits noise_lt all_eq since_le
  | waiting length_le silent level delivered all_eq not_polled =>
    exact .waiting length_le { silent with } level delivered all_eq not_polled
  | polled ready level => exact .polled (ready.other rfl) level

theorem Gap.other {s : Node × Bool} {all : List (List Byte)} {since : ℕ} (h : Gap s all since)
    {e : TimedEvent} (he : physical e = false) : Gap (watchedStep s e) all since := by
  cases e with
  | transmitterUpdate c random => exact h.transmitterUpdate c random
  | receiverUpdate => exact h.receiverUpdate
  | line level => cases he
  | cycle => cases he

theorem Gap.level {s : Node × Bool} {all : List (List Byte)} {since : ℕ} (h : Gap s all since) :
    s.1.idr4 = true := by
  cases h with
  | receiving length_le inPacket level bits noise_lt all_eq since_le =>
    rw [← inPacket.receiving.listening.level, level]
  | waiting length_le silent level delivered all_eq not_polled => exact level
  | polled ready level => exact level

/-- A high level on the released line is no edge. -/
theorem Gap.high {s : Node × Bool} {all : List (List Byte)} {since : ℕ} (h : Gap s all since) :
    watchedStep s (.line true) = s := by
  rw [watchedStep, timedStep, setLine_same h.level.symm, polledAfter, h.level]
  simp

theorem Gap.others {s : Node × Bool} {all : List (List Byte)} {since : ℕ} (h : Gap s all since)
    {es : List TimedEvent} (hes : ∀ e ∈ es, physical e = false) :
    Gap (watchedRun s es) all since := by
  have hstep : ∀ s e, Gap s all since → physical e = false → Gap (watchedStep s e) all since := by
    intro s e hs he
    exact hs.other he
  exact watchedRun_others hstep h hes

theorem Gap.quiet {s : Node × Bool} {all : List (List Byte)} {since : ℕ} (h : Gap s all since)
    {es : List TimedEvent} {t : ℕ} (hes : es.filter physical = List.replicate t .cycle) :
    Gap (watchedRun s es) all (since + t) := by
  induction es generalizing s since t with
  | nil =>
    obtain rfl : 0 = t := by simpa using congrArg List.length hes
    exact h
  | cons e es ih =>
    cases he : physical e
    · rw [List.filter_cons_of_neg (by simp [he])] at hes
      exact ih (h.other he) hes
    · obtain ⟨t, rfl, rfl, htail⟩ := split_cycle he hes
      rw [Nat.add_comm t 1, ← Nat.add_assoc]
      exact ih h.cycle htail

/-- The monitor becomes idle in a gap that is longer than its timeout. -/
theorem Gap.monitor_idle {s : Node × Bool} {all : List (List Byte)} {since : ℕ}
    (h : Gap s all since) (hsince : monitorTimeout < since) : s.1.mon.monitorState = .idle := by
  cases h with
  | receiving length_le inPacket level bits noise_lt all_eq since_le =>
    have := inPacket.receiving.age_le
    omega
  | waiting length_le silent level delivered all_eq not_polled => exact silent.idle
  | polled ready level => exact ready.idle.idle

/-- In a gap that has been polled the monitor is idle. -/
theorem Gap.idle_of_polled {s : Node × Bool} {all : List (List Byte)} {since : ℕ}
    (h : Gap s all since) (hpolled : s.2 = true) : s.1.mon.monitorState = .idle := by
  cases h with
  | receiving length_le inPacket level bits noise_lt all_eq since_le =>
    exact absurd (inPacket.not_polled.symm.trans hpolled) (by simp)
  | waiting length_le silent level delivered all_eq not_polled => exact silent.idle
  | polled ready level => exact ready.idle.idle

/-- The first edge of all: its level is sampled as a first bit. -/
theorem CaughtUp.firstEdge {s : Node × Bool} {all : List (List Byte)} (h : CaughtUp s all) {b : Bool}
    (hb : b ≠ s.1.idr4) : InPacket (watchedStep s (.line b)) ⟨b, some 0, [b]⟩ 0 all := by
  refine ⟨h.idle.firstEdge hb, delivered_setLine h.delivered b, ?_⟩
  show (s.2 && decide (b = s.1.idr4)) = false
  rw [decide_eq_false hb, Bool.and_false]

/-- The first edge after a gap in which the main loop has been here begins a packet. -/
theorem Gap.firstEdge {s : Node × Bool} {all : List (List Byte)} {since : ℕ} (h : Gap s all since)
    (hidle : s.1.mon.monitorState = .idle) (hpolled : GapPolled s (.line false)) :
    InPacket (watchedStep s (.line false)) ⟨false, some 0, [false]⟩ 0 all := by
  cases h with
  | receiving length_le inPacket level bits noise_lt all_eq since_le =>
    exact absurd (inPacket.receiving.busy.symm.trans hidle) (by simp)
  | waiting length_le silent level delivered all_eq not_polled =>
    have := hpolled false rfl (by rw [level]; simp) silent.idle
    exact absurd (not_polled.symm.trans this) (by simp)
  | polled ready level => exact ready.firstEdge (by rw [level]; simp)

/-- Releasing the line after a packet. -/
theorem InPacket.release {s : Node × Bool} {d : Decoder ℕ} {age : ℕ} {done : List (List Byte)}
    (h : InPacket s d age done) {p : List Byte} (hne : p ≠ []) (hlen : p.length ≤ sizeofPacketHeader)
    (hbits : (d.drive true).bits = p.flatMap Bits.msbFirst) :
    Gap (watchedStep s (.line true)) (done ++ [p]) 0 := by
  have hroom : (d.drive true).bits.length ≤ 8 * (bufSize - 1) := by
    rw [hbits]
    exact room_of_length_le hlen
  have hnoise : (d.drive true).bits = p.flatMap Bits.msbFirst ++ [] := by
    rw [hbits, List.append_nil]
  refine .receiving hlen (h.setLine true hroom) (Decoder.level_drive d true) hnoise (by simp) ?_
    (Nat.zero_le _)
  rw [message, if_neg hne]

/-- The line is high for the first time: its edge, if there is one, leaves a bit of noise. -/
theorem CaughtUp.released {s : Node × Bool} {all : List (List Byte)} (h : CaughtUp s all) :
    Gap (watchedStep s (.line true)) all 0 := by
  by_cases hlevel : true = s.1.idr4
  · have hsame : watchedStep s (.line true) = s := by
      rw [watchedStep, timedStep, setLine_same hlevel, polledAfter, decide_eq_true hlevel,
        Bool.and_true]
    rw [hsame]
    exact .polled h hlevel.symm
  · have hnone : all = all ++ message [] := (List.append_nil all).symm
    have hbits : [true] = ([] : List Byte).flatMap Bits.msbFirst ++ [true] := rfl
    exact .receiving (Nat.zero_le _) (h.firstEdge hlevel) rfl hbits (by simp) hnone (Nat.le_refl 0)

end Node

/-! ## Packets on the line -/

/-- A packet on the line: its bytes, the durations of its half-bits, and the idle gap after it. -/
structure Arrival where
  bytes : List Byte
  durations : List ℕ
  gap : ℕ

namespace Arrival

/-- The waveform of a packet, up to the end of the gap. -/
def wave (a : Arrival) : List (Bool × ℕ) := (halfBits a.bytes).zip a.durations ++ [(true, a.gap)]

/-- A complete, collision-free packet with admissible half-bits, and a gap longer than the
monitor's timeout. -/
structure Admissible (a : Arrival) : Prop where
  packet : Node.Packet a.bytes
  length_eq : a.durations.length = (halfBits a.bytes).length
  short : ∀ d ∈ a.durations, d ≤ halfbitTimeoutTicks
  pair : a.durations.IsChain fun d d' => halfbitTimeoutTicks < d + d' ∧ d + d' < Node.monitorTimeout
  gap : Node.monitorTimeout < a.gap

end Arrival

/-- The bits of a packet: a 0, and the others. -/
theorem Node.Packet.bits {p : List Byte} (h : Node.Packet p) :
    ∃ bs, p.flatMap Bits.msbFirst = false :: bs := by
  have hhead := h.startsLow.head?_bits
  cases hbits : p.flatMap Bits.msbFirst with
  | nil =>
    have hlen := congrArg List.length hbits
    rw [Bits.length_flatMap_msbFirst, List.length_nil] at hlen
    have := List.length_pos_iff.mpr h.nonempty
    omega
  | cons b bs =>
    rw [hbits] at hhead
    cases b
    · exact ⟨bs, rfl⟩
    · simp at hhead

namespace Node

/-- The first bit of a packet: its first half is high like the idle line, and its second half
brings the first edge. -/
theorem Gap.firstBit {s : Node × Bool} {all : List (List Byte)} {since : ℕ} (h : Gap s all since)
    (hsince : monitorTimeout < since) {t₀ t₁ : ℕ} (ht₁ : t₁ ≤ monitorTimeout)
    {es : List TimedEvent} (hes : es.filter physical = waveEvents [(true, t₀), (false, t₁)])
    (hpolled : Runs.Along (fun s e => some (watchedStep s e)) GapPolled s es) :
    InPacket (watchedRun s es) (Decoder.elapse window ⟨false, some 0, [false]⟩ t₁) t₁ all := by
  have hes' : es.filter physical =
      .line true :: (List.replicate t₀ .cycle ++ .line false :: List.replicate t₁ .cycle) := by
    rw [hes, waveEvents]
    simp
  obtain ⟨fs₀, es₀, rfl, hother₀, hes₀⟩ := split_line hes'
  obtain ⟨fs₁, es₁, rfl, hfs₁, hes₁⟩ := List.filter_eq_append_iff.mp hes₀
  obtain ⟨fs₂, fs₃, rfl, hother₂, hfs₃⟩ := split_line hes₁
  have hsplit : fs₀ ++ .line true :: (fs₁ ++ (fs₂ ++ .line false :: fs₃)) =
      (fs₀ ++ .line true :: (fs₁ ++ fs₂)) ++ .line false :: fs₃ := by simp
  have hhigh : watchedRun s (fs₀ ++ .line true :: (fs₁ ++ fs₂)) =
      watchedRun (watchedRun (watchedRun s fs₀) fs₁) fs₂ := by
    rw [watchedRun_append, ← watchedRun_append (watchedRun s fs₀)]
    exact congrArg (fun s => watchedRun s (fs₁ ++ fs₂)) (h.others hother₀).high
  rw [hsplit] at hpolled ⊢
  -- up to the first edge the gap goes on
  have hedge := hpolled.at_split (Runs.run_total watchedStep s _)
  have hgap := ((h.others hother₀).quiet hfs₁).others hother₂
  rw [← hhigh] at hgap
  have hin := (hgap.firstEdge (hgap.monitor_idle (by omega)) hedge).quiet hfs₃ (by omega)
  rw [Nat.zero_add] at hin
  rw [watchedRun_append]
  exact hin

/-- The end of a packet: the line is released, and the gap begins. -/
theorem InPacket.finish {s : Node × Bool} {b : Bool} {u age : ℕ} {p : List Byte}
    {done : List (List Byte)} (h : InPacket s ⟨b, some u, p.flatMap Bits.msbFirst⟩ age done)
    (hp : Packet p) {gap : ℕ} {es : List TimedEvent}
    (hes : es.filter physical = waveEvents [(true, gap)]) :
    Gap (watchedRun s es) (done ++ [p]) gap := by
  have hes' : es.filter physical = .line true :: List.replicate gap .cycle := by
    rw [hes, waveEvents]
    simp
  obtain ⟨fs₀, fs₁, rfl, hother₀, hfs₁⟩ := split_line hes'
  have hdrive : (Decoder.drive ⟨b, some u, p.flatMap Bits.msbFirst⟩ true).bits =
      p.flatMap Bits.msbFirst := by
    cases b <;> rfl
  have hgap := ((h.others hother₀).release hp.nonempty hp.length_le hdrive).quiet hfs₁
  rw [Nat.zero_add] at hgap
  rw [watchedRun_append]
  exact hgap

/-- A packet arrives: the board goes from one gap to the next, and the packet waits in it or has
been delivered. -/
theorem Gap.arrival {s : Node × Bool} {all : List (List Byte)} {since : ℕ} (h : Gap s all since)
    (hsince : monitorTimeout < since) {a : Arrival} (ha : a.Admissible) {es : List TimedEvent}
    (hes : es.filter physical = waveEvents a.wave)
    (hpolled : Runs.Along (fun s e => some (watchedStep s e)) GapPolled s es) :
    Gap (watchedRun s es) (all ++ [a.bytes]) a.gap := by
  obtain ⟨bs, hbits⟩ := ha.packet.bits
  -- the two half-bits of the first bit, and those of the others
  obtain ⟨t₀, t₁, ts, hds, hts⟩ : ∃ t₀ t₁ ts, a.durations = t₀ :: t₁ :: ts ∧
      ts.length = 2 * bs.length := by
    have hlen := ha.length_eq
    rw [length_halfBits, hbits, List.length_cons] at hlen
    revert hlen
    rcases a.durations with _ | ⟨t₀, _ | ⟨t₁, ts⟩⟩ <;> intro hlen
    · simp at hlen
    · simp at hlen
      omega
    · simp only [List.length_cons] at hlen
      exact ⟨t₀, t₁, ts, rfl, by omega⟩
  have hpair := ha.pair
  have hshort := ha.short
  rw [hds] at hpair hshort
  have hwave : waveEvents a.wave = waveEvents [(true, t₀), (false, t₁)] ++
      (waveEvents ((LineCode.encode bs).zip ts) ++ waveEvents [(true, a.gap)]) := by
    rw [Arrival.wave, halfBits_eq, hbits, hds]
    simp [waveEvents]
  rw [hwave] at hes
  obtain ⟨es₁, es', rfl, hes₁, hes'⟩ := List.filter_eq_append_iff.mp hes
  obtain ⟨es₂, es₃, rfl, hes₂, hes₃⟩ := List.filter_eq_append_iff.mp hes'
  have hlast : t₁ ≤ monitorTimeout :=
    (hshort t₁ (by simp)).trans (by decide)
  have hfirst := h.firstBit hsince hlast hes₁ (hpolled.append (Runs.run_total watchedStep s _)).1
  -- the other bits, from the middle of the first one on
  obtain ⟨b, u, -, hfollow⟩ := Decoder.follow_encode_midBit (T := window)
    (d := ⟨false, some 0, [false]⟩) rfl bs hts
    (fun d hd => Nat.lt_succ_of_le (hshort d (List.mem_cons_of_mem _ hd)))
    (hpair.tail.imp fun _ _ h => h.1)
  have hall : [false] ++ bs = a.bytes.flatMap Bits.msbFirst := hbits.symm
  rw [hall] at hfollow
  have hwithin : LineCode.EdgesWithin monitorTimeout false t₁ ((LineCode.encode bs).zip ts) :=
    LineCode.edgesWithin_encode false hts (hpair.tail.imp fun _ _ h => Nat.le_of_lt h.2)
  have hroom : (((Decoder.elapse window ⟨false, some 0, [false]⟩ t₁).follow window
      ((LineCode.encode bs).zip ts)).bits).length ≤ 8 * (bufSize - 1) := by
    rw [hfollow]
    exact room_of_length_le ha.packet.length_le
  have hbody := hfirst.wave (by rw [Decoder.level_elapse]; exact hwithin) hroom hes₂
  rw [hfollow] at hbody
  rw [watchedRun_append, watchedRun_append]
  exact hbody.finish ha.packet hes₃

/-- Any number of packets. -/
theorem Gap.arrivals {s : Node × Bool} {all : List (List Byte)} {since : ℕ} (h : Gap s all since)
    (hsince : monitorTimeout < since) {arrivals : List Arrival}
    (ha : ∀ a ∈ arrivals, a.Admissible) {es : List TimedEvent}
    (hes : es.filter physical = arrivals.flatMap fun a => waveEvents a.wave)
    (hpolled : Runs.Along (fun s e => some (watchedStep s e)) GapPolled s es) :
    ∃ since', Gap (watchedRun s es) (all ++ arrivals.map Arrival.bytes) since' := by
  induction arrivals generalizing s all since es with
  | nil =>
    rw [List.map_nil, List.append_nil]
    refine ⟨since, h.others fun e he => ?_⟩
    exact Bool.eq_false_of_not_eq_true (List.filter_eq_nil_iff.mp hes e he)
  | cons a arrivals ih =>
    rw [List.flatMap_cons] at hes
    obtain ⟨es₁, es₂, rfl, hes₁, hes₂⟩ := List.filter_eq_append_iff.mp hes
    have hadm := ha a List.mem_cons_self
    obtain ⟨hpolled₁, hpolled₂⟩ := hpolled.append (Runs.run_total watchedStep s es₁)
    have hgap := h.arrival hsince hadm hes₁ hpolled₁
    obtain ⟨since', hgap'⟩ := ih hgap hadm.gap (fun b hb => ha b (List.mem_cons_of_mem a hb)) hes₂
      hpolled₂
    refine ⟨since', ?_⟩
    rw [watchedRun_append, List.map_cons, ← List.singleton_append, ← List.append_assoc]
    exact hgap'

/-- In every run on an idle line in which every gap is polled, each packet is handed to
`ph_parse` exactly once, in order, as exactly its own bytes. -/
theorem framed_of_run {src dest : Byte} {pin : Bool} {idle : ℕ} {arrivals : List Arrival}
    (ha : ∀ a ∈ arrivals, a.Admissible) {es : List TimedEvent}
    (hes : es.filter physical =
      List.replicate idle .cycle ++ arrivals.flatMap fun a => waveEvents a.wave)
    (hpolls : PollsGaps (boot src dest true pin true) es) :
    ((boot src dest true pin true).timedRun es).rx.parses.map ParseCall.buf =
      arrivals.map Arrival.bytes := by
  have hboot : Gap (boot src dest true pin true, true) [] (monitorTimeout + 1) :=
    .polled (caughtUp_boot src dest pin true) rfl
  obtain ⟨es₁, es₂, rfl, hes₁, hes₂⟩ := List.filter_eq_append_iff.mp hes
  have hpolls₂ := (hpolls.1.append (Runs.run_total watchedStep _ es₁)).2
  obtain ⟨since, hgap⟩ := (hboot.quiet hes₁).arrivals (by omega) ha hes₂ hpolls₂
  rw [List.nil_append, ← watchedRun_append] at hgap
  rw [← fst_watchedRun (boot src dest true pin true, true)]
  exact (hgap.delivered hpolls.2).1

/-! ## A gap without a call -/

/-- The board after a waveform without main-loop calls. -/
def afterWave (n : Node) (wave : List (Bool × ℕ)) : Node :=
  wave.foldl (fun n s => wait 8 (n.setLine s.1) s.2) n

theorem timedRun_waveEvents (n : Node) (wave : List (Bool × ℕ)) :
    n.timedRun (waveEvents wave) = n.afterWave wave := by
  induction wave generalizing n with
  | nil => rfl
  | cons s wave ih =>
    rw [waveEvents, List.flatMap_cons, List.cons_append, timedRun_cons, timedRun_append, ← wait_eq 8]
    exact ih _

/-- Whether every first edge in a waveform finds that the gap before it was polled. -/
def wavePolled : Node × Bool → List (Bool × ℕ) → Bool
  | _, [] => true
  | s, p :: wave =>
    (decide (p.1 = s.1.idr4) || decide (s.1.mon.monitorState ≠ .idle) || s.2) &&
      wavePolled (wait 8 (s.1.setLine p.1) p.2, s.1.polledAfter s.2 (.line p.1)) wave

theorem watchedRun_cycles (s : Node × Bool) (t : ℕ) :
    watchedRun s (List.replicate t .cycle) = (wait 8 s.1 t, s.2) := by
  rw [wait_eq]
  induction t generalizing s with
  | zero => rfl
  | succ t ih => exact ih (watchedStep s .cycle)

theorem along_waveEvents {s : Node × Bool} {wave : List (Bool × ℕ)} (h : wavePolled s wave = true) :
    Runs.Along (fun s e => some (watchedStep s e)) GapPolled s (waveEvents wave) := by
  induction wave generalizing s with
  | nil => trivial
  | cons p wave ih =>
    simp only [wavePolled, Bool.and_eq_true, Bool.or_eq_true, decide_eq_true_eq] at h
    obtain ⟨hline, hrest⟩ := h
    rw [waveEvents, List.flatMap_cons, List.cons_append]
    refine ⟨?_, fun s' hs' => ?_⟩
    · intro level hlevel hne hidle
      obtain rfl : p.1 = level := by simpa using hlevel
      rcases hline with (hsame | hbusy) | hpolled
      · exact absurd hsame hne
      · exact absurd hidle hbusy
      · exact hpolled
    · obtain rfl : watchedStep s (.line p.1) = s' := Option.some.inj hs'
      have hcycles : Runs.Along (fun s e => some (watchedStep s e)) GapPolled
          (watchedStep s (.line p.1)) (List.replicate p.2 .cycle) :=
        Runs.along_of_forall (fun t e he level hlevel => by
          rw [List.eq_of_mem_replicate he] at hlevel
          cases hlevel) _
      refine hcycles.concat (Runs.run_total watchedStep _ _) ?_
      rw [← watchedRun, watchedRun_cycles]
      exact ih hrest

/-- A packet with the one-character message `a`. -/
def packetA : Arrival :=
  ⟨Transmitter.frameOf true 0xAA 0xBB [0x61], List.replicate 128 8001, 20000⟩

/-- The shortest packet, one byte. -/
def packetSynch : Arrival := ⟨[0x55], List.replicate 16 8001, 20000⟩

/-- A packet sent with the transmitter's bit clock is admissible. -/
theorem admissible_bitClock {bytes : List Byte} (hp : Packet bytes) {k : ℕ}
    (hk : bytes.length = k) :
    Arrival.Admissible ⟨bytes, List.replicate (16 * k) 8001, 20000⟩ := by
  refine ⟨hp, ?_, ?_, ?_, (by decide : monitorTimeout < 20000)⟩
  · rw [length_halfBits, Bits.length_flatMap_msbFirst, hk, List.length_replicate]
    omega
  · intro d hd
    rw [List.eq_of_mem_replicate hd]
    decide
  · exact List.isChain_replicate_of_rel _ (by decide)

theorem admissible_packetA : packetA.Admissible := by
  refine admissible_bitClock ⟨fun b hb => ?_, by decide, by decide⟩ (k := 8) (by decide)
  cases hb
  rfl

theorem admissible_packetSynch : packetSynch.Admissible := by
  refine admissible_bitClock ⟨fun b hb => ?_, by decide, by decide⟩ (k := 1) (by decide)
  cases hb
  rfl

/-- Two packets, and one call of the main loop after the second. -/
def unpolledGap : List TimedEvent :=
  waveEvents packetA.wave ++ waveEvents packetA.wave ++ [.receiverUpdate]

theorem filter_waveEvents (wave : List (Bool × ℕ)) :
    (waveEvents wave).filter physical = waveEvents wave := by
  refine List.filter_eq_self.mpr fun e he => ?_
  obtain ⟨s, -, hs⟩ := List.mem_flatMap.mp he
  rcases List.mem_cons.mp hs with rfl | hcycle
  · rfl
  · rw [List.eq_of_mem_replicate hcycle]
    rfl

/-- The two packets are handed over as one: there is one call of `ph_parse`, on 16 bytes. -/
theorem joined_unpolledGap :
    (∀ a ∈ [packetA, packetA], a.Admissible) ∧
      (unpolledGap.filter physical = [packetA, packetA].flatMap fun a => waveEvents a.wave) ∧
      ((boot 0xAA 0xBB true true true).timedRun unpolledGap).rx.parses.map ParseCall.buf =
        [packetA.bytes ++ packetA.bytes] ∧
      ((boot 0xAA 0xBB true true true).timedRun unpolledGap).rx.parses.map ParseCall.buf ≠
        [packetA, packetA].map Arrival.bytes := by
  have hjoined : ((boot 0xAA 0xBB true true true).timedRun unpolledGap).rx.parses.map ParseCall.buf =
      [packetA.bytes ++ packetA.bytes] := by
    rw [unpolledGap, timedRun_append, timedRun_append, timedRun_waveEvents, timedRun_waveEvents]
    decide +kernel
  refine ⟨by simp [admissible_packetA], ?_, hjoined, ?_⟩
  · rw [unpolledGap, List.filter_append, List.filter_append, filter_waveEvents, List.flatMap_cons,
      List.flatMap_singleton]
    exact List.append_nil _
  · rw [hjoined]
    intro hframed
    have hlen := congrArg List.length hframed
    cases hlen

/-- A packet, and a call of the main loop in the gap after it. -/
def polledPacket (a : Arrival) : List TimedEvent := waveEvents a.wave ++ [.receiverUpdate]

theorem watchedRun_polledPacket {n : Node} {a : Arrival} (hwave : wavePolled (n, true) a.wave = true)
    (hidle : (n.afterWave a.wave).mon.monitorState = .idle) :
    Runs.Along (fun s e => some (watchedStep s e)) GapPolled (n, true) (polledPacket a) ∧
      watchedRun (n, true) (polledPacket a) = ((n.afterWave a.wave).receiverUpdate, true) := by
  have hcall : ∀ s, Runs.Along (fun s e => some (watchedStep s e)) GapPolled s [.receiverUpdate] :=
    fun s => ⟨fun _ h => by simp at h, fun _ _ => trivial⟩
  refine ⟨(along_waveEvents hwave).concat (Runs.run_total watchedStep _ _) (hcall _), ?_⟩
  have hnode : (watchedRun (n, true) (waveEvents a.wave)).1 = n.afterWave a.wave := by
    rw [fst_watchedRun, timedRun_waveEvents]
  have hpolled : ∀ s : Node × Bool, watchedRun s [.receiverUpdate] =
      (s.1.receiverUpdate, s.2 || decide (s.1.mon.monitorState = .idle)) := fun _ => rfl
  rw [polledPacket, watchedRun_append, hpolled, hnode, hidle, decide_eq_true rfl, Bool.or_true]

theorem filter_polledPacket (a : Arrival) :
    (polledPacket a).filter physical = waveEvents a.wave := by
  rw [polledPacket, List.filter_append, filter_waveEvents]
  exact List.append_nil _

/-- Two packets, and a call of the main loop in the gap after each. -/
def polledGap : List TimedEvent := polledPacket packetA ++ polledPacket packetSynch

theorem pollsGaps_polledGap : PollsGaps (boot 0xAA 0xBB true true true) polledGap := by
  obtain ⟨halong, hrun⟩ := watchedRun_polledPacket (n := boot 0xAA 0xBB true true true)
    (a := packetA) (by decide +kernel) (by decide +kernel)
  obtain ⟨halong', hrun'⟩ := watchedRun_polledPacket (a := packetSynch)
    (n := ((boot 0xAA 0xBB true true true).afterWave packetA.wave).receiverUpdate)
    (by decide +kernel) (by decide +kernel)
  refine ⟨halong.concat (Runs.run_total watchedStep _ _) ?_, ?_⟩
  · rw [← watchedRun, hrun]
    exact halong'
  · rw [polledGap, watchedRun_append, hrun, hrun']

theorem framed_polledGap :
    ((boot 0xAA 0xBB true true true).timedRun polledGap).rx.parses.map ParseCall.buf =
      [packetA, packetSynch].map Arrival.bytes := by
  have hphysical : polledGap.filter physical =
      List.replicate 0 .cycle ++ [packetA, packetSynch].flatMap fun a => waveEvents a.wave := by
    rw [polledGap, List.filter_append, filter_polledPacket, filter_polledPacket,
      List.replicate_zero, List.nil_append, List.flatMap_cons, List.flatMap_singleton]
  have hadmissible : ∀ a ∈ [packetA, packetSynch], a.Admissible := by
    simp [admissible_packetA, admissible_packetSynch]
  exact framed_of_run hadmissible hphysical pollsGaps_polledGap

end Node

end NetworkingCard
