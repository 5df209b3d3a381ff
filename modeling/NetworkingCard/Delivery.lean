import NetworkingCard.Link
import NetworkingCard.PacketFormat

/-!
# End-to-end delivery

`delivers_of_run`: whatever lines are typed at the sender while its monitor is idle, and however
the main loops of the two boards interleave with the transmissions, if the listener's main routine
runs in every idle gap, it parses exactly one packet for each line, in order, with the sender's
addresses and the bytes of the line. The first of these gaps begins when the sender's first tick
releases the line: without a call in it the first frame is lost (`garbled_unpolledStart`).

A run is a sequence of phases (`Phase`): the sender has not released the line yet, is at rest with a
part of a line typed, or sends the frame of the last line. `Underway.run` follows them over the
events of a run; `phParse_frameWith` is the round trip of `ph_create` and `ph_parse`. That a
transmission comes to its end is `Phase.delivered`.
-/

namespace NetworkingCard

open Transmitter (frameOf blank)

/-! ## Lines and packets -/

/-- A line that can be typed: 1 to 254 characters without `'\r'`, the first of them not NUL. -/
structure TypedLine (line : List Byte) : Prop where
  nonempty : line ≠ []
  length_le : line.length ≤ 254
  no_return : carriageReturn ∉ line
  head : line.head? ≠ some 0

instance (line : List Byte) : Decidable (TypedLine line) :=
  decidable_of_iff (line ≠ [] ∧ line.length ≤ 254 ∧ carriageReturn ∉ line ∧ line.head? ≠ some 0)
    ⟨fun ⟨h1, h2, h3, h4⟩ => ⟨h1, h2, h3, h4⟩, fun ⟨h1, h2, h3, h4⟩ => ⟨h1, h2, h3, h4⟩⟩

theorem TypedLine.not_blank {line : List Byte} (h : TypedLine line) : blank line = false := by
  have hne := h.nonempty
  have hhead := h.head
  rw [← Bool.not_eq_true, Transmitter.blank_iff]
  cases line with
  | nil => exact absurd rfl hne
  | cons b line => simpa using hhead

/-- The frame of a line is a packet that the receiver can take. -/
theorem TypedLine.packet {line : List Byte} (h : TypedLine line) (src dest : Byte) :
    Node.Packet (frameOf true src dest line) := by
  refine ⟨fun b hb => ?_, ?_, ?_⟩
  · cases hb
    rfl
  · simp [frameOf]
  · have := h.length_le
    simp [frameOf, sizeofPacketHeader, phMsgSize]
    omega

/-- A call of `ph_parse` that succeeded with the fields of a packet and the bytes of a line. -/
structure Carries (src dest : Byte) (line : List Byte) (call : ParseCall) : Prop where
  result : call.result = true
  src_eq : call.out.src = src
  dest_eq : call.out.dest = dest
  length_eq : call.out.length.toNat = line.length
  msg_eq : (List.range line.length).map (memory call.out.msg) = line

/-- The frame of a line, with any synchronisation byte. `ph_parse` does not look at it. -/
def frameWith (synch src dest : Byte) (chars : List Byte) : List Byte :=
  synch :: (frameOf true src dest chars).tail

theorem frameWith_eq (synch src dest : Byte) (chars : List Byte) :
    frameWith synch src dest chars =
      [synch, 0x01, src, dest, BitVec.ofNat 8 chars.length, 1] ++ chars ++
        [phComputeCrc8 (fun i => chars[i]?.getD 0) chars.length] :=
  rfl

theorem frameOf_eq (src dest : Byte) (chars : List Byte) :
    frameOf true src dest chars = frameWith 0x55 src dest chars :=
  rfl

/-- The bytes of a frame: the header, the line, and the CRC. -/
theorem getElem?_frameWith (synch src dest : Byte) (chars : List Byte) {i : ℕ}
    (hi : i < chars.length) : (frameWith synch src dest chars)[6 + i]? = chars[i]? := by
  rw [frameWith_eq, List.append_assoc, List.getElem?_append_right (by simp),
    List.getElem?_append_left (by simpa using hi)]
  simp

theorem getElem?_frameWith_last (synch src dest : Byte) (chars : List Byte) :
    (frameWith synch src dest chars)[7 + chars.length - 1]? =
      some (phComputeCrc8 (fun i => chars[i]?.getD 0) chars.length) := by
  have hlen : ([synch, 0x01, src, dest, BitVec.ofNat 8 chars.length, 1] ++ chars).length =
      7 + chars.length - 1 := by
    rw [List.length_append]
    simp
  rw [frameWith_eq, ← hlen, List.getElem?_concat_length]

theorem length_frameWith (synch src dest : Byte) (chars : List Byte) :
    (frameWith synch src dest chars).length = 7 + chars.length := by
  simp [frameWith_eq]
  omega

/-- The byte at each offset of a frame. -/
def frameMemory (synch src dest : Byte) (chars : List Byte) : Memory :=
  fun i => (frameWith synch src dest chars)[i]?.getD 0

/-- `ph_parse` accepts the frame of a line and finds what was put into it. -/
theorem phParse_frameWith (out : PacketHeader) (synch src dest : Byte) {chars : List Byte}
    (hne : chars ≠ []) (hlen : chars.length ≤ 254) :
    phParse out (frameMemory synch src dest chars) (7 + chars.length) =
      (true, ⟨synch, 0x01, src, dest, BitVec.ofNat 8 chars.length, 1,
        memcpy out.msg (fun i => chars[i]?.getD 0) chars.length,
        phComputeCrc8 (fun i => chars[i]?.getD 0) chars.length⟩) := by
  have hpos := List.length_pos_iff.mpr hne
  -- the header is where `ph_parse` looks for it
  have hheader : ∀ i < 6, frameMemory synch src dest chars i =
      [synch, 0x01, src, dest, BitVec.ofNat 8 chars.length, 1][i]?.getD 0 := by
    intro i hi
    rw [frameMemory, frameWith_eq, List.append_assoc, List.getElem?_append_left (by simpa using hi)]
  have hsize : (frameMemory synch src dest chars 4).toNat = chars.length := by
    rw [hheader 4 (by omega)]
    show (BitVec.ofNat 8 chars.length).toNat = chars.length
    rw [BitVec.toNat_ofNat, Nat.mod_eq_of_lt (by omega)]
  have hmsg : ∀ i < chars.length, frameMemory synch src dest chars (6 + i) = chars[i]?.getD 0 := by
    intro i hi
    rw [frameMemory, getElem?_frameWith synch src dest chars hi]
  have hlast : frameMemory synch src dest chars (7 + chars.length - 1) =
      phComputeCrc8 (fun i => chars[i]?.getD 0) chars.length := by
    rw [frameMemory, getElem?_frameWith_last, Option.getD_some]
  -- the copy is of message bytes only
  have hcopy : memcpy out.msg (fun i => frameMemory synch src dest chars (6 + i)) chars.length =
      memcpy out.msg (fun i => chars[i]?.getD 0) chars.length :=
    memcpy_congr out.msg hmsg
  -- and so is the CRC, which the last byte repeats
  have hcrc : messageCrc (frameMemory synch src dest chars) =
      frameMemory synch src dest chars (7 + chars.length - 1) := by
    rw [messageCrc, hsize, hlast]
    exact phComputeCrc8_congr hmsg
  have hfits : ¬TooSmall (frameMemory synch src dest chars) (7 + chars.length) := by
    unfold TooSmall
    rw [hsize]
    omega
  have hflag : frameMemory synch src dest chars 5 ≠ 0 := by
    rw [hheader 5 (by omega)]
    simp
  have hparse := phParse_of_crc out hfits hflag hcrc
  rw [PacketHeader.parsed, hsize, hlast, hcopy, hheader 0 (by omega), hheader 1 (by omega),
    hheader 2 (by omega), hheader 3 (by omega), hheader 4 (by omega), hheader 5 (by omega)] at hparse
  exact hparse

/-- The frame of a line carries the line. -/
theorem TypedLine.carries {synch src dest : Byte} {chars : List Byte} (h : TypedLine chars)
    {call : ParseCall} (hbuf : call.buf = frameWith synch src dest chars) (hsound : call.Sound) :
    Carries src dest chars call := by
  obtain ⟨out, hcall⟩ := hsound
  have hlen := h.length_le
  rw [hbuf, length_frameWith] at hcall
  rw [show (fun i => (frameWith synch src dest chars)[i]?.getD 0) =
    frameMemory synch src dest chars from rfl,
    phParse_frameWith out synch src dest h.nonempty hlen, Prod.mk.injEq] at hcall
  obtain ⟨hresult, hout⟩ := hcall
  refine ⟨hresult, ?_, ?_, ?_, ?_⟩ <;> rw [hout]
  · dsimp only
    rw [BitVec.toNat_ofNat, Nat.mod_eq_of_lt (by omega)]
  · refine List.ext_getElem? fun i => ?_
    by_cases hi : i < chars.length
    · rw [List.getElem?_map, List.getElem?_range hi, Option.map_some,
        memory_memcpy _ _ (by unfold phMsgSize; omega) hi, List.getElem?_eq_getElem hi,
        Option.getD_some]
    · rw [List.getElem?_eq_none (by simpa using hi), List.getElem?_eq_none (by omega)]

/-- The packet `p` that arrives for a line. -/
structure HeardAs (src dest : Byte) (line p : List Byte) : Prop where
  typed : TypedLine line
  frame : ∃ synch, p = frameWith synch src dest line

theorem HeardAs.nonempty {src dest : Byte} {line p : List Byte} (h : HeardAs src dest line p) :
    p ≠ [] := by
  obtain ⟨synch, rfl⟩ := h.frame
  exact List.cons_ne_nil _ _

theorem HeardAs.length_le {src dest : Byte} {line p : List Byte} (h : HeardAs src dest line p) :
    p.length ≤ sizeofPacketHeader := by
  obtain ⟨synch, rfl⟩ := h.frame
  have hlen := h.typed.length_le
  rw [length_frameWith]
  unfold sizeofPacketHeader phMsgSize
  omega

/-- The packets that have been handed over carry the lines. -/
theorem carries_of_heard {src dest : Byte} {lines packets : List (List Byte)} {n : Node}
    (h : List.Forall₂ (HeardAs src dest) lines packets) (hdelivered : n.Delivered packets) :
    List.Forall₂ (Carries src dest) lines n.rx.parses := by
  obtain ⟨hbufs, hsound⟩ := hdelivered
  rw [← hbufs, List.forall₂_map_right_iff] at h
  refine List.forall₂_iff_zip.mpr ⟨h.length_eq, fun hmem => ?_⟩
  obtain ⟨-, hcall⟩ := List.of_mem_zip hmem
  obtain ⟨htyped, synch, hbuf⟩ := List.forall₂_zip h hmem
  exact htyped.carries hbuf (hsound _ hcall)

/-! ## Phases of a run -/

namespace Link

open Node (CaughtUp Gap OnAir GapPolled watchedStep watchedRun watchedRun_append)

/-- Between two lines, with `cur` typed of the next one, or while the frame of the last of the
lines `sent` is on the air, for `left` more cycles. Before all that the sender may hold the line
low until its first tick. -/
inductive Phase (src dest : Byte) (tx : Transmitter) (s : Node × Bool) (sent : List (List Byte))
    (cur : List Byte) (left : ℕ) : Prop
  | booting {r : ℕ} (clock : tx.Booting r) (waiting : tx.Waiting cur)
      (settings_eq : tx.settings = (true, src, dest)) (low : tx.pin = false)
      (caughtUp : CaughtUp s []) (sent_eq : sent = []) (left_eq : left = r + 1)
  | atRest {packets : List (List Byte)} {since : ℕ} (tx : tx.AtRest src dest cur)
      (heard : List.Forall₂ (HeardAs src dest) sent packets) (gap : Gap s packets since)
      (left_eq : left = 0)
  | sending {done packets : List (List Byte)} {line p : List Byte} {rest : List Bool} {r : ℕ}
      (tx : tx.Sending src dest rest r) (heard : List.Forall₂ (HeardAs src dest) done packets)
      (hears : HeardAs src dest line p) (onAir : OnAir s packets p rest r)
      (sent_eq : sent = done ++ [line]) (cur_eq : cur = [])
      (left_eq : left = rest.length * Node.slot + r + 1)

variable {src dest : Byte} {tx : Transmitter} {s : Node × Bool} {sent : List (List Byte)}
  {cur : List Byte} {left : ℕ}

theorem phase_boot (src dest src' dest' : Byte) (pin pin' : Bool) :
    ∃ left, Phase src dest (boot src dest src' dest' pin pin').sender.tx
      ((boot src dest src' dest' pin pin').listener, true) [] [] left := by
  have hready : CaughtUp ((boot src dest src' dest' pin pin').listener, true) [] :=
    Node.caughtUp_boot src' dest' pin' pin
  cases pin with
  | true =>
    have hgap : Gap ((boot src dest src' dest' true pin').listener, true) [] 0 := .polled hready rfl
    exact ⟨0, .atRest (Transmitter.atRest_init src dest) .nil hgap rfl⟩
  | false =>
    exact ⟨_, .booting (Transmitter.booting_init src dest true false)
      (Transmitter.waiting_init src dest true false) rfl rfl hready rfl rfl⟩

theorem Phase.other (h : Phase src dest tx s sent cur left) {e : Node.TimedEvent}
    (he : Node.physical e = false) : Phase src dest tx (watchedStep s e) sent cur left := by
  cases h with
  | booting clock waiting settings_eq low caughtUp sent_eq left_eq =>
    exact .booting clock waiting settings_eq low (caughtUp.other he) sent_eq left_eq
  | atRest tx heard gap left_eq => exact .atRest tx heard (gap.other he) left_eq
  | sending tx heard hears onAir sent_eq cur_eq left_eq =>
    exact .sending tx heard hears (onAir.other he) sent_eq cur_eq left_eq

/-- A level that the line has already is no edge. -/
theorem watchedStep_same {b : Bool} (h : b = s.1.idr4) : watchedStep s (.line b) = s := by
  rw [watchedStep, Node.timedStep, Node.setLine_same h, Node.polledAfter, decide_eq_true h]
  simp

/-- One core cycle, and the level that the sender drives after it. -/
theorem Phase.cycle (h : Phase src dest tx s sent cur left) (hpin : tx.pin = s.1.idr4)
    (hpolled : GapPolled (watchedStep s .cycle) (.line (tx.cycle s.1.mon.getState).pin)) :
    Phase src dest (tx.cycle s.1.mon.getState)
      (watchedStep (watchedStep s .cycle) (.line (tx.cycle s.1.mon.getState).pin)) sent cur
      (left - 1) := by
  cases h with
  | @booting r clock waiting settings_eq low caughtUp sent_eq left_eq =>
    obtain ⟨hwaiting, hset⟩ := waiting.cycle s.1.mon.getState
    obtain _ | r := r
    · -- the first tick releases the line
      have hpin' := clock.release s.1.mon.getState
      rw [hpin', sent_eq, left_eq]
      exact .atRest (hwaiting.atRest (hset.trans settings_eq) hpin') .nil caughtUp.cycle.released rfl
    · obtain ⟨hclock, hpin'⟩ := clock.wait s.1.mon.getState
      have hsame : watchedStep (watchedStep s .cycle) (.line (Transmitter.cycle _ _).pin) =
          watchedStep s .cycle := watchedStep_same (hpin'.trans hpin)
      rw [hsame]
      exact .booting hclock hwaiting (hset.trans settings_eq) (hpin'.trans low) caughtUp.cycle
        sent_eq (by omega)
  | atRest htx heard gap left_eq =>
    have htx := htx.cycle s.1.mon.getState
    rw [htx.pin, gap.cycle.high, left_eq]
    exact .atRest htx heard gap.cycle rfl
  | @sending done packets line p rest r htx heard hears onAir sent_eq cur_eq left_eq =>
    obtain _ | r := r
    · obtain _ | ⟨b, rest⟩ := rest
      -- the message is over: the line is released
      · have htx := htx.finish s.1.mon.getState
        rw [htx.pin, cur_eq, sent_eq, left_eq]
        have hall := List.rel_append heard (List.Forall₂.cons hears .nil)
        exact .atRest htx hall (onAir.release hears.nonempty hears.length_le) (by simp)
      -- the next half-bit, as the listener's edges let no collision be found
      · have hstate : s.1.mon.getState ≠ .collision := onAir.not_collision
        obtain ⟨htx, hb⟩ := htx.drive hstate
        rw [hb] at hpolled ⊢
        refine .sending htx heard hears (onAir.drive hears.length_le hpolled) sent_eq cur_eq ?_
        rw [left_eq, List.length_cons, Nat.succ_mul]
        unfold Node.slot
        omega
    -- between two ticks the level stays
    · obtain ⟨htx, hb⟩ := htx.wait s.1.mon.getState
      have hsame : watchedStep (watchedStep s .cycle) (.line (Transmitter.cycle _ _).pin) =
          watchedStep s .cycle := watchedStep_same (hb.trans hpin)
      rw [hsame]
      exact .sending htx heard hears onAir.wait sent_eq cur_eq (by omega)

/-- A call that reads no character does nothing. -/
theorem Phase.notReading (h : Phase src dest tx s sent cur left) (hreads : tx.readsChar = false)
    (c : Byte) (random : ℕ) : tx.mainRoutineUpdate s.1.mon.getState c random = tx := by
  cases h with
  | booting clock waiting settings_eq low caughtUp sent_eq left_eq =>
    exact absurd (waiting.readsChar.symm.trans hreads) (by simp)
  | atRest htx heard gap left_eq =>
    simp [Transmitter.readsChar, htx.inTransmission, htx.complete] at hreads
  | sending htx heard hears onAir sent_eq cur_eq left_eq =>
    simp [Transmitter.mainRoutineUpdate, htx.inTransmission, htx.complete]

theorem Phase.readsChar (h : Phase src dest tx s sent cur 0) : tx.readsChar = true := by
  cases h with
  | booting clock waiting settings_eq low caughtUp sent_eq left_eq => exact waiting.readsChar
  | atRest htx heard gap left_eq => simp [Transmitter.readsChar, htx.inTransmission, htx.complete]
  | sending htx heard hears onAir sent_eq cur_eq left_eq => omega

/-- A character of a line is added to what has been typed. -/
theorem Phase.readOther (h : Phase src dest tx s sent cur left) (hreads : tx.readsChar = true)
    {c : Byte} (hc : c ≠ carriageReturn) (hlen : cur.length < phMsgSize - 1)
    (state : MonitorState) (random : ℕ) :
    Phase src dest (tx.mainRoutineUpdate state c random) s sent (cur ++ [c]) left := by
  cases h with
  | booting clock waiting settings_eq low caughtUp sent_eq left_eq =>
    obtain ⟨hwaiting, hset⟩ := waiting.readOther hc hlen state random
    exact .booting (clock.stays hwaiting.inTransmission) hwaiting (hset.trans settings_eq)
      ((tx.pin_mainRoutineUpdate state c random).trans low) caughtUp sent_eq left_eq
  | atRest htx heard gap left_eq =>
    exact .atRest (htx.readOther hc hlen state random) heard gap left_eq
  | sending htx heard hears onAir sent_eq cur_eq left_eq =>
    simp [Transmitter.readsChar, htx.inTransmission] at hreads

/-- The frame of a line begins with a 0 and a 1. With a 1 in place of the 0 it is the frame with
another synchronisation byte. -/
theorem bits_frameOf (src dest : Byte) (line : List Byte) :
    ∃ bs, (frameOf true src dest line).flatMap Bits.msbFirst = false :: true :: bs ∧
      (frameWith 0xD5 src dest line).flatMap Bits.msbFirst = true :: true :: bs :=
  ⟨_, rfl, rfl⟩

/-- The `'\r'` sends the line, if the monitor is idle. -/
theorem Phase.readReturn (h : Phase src dest tx s sent cur left) (hreads : tx.readsChar = true)
    (hcur : TypedLine cur) (hidle : s.1.mon.monitorState = .idle) (hpin : tx.pin = s.1.idr4)
    (random : ℕ) :
    Phase src dest (tx.mainRoutineUpdate .idle carriageReturn random) s (sent ++ [cur]) []
      ((16 * (7 + cur.length) + 1) * Node.slot) := by
  obtain ⟨bs, hbits, hlost⟩ := bits_frameOf src dest cur
  have hhalf : halfBits (frameOf true src dest cur) =
      true :: false :: LineCode.encode (true :: bs) := Node.halfBits_of_first hbits
  have hleft : (16 * (7 + cur.length) + 1) * Node.slot =
      (halfBits (frameOf true src dest cur)).length * Node.slot + transmissionTicks + 1 := by
    rw [length_halfBits, Bits.length_flatMap_msbFirst, frameOf_eq, length_frameWith, Nat.add_mul,
      Nat.one_mul, Node.slot, ← Nat.mul_assoc 2 8, Nat.add_assoc]
  cases h with
  | booting clock waiting settings_eq low caughtUp sent_eq left_eq =>
    -- the line has not been released yet
    have htx := waiting.sends settings_eq hcur.not_blank random
    rw [sent_eq]
    exact .sending htx .nil ⟨hcur, 0xD5, rfl⟩ (.held caughtUp (hpin.symm.trans low) hlost hhalf) rfl
      rfl hleft
  | atRest htx heard gap left_eq =>
    have htx := htx.waiting.sends htx.settings_eq hcur.not_blank random
    exact .sending htx heard ⟨hcur, 0x55, rfl⟩ (.waiting gap hidle hbits hhalf) rfl rfl hleft
  | sending htx heard hears onAir sent_eq cur_eq left_eq =>
    simp [Transmitter.readsChar, htx.inTransmission] at hreads

/-! ## Whole runs -/

/-- A character is read only while the sender's monitor is idle. -/
def TypesIdle (l : Link) (e : LinkEvent) : Prop :=
  l.typedBy e ≠ [] → l.sender.mon.monitorState = .idle

/-- The text of a list of lines. -/
def text (lines : List (List Byte)) : List Byte := lines.flatMap (· ++ [carriageReturn])

/-- While a line is being typed it is shorter than the finished line. -/
theorem length_lt_of_text {cur line text text' : List Byte} (hcur : carriageReturn ∉ cur)
    {c : Byte} (hc : c ≠ carriageReturn)
    (h : cur ++ c :: text = line ++ carriageReturn :: text') : cur.length < line.length := by
  obtain ⟨as, hline, has⟩ | ⟨as, hcur', has⟩ := List.append_eq_append_iff.mp h
  · obtain _ | ⟨a, as⟩ := as
    · exact absurd (List.cons_eq_cons.mp has).1 hc
    · rw [hline, List.length_append, List.length_cons]
      omega
  · obtain _ | ⟨a, as⟩ := as
    · exact absurd (List.cons_eq_cons.mp has).1.symm hc
    · obtain ⟨rfl, -⟩ := List.cons_eq_cons.mp has
      exact absurd (by rw [hcur']; simp) hcur

/-- The first `'\r'` of a text ends its first line. -/
theorem line_of_text {cur line text text' : List Byte} (hcur : carriageReturn ∉ cur)
    (hline : carriageReturn ∉ line)
    (h : cur ++ carriageReturn :: text = line ++ carriageReturn :: text') :
    cur = line ∧ text = text' := by
  obtain ⟨as, hline', has⟩ | ⟨as, hcur', has⟩ := List.append_eq_append_iff.mp h
  · obtain _ | ⟨a, as⟩ := as
    · exact ⟨by rw [hline', List.append_nil], (List.cons_eq_cons.mp has).2⟩
    · obtain ⟨rfl, -⟩ := List.cons_eq_cons.mp has
      exact absurd (by rw [hline']; simp) hline
  · obtain _ | ⟨a, as⟩ := as
    · exact ⟨by rw [hcur', List.append_nil], (List.cons_eq_cons.mp has).2.symm⟩
    · obtain ⟨rfl, -⟩ := List.cons_eq_cons.mp has
      exact absurd (by rw [hcur']; simp) hcur

/-- The record of the listener's main-loop calls after one event. -/
def polledAfter (l : Link) (polled : Bool) (e : LinkEvent) : Bool :=
  (watchedRun (l.listener, polled) (l.heardBy e)).2

theorem watchedRun_heardBy (l : Link) (polled : Bool) (e : LinkEvent) :
    watchedRun (l.listener, polled) (l.heardBy e) = ((l.step e).listener, l.polledAfter polled e) := by
  refine Prod.ext ?_ rfl
  rw [Node.fst_watchedRun, listener_step]

/-- A core cycle of the two boards. -/
theorem Phase.step_cycle {l : Link} {polled : Bool}
    (h : Phase src dest l.sender.tx (l.listener, polled) sent cur left) (hsync : l.Synced)
    (hpolled : GapPolled (watchedStep (l.listener, polled) .cycle) (.line l.sender.cycle.tx.pin)) :
    Phase src dest (l.step .cycle).sender.tx
      ((l.step .cycle).listener, l.polledAfter polled .cycle) sent cur (left - 1) := by
  have hmon : l.listener.mon.getState = l.sender.mon.getState := by rw [hsync.mon]
  have hsender : (l.step .cycle).sender.tx = l.sender.tx.cycle l.listener.mon.getState := by
    rw [hmon]
    exact Node.tx_setLine _ _
  have hpin : l.sender.cycle.tx.pin = (l.sender.tx.cycle l.listener.mon.getState).pin := by
    rw [hmon]
    rfl
  have hlistener := watchedRun_heardBy l polled .cycle
  rw [heardBy, hpin] at hlistener
  rw [hpin] at hpolled
  rw [hsender, ← hlistener]
  exact h.cycle hsync.pin hpolled

/-- The lines are being typed and sent: `rest` is the text that is still to be typed. -/
inductive Underway (src dest : Byte) (lines : List (List Byte)) (l : Link) (polled : Bool)
    (rest : List Byte) : Prop
  | intro {sent next : List (List Byte)} {cur : List Byte} {left : ℕ}
      (phase : Phase src dest l.sender.tx (l.listener, polled) sent cur left) (synced : l.Synced)
      (no_return : carriageReturn ∉ cur) (lines_eq : lines = sent ++ next)
      (text_eq : cur ++ rest = text next)

/-- What a call of the sender's main routine does to the text. -/
theorem Underway.senderTransmitter {lines : List (List Byte)}
    (hlines : ∀ line ∈ lines, TypedLine line) {l : Link} {polled : Bool} {rest : List Byte}
    {c : Byte} {random : ℕ}
    (h : Underway src dest lines l polled (l.typedBy (.senderTransmitter c random) ++ rest))
    (hread : l.TypesIdle (.senderTransmitter c random)) :
    Underway src dest lines (l.step (.senderTransmitter c random)) polled rest := by
  obtain ⟨phase, synced, no_return, lines_eq, text_eq⟩ := h
  rename_i sent next cur left
  have hstep : (l.step (.senderTransmitter c random)).sender.tx =
      l.sender.tx.mainRoutineUpdate l.listener.mon.getState c random := by
    rw [← synced.mon]
    rfl
  -- the monitors and the line are not touched
  have hsync : (l.step (.senderTransmitter c random)).Synced :=
    ⟨synced.mon, synced.idr4, (Transmitter.pin_mainRoutineUpdate _ _ _ _).trans synced.pin⟩
  -- a call that reads nothing does nothing
  cases hreads : l.sender.tx.readsChar
  · rw [typedBy, hreads] at text_eq
    have hsame := phase.notReading hreads c random
    rw [← hstep.trans hsame] at phase
    exact ⟨phase, hsync, no_return, lines_eq, text_eq⟩
  have hidle : l.listener.mon.getState = .idle := by
    rw [← synced.mon]
    exact hread (by rw [typedBy, hreads]; simp)
  rw [typedBy, hreads, if_pos rfl, List.singleton_append] at text_eq
  rw [hidle] at hstep
  obtain _ | ⟨line, next⟩ := next
  · simp [text] at text_eq
  have hline : TypedLine line := hlines line (by rw [lines_eq]; simp)
  have htext : cur ++ c :: rest = line ++ carriageReturn :: text next := by
    rw [text_eq, text, List.flatMap_cons, List.append_assoc]
    rfl
  by_cases hc : c = carriageReturn
  · -- the line is finished
    subst hc
    obtain ⟨rfl, hrest⟩ := line_of_text no_return hline.no_return htext
    have hphase := phase.readReturn hreads hline hidle synced.pin random
    rw [← hstep] at hphase
    refine ⟨hphase, hsync, by simp, ?_, hrest⟩
    rw [lines_eq, List.append_assoc]
    rfl
  -- the character belongs to the line, which has room for it
  · have hlen := length_lt_of_text no_return hc htext
    have hle := hline.length_le
    have hphase := phase.readOther hreads hc (by unfold phMsgSize; omega) .idle random
    rw [← hstep] at hphase
    refine ⟨hphase, hsync, by simp [no_return, Ne.symm hc], lines_eq, ?_⟩
    rw [List.append_assoc]
    exact text_eq

/-- One event: the listener's polls in the gaps keep the lines apart. -/
theorem Underway.step {lines : List (List Byte)} (hlines : ∀ line ∈ lines, TypedLine line)
    {l : Link} {polled : Bool} {rest : List Byte} {e : LinkEvent}
    (h : Underway src dest lines l polled (l.typedBy e ++ rest)) (hread : l.TypesIdle e)
    (hpolled : Runs.Along (fun s e => some (watchedStep s e)) GapPolled (l.listener, polled)
      (l.heardBy e)) :
    Underway src dest lines (l.step e) (l.polledAfter polled e) rest := by
  by_cases he : ∃ c random, e = .senderTransmitter c random
  · obtain ⟨c, random, rfl⟩ := he
    exact h.senderTransmitter hlines hread
  obtain ⟨phase, synced, no_return, lines_eq, text_eq⟩ := h
  cases e with
  | senderTransmitter c random => exact absurd ⟨c, random, rfl⟩ he
  | senderReceiver =>
    exact ⟨phase, ⟨synced.mon, synced.idr4, synced.pin⟩, no_return, lines_eq, text_eq⟩
  | listenerTransmitter c random =>
    exact ⟨phase.other (e := .transmitterUpdate c random) rfl,
      ⟨synced.mon, synced.idr4, synced.pin⟩, no_return, lines_eq, text_eq⟩
  | listenerReceiver =>
    exact ⟨phase.other (e := .receiverUpdate) rfl, ⟨synced.mon, synced.idr4, synced.pin⟩,
      no_return, lines_eq, text_eq⟩
  | cycle =>
    have hedge := (hpolled.2 (watchedStep (l.listener, polled) .cycle) rfl).1
    exact ⟨phase.step_cycle synced hedge, synced.cycle, no_return, lines_eq, text_eq⟩

/-- Whole runs. -/
theorem Underway.run {lines : List (List Byte)} (hlines : ∀ line ∈ lines, TypedLine line)
    {l : Link} {polled : Bool} {es : List LinkEvent}
    (h : Underway src dest lines l polled (l.typed es))
    (hidle : Runs.Along (fun l e => some (Link.step l e)) TypesIdle l es)
    (hpolled : Runs.Along (fun s e => some (watchedStep s e)) GapPolled (l.listener, polled)
      (l.heard es)) :
    Underway src dest lines (l.run es) (watchedRun (l.listener, polled) (l.heard es)).2 [] := by
  induction es generalizing l polled with
  | nil => exact h
  | cons e es ih =>
    rw [typed_cons] at h
    rw [heard_cons] at hpolled ⊢
    obtain ⟨hpolled₁, hpolled₂⟩ := hpolled.append (Runs.run_total watchedStep _ _)
    rw [← watchedRun, watchedRun_heardBy] at hpolled₂
    rw [watchedRun_append, watchedRun_heardBy]
    exact ih (h.step hlines hidle.1 hpolled₁) (hidle.2 _ rfl) hpolled₂

/-- When nothing is left to be typed all lines have been sent. -/
theorem Underway.all_sent {lines : List (List Byte)} {l : Link} {polled : Bool}
    (h : Underway src dest lines l polled []) :
    ∃ left, Phase src dest l.sender.tx (l.listener, polled) lines [] left := by
  obtain ⟨phase, -, no_return, lines_eq, text_eq⟩ := h
  rename_i sent next cur left
  rw [List.append_nil] at text_eq
  obtain _ | ⟨line, next⟩ := next
  · rw [lines_eq, List.append_nil]
    rw [show cur = [] from text_eq] at phase
    exact ⟨left, phase⟩
  · refine absurd ?_ no_return
    rw [text_eq, text, List.flatMap_cons]
    simp

/-! ## Every transmission ends -/

/-- The main loop has been here since the monitor became idle. -/
def Attended (s : Node × Bool) : Prop := s.1.mon.monitorState = .idle → s.2 = true

theorem Attended.gapPolled (h : Attended s) (b : Bool) : GapPolled s (.line b) :=
  fun _ _ _ hidle => h hidle

theorem Attended.line (h : Attended s) (b : Bool) : Attended (watchedStep s (.line b)) := by
  by_cases hb : b = s.1.idr4
  · rw [watchedStep_same hb]
    exact h
  · intro hidle
    rw [watchedStep, Node.timedStep, Node.setLine_edge hb] at hidle
    cases hidle

/-- While a packet is on the air the monitor becomes busy, not idle. -/
theorem Attended.cycle (h : Attended s) {done : List (List Byte)} {p : List Byte}
    {rest : List Bool} {r : ℕ} (honAir : OnAir s done p rest r) :
    Attended (watchedStep s .cycle) := by
  intro hidle
  cases honAir with
  | waiting gap idle bits rest_eq => exact h idle
  | firstHalf gap idle bits rest_eq => exact h idle
  | held caughtUp low bits rest_eq => exact caughtUp.polled
  | heard inPacket decodes busy =>
    have hbusy := (inPacket.cycle busy).receiving.busy
    exact absurd (hbusy.symm.trans hidle) (by simp)

/-- The edges of a transmission find that the gap before it was polled, if it was. -/
theorem Phase.attended {l : Link} {polled : Bool}
    (h : Phase src dest l.sender.tx (l.listener, polled) sent cur left)
    (hattended : left ≠ 0 → Attended (l.listener, polled)) :
    GapPolled (watchedStep (l.listener, polled) .cycle) (.line l.sender.cycle.tx.pin) ∧
      (left - 1 ≠ 0 → Attended ((l.step .cycle).listener, l.polledAfter polled .cycle)) := by
  cases h with
  | booting clock waiting settings_eq low caughtUp sent_eq left_eq =>
    have hcycle : Attended (watchedStep (l.listener, polled) .cycle) := fun _ => caughtUp.polled
    refine ⟨hcycle.gapPolled _, fun _ => ?_⟩
    rw [← watchedRun_heardBy]
    exact hcycle.line _
  | atRest htx heard gap left_eq =>
    refine ⟨fun level hlevel hne => absurd ?_ hne, fun hleft => absurd (by omega) hleft⟩
    obtain rfl := Node.TimedEvent.line.inj hlevel
    rw [gap.cycle.level]
    exact (htx.cycle l.sender.mon.getState).pin
  | sending htx heard hears onAir sent_eq cur_eq left_eq =>
    have hcycle := (hattended (by omega)).cycle onAir
    refine ⟨hcycle.gapPolled _, fun _ => ?_⟩
    rw [← watchedRun_heardBy]
    exact hcycle.line _

/-- The events in which only time passes. -/
def cycles (n : ℕ) : List LinkEvent := List.replicate n .cycle

theorem Phase.cycles {l : Link} {polled : Bool}
    (h : Phase src dest l.sender.tx (l.listener, polled) sent cur left)
    (hattended : left ≠ 0 → Attended (l.listener, polled)) (hsync : l.Synced) (n : ℕ) :
    Runs.Along (fun s e => some (watchedStep s e)) GapPolled (l.listener, polled)
        (l.heard (Link.cycles n)) ∧
      Phase src dest (l.run (Link.cycles n)).sender.tx
        (watchedRun (l.listener, polled) (l.heard (Link.cycles n))) sent cur (left - n) := by
  induction n generalizing l polled left with
  | zero => exact ⟨trivial, h⟩
  | succ n ih =>
    obtain ⟨hedge, hnext⟩ := h.attended hattended
    obtain ⟨halong, hphase⟩ := ih (h.step_cycle hsync hedge) hnext hsync.cycle
    rw [Link.cycles, List.replicate_succ, heard_cons, watchedRun_append, watchedRun_heardBy]
    have hfirst : Runs.Along (fun s e => some (watchedStep s e)) GapPolled (l.listener, polled)
        (l.heardBy .cycle) := by
      refine ⟨fun level hlevel => ?_, fun s' hs' => ?_⟩
      · cases hlevel
      · cases hs'
        exact ⟨hedge, fun _ _ => trivial⟩
    refine ⟨hfirst.concat (Runs.run_total watchedStep _ _) ?_, ?_⟩
    · rw [← watchedRun, watchedRun_heardBy]
      exact halong
    · rw [Nat.sub_sub, Nat.add_comm 1] at hphase
      exact hphase

/-- At rest time only makes the gap longer. -/
theorem rest_cycles {l : Link} {polled : Bool} {all : List (List Byte)} {since : ℕ}
    (h : l.sender.tx.AtRest src dest cur) (hgap : Gap (l.listener, polled) all since) (n : ℕ) :
    (l.run (Link.cycles n)).sender.tx.AtRest src dest cur ∧
      Gap (watchedRun (l.listener, polled) (l.heard (Link.cycles n))) all (since + n) := by
  induction n generalizing l polled since with
  | zero => exact ⟨h, hgap⟩
  | succ n ih =>
    have htx : (l.step .cycle).sender.tx.AtRest src dest cur := by
      rw [show (l.step .cycle).sender.tx = _ from Node.tx_setLine _ _]
      exact h.cycle _
    have hpin : l.sender.cycle.tx.pin = true := (h.cycle l.sender.mon.getState).pin
    have hstep : watchedRun (l.listener, polled) (l.heardBy .cycle) =
        watchedStep (l.listener, polled) .cycle := by
      rw [heardBy, hpin]
      exact hgap.cycle.high
    have hgap' := hgap.cycle
    rw [← hstep, watchedRun_heardBy] at hgap'
    rw [Link.cycles, List.replicate_succ, heard_cons, watchedRun_append, watchedRun_heardBy,
      Nat.add_comm n 1, ← Nat.add_assoc]
    exact ih htx hgap'

/-- What the listener's record is after some events. -/
theorem watchedRun_heard (l : Link) (polled : Bool) (es : List LinkEvent) :
    watchedRun (l.listener, polled) (l.heard es) =
      ((l.run es).listener, (watchedRun (l.listener, polled) (l.heard es)).2) := by
  refine Prod.ext ?_ rfl
  rw [Node.fst_watchedRun, listener_run]

theorem Synced.cycles {l : Link} (h : l.Synced) (n : ℕ) : (l.run (Link.cycles n)).Synced := by
  induction n generalizing l with
  | zero => exact h
  | succ n ih => exact ih h.cycle

/-- The events that bring a transmission to its end and its packet to the listener's main loop. -/
def untilDelivered (left : ℕ) : List LinkEvent :=
  Link.cycles left ++ (Link.cycles (Node.monitorTimeout + 1) ++ [.listenerReceiver])

/-- **Every transmission ends.** When the `left` cycles and the monitor's timeout are over, the
next call of the listener's main routine finds the packet. -/
theorem Phase.delivered {l : Link} {polled : Bool}
    (h : Phase src dest l.sender.tx (l.listener, polled) sent cur left)
    (hattended : left ≠ 0 → Attended (l.listener, polled)) (hsync : l.Synced) :
    Phase src dest (l.run (untilDelivered left)).sender.tx
        (watchedRun (l.listener, polled) (l.heard (untilDelivered left))) sent cur 0 ∧
      Runs.Along (fun s e => some (watchedStep s e)) GapPolled (l.listener, polled)
        (l.heard (untilDelivered left)) ∧
      (watchedRun (l.listener, polled) (l.heard (untilDelivered left))).2 = true := by
  obtain ⟨halong₁, hphase₁⟩ := h.cycles hattended hsync left
  rw [Nat.sub_self, watchedRun_heard] at hphase₁
  have hsync₁ := hsync.cycles left
  -- after `left` cycles the sender is at rest, and the gap lasts until the monitor finds it
  have halong₂ := (hphase₁.cycles (fun h => absurd rfl h) hsync₁ (Node.monitorTimeout + 1)).1
  cases hphase₁ with
  | booting clock waiting settings_eq low caughtUp sent_eq left_eq => omega
  | sending htx heard hears onAir sent_eq cur_eq left_eq => omega
  | @atRest packets since htx heard gap left_eq =>
    obtain ⟨htx₂, hgap₂⟩ := rest_cycles htx gap (Node.monitorTimeout + 1)
    have hidle := hgap₂.monitor_idle (by omega)
    have hgap₃ := hgap₂.receiverUpdate
    have hpolled₃ : ∀ s : Node × Bool, s.1.mon.monitorState = .idle →
        (watchedStep s .receiverUpdate).2 = true := by
      intro s hs
      simp [watchedStep, Node.polledAfter, hs]
    have hrun : watchedRun (l.listener, polled) (l.heard (untilDelivered left)) =
        watchedStep (watchedRun (watchedRun (l.listener, polled) (l.heard (Link.cycles left)))
          ((l.run (Link.cycles left)).heard (Link.cycles (Node.monitorTimeout + 1))))
          .receiverUpdate := by
      rw [untilDelivered, heard_append, heard_append, watchedRun_append, watchedRun_append]
      rfl
    rw [← watchedRun_heard] at hgap₂ hgap₃ hidle halong₂
    rw [← hrun] at hgap₃
    have hpolled := hpolled₃ _ hidle
    rw [← hrun] at hpolled
    have hsender : ∀ l : Link, (l.run [.listenerReceiver]).sender = l.sender := fun _ => rfl
    have hpoll : ∀ s, Runs.Along (fun s e => some (watchedStep s e)) GapPolled s
        [.receiverUpdate] := fun s => ⟨fun level hlevel => (by cases hlevel), fun _ _ => trivial⟩
    refine ⟨.atRest ?_ heard hgap₃ rfl, ?_, hpolled⟩
    · rw [untilDelivered, run_append, run_append, hsender]
      exact htx₂
    · rw [untilDelivered, heard_append, heard_append]
      refine halong₁.concat (Runs.run_total watchedStep _ _)
        (halong₂.concat (Runs.run_total watchedStep _ _) (hpoll _))

/-- Once the gap has been polled, the sender is at rest on a line that is idle. -/
theorem Phase.settled (h : Phase src dest tx s sent cur 0) (hpolled : s.2 = true) :
    tx.AtRest src dest cur ∧ s.1.mon.monitorState = .idle := by
  cases h with
  | booting clock waiting settings_eq low caughtUp sent_eq left_eq => omega
  | sending htx heard hears onAir sent_eq cur_eq left_eq => omega
  | atRest htx heard gap left_eq => exact ⟨htx, gap.idle_of_polled hpolled⟩

/-- **End-to-end delivery.** Whatever level the line has before the sender's first tick: in every
run in which the lines are typed while the sender's monitor is idle, the last transmission has ended
and the listener's main routine runs in every idle gap that an edge ends, and in the last one,
`ph_parse` is called exactly once for each line, in order, returns true, and finds the sender's
addresses and the line. -/
theorem delivers_of_run {src dest src' dest' : Byte} {pin pin' : Bool} {lines : List (List Byte)}
    (hlines : ∀ line ∈ lines, TypedLine line) {es : List LinkEvent}
    (htyped : (boot src dest src' dest' pin pin').typed es = text lines)
    (hidle : Runs.Along (fun l e => some (step l e)) TypesIdle (boot src dest src' dest' pin pin')
      es)
    (hpolls : (boot src dest src' dest' pin pin').listener.PollsGaps
      ((boot src dest src' dest' pin pin').heard es))
    (hend : ((boot src dest src' dest' pin pin').run es).sender.tx.inTransmission = false) :
    List.Forall₂ (Carries src dest) lines
      ((boot src dest src' dest' pin pin').run es).listener.rx.parses := by
  obtain ⟨left₀, hphase⟩ := phase_boot src dest src' dest' pin pin'
  have hboot : Underway src dest lines (boot src dest src' dest' pin pin') true
      ((boot src dest src' dest' pin pin').typed es) :=
    ⟨hphase, synced_boot src dest src' dest' pin pin', by simp, rfl, htyped⟩
  obtain ⟨left, phase⟩ := (hboot.run hlines hidle hpolls.1).all_sent
  cases phase with
  | booting clock waiting settings_eq low caughtUp sent_eq left_eq =>
    rw [sent_eq]
    exact carries_of_heard .nil caughtUp.delivered
  | sending tx heard hears onAir sent_eq cur_eq left_eq =>
    exact absurd (tx.inTransmission.symm.trans hend) (by simp)
  | atRest tx heard gap left_eq => exact carries_of_heard heard (gap.delivered hpolls.2)

/-- The character `a` and its `'\r'` are typed. -/
def typingA : List LinkEvent := [.senderTransmitter 0x61 0, .senderTransmitter carriageReturn 0]

theorem typed_cycles (l : Link) (n : ℕ) : l.typed (Link.cycles n) = [] := by
  induction n generalizing l with
  | zero => rfl
  | succ n ih => exact ih (l.step .cycle)

theorem typed_untilDelivered (l : Link) (left : ℕ) : l.typed (untilDelivered left) = [] := by
  have hpoll : ∀ l : Link, l.typed [.listenerReceiver] = [] := fun _ => rfl
  rw [untilDelivered, typed_append, typed_append, typed_cycles, typed_cycles, hpoll]
  rfl

theorem Synced.untilDelivered {l : Link} (h : l.Synced) (left : ℕ) :
    (l.run (Link.untilDelivered left)).Synced := by
  have hpoll : ∀ l : Link, l.Synced → (l.run [.listenerReceiver]).Synced :=
    fun l h => ⟨h.mon, h.idr4, h.pin⟩
  rw [Link.untilDelivered, run_append, run_append]
  exact hpoll _ ((h.cycles left).cycles (Node.monitorTimeout + 1))

/-- Nothing is typed by cycles. -/
theorem along_cycles {P : Link → LinkEvent → Prop} (hP : ∀ l e, l.typedBy e = [] → P l e) (l : Link)
    (n : ℕ) : Runs.Along (fun l e => some (step l e)) P l (Link.cycles n) := by
  refine Runs.along_of_forall (fun l e he => hP l e ?_) l
  rw [List.eq_of_mem_replicate he]
  rfl

/-- Nor by these events. -/
theorem along_untilDelivered {P : Link → LinkEvent → Prop}
    (hP : ∀ l e, l.typedBy e = [] → P l e) (l : Link) (left : ℕ) :
    Runs.Along (fun l e => some (step l e)) P l (Link.untilDelivered left) := by
  refine Runs.along_of_forall (fun l e he => hP l e ?_) l
  simp only [untilDelivered, cycles, List.mem_append, List.mem_replicate, List.mem_singleton] at he
  rcases he with ⟨-, rfl⟩ | ⟨-, rfl⟩ | rfl <;> rfl

theorem typesIdle_of_silent (l : Link) (e : LinkEvent) (h : l.typedBy e = []) : l.TypesIdle e :=
  fun hne => absurd h hne

theorem typesIdle_typingA {l : Link} (hidle : l.sender.mon.monitorState = .idle) :
    Runs.Along (fun l e => some (step l e)) TypesIdle l Link.typingA := by
  refine ⟨fun _ => hidle, ?_⟩
  rintro l' ⟨⟩
  exact ⟨fun _ => hidle, fun _ _ => trivial⟩

/-- On a line that has been released and is idle these calls start the frame of the line `a`. -/
theorem Phase.typingA {l : Link} {polled : Bool}
    (h : Phase src dest l.sender.tx (l.listener, polled) [] [] 0) (hpolled : polled = true)
    (hsync : l.Synced) :
    (∃ left, Phase src dest (l.run Link.typingA).sender.tx ((l.run Link.typingA).listener, polled)
        [[0x61]] [] left) ∧ (l.run Link.typingA).Synced ∧
      l.typed Link.typingA = text [[0x61]] ∧
      Runs.Along (fun l e => some (step l e)) TypesIdle l Link.typingA := by
  obtain ⟨hrest, hidle⟩ := h.settled hpolled
  have hidle' : l.sender.mon.getState = .idle := by
    rw [hsync.mon]
    exact hidle
  have hphase₁ := h.readOther (c := 0x61) h.readsChar (by decide) (by decide) .idle 0
  have hpin₁ : (l.sender.tx.mainRoutineUpdate .idle 0x61 0).pin = true :=
    (Transmitter.pin_mainRoutineUpdate _ _ _ _).trans hrest.pin
  have hphase₂ := hphase₁.readReturn hphase₁.readsChar (by decide) hidle
    (hpin₁.trans (hrest.pin.symm.trans hsync.pin)) 0
  have hstep : (l.step (.senderTransmitter 0x61 0)).sender.tx =
      l.sender.tx.mainRoutineUpdate .idle 0x61 0 := by
    rw [← hidle']
    rfl
  have hrun : (l.run Link.typingA).sender.tx =
      (l.sender.tx.mainRoutineUpdate .idle 0x61 0).mainRoutineUpdate .idle carriageReturn 0 := by
    rw [← hidle']
    rfl
  have hreads : l.sender.tx.readsChar = true := h.readsChar
  have hreads₁ : (l.step (.senderTransmitter 0x61 0)).sender.tx.readsChar = true := by
    rw [hstep]
    exact hphase₁.readsChar
  rw [← hrun] at hphase₂
  refine ⟨⟨_, hphase₂⟩, ⟨hsync.mon, hsync.idr4, ?_⟩, ?_, ?_⟩
  · rw [hrun, Transmitter.pin_mainRoutineUpdate, hpin₁]
    exact hrest.pin.symm.trans hsync.pin
  · rw [Link.typingA, typed_cons, typed_cons, typedBy, typedBy, hreads, hreads₁]
    rfl
  · exact typesIdle_typingA hidle'

/-- The line is low at boot and released by the first tick; the listener is called in the gap after
that, the line `a` is typed, and the listener is called in the gap after its packet. -/
theorem delivers_typingA :
    ∃ es, (boot 0xAA 0xBB 0xBB 0xAA false false).typed es = text [[0x61]] ∧
      List.Forall₂ (Carries 0xAA 0xBB) [[0x61]]
        ((boot 0xAA 0xBB 0xBB 0xAA false false).run es).listener.rx.parses := by
  have hline : TypedLine [0x61] := by decide
  have hlines : ∀ line ∈ [[0x61]], TypedLine line := fun line hl => List.mem_singleton.mp hl ▸ hline
  obtain ⟨left₀, hboot⟩ := phase_boot 0xAA 0xBB 0xBB 0xAA false false
  have hsync₀ := synced_boot 0xAA 0xBB 0xBB 0xAA false false
  obtain ⟨l, hl⟩ : ∃ l, l = boot 0xAA 0xBB 0xBB 0xAA false false := ⟨_, rfl⟩
  rw [← hl] at hboot hsync₀
  -- the gap before the first frame
  obtain ⟨hphase₁, halong₁, hpolled₁⟩ := hboot.delivered (fun _ _ => rfl) hsync₀
  have hsync₁ := hsync₀.untilDelivered left₀
  rw [watchedRun_heard, hpolled₁] at hphase₁
  -- the line, and the gap after its frame
  obtain ⟨⟨left, hphase₂⟩, hsync₂, htyped, hidle⟩ := hphase₁.typingA rfl hsync₁
  obtain ⟨hphase₃, halong₃, hpolled₃⟩ := hphase₂.delivered (fun _ _ => rfl) hsync₂
  obtain ⟨hrest, -⟩ := hphase₃.settled hpolled₃
  have hheard : l.heard (untilDelivered left₀ ++ (typingA ++ untilDelivered left)) =
      l.heard (untilDelivered left₀) ++
        ((l.run (untilDelivered left₀)).run typingA).heard (untilDelivered left) := by
    rw [heard_append, heard_append]
    rfl
  have hwatched : watchedRun (l.listener, true) (l.heard (untilDelivered left₀)) =
      (((l.run (untilDelivered left₀)).run typingA).listener, true) := by
    rw [watchedRun_heard, hpolled₁]
    rfl
  have hpolls : l.listener.PollsGaps
      (l.heard (untilDelivered left₀ ++ (typingA ++ untilDelivered left))) := by
    rw [hheard]
    refine ⟨halong₁.concat (Runs.run_total watchedStep _ _) ?_, ?_⟩
    · rw [← watchedRun, hwatched]
      exact halong₃
    · rw [watchedRun_append, hwatched]
      exact hpolled₃
  subst hl
  refine ⟨_, ?_, delivers_of_run hlines ?_ ?_ hpolls ?_⟩
  · rw [typed_append, typed_append, typed_untilDelivered, typed_untilDelivered, htyped]
    rfl
  · rw [typed_append, typed_append, typed_untilDelivered, typed_untilDelivered, htyped]
    rfl
  · exact (along_untilDelivered typesIdle_of_silent _ _).concat (Runs.run_total step _ _)
      (hidle.concat (Runs.run_total step _ _) (along_untilDelivered typesIdle_of_silent _ _))
  · rw [run_append, run_append]
    exact hrest.inTransmission

/-! ## A first gap without a call -/

/-- A cycle in which the timers of the two boards only count. -/
theorem cycle_quiet {l : Link} {k : ℕ} (hsender : l.sender.Quiet (k + 1))
    (hlistener : l.listener.Quiet (k + 1)) (hpin : l.sender.tx.pin = l.sender.idr4)
    (hpin' : l.sender.tx.pin = l.listener.idr4) :
    l.cycle = ⟨l.sender.skip 1, l.listener.skip 1⟩ := by
  unfold Link.cycle
  rw [hsender.cycle.1, hlistener.cycle.1]
  exact congrArg₂ Link.mk (Node.setLine_same hpin) (Node.setLine_same hpin')

theorem run_quiet {l : Link} {k : ℕ} (hsender : l.sender.Quiet (k + 1))
    (hlistener : l.listener.Quiet (k + 1)) (hpin : l.sender.tx.pin = l.sender.idr4)
    (hpin' : l.sender.tx.pin = l.listener.idr4) :
    l.run (cycles (k + 1)) = ⟨l.sender.skip (k + 1), l.listener.skip (k + 1)⟩ := by
  induction k generalizing l with
  | zero => exact cycle_quiet hsender hlistener hpin hpin'
  | succ k ih =>
    have hrest := ih (l := ⟨l.sender.skip 1, l.listener.skip 1⟩) hsender.cycle.2 hlistener.cycle.2
      hpin hpin'
    show l.cycle.run (cycles (k + 1)) = _
    rw [cycle_quiet hsender hlistener hpin hpin', hrest, Node.skip_skip, Node.skip_skip,
      Nat.add_comm 1]

/-- How many of the next `k` cycles are found to be quiet. -/
def quiet (l : Link) (k : ℕ) : ℕ :=
  if l.sender.tx.pin = l.sender.idr4 ∧ l.sender.tx.pin = l.listener.idr4 then
    min (l.sender.quiet k) (l.listener.quiet k)
  else 0

theorem run_cycles_quiet {l : Link} {k : ℕ} (hpos : l.quiet k ≠ 0) :
    l.quiet k ≤ k ∧ l.run (cycles (l.quiet k)) =
      ⟨l.sender.skip (l.quiet k), l.listener.skip (l.quiet k)⟩ := by
  unfold quiet at hpos ⊢
  split at hpos
  · next hpins =>
    rw [if_pos hpins]
    have hsender := Node.quiet_quiet (n := l.sender) (k := k) (by omega)
    have hlistener := Node.quiet_quiet (n := l.listener) (k := k) (by omega)
    have hle : l.sender.quiet k ≤ k := (Nat.min_le_left _ _).trans (Tim.quiet_le _ _)
    obtain ⟨j, hj⟩ : ∃ j, min (l.sender.quiet k) (l.listener.quiet k) = j + 1 :=
      ⟨min (l.sender.quiet k) (l.listener.quiet k) - 1, by omega⟩
    rw [hj]
    exact ⟨by omega, run_quiet (hsender.mono (by omega)) (hlistener.mono (by omega)) hpins.1 hpins.2⟩
  · exact absurd rfl hpos

/-- The boards after `k` cycles, jumping over quiet ones; `fuel` bounds the number of jumps. -/
def wait : ℕ → Link → ℕ → Link
  | 0, l, k => l.run (cycles k)
  | fuel + 1, l, k =>
    if k = 0 then l
    else if l.quiet k = 0 then wait fuel l.cycle (k - 1)
    else wait fuel ⟨l.sender.skip (l.quiet k), l.listener.skip (l.quiet k)⟩ (k - l.quiet k)

theorem wait_eq (fuel : ℕ) (l : Link) (k : ℕ) : wait fuel l k = l.run (cycles k) := by
  induction fuel generalizing l k with
  | zero => rfl
  | succ fuel ih =>
    unfold wait
    by_cases hk : k = 0
    · rw [if_pos hk, hk]
      rfl
    rw [if_neg hk]
    by_cases hquiet : l.quiet k = 0
    · rw [if_pos hquiet, ih]
      obtain ⟨j, rfl⟩ : ∃ j, k = j + 1 := ⟨k - 1, by omega⟩
      rfl
    · obtain ⟨hle, hrun⟩ := run_cycles_quiet hquiet
      rw [if_neg hquiet, ih, ← hrun, ← run_append, cycles, cycles, cycles,
        List.replicate_append_replicate, Nat.add_sub_cancel' hle]

/-- Two boards as `main` sets them up: the sender holds the line low until its first tick. -/
def lowPair : Link := boot 0xAA 0xBB 0xBB 0xAA false false

/-- The cycles until the sender has released the line and the monitors are idle. -/
def untilIdle : ℕ := Node.slot + (Node.monitorTimeout + 1)

/-- The cycles of the frame of a one-character line and of the monitors' timeout. -/
def frameA : ℕ := 129 * Node.slot + (Node.monitorTimeout + 1)

/-- The line `a` is typed on the idle line, and the listener is called in the gap after its frame
only. -/
def unpolledStart : List LinkEvent :=
  cycles untilIdle ++ (typingA ++ (cycles frameA ++ [.listenerReceiver]))

/-- The bit that the line's release leaves at the listener shifts the first frame by one place: the
only call of `ph_parse` fails. -/
theorem garbled_unpolledStart :
    TypedLine [0x61] ∧ lowPair.typed unpolledStart = text [[0x61]] ∧
      Runs.Along (fun l e => some (step l e)) TypesIdle lowPair unpolledStart ∧
      (watchedRun (lowPair.listener, true) (lowPair.heard unpolledStart)).2 = true ∧
      (lowPair.run unpolledStart).sender.tx.inTransmission = false ∧
      (lowPair.run unpolledStart).listener.rx.parses.map (fun call => (call.buf, call.result)) =
        [([0xAA, 0x80, 0xD5, 0x5D, 0x80, 0x80, 0xB0, 0x90], false)] ∧
      ¬List.Forall₂ (Carries 0xAA 0xBB) [[0x61]]
        (lowPair.run unpolledStart).listener.rx.parses := by
  obtain ⟨l₁, hl₁⟩ : ∃ l₁, l₁ = wait 3000 lowPair untilIdle := ⟨_, rfl⟩
  obtain ⟨l₂, hl₂⟩ : ∃ l₂, l₂ = wait 3000 (l₁.run typingA) frameA := ⟨_, rfl⟩
  have hrun₁ : lowPair.run (cycles untilIdle) = l₁ := by rw [hl₁, wait_eq]
  have hrun₂ : (l₁.run typingA).run (cycles frameA) = l₂ := by rw [hl₂, wait_eq]
  have hrun : lowPair.run unpolledStart = l₂.run [.listenerReceiver] := by
    rw [unpolledStart, run_append, hrun₁, run_append, run_append, hrun₂]
  have hidle₁ : l₁.sender.mon.monitorState = .idle := by
    rw [hl₁]
    decide +kernel
  -- one evaluation of the whole run
  obtain ⟨hidle₂, hend, hparses⟩ : l₂.listener.mon.monitorState = .idle ∧
      (l₂.run [.listenerReceiver]).sender.tx.inTransmission = false ∧
      (l₂.run [.listenerReceiver]).listener.rx.parses.map (fun call => (call.buf, call.result)) =
        [([0xAA, 0x80, 0xD5, 0x5D, 0x80, 0x80, 0xB0, 0x90], false)] := by
    rw [hl₂, hl₁]
    decide +kernel
  have hheard : lowPair.heard unpolledStart =
      lowPair.heard (cycles untilIdle ++ (typingA ++ cycles frameA)) ++ [.receiverUpdate] := by
    rw [unpolledStart, ← List.append_assoc, ← List.append_assoc, heard_append, ← List.append_assoc]
    rfl
  have hstate : (watchedRun (lowPair.listener, true)
      (lowPair.heard (cycles untilIdle ++ (typingA ++ cycles frameA)))).1 = l₂.listener := by
    rw [Node.fst_watchedRun, ← listener_run, run_append, hrun₁, run_append, hrun₂]
  rw [hrun]
  refine ⟨by decide, ?_, ?_, ?_, hend, hparses, ?_⟩
  · rw [unpolledStart, typed_append, hrun₁, typed_append, typed_append, typed_cycles, typed_cycles,
      hl₁]
    decide +kernel
  · have hcycles := along_cycles typesIdle_of_silent
    have hcall : ∀ l : Link, Runs.Along (fun l e => some (step l e)) TypesIdle l
        [.listenerReceiver] := fun l => ⟨typesIdle_of_silent _ _ rfl, fun _ _ => trivial⟩
    refine (hcycles _ _).concat (Runs.run_total step _ _) ?_
    rw [← run, hrun₁]
    exact (typesIdle_typingA hidle₁).concat (Runs.run_total step _ _)
      ((hcycles _ _).concat (Runs.run_total step _ _) (hcall _))
  · have hcall : ∀ s : Node × Bool, (watchedRun s [.receiverUpdate]).2 =
        (s.2 || decide (s.1.mon.monitorState = .idle)) := fun _ => rfl
    rw [hheard, watchedRun_append, hcall, hstate, hidle₂, decide_eq_true rfl, Bool.or_true]
  · -- the one call returns false
    intro hcarries
    generalize (l₂.run [.listenerReceiver]).listener.rx.parses = parses at hparses hcarries
    cases hcarries with
    | cons hfirst hrest =>
      rw [List.map_cons] at hparses
      have hresult := congrArg Prod.snd (List.cons_eq_cons.mp hparses).1
      exact absurd (hfirst.result.symm.trans hresult) (by simp)

end Link

end NetworkingCard
