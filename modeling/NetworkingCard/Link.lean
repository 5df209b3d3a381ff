import NetworkingCard.Framing
import NetworkingCard.Transmission

/-!
# Two boards on one line

`Link` is a line that one board drives and two boards hear: the sender, to which somebody types,
and the listener. The main loops of both boards run in any order, and in each core cycle the line
takes the level of the sender's pin.

* The sender is `AtRest` or `Sending`: its timer drives one half-bit of the loaded frame in every
  `TRANSMISSION_TICKS + 1` cycles and then releases the line.
* `OnAir` is the listener's view of a frame that is being sent: what it has decoded, as a function
  of the half-bits that are still to come.
-/

namespace NetworkingCard

open LineCode (Decoder)

/-- The two boards. -/
structure Link where
  sender : Node
  listener : Node

/-- What can happen: a call of a main-loop routine of one of the boards, or a core cycle. -/
inductive LinkEvent
  | senderTransmitter (c : Byte) (random : ℕ)
  | senderReceiver
  | listenerTransmitter (c : Byte) (random : ℕ)
  | listenerReceiver
  | cycle
deriving DecidableEq

namespace Link

/-- One core cycle of both boards; the line takes the level that the sender drives. -/
def cycle (l : Link) : Link :=
  let level := l.sender.cycle.tx.pin
  ⟨l.sender.cycle.setLine level, l.listener.cycle.setLine level⟩

/-- One event. -/
def step (l : Link) : LinkEvent → Link
  | .senderTransmitter c random => { l with sender := l.sender.transmitterUpdate c random }
  | .senderReceiver => { l with sender := l.sender.receiverUpdate }
  | .listenerTransmitter c random => { l with listener := l.listener.transmitterUpdate c random }
  | .listenerReceiver => { l with listener := l.listener.receiverUpdate }
  | .cycle => l.cycle

/-- Execute the events in order. -/
def run (l : Link) (es : List LinkEvent) : Link := es.foldl step l

/-- Both boards as `main` sets them up. Until its first tick the sender's pin, and with it the line,
has the level `pin` that it had at reset. -/
def boot (src dest src' dest' : Byte) (pin pin' : Bool) : Link where
  sender := Node.boot src dest true pin pin
  listener := Node.boot src' dest' true pin' pin

/-- The character that an event reads at the sender. -/
def typedBy (l : Link) : LinkEvent → List Byte
  | .senderTransmitter c _ => if l.sender.tx.readsChar then [c] else []
  | _ => []

/-- The characters read at the sender, in order. -/
def typed (l : Link) (es : List LinkEvent) : List Byte :=
  Runs.outputs (fun l e => some (step l e)) typedBy l es

/-- What an event is for the listener. -/
def heardBy (l : Link) : LinkEvent → List Node.TimedEvent
  | .listenerTransmitter c random => [.transmitterUpdate c random]
  | .listenerReceiver => [.receiverUpdate]
  | .cycle => [.cycle, .line l.sender.cycle.tx.pin]
  | .senderTransmitter _ _ | .senderReceiver => []

/-- The listener's own run. -/
def heard (l : Link) (es : List LinkEvent) : List Node.TimedEvent :=
  Runs.outputs (fun l e => some (step l e)) heardBy l es

theorem typed_cons (l : Link) (e : LinkEvent) (es : List LinkEvent) :
    l.typed (e :: es) = l.typedBy e ++ (l.step e).typed es :=
  Runs.outputs_cons rfl es

theorem heard_cons (l : Link) (e : LinkEvent) (es : List LinkEvent) :
    l.heard (e :: es) = l.heardBy e ++ (l.step e).heard es :=
  Runs.outputs_cons rfl es

theorem run_append (l : Link) (es fs : List LinkEvent) : l.run (es ++ fs) = (l.run es).run fs :=
  List.foldl_append

theorem typed_append (l : Link) (es fs : List LinkEvent) :
    l.typed (es ++ fs) = l.typed es ++ (l.run es).typed fs :=
  Runs.outputs_append (Runs.run_total step l es) fs

theorem heard_append (l : Link) (es fs : List LinkEvent) :
    l.heard (es ++ fs) = l.heard es ++ (l.run es).heard fs :=
  Runs.outputs_append (Runs.run_total step l es) fs

/-- The listener does what it hears. -/
theorem listener_step (l : Link) (e : LinkEvent) :
    (l.step e).listener = l.listener.timedRun (l.heardBy e) := by
  cases e <;> rfl

theorem listener_run (l : Link) (es : List LinkEvent) :
    (l.run es).listener = l.listener.timedRun (l.heard es) := by
  induction es generalizing l with
  | nil => rfl
  | cons e es ih =>
    rw [heard_cons, Node.timedRun_append, ← listener_step]
    exact ih (l.step e)

/-- The two monitors hear the same line, and it has the level of the sender's pin. -/
structure Synced (l : Link) : Prop where
  mon : l.sender.mon = l.listener.mon
  idr4 : l.sender.idr4 = l.listener.idr4
  pin : l.sender.tx.pin = l.listener.idr4

theorem synced_boot (src dest src' dest' : Byte) (pin pin' : Bool) :
    (boot src dest src' dest' pin pin').Synced :=
  ⟨rfl, rfl, rfl⟩

theorem Synced.cycle {l : Link} (h : l.Synced) : l.cycle.Synced := by
  unfold Link.cycle
  refine ⟨?_, ?_, ?_⟩
  · dsimp only
    unfold Node.setLine
    rw [Node.idr4_cycle, Node.idr4_cycle, h.idr4]
    split
    · rw [Node.mon_cycle, Node.mon_cycle, h.mon]
    · show (l.sender.cycle.mon).edgeIntrr _ = (l.listener.cycle.mon).edgeIntrr _
      rw [Node.mon_cycle, Node.mon_cycle, h.mon]
  · rw [Node.idr4_setLine, Node.idr4_setLine]
  · rw [Node.tx_setLine, Node.idr4_setLine]

end Link

/-! ## The sender -/

namespace Transmitter

/-- A transmitter that has had no collision, with `line` typed so far. -/
structure Lone (t : Transmitter) (src dest : Byte) (line : List Byte) : Prop where
  inv : t.Inv
  complete : t.transmissionComplete = true
  gotMessage : t.gotMessage = false
  line_eq : t.line = line
  packetMode : t.packetMode = true
  src_eq : t.src = src
  dest_eq : t.dest = dest
  pscActive : t.tim2.pscActive = 0
  pscCount : t.tim2.pscCount = 0

/-- Between two messages. -/
structure AtRest (t : Transmitter) (src dest : Byte) (line : List Byte) : Prop
    extends Lone t src dest line where
  inTransmission : t.inTransmission = false
  pin : t.pin = true

/-- The half-bits `rest` are still to be driven, the first of them after `r` more cycles. -/
structure Sending (t : Transmitter) (src dest : Byte) (rest : List Bool) (r : ℕ) : Prop
    extends Lone t src dest [] where
  inTransmission : t.inTransmission = true
  rest_eq : (bitsOf t.transBuf).drop (8 * t.currByte + t.currBit) = rest
  counting : t.tim2.Counting
  remaining : t.tim2.remaining = r

theorem AtRest.waiting {t : Transmitter} {src dest : Byte} {line : List Byte}
    (h : t.AtRest src dest line) : t.Waiting line :=
  ⟨⟨h.inv, h.complete, h.inTransmission, h.pscActive, h.pscCount⟩, h.gotMessage, h.line_eq⟩

theorem Waiting.atRest {t : Transmitter} {src dest : Byte} {line : List Byte} (h : t.Waiting line)
    (hset : t.settings = (true, src, dest)) (hpin : t.pin = true) : t.AtRest src dest line := by
  obtain ⟨hmode, hsrc, hdest⟩ : t.packetMode = true ∧ t.src = src ∧ t.dest = dest := by
    simpa [settings] using hset
  exact ⟨⟨h.inv, h.complete, h.gotMessage, h.line_eq, hmode, hsrc, hdest, h.pscActive, h.pscCount⟩,
    h.inTransmission, hpin⟩

theorem Lone.settings_eq {t : Transmitter} {src dest : Byte} {line : List Byte}
    (h : t.Lone src dest line) : t.settings = (true, src, dest) := by
  rw [settings, h.packetMode, h.src_eq, h.dest_eq]

theorem Sending.transmitting {t : Transmitter} {src dest : Byte} {rest : List Bool} {r : ℕ}
    (h : t.Sending src dest rest r) : t.Transmitting rest r := by
  have hto := h.inv.not_backoff_of_complete h.complete
  have harr := h.inv.arr hto
  have hpsc := h.inv.psc
  have hcnt := h.counting.cnt_le
  have hrem := h.remaining
  rw [hto, if_neg (by simp)] at hpsc
  rw [Tim.remaining, h.pscActive, h.pscCount] at hrem
  exact ⟨h.inTransmission, hto, h.inv.get_eq, h.inv.currBit_lt, h.inv.currByte_le,
    h.inv.currBit_end, h.rest_eq, h.counting.cen, harr, hpsc, h.pscActive, h.pscCount, by omega⟩

theorem Transmitting.sending {t : Transmitter} {src dest : Byte} {rest : List Bool} {r : ℕ}
    (h : t.Transmitting rest r) (hinv : t.Inv) (hcomplete : t.transmissionComplete = true)
    (hgot : t.gotMessage = false) (hline : t.line = [])
    (hset : t.settings = (true, src, dest)) : t.Sending src dest rest r := by
  obtain ⟨hmode, hsrc, hdest⟩ : t.packetMode = true ∧ t.src = src ∧ t.dest = dest := by
    simpa [settings] using hset
  have harr := h.tim2.arr
  have hcnt := h.tim2.cnt
  have hactive := h.tim2.pscActive
  have hcount := h.tim2.pscCount
  have hpos : 0 < t.tim2.arr := by
    rw [harr]
    decide
  have hremaining : t.tim2.remaining = r := by
    rw [Tim.remaining, hactive, hcount]
    omega
  exact ⟨⟨hinv, hcomplete, hgot, hline, hmode, hsrc, hdest, hactive, hcount⟩, h.inTransmission,
    h.rest_eq, ⟨h.tim2.cen, hpos, by omega, by omega⟩, hremaining⟩

theorem atRest_init (src dest : Byte) : (init src dest true true).AtRest src dest [] :=
  (waiting_init src dest true true).atRest rfl rfl

/-- A character other than `'\r'` is added to the line. -/
theorem AtRest.readOther {t : Transmitter} {src dest : Byte} {line : List Byte}
    (h : t.AtRest src dest line) {c : Byte} (hc : c ≠ carriageReturn)
    (hlen : line.length < phMsgSize - 1) (state : MonitorState) (random : ℕ) :
    (t.mainRoutineUpdate state c random).AtRest src dest (line ++ [c]) := by
  obtain ⟨hwaiting, hset⟩ := h.waiting.readOther hc hlen state random
  exact hwaiting.atRest (hset.trans h.settings_eq)
    ((t.pin_mainRoutineUpdate state c random).trans h.pin)

/-- A `'\r'` on an idle line loads the line's frame and starts its transmission. -/
theorem Waiting.sends {t : Transmitter} {src dest : Byte} {line : List Byte} (h : t.Waiting line)
    (hset : t.settings = (true, src, dest)) (hblank : blank line = false) (random : ℕ) :
    (t.mainRoutineUpdate .idle carriageReturn random).Sending src dest
      (halfBits (frameOf true src dest line)) transmissionTicks := by
  have hinv := h.inv.mainRoutineUpdate .idle carriageReturn random
  obtain ⟨heq, hlaunched⟩ := h.readReturn hblank random
  obtain ⟨hmode, hsrc, hdest⟩ : t.packetMode = true ∧ t.src = src ∧ t.dest = dest := by
    simpa [settings] using hset
  have hlen : line.length ≤ phMsgSize - 1 := by
    rw [← h.line_eq, length_line]
    exact h.inv.dataCur_le
  have hle := length_frameOf_le true src dest hlen
  have hsize : bufSize = 1028 := rfl
  rw [hmode, hsrc, hdest] at hlaunched
  have hsends := hlaunched.transmitting (by omega)
  rw [sentHalfBits, if_pos (by omega)] at hsends
  have hframe := readChar_frame t carriageReturn
  refine hsends.sending hinv ?_ ?_ ?_ ?_
  all_goals rw [heq, transmitData_frame, hframe]
  · exact h.complete
  · rfl
  · exact hset

/-- At rest the timer has nothing to send; it may still run once after boot. -/
theorem AtRest.cycle {t : Transmitter} {src dest : Byte} {line : List Byte}
    (h : t.AtRest src dest line) (state : MonitorState) : (t.cycle state).AtRest src dest line := by
  obtain ⟨hwaiting, hset⟩ := h.waiting.cycle state
  exact hwaiting.atRest (hset.trans h.settings_eq) (h.waiting.pin_cycle h.pin state)

/-- Between two ticks the half-bit stays on the line. -/
theorem Sending.wait {t : Transmitter} {src dest : Byte} {rest : List Bool} {r : ℕ}
    (h : t.Sending src dest rest (r + 1)) (state : MonitorState) :
    (t.cycle state).Sending src dest rest r ∧ (t.cycle state).pin = t.pin := by
  have hinv := h.inv.cycle state
  obtain ⟨heq, hrest⟩ := h.transmitting.wait state
  rw [heq] at hinv hrest ⊢
  exact ⟨hrest.sending hinv h.complete h.gotMessage h.line_eq h.settings_eq, rfl⟩

/-- A tick drives the next half-bit. -/
theorem Sending.drive {t : Transmitter} {src dest : Byte} {b : Bool} {rest : List Bool}
    (h : t.Sending src dest (b :: rest) 0) {state : MonitorState} (hs : state ≠ .collision) :
    (t.cycle state).Sending src dest rest transmissionTicks ∧ (t.cycle state).pin = b := by
  have hinv := h.inv.cycle state
  obtain ⟨heq, hrest⟩ := h.transmitting.drive hs
  rw [heq] at hinv hrest ⊢
  exact ⟨hrest.sending hinv h.complete h.gotMessage h.line_eq h.settings_eq, rfl⟩

/-- The tick after the last half-bit releases the line. -/
theorem Sending.finish {t : Transmitter} {src dest : Byte} (h : t.Sending src dest [] 0)
    (state : MonitorState) : (t.cycle state).AtRest src dest [] := by
  have hinv := h.inv.cycle state
  have hactive := h.transmitting.tim2.psc
  obtain ⟨heq, -⟩ := h.transmitting.finish state
  rw [heq] at hinv ⊢
  exact { h with inv := hinv, complete := rfl, pscActive := hactive, pscCount := rfl,
                 inTransmission := rfl, pin := rfl }

end Transmitter

/-! ## The listener -/

namespace Node

/-- The length of a half-bit. -/
def slot : ℕ := transmissionTicks + 1

/-! ### What is still to come on the line -/

/-- In `r + 1` cycles the half-bits `rest` begin, each for one slot. When they have been driven and
the line is released, the decoder will have decoded `bits`. -/
def WillDecode (d : Decoder ℕ) (rest : List Bool) (r : ℕ) (bits : List Bool) : Prop :=
  (((d.elapse window (r + 1)).follow window
    (rest.zip (List.replicate rest.length slot))).drive true).bits = bits

theorem WillDecode.wait {d : Decoder ℕ} {rest bits : List Bool} {r : ℕ}
    (h : WillDecode d rest (r + 1) bits) : WillDecode (d.elapse window 1) rest r bits := by
  unfold WillDecode at h ⊢
  rw [← Decoder.elapse_add, Nat.add_comm 1]
  exact h

theorem WillDecode.drive {d : Decoder ℕ} {b : Bool} {rest bits : List Bool}
    (h : WillDecode d (b :: rest) 0 bits) :
    WillDecode ((d.elapse window 1).drive b) rest transmissionTicks bits := h

theorem WillDecode.finish {d : Decoder ℕ} {bits : List Bool} (h : WillDecode d [] 0 bits) :
    ((d.elapse window 1).drive true).bits = bits := h

/-- What has been sampled so far is a part of it. -/
theorem WillDecode.length_le {d : Decoder ℕ} {rest bits : List Bool} {r : ℕ}
    (h : WillDecode d rest r bits) : d.bits.length ≤ bits.length := by
  have hfollow := (Decoder.bits_prefix_follow (T := window) (d.elapse window (r + 1))
    (rest.zip (List.replicate rest.length slot))).length_le
  rw [Decoder.bits_elapse] at hfollow
  rw [← h]
  exact hfollow.trans (Decoder.bits_prefix_drive _ true).length_le

/-- From the middle of a bit: the line code of the bits that follow. -/
theorem willDecode_midBit {d : Decoder ℕ} {a : Bool} {sampled : List Bool}
    (h : Decoder.MidBit d a sampled) (bs : List Bool) :
    WillDecode d (LineCode.encode bs) transmissionTicks (sampled ++ bs) := by
  have hlen : (List.replicate (LineCode.encode bs).length slot).length = 2 * bs.length := by
    rw [List.length_replicate, LineCode.length_encode]
  have hshort : ∀ t ∈ slot :: List.replicate (LineCode.encode bs).length slot, t < window := by
    intro t ht
    rw [List.eq_of_mem_replicate (n := (LineCode.encode bs).length + 1) ht]
    decide
  have hpair : (slot :: List.replicate (LineCode.encode bs).length slot).IsChain
      fun t u => window ≤ t + u :=
    List.isChain_replicate_of_rel ((LineCode.encode bs).length + 1) (by decide)
  obtain ⟨b, u, -, hfollow⟩ := Decoder.follow_encode_midBit h bs hlen hshort hpair
  show (((d.elapse window slot).follow window _).drive true).bits = _
  rw [hfollow]
  cases b <;> rfl

/-- As above, where the line has had the level `level` for `age` cycles: until the end of the
half-bits it never keeps its level for longer than the monitor's timeout. -/
def KeepsBusy (level : Bool) (age : ℕ) (rest : List Bool) (r : ℕ) : Prop :=
  age + (r + 1) ≤ monitorTimeout ∧
    LineCode.EdgesWithin monitorTimeout level (age + (r + 1))
      (rest.zip (List.replicate rest.length slot))

theorem KeepsBusy.wait {level : Bool} {age : ℕ} {rest : List Bool} {r : ℕ}
    (h : KeepsBusy level age rest (r + 1)) : KeepsBusy level (age + 1) rest r := by
  have hsum : age + (r + 1 + 1) = age + 1 + (r + 1) := by omega
  unfold KeepsBusy at h ⊢
  rwa [hsum] at h

/-- The next half-bit begins, with an edge or without. -/
theorem KeepsBusy.drive {level b : Bool} {age : ℕ} {rest : List Bool}
    (h : KeepsBusy level age (b :: rest) 0) :
    KeepsBusy b (if b = level then age + 1 else 0) rest transmissionTicks := h.2

/-- After an edge, and after a silence on a line whose edges do not count. -/
theorem keepsBusy_encode (level : Bool) (bits : List Bool) {r : ℕ} (hr : r ≤ transmissionTicks) :
    KeepsBusy level 0 (LineCode.encode bits) r := by
  have hslot : slot = 8001 := rfl
  have hticks : transmissionTicks = 8000 := rfl
  have htimeout : monitorTimeout = 17760 := rfl
  have hchain : ((r + 1) :: List.replicate (LineCode.encode bits).length slot).IsChain
      fun d d' => d + d' ≤ monitorTimeout := by
    have hreplicate : ∀ n, (List.replicate n slot).IsChain fun d d' => d + d' ≤ monitorTimeout :=
      fun n => List.isChain_replicate_of_rel n (by omega)
    refine List.isChain_cons.mpr ⟨?_, hreplicate _⟩
    intro d hd
    rw [List.eq_of_mem_replicate (List.mem_of_mem_head? hd)]
    omega
  refine ⟨by omega, ?_⟩
  rw [Nat.zero_add]
  exact LineCode.edgesWithin_encode level
    (by rw [List.length_replicate, LineCode.length_encode]) hchain

/-! ### A packet on the air -/

/-- The half-bits of a packet that begins with a 0. -/
theorem halfBits_of_first {p : List Byte} {bs : List Bool}
    (h : p.flatMap Bits.msbFirst = false :: bs) :
    halfBits p = true :: false :: LineCode.encode bs := by
  rw [halfBits_eq, h, LineCode.encode_cons]
  rfl

/-- The listener takes a packet for `p`, after the packets `done`: the half-bits `rest` are still to
come, the first of them after `r` more cycles. The first bit is a 0, of which an idle line hides the
first half; only if the line has never been released does its first half bring the first edge, and
the listener takes it for a 1. -/
inductive OnAir (s : Node × Bool) (done : List (List Byte)) (p : List Byte) (rest : List Bool)
    (r : ℕ) : Prop
  | waiting {since : ℕ} {bs : List Bool} (gap : Gap s done since)
      (idle : s.1.mon.monitorState = .idle) (bits : p.flatMap Bits.msbFirst = false :: bs)
      (rest_eq : rest = true :: false :: LineCode.encode bs)
  | firstHalf {since : ℕ} {bs : List Bool} (gap : Gap s done since)
      (idle : s.1.mon.monitorState = .idle) (bits : p.flatMap Bits.msbFirst = false :: bs)
      (rest_eq : rest = false :: LineCode.encode bs)
  | held {bs : List Bool} (caughtUp : CaughtUp s done) (low : s.1.idr4 = false)
      (bits : p.flatMap Bits.msbFirst = true :: true :: bs)
      (rest_eq : rest = true :: false :: LineCode.encode (true :: bs))
  | heard {d : Decoder ℕ} {age : ℕ} (inPacket : InPacket s d age done)
      (decodes : WillDecode d rest r (p.flatMap Bits.msbFirst))
      (busy : KeepsBusy d.level age rest r)

/-- No collision is ever seen. -/
theorem OnAir.not_collision {s : Node × Bool} {done : List (List Byte)} {p : List Byte}
    {rest : List Bool} {r : ℕ} (h : OnAir s done p rest r) :
    s.1.mon.monitorState ≠ .collision := by
  cases h with
  | waiting gap idle bits rest_eq => rw [idle]; simp
  | firstHalf gap idle bits rest_eq => rw [idle]; simp
  | held caughtUp low bits rest_eq => rw [caughtUp.idle.idle]; simp
  | heard inPacket decodes busy => rw [inPacket.receiving.busy]; simp

/-- The main loop does not act on the monitor. -/
theorem mon_other (s : Node × Bool) {e : TimedEvent} (he : physical e = false) :
    (watchedStep s e).1.mon = s.1.mon := by
  cases e with
  | transmitterUpdate c random => rfl
  | receiverUpdate => rfl
  | line level => cases he
  | cycle => cases he

theorem OnAir.other {s : Node × Bool} {done : List (List Byte)} {p : List Byte} {rest : List Bool}
    {r : ℕ} (h : OnAir s done p rest r) {e : TimedEvent} (he : physical e = false) :
    OnAir (watchedStep s e) done p rest r := by
  cases h with
  | waiting gap idle bits rest_eq =>
    exact .waiting (gap.other he) (by rw [mon_other s he, idle]) bits rest_eq
  | firstHalf gap idle bits rest_eq =>
    exact .firstHalf (gap.other he) (by rw [mon_other s he, idle]) bits rest_eq
  | held caughtUp low bits rest_eq =>
    exact .held (caughtUp.other he) (by rw [idr4_other s he, low]) bits rest_eq
  | heard inPacket decodes busy => exact .heard (inPacket.other he) decodes busy

/-- The idle monitor of a gap stays idle. -/
theorem Gap.idle_cycle {s : Node × Bool} {all : List (List Byte)} {since : ℕ} (h : Gap s all since)
    (hidle : s.1.mon.monitorState = .idle) :
    (watchedStep s .cycle).1.mon.monitorState = .idle := by
  cases h with
  | receiving length_le inPacket level bits noise_lt all_eq since_le =>
    exact absurd (inPacket.receiving.busy.symm.trans hidle) (by simp)
  | waiting length_le silent level delivered all_eq not_polled => exact silent.cycle.idle
  | polled ready level => exact ready.cycle.idle.idle

theorem InPacket.cycle {s : Node × Bool} {d : Decoder ℕ} {age : ℕ} {done : List (List Byte)}
    (h : InPacket s d age done) {rest : List Bool} {r : ℕ} (hbusy : KeepsBusy d.level age rest r) :
    InPacket (watchedStep s .cycle) (d.elapse window 1) (age + 1) done := by
  have hage := hbusy.1
  exact ⟨h.receiving.cycle (by omega), delivered_cycle h.delivered, h.not_polled⟩

/-- A cycle of the current half-bit. -/
theorem OnAir.wait {s : Node × Bool} {done : List (List Byte)} {p : List Byte} {rest : List Bool}
    {r : ℕ} (h : OnAir s done p rest (r + 1)) : OnAir (watchedStep s .cycle) done p rest r := by
  cases h with
  | waiting gap idle bits rest_eq =>
    exact .waiting gap.cycle (gap.idle_cycle idle) bits rest_eq
  | firstHalf gap idle bits rest_eq =>
    exact .firstHalf gap.cycle (gap.idle_cycle idle) bits rest_eq
  | held caughtUp low bits rest_eq => exact .held caughtUp.cycle low bits rest_eq
  | heard inPacket decodes busy =>
    refine .heard (inPacket.cycle busy) decodes.wait ?_
    rw [Decoder.level_elapse]
    exact busy.wait

/-- The next half-bit begins. -/
theorem OnAir.drive {s : Node × Bool} {done : List (List Byte)} {p : List Byte}
    (hlen : p.length ≤ sizeofPacketHeader) {b : Bool} {rest : List Bool}
    (h : OnAir s done p (b :: rest) 0) (hpolled : GapPolled (watchedStep s .cycle) (.line b)) :
    OnAir (watchedStep (watchedStep s .cycle) (.line b)) done p rest transmissionTicks := by
  cases h with
  | waiting gap idle bits rest_eq =>
    -- the first half-bit is high like the idle line
    obtain ⟨rfl, hrest⟩ := List.cons_eq_cons.mp rest_eq
    rw [gap.cycle.high]
    exact .firstHalf gap.cycle (gap.idle_cycle idle) bits hrest
  | @firstHalf since bs gap idle bits rest_eq =>
    obtain ⟨rfl, rfl⟩ := List.cons_eq_cons.mp rest_eq
    refine .heard (gap.cycle.firstEdge (gap.idle_cycle idle) hpolled) ?_
      (keepsBusy_encode false bs (Nat.le_refl _))
    rw [bits]
    exact willDecode_midBit rfl bs
  | @held bs caughtUp low bits rest_eq =>
    -- the line has been low, so that the first half-bit brings the first edge
    obtain ⟨rfl, rfl⟩ := List.cons_eq_cons.mp rest_eq
    have hedge : true ≠ (watchedStep s .cycle).1.idr4 := by
      show true ≠ s.1.idr4
      rw [low]
      simp
    refine .heard (caughtUp.cycle.firstEdge hedge) ?_ ⟨by decide, by decide,
      (keepsBusy_encode false (true :: bs) (Nat.le_refl transmissionTicks)).2⟩
    rw [bits]
    -- the second half closes the window of that edge, and the next bit is sampled
    exact willDecode_midBit (d := ⟨true, some 0, [true, true]⟩) rfl bs
  | heard inPacket decodes busy =>
    have hroom := decodes.drive.length_le.trans (room_of_length_le hlen)
    have hin := (inPacket.cycle busy).setLine b hroom
    rw [Decoder.level_elapse] at hin
    refine .heard hin decodes.drive ?_
    rw [Decoder.level_drive]
    exact busy.drive

/-- The line is released after the last half-bit. -/
theorem OnAir.release {s : Node × Bool} {done : List (List Byte)} {p : List Byte} (hne : p ≠ [])
    (hlen : p.length ≤ sizeofPacketHeader) (h : OnAir s done p [] 0) :
    Gap (watchedStep (watchedStep s .cycle) (.line true)) (done ++ [p]) 0 := by
  cases h with
  | waiting gap idle bits rest_eq => cases rest_eq
  | firstHalf gap idle bits rest_eq => cases rest_eq
  | held caughtUp low bits rest_eq => cases rest_eq
  | heard inPacket decodes busy => exact (inPacket.cycle busy).release hne hlen decodes.finish

end Node

end NetworkingCard
