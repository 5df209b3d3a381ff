import NetworkingCard.Delivery
import NetworkingCard.LoneTransmission

/-!
# Raw mode

Two boards on one line, the sender in raw mode: `raw_iff` says which lines arrive as they were
typed. The first bit on the wire is then the top bit of the line's first byte, and the receiver
always samples a first bit 0.

A run is a sequence of phases (`RawPhase`): the line is being `Typed`, its bytes are `OnWire`, or
they have `Arrived`. While they are on the wire the decoder will have decoded them at the end of
the half-bits that are still to come (`Node.WillDecode`), unless their first bit is 1.
-/

namespace NetworkingCard

open LineCode (Decoder)
open Transmitter (frameOf blank)

/-! ## The decoder -/

namespace Node

/-- A byte list that starts low will be decoded as it is. -/
theorem willDecode_halfBits {bytes : List Byte} (hfirst : StartsLow bytes) :
    WillDecode ⟨true, none, []⟩ (halfBits bytes) transmissionTicks (bytes.flatMap Bits.msbFirst) := by
  have hlen : (List.replicate (halfBits bytes).length slot).length =
      2 * (bytes.flatMap Bits.msbFirst).length := by
    rw [List.length_replicate, length_halfBits]
  have hshort : ∀ d ∈ List.replicate (halfBits bytes).length slot, d < window := by
    intro d hd
    rw [List.eq_of_mem_replicate hd]
    decide
  have hpair : (List.replicate (halfBits bytes).length slot).IsChain fun d d' => window ≤ d + d' :=
    List.isChain_replicate_of_rel _ (by decide)
  unfold WillDecode
  rw [Decoder.elapse_of_closed rfl]
  have hbits := Decoder.bits_release (d := ⟨true, none, []⟩) rfl rfl hfirst.head?_bits hlen hshort
    hpair
  rw [halfBits_eq] at hbits ⊢
  exact hbits

/-- The first bit is sampled at the first edge of a high line, so it is 0. -/
def FirstLow (d : Decoder ℕ) : Prop := d = ⟨true, none, []⟩ ∨ d.bits.head? = some false

theorem FirstLow.elapse {d : Decoder ℕ} (h : FirstLow d) (t : ℕ) :
    FirstLow (d.elapse window t) := by
  rcases h with rfl | hhead
  · left
    exact Decoder.elapse_of_closed rfl t
  · right
    rw [Decoder.bits_elapse]
    exact hhead

theorem FirstLow.drive {d : Decoder ℕ} (h : FirstLow d) (b : Bool) : FirstLow (d.drive b) := by
  rcases h with rfl | hhead
  · cases b
    · right
      rw [Decoder.drive_sample (by simp) rfl]
      rfl
    · left
      exact Decoder.drive_same rfl
  · right
    obtain ⟨rest, hrest⟩ := d.bits_prefix_drive b
    rw [← hrest, List.head?_append, hhead]
    rfl

end Node

namespace Link

/-- Both boards as `main` sets them up, but the sender in raw mode. The sender's pin, and with it the
line, has the level `pin` until the first tick. -/
def bootRaw (src dest src' dest' : Byte) (packetMode' pin pin' : Bool) : Link where
  sender := Node.boot src dest false pin pin
  listener := Node.boot src' dest' packetMode' pin' pin

/-! ## Phases -/

/-- The characters `chars` have been typed, on a line that has been silent. -/
structure Typed (l : Link) (chars got : List Byte) : Prop where
  tx : l.sender.tx.Waiting chars
  mode : l.sender.tx.packetMode = false
  released : l.sender.tx.pin = true
  watches : l.sender.Watches ⟨true, none⟩
  hears : l.listener.Hears got (⟨true, none, []⟩, ⟨true, none⟩)

/-- The half-bits `rest` of the bytes are still to be driven; of the others, the listener has put
the bytes `got`. -/
structure OnWire (l : Link) (bytes got : List Byte) (s : Decoder ℕ × LineView) (rest : List Bool)
    (r : ℕ) : Prop where
  sends : Node.Sends (halfBits bytes) (l.sender, s.2) rest r
  hears : l.listener.Hears got s
  firstLow : Node.FirstLow s.1
  decodes : StartsLow bytes → Node.WillDecode s.1 rest r (bytes.flatMap Bits.msbFirst)

/-- The bytes have been sent, and the listener has put the bytes `got`. -/
structure Arrived (l : Link) (bytes got : List Byte) : Prop where
  tx : l.sender.tx.Stopped
  high : l.listener.idr4 = true
  got_eq : StartsLow bytes → got = bytes
  startsLow : StartsLow got

/-! ## One cycle -/

/-- A core cycle, for a listener on whose line an edge has come in time. -/
theorem hears_cycle {l : Link} {got : List Byte} {s : Decoder ℕ × LineView}
    (h : l.listener.Hears got s)
    (hbefore : Node.Within (16 * transmissionTimeoutUs) (s.2.step .cycle))
    (hafter : Node.Within (16 * transmissionTimeoutUs)
      ((s.2.step .cycle).step (.line l.sender.cycle.tx.pin))) :
    l.cycle.listener.Hears (got ++ l.listener.received (l.heardBy .cycle))
      ((l.heardBy .cycle).foldl Node.hear s) := by
  have hframed : Node.FramedAlong s [.cycle, .line l.sender.cycle.tx.pin] := by
    refine ⟨Node.Within.framed hbefore le_rfl, ?_⟩
    intro s' hs'
    cases hs'
    exact ⟨Node.Within.framed hafter le_rfl, fun _ _ => trivial⟩
  exact Node.hears_timedRun h hframed

theorem OnWire.wait {l : Link} {bytes got : List Byte} {s : Decoder ℕ × LineView}
    {rest : List Bool} {r : ℕ} (h : OnWire l bytes got s rest (r + 1)) :
    OnWire l.cycle bytes (got ++ l.listener.received (l.heardBy .cycle))
      ((l.heardBy .cycle).foldl Node.hear s) rest r := by
  have hpin := h.sends.pin_wait
  have hlevel : l.sender.cycle.tx.pin = (s.1.elapse window 1).level := by
    rw [hpin, Decoder.level_elapse, h.hears.level, ← h.hears.view]
  refine ⟨h.sends.wait, hears_cycle h.hears h.sends.edges.within_cycle
    h.sends.wait.edges.within, ?_, ?_⟩
  · exact (h.firstLow.elapse 1).drive _
  · intro hfirst
    show Node.WillDecode ((s.1.elapse window 1).drive l.sender.cycle.tx.pin) rest r _
    rw [Decoder.drive_same hlevel]
    exact (h.decodes hfirst).wait

theorem OnWire.drive {l : Link} {bytes got : List Byte} {s : Decoder ℕ × LineView} {b : Bool}
    {rest : List Bool} (h : OnWire l bytes got s (b :: rest) 0) :
    OnWire l.cycle bytes (got ++ l.listener.received (l.heardBy .cycle))
      ((l.heardBy .cycle).foldl Node.hear s) rest transmissionTicks := by
  have hpin : l.sender.cycle.tx.pin = b := h.sends.pin_drive
  refine ⟨h.sends.drive, hears_cycle h.hears h.sends.edges.within_cycle
    h.sends.drive.edges.within, ?_, ?_⟩
  · exact (h.firstLow.elapse 1).drive _
  · intro hfirst
    show Node.WillDecode ((s.1.elapse window 1).drive l.sender.cycle.tx.pin) rest _ _
    rw [hpin]
    exact (h.decodes hfirst).drive

theorem OnWire.finish {l : Link} {bytes got : List Byte} {s : Decoder ℕ × LineView}
    (h : OnWire l bytes got s [] 0) :
    Arrived l.cycle bytes (got ++ l.listener.received (l.heardBy .cycle)) := by
  have hpin : l.sender.cycle.tx.pin = true := h.sends.pin_finish
  have hhears := hears_cycle h.hears h.sends.edges.within_cycle (h.sends.edges.finish _)
  have hlow := (h.firstLow.elapse 1).drive true
  have hwire : ((l.heardBy .cycle).foldl Node.hear s).1 = (s.1.elapse window 1).drive true := by
    rw [← hpin]
    rfl
  refine ⟨h.sends.finish.tx, ?_, ?_, ?_⟩
  · rw [← Decoder.level_drive (s.1.elapse window 1) true, ← hwire]
    exact hhears.level.symm
  · intro hfirst
    apply hhears.collects.got_eq
    rw [hwire]
    exact (h.decodes hfirst).finish
  · -- the first bit put is the first bit sampled
    intro b hb
    have hbits := hhears.collects.bits_eq
    rw [hwire] at hbits
    rcases hlow with hnone | hhead
    · rw [hnone] at hbits
      obtain ⟨bytes', hbytes⟩ := List.head?_eq_some_iff.mp hb
      rw [hbytes] at hbits
      cases (List.append_eq_nil_iff.mp hbits).1
    · obtain ⟨bytes', hbytes⟩ := List.head?_eq_some_iff.mp hb
      rw [← hbits, hbytes, List.flatMap_cons] at hhead
      exact Option.some.inj hhead

/-- The main loops act neither on the sender nor on what the listener hears. -/
theorem OnWire.sender {l : Link} {bytes got : List Byte} {s : Decoder ℕ × LineView}
    {rest : List Bool} {r : ℕ} (h : OnWire l bytes got s rest r) {e : Node.TimedEvent}
    (he : Node.physical e = false) :
    OnWire { l with sender := l.sender.timedStep e } bytes got s rest r :=
  ⟨h.sends.other he, h.hears, h.firstLow, h.decodes⟩

theorem OnWire.listener {l : Link} {bytes got : List Byte} {s : Decoder ℕ × LineView}
    {rest : List Bool} {r : ℕ} (h : OnWire l bytes got s rest r) {e : Node.TimedEvent}
    (he : Node.physical e = false) :
    OnWire { l with listener := l.listener.timedStep e } bytes (got ++ l.listener.timedPuts e) s
      rest r := by
  have hsame : Node.hear s e = s := Node.hear_other he
  have hframed : Node.Framed (Node.hear s e) := by
    rw [hsame]
    exact Node.Within.framed h.sends.edges.within le_rfl
  have hhears := Node.hears_timedStep h.hears e hframed
  rw [hsame] at hhears
  exact ⟨h.sends, hhears, h.firstLow, h.decodes⟩

/-! ## Typing -/

/-- The bytes sent for a line in raw mode. -/
def rawBytes (line : List Byte) : List Byte :=
  line ++ if line.length < phMsgSize - 1 then [0] else []

theorem typed_bootRaw (src dest src' dest' : Byte) (packetMode' pin' : Bool) :
    (bootRaw src dest src' dest' packetMode' true pin').Typed [] [] where
  tx := Transmitter.waiting_init src dest false true
  mode := rfl
  released := rfl
  watches := ⟨rfl, Monitor.follows_unknown _ true, fun _ => ⟨rfl, rfl⟩⟩
  hears := (Node.quiescent_boot src' dest' packetMode' pin').hears

theorem Typed.readOther {l : Link} {chars got : List Byte} (h : l.Typed chars got) {c : Byte}
    (hc : c ≠ carriageReturn) (hlen : chars.length < phMsgSize - 1) (random : ℕ) :
    (l.step (.senderTransmitter c random)).Typed (chars ++ [c]) got := by
  obtain ⟨hwaiting, hset⟩ := h.tx.readOther hc hlen l.sender.mon.getState random
  refine ⟨hwaiting, (congrArg Prod.fst hset).trans h.mode, ?_,
    h.watches.timedStep (.transmitterUpdate c random), h.hears⟩
  exact (Transmitter.pin_mainRoutineUpdate _ _ _ _).trans h.released

/-- The `'\r'` starts a transmission of the sender alone. -/
theorem Typed.startsAlone {l : Link} {line got : List Byte} (h : l.Typed line got)
    (hblank : blank line = false) (random : ℕ) :
    (l.step (.senderTransmitter carriageReturn random)).sender.StartsAlone (rawBytes line) ∧
      2 * (rawBytes line).length < bufSize := by
  obtain ⟨hidle, hstopped⟩ := h.watches.fresh rfl
  have hstarts := Node.startsAlone_transmitterUpdate h.tx hblank h.released h.watches.level.symm
    hidle hstopped random
  have hlen : line.length ≤ phMsgSize - 1 := by
    rw [← h.tx.line_eq, Transmitter.length_line]
    exact h.tx.inv.dataCur_le
  have hle := Transmitter.length_frameOf_le l.sender.tx.packetMode l.sender.tx.src
    l.sender.tx.dest hlen
  have hframe : frameOf l.sender.tx.packetMode l.sender.tx.src l.sender.tx.dest line =
      rawBytes line := by
    rw [h.mode]
    rfl
  have hsize : bufSize = 1028 := rfl
  rw [hframe] at hstarts hle
  exact ⟨hstarts, by omega⟩

theorem Typed.readReturn {l : Link} {line got : List Byte} (h : l.Typed line got)
    (hblank : blank line = false) (random : ℕ) :
    (l.step (.senderTransmitter carriageReturn random)).OnWire (rawBytes line) got
      (⟨true, none, []⟩, ⟨true, none⟩) (halfBits (rawBytes line)) transmissionTicks := by
  obtain ⟨hstarts, hroom⟩ := h.startsAlone hblank random
  have hsends := hstarts.sends (Nat.le_of_lt hroom)
  rw [Transmitter.sentHalfBits, if_pos hroom] at hsends
  exact ⟨hsends, h.hears, Or.inl rfl, Node.willDecode_halfBits⟩

theorem Typed.listener {l : Link} {chars got : List Byte} (h : l.Typed chars got)
    {e : Node.TimedEvent} (he : Node.physical e = false) :
    Typed { l with listener := l.listener.timedStep e } chars (got ++ l.listener.timedPuts e) := by
  have hsame : Node.hear (⟨true, none, []⟩, ⟨true, none⟩) e = (⟨true, none, []⟩, ⟨true, none⟩) :=
    Node.hear_other he
  have hframed : Node.Framed (Node.hear (⟨true, none, []⟩, ⟨true, none⟩) e) := by
    rw [hsame]
    intro k hk
    cases hk
  have hhears := Node.hears_timedStep h.hears e hframed
  rw [hsame] at hhears
  exact ⟨h.tx, h.mode, h.released, h.watches, hhears⟩

/-- Until the line is finished, the silence goes on. -/
theorem Typed.cycle {l : Link} {chars got : List Byte} (h : l.Typed chars got) :
    l.cycle.Typed chars (got ++ l.listener.received (l.heardBy .cycle)) := by
  obtain ⟨hwaiting, hset⟩ := h.tx.cycle l.sender.mon.getState
  have hpin : l.sender.cycle.tx.pin = true := h.tx.pin_cycle h.released _
  have hwire : (l.heardBy .cycle).foldl Node.hear (⟨true, none, []⟩, ⟨true, none⟩) =
      (⟨true, none, []⟩, ⟨true, none⟩) := by
    rw [heardBy, hpin]
    rfl
  have hview : (⟨true, none⟩ : LineView).step (.line l.sender.cycle.tx.pin) = ⟨true, none⟩ :=
    LineView.step_line_same hpin
  have hfresh : Node.Within (16 * transmissionTimeoutUs) ⟨true, none⟩ := by
    intro k hk
    cases hk
  have hhears := hears_cycle h.hears hfresh (by
    show Node.Within _ ((⟨true, none⟩ : LineView).step (.line l.sender.cycle.tx.pin))
    rw [hview]
    exact hfresh)
  have hwatches := (h.watches.timedStep .cycle).timedStep (.line l.sender.cycle.tx.pin)
  rw [hwire] at hhears
  have htx : l.cycle.sender.tx = l.sender.tx.cycle l.sender.mon.getState := Node.tx_alone l.sender
  refine ⟨?_, ?_, ?_, ?_, hhears⟩
  · rw [htx]
    exact hwaiting
  · rw [htx]
    exact (congrArg Prod.fst hset).trans h.mode
  · rw [htx]
    exact hpin
  · have hviews : ((⟨true, none⟩ : LineView).step .cycle).step (.line l.sender.cycle.tx.pin) =
        ⟨true, none⟩ := hview
    rw [hviews] at hwatches
    exact hwatches

/-! ## After the transmission -/

theorem Arrived.listener {l : Link} {bytes got : List Byte} (h : l.Arrived bytes got)
    {e : Node.TimedEvent} (he : Node.physical e = false) :
    Arrived { l with listener := l.listener.timedStep e } bytes (got ++ l.listener.timedPuts e) := by
  have hnothing : l.listener.timedPuts e = [] ∧ (l.listener.timedStep e).idr4 = l.listener.idr4 := by
    cases e with
    | transmitterUpdate c random => exact ⟨rfl, rfl⟩
    | receiverUpdate => exact ⟨rfl, rfl⟩
    | line level => cases he
    | cycle => cases he
  rw [hnothing.1, List.append_nil]
  exact ⟨h.tx, hnothing.2.trans h.high, h.got_eq, h.startsLow⟩

theorem Arrived.cycle {l : Link} {bytes got : List Byte} (h : l.Arrived bytes got) :
    l.cycle.Arrived bytes (got ++ l.listener.received (l.heardBy .cycle)) := by
  have htx : l.cycle.sender.tx = l.sender.tx :=
    (Node.tx_alone l.sender).trans (h.tx.cycle l.sender.mon.getState)
  have hpin : l.sender.cycle.tx.pin = true := by
    rw [Node.tx_cycle, h.tx.cycle, h.tx.pin]
  have hnothing : l.listener.received (l.heardBy .cycle) = [] := by
    show [] ++ (l.listener.cycle.timedPuts (.line l.sender.cycle.tx.pin) ++ []) = []
    rw [List.nil_append, List.append_nil, hpin, Node.timedPuts]
    exact if_pos h.high.symm
  rw [hnothing, List.append_nil]
  refine ⟨?_, ?_, h.got_eq, h.startsLow⟩
  · rw [htx]
    exact h.tx
  · show (l.listener.cycle.setLine l.sender.cycle.tx.pin).idr4 = true
    rw [Node.idr4_setLine, hpin]

/-! ## Runs -/

/-- Where a run is after the characters `before`, with the bytes `got` put by the listener. -/
inductive RawPhase (line : List Byte) (l : Link) (before got : List Byte) : Prop
  | typed (typed : l.Typed before got) (no_return : carriageReturn ∉ before)
  | onWire {s : Decoder ℕ × LineView} {rest : List Bool} {r : ℕ}
      (onWire : l.OnWire (rawBytes line) got s rest r) (before_eq : before = line ++ [carriageReturn])
  | arrived (arrived : l.Arrived (rawBytes line) got) (before_eq : before = line ++ [carriageReturn])

/-- After the line's `'\r'` nothing is typed. -/
theorem typedBy_nil {line : List Byte} {before now rest : List Byte}
    (hbefore : before = line ++ [carriageReturn])
    (htext : before ++ (now ++ rest) = line ++ [carriageReturn]) : now = [] := by
  rw [hbefore] at htext
  exact (List.append_eq_nil_iff.mp (List.append_right_eq_self.mp htext)).1

theorem RawPhase.sender {line : List Byte} (hline : TypedLine line) {l : Link}
    {before got rest : List Byte} (h : RawPhase line l before got) {c : Byte} {random : ℕ}
    (htext : before ++ (l.typedBy (.senderTransmitter c random) ++ rest) =
      line ++ [carriageReturn]) :
    RawPhase line (l.step (.senderTransmitter c random))
      (before ++ l.typedBy (.senderTransmitter c random)) got := by
  cases h with
  | typed typed no_return =>
    rw [typedBy, if_pos typed.tx.readsChar] at htext ⊢
    by_cases hc : c = carriageReturn
    · subst hc
      obtain ⟨rfl, -⟩ := line_of_text no_return hline.no_return htext
      exact .onWire (typed.readReturn hline.not_blank random) rfl
    · have hlen := length_lt_of_text no_return hc htext
      have hle := hline.length_le
      have hroom : before.length < phMsgSize - 1 := by
        unfold phMsgSize
        omega
      refine .typed (typed.readOther hc hroom random) ?_
      rw [List.mem_append, List.mem_singleton]
      rintro (hmem | heq)
      · exact no_return hmem
      · exact hc heq.symm
  | onWire onWire before_eq =>
    rw [typedBy_nil before_eq htext, List.append_nil]
    exact .onWire (onWire.sender (e := .transmitterUpdate c random) rfl) before_eq
  | arrived arrived before_eq =>
    -- the sender would read the character
    have hreads : l.sender.tx.readsChar = true := by
      rw [Transmitter.readsChar, arrived.tx.inTransmission, arrived.tx.complete]
      rfl
    have hnil := typedBy_nil before_eq htext
    rw [typedBy, if_pos hreads] at hnil
    cases hnil

theorem RawPhase.listener {line : List Byte} {l : Link} {before got : List Byte}
    (h : RawPhase line l before got) {e : Node.TimedEvent} (he : Node.physical e = false) :
    RawPhase line { l with listener := l.listener.timedStep e } before
      (got ++ l.listener.timedPuts e) := by
  cases h with
  | typed typed no_return => exact .typed (typed.listener he) no_return
  | onWire onWire before_eq => exact .onWire (onWire.listener he) before_eq
  | arrived arrived before_eq => exact .arrived (arrived.listener he) before_eq

theorem RawPhase.cycle {line : List Byte} {l : Link} {before got : List Byte}
    (h : RawPhase line l before got) :
    RawPhase line l.cycle before (got ++ l.listener.received (l.heardBy .cycle)) := by
  cases h with
  | typed typed no_return => exact .typed typed.cycle no_return
  | @onWire s rest r onWire before_eq =>
    cases r with
    | succ r => exact .onWire onWire.wait before_eq
    | zero =>
      cases rest with
      | nil => exact .arrived onWire.finish before_eq
      | cons b rest => exact .onWire onWire.drive before_eq
  | arrived arrived before_eq => exact .arrived arrived.cycle before_eq

theorem RawPhase.step {line : List Byte} (hline : TypedLine line) {l : Link}
    {before got rest : List Byte} (h : RawPhase line l before got) {e : LinkEvent}
    (htext : before ++ (l.typedBy e ++ rest) = line ++ [carriageReturn]) :
    RawPhase line (l.step e) (before ++ l.typedBy e)
      (got ++ l.listener.received (l.heardBy e)) := by
  cases e with
  | senderTransmitter c random =>
    have hnothing : l.listener.received (l.heardBy (.senderTransmitter c random)) = [] := rfl
    rw [hnothing, List.append_nil]
    exact h.sender hline htext
  | senderReceiver =>
    show RawPhase line { l with sender := l.sender.timedStep .receiverUpdate } (before ++ [])
      (got ++ [])
    rw [List.append_nil, List.append_nil]
    cases h with
    | typed typed no_return =>
      exact .typed ⟨typed.tx, typed.mode, typed.released,
        typed.watches.timedStep .receiverUpdate, typed.hears⟩ no_return
    | onWire onWire before_eq => exact .onWire (onWire.sender rfl) before_eq
    | arrived arrived before_eq => exact .arrived { arrived with } before_eq
  | listenerTransmitter c random =>
    show RawPhase line (l.step _) (before ++ []) _
    rw [List.append_nil]
    exact h.listener (e := .transmitterUpdate c random) rfl
  | listenerReceiver =>
    show RawPhase line (l.step _) (before ++ []) _
    rw [List.append_nil]
    exact h.listener (e := .receiverUpdate) rfl
  | cycle =>
    show RawPhase line l.cycle (before ++ []) _
    rw [List.append_nil]
    exact h.cycle

theorem RawPhase.run {line : List Byte} (hline : TypedLine line) {l : Link}
    {before got : List Byte} (h : RawPhase line l before got) {es : List LinkEvent}
    (htext : before ++ l.typed es = line ++ [carriageReturn]) :
    RawPhase line (l.run es) (line ++ [carriageReturn]) (got ++ l.listener.received (l.heard es)) := by
  induction es generalizing l before got with
  | nil =>
    have hnothing : l.listener.received (l.heard []) = [] := rfl
    have hbefore : before = line ++ [carriageReturn] := (List.append_nil before).symm.trans htext
    rw [hnothing, List.append_nil, ← hbefore]
    exact h
  | cons e es ih =>
    rw [typed_cons] at htext
    have hrest := ih (h.step hline htext) (by rw [List.append_assoc]; exact htext)
    have hreceived : l.listener.received (l.heardBy e ++ (l.step e).heard es) =
        l.listener.received (l.heardBy e) ++ (l.step e).listener.received ((l.step e).heard es) := by
      rw [listener_step]
      exact Runs.outputs_append (Runs.run_total Node.timedStep l.listener _) _
    rw [heard_cons, hreceived, ← List.append_assoc]
    exact hrest

theorem startsLow_rawBytes {line : List Byte} (hne : line ≠ []) :
    StartsLow (rawBytes line) ↔ StartsLow line := by
  obtain ⟨b, rest, rfl⟩ := List.exists_cons_of_ne_nil hne
  rfl

/-- What the listener has put when the transmission is over. -/
theorem arrived_of_run {src dest src' dest' : Byte} {packetMode' pin' : Bool} {line : List Byte}
    (hline : TypedLine line) {es : List LinkEvent}
    (htyped : (bootRaw src dest src' dest' packetMode' true pin').typed es = line ++ [carriageReturn])
    (hend : ((bootRaw src dest src' dest' packetMode' true pin').run es).sender.tx.inTransmission =
      false) :
    ((bootRaw src dest src' dest' packetMode' true pin').run es).Arrived (rawBytes line)
      ((bootRaw src dest src' dest' packetMode' true pin').listener.received
        ((bootRaw src dest src' dest' packetMode' true pin').heard es)) := by
  have hboot : RawPhase line (bootRaw src dest src' dest' packetMode' true pin') [] [] :=
    .typed (typed_bootRaw src dest src' dest' packetMode' pin') (by simp)
  have hphase := hboot.run hline htyped
  cases hphase with
  | typed typed no_return => exact absurd (by simp) no_return
  | onWire onWire before_eq => exact absurd (onWire.sends.tx.inTransmission.symm.trans hend) (by simp)
  | arrived arrived before_eq => exact arrived

/-- **What raw mode delivers.** A line that is typed while nothing else is on the line arrives as
it was typed, with its terminating NUL if it is shorter than the buffer, if and only if the top bit
of its first byte is 0. -/
theorem raw_iff {src dest src' dest' : Byte} {packetMode' pin' : Bool} {line : List Byte}
    (hline : TypedLine line) {es : List LinkEvent}
    (htyped : (bootRaw src dest src' dest' packetMode' true pin').typed es = line ++ [carriageReturn])
    (hend : ((bootRaw src dest src' dest' packetMode' true pin').run es).sender.tx.inTransmission =
      false) :
    (bootRaw src dest src' dest' packetMode' true pin').listener.received
        ((bootRaw src dest src' dest' packetMode' true pin').heard es) =
      line ++ (if line.length < 254 then [0] else []) ↔ StartsLow line := by
  have harrived := arrived_of_run hline htyped hend
  rw [← startsLow_rawBytes hline.nonempty]
  constructor
  · intro hgot
    have hfirst := harrived.startsLow
    rw [hgot] at hfirst
    exact hfirst
  · exact harrived.got_eq

/-! ## Every line can be sent -/

/-- The events in which these characters are typed. -/
def typing (chars : List Byte) : List LinkEvent := chars.map (LinkEvent.senderTransmitter · 0)

theorem Typed.typing {l : Link} {before chars got : List Byte} (h : l.Typed before got)
    (hno : carriageReturn ∉ chars) (hlen : before.length + chars.length ≤ phMsgSize - 1) :
    (l.run (Link.typing chars)).Typed (before ++ chars) got ∧ l.typed (Link.typing chars) = chars := by
  induction chars generalizing l before with
  | nil =>
    rw [List.append_nil]
    exact ⟨h, rfl⟩
  | cons c chars ih =>
    obtain ⟨hc, hrest⟩ : carriageReturn ≠ c ∧ carriageReturn ∉ chars := by simpa using hno
    rw [List.length_cons] at hlen
    have hstep := h.readOther hc.symm (by omega) 0
    obtain ⟨htyped, hchars⟩ := ih hstep hrest (by simp; omega)
    rw [List.append_assoc, List.singleton_append] at htyped
    refine ⟨htyped, ?_⟩
    rw [Link.typing, List.map_cons, typed_cons, typedBy, if_pos h.tx.readsChar]
    exact congrArg (List.cons c) hchars

theorem sender_run_cycles (l : Link) (v : LineView) (k : ℕ) :
    (l.run (Link.cycles k)).sender = (Node.watch^[k] (l.sender, v)).1 := by
  induction k generalizing l v with
  | zero => rfl
  | succ k ih => exact ih l.cycle _

theorem exists_run {src dest src' dest' : Byte} {packetMode' pin' : Bool} {line : List Byte}
    (hline : TypedLine line) :
    ∃ es, (bootRaw src dest src' dest' packetMode' true pin').typed es = line ++ [carriageReturn] ∧
      ((bootRaw src dest src' dest' packetMode' true pin').run es).sender.tx.inTransmission =
        false := by
  have hboot := typed_bootRaw src dest src' dest' packetMode' pin'
  obtain ⟨htyped, hchars⟩ := hboot.typing hline.no_return
    (by rw [List.length_nil, Nat.zero_add]; exact hline.length_le)
  rw [List.nil_append] at htyped
  obtain ⟨hstarts, hroom⟩ := htyped.startsAlone hline.not_blank 0
  have hcourse := hstarts.course (Nat.le_of_lt hroom) (Node.lastTick (rawBytes line))
  refine ⟨Link.typing line ++ (.senderTransmitter carriageReturn 0 ::
    Link.cycles (Node.lastTick (rawBytes line))), ?_, ?_⟩
  · rw [typed_append, hchars, typed_cons, typed_cycles, typedBy, if_pos htyped.tx.readsChar]
    rfl
  · rw [run_append]
    show (Link.run (Link.step _ _) _).sender.tx.inTransmission = false
    rw [sender_run_cycles _ ⟨true, none⟩]
    cases hcourse with
    | sends sends left =>
      unfold Node.lastTick at left
      omega
    | released released ended => exact released.tx.inTransmission

/-- The line `a` arrives. -/
theorem raw_a :
    ∃ es, (bootRaw 0xAA 0xBB 0xBB 0xAA false true true).typed es = [0x61, carriageReturn] ∧
      ((bootRaw 0xAA 0xBB 0xBB 0xAA false true true).listener.received
        ((bootRaw 0xAA 0xBB 0xBB 0xAA false true true).heard es) = [0x61, 0] ↔ StartsLow [0x61]) := by
  have hline : TypedLine [0x61] := by decide
  obtain ⟨es, htyped, hend⟩ := exists_run hline
  exact ⟨es, htyped, raw_iff hline htyped hend⟩

/-- A line that starts with the byte `0x80` does not arrive. -/
theorem raw_lost :
    TypedLine [0x80] ∧ ∃ es,
      (bootRaw 0xAA 0xBB 0xBB 0xAA false true true).typed es = [0x80, carriageReturn] ∧
      ((bootRaw 0xAA 0xBB 0xBB 0xAA false true true).run es).sender.tx.inTransmission = false ∧
      (bootRaw 0xAA 0xBB 0xBB 0xAA false true true).listener.received
        ((bootRaw 0xAA 0xBB 0xBB 0xAA false true true).heard es) ≠ [0x80, 0] := by
  have hline : TypedLine [0x80] := by decide
  obtain ⟨es, htyped, hend⟩ := exists_run hline
  refine ⟨hline, es, htyped, hend, ?_⟩
  intro hgot
  have hlow := (arrived_of_run hline htyped hend).startsLow
  rw [hgot] at hlow
  exact absurd (hlow 0x80 rfl) (by decide)

end Link

end NetworkingCard
