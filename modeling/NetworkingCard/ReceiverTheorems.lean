import NetworkingCard.Library.Bits
import NetworkingCard.Timing

/-!
# What the receiver's routines do

* `edge_sample` and `edge_boundary`, the edge interrupt by cases, and below the main routine;
* `readLoop_contract`: the loop moves the unread bytes over, in order, until the buffer is empty
  or `msgBuf` full, and `deliver_spec`, `deliver_raw` for the whole delivery;
* `Receiver.Inv`, which holds in every state of every timed run (`rxInv_timedStep`).
-/

namespace NetworkingCard

/-- TIM4 as `initCounterTimer` programs it; only its count and its enable bit ever change. -/
structure Tim.Timeout (t : Tim) : Prop where
  arr : t.arr = halfbitTimeoutTicks
  psc : t.psc = 0
  pscActive : t.pscActive = 0
  pscCount : t.pscCount = 0
  cnt_le : t.cnt ≤ halfbitTimeoutTicks

namespace Receiver

/-- What holds of the receiver in every reachable state. -/
structure Inv (r : Receiver) : Prop where
  valid : Ringbuffer.Valid r.receiveBuf
  currBit_lt : r.currBit < 8
  tim4 : r.tim4.Timeout
  msgCur_le : r.msgCur ≤ sizeofPacketHeader

/-- The bytes received and not yet taken by the main routine. -/
def unread (r : Receiver) : List Byte := Ringbuffer.contents r.receiveBuf

/-! ## The edge interrupt -/

theorem edge_sample {r : Receiver} (h : r.sample = true) (b : Bool) :
    r.edge b = { r with
      tim4 := r.tim4.clearCnt.startCounter, sample := false, currentlyReceiving := true,
      dataByte := Bits.setMsb r.dataByte r.currBit b,
      currBit := if r.currBit + 1 = 8 then 0 else r.currBit + 1,
      receiveBuf := if r.currBit + 1 = 8
        then Ringbuffer.put r.receiveBuf (Bits.setMsb r.dataByte r.currBit b)
        else r.receiveBuf } := by
  unfold edge
  rw [if_pos h]
  dsimp only
  by_cases h8 : r.currBit + 1 = 8
  · rw [if_pos h8, if_pos h8, if_pos h8]
    cases r.currentlyReceiving <;> simp [Bits.setMsb]
  · rw [if_neg h8, if_neg h8, if_neg h8]
    cases r.currentlyReceiving <;> simp [Bits.setMsb]

theorem edge_boundary {r : Receiver} (h : r.sample = false) (b : Bool) :
    r.edge b = { r with sample := true, tim4 := r.tim4.stopCounter } :=
  if_neg (by simp [h])

/-- An edge concerns the sampling and `receiveBuf` only. -/
theorem edge_frame (r : Receiver) (b : Bool) :
    r.edge b = { r with receiveBuf := (r.edge b).receiveBuf, currBit := (r.edge b).currBit,
                        dataByte := (r.edge b).dataByte, sample := (r.edge b).sample,
                        currentlyReceiving := (r.edge b).currentlyReceiving,
                        tim4 := (r.edge b).tim4 } := by
  cases hs : r.sample
  · rw [edge_boundary hs]
  · rw [edge_sample hs]

theorem Inv.edge {r : Receiver} (h : r.Inv) (b : Bool) : (r.edge b).Inv := by
  cases hs : r.sample
  · rw [edge_boundary hs]
    exact { h with tim4 := { h.tim4 with } }
  · rw [edge_sample hs]
    have hbit := h.currBit_lt
    refine ⟨?_, ?_, { h.tim4 with cnt_le := Nat.zero_le _ }, h.msgCur_le⟩
    · dsimp only
      split
      · exact h.valid.put _
      · exact h.valid
    · dsimp only
      split <;> omega

/-! ## The half-bit timeout -/

theorem cycle_of_updates {r : Receiver} (h : r.tim4.updates = true) :
    r.cycle = { r with sample := true,
                       tim4 := { r.tim4.updateEvent with uif := false, cen := false } } := by
  unfold cycle
  rw [if_pos h, Tim.cycle_of_updates h]
  rfl

theorem cycle_of_not_updates {r : Receiver} (h : r.tim4.updates = false) :
    r.cycle = { r with tim4 := r.tim4.cycle } :=
  if_neg (by simp [h])

/-- The timeout restarts neither the counter nor the bit count. -/
theorem Inv.timeout {r : Receiver} (h : r.Inv) :
    Inv { r with sample := true,
                 tim4 := { r.tim4.updateEvent with uif := false, cen := false } } :=
  { h with tim4 := ⟨h.tim4.arr, h.tim4.psc, h.tim4.psc, rfl, Nat.zero_le _⟩ }

theorem Inv.cycle {r : Receiver} (h : r.Inv) : r.cycle.Inv := by
  cases hupd : r.tim4.updates
  · rw [cycle_of_not_updates hupd, Tim.cycle_prescaler_zero h.tim4.pscActive h.tim4.pscCount hupd]
    refine { h with tim4 := { h.tim4 with cnt_le := ?_ } }
    have hle := h.tim4.cnt_le
    have harr := h.tim4.arr
    dsimp only
    split
    · exact hle
    · next hstop =>
      simp only [not_or, Bool.not_eq_false] at hstop
      simp [Tim.updates, hstop.1, h.tim4.pscActive, harr] at hupd
      have := hupd (by decide)
      omega
  · rw [cycle_of_updates hupd]
    exact h.timeout

/-! ## Taking the message -/

theorem readLoop_frame (n : ℕ) (r : Receiver) :
    readLoop n r = { r with receiveBuf := (readLoop n r).receiveBuf,
                            msgBuf := (readLoop n r).msgBuf, msgCur := (readLoop n r).msgCur } := by
  induction n generalizing r with
  | zero => rfl
  | succ n ih =>
    unfold readLoop
    split
    · exact ih _
    · rfl

theorem Inv.readElement {r : Receiver} (h : r.Inv) (hroom : r.msgCur < sizeofPacketHeader) :
    Inv { r with receiveBuf := (Ringbuffer.get r.receiveBuf).2,
                 msgBuf := r.msgBuf.setIfInBounds r.msgCur (Ringbuffer.get r.receiveBuf).1,
                 msgCur := r.msgCur + 1 } :=
  { h with valid := h.valid.get, msgCur_le := hroom }

/-- The part of `msgBuf` that the loop has filled. -/
def message (r : Receiver) : List Byte := r.msgBuf.toList.take r.msgCur

theorem take_setIfInBounds {n : ℕ} (v : Vector Byte n) {i : ℕ} (hi : i < n) (c : Byte) :
    (v.setIfInBounds i c).toList.take (i + 1) = v.toList.take i ++ [c] := by
  refine List.ext_getElem? fun j => ?_
  rcases Nat.lt_trichotomy j i with hj | rfl | hj
  · rw [List.getElem?_take_of_lt (by omega), List.getElem?_append_left (by simp; omega),
      List.getElem?_take_of_lt hj, Vector.getElem?_toList, Vector.getElem?_toList,
      Vector.getElem?_setIfInBounds_ne (by omega)]
  · have hlen : (v.toList.take j).length = j := by
      rw [List.length_take, Vector.length_toList]
      omega
    rw [List.getElem?_take_of_lt (by omega), List.getElem?_append_right (by omega), hlen,
      Nat.sub_self, Vector.getElem?_toList, Vector.getElem?_setIfInBounds_self_of_lt hi]
    rfl
  · rw [List.getElem?_take_eq_none (by omega), List.getElem?_eq_none]
    rw [List.length_append, List.length_take, List.length_singleton]
    omega

/-- Whatever the loop takes from the buffer it appends to the message; it stops when the buffer
is empty, when `msgBuf` is full, or when it is out of fuel. -/
theorem readLoop_contract (n : ℕ) {r : Receiver} (h : r.Inv) :
    let r' := readLoop n r
    r'.Inv ∧ r'.message ++ r'.unread = r.message ++ r.unread ∧
      (r'.unread = [] ∨ r'.msgCur = sizeofPacketHeader ∨ r'.msgCur = r.msgCur + n) := by
  induction n generalizing r with
  | zero => exact ⟨h, rfl, Or.inr (Or.inr rfl)⟩
  | succ n ih =>
    dsimp only at ih ⊢
    unfold readLoop
    by_cases hcond : Ringbuffer.hasElement r.receiveBuf = true ∧ r.msgCur < sizeofPacketHeader
    · rw [if_pos (by simpa using hcond)]
      obtain ⟨helem, hroom⟩ := hcond
      dsimp only
      have hpop := Ringbuffer.contents_get h.valid helem
      obtain ⟨hinv, hsplit, hstop⟩ := ih (h.readElement hroom)
      refine ⟨hinv, ?_, ?_⟩
      · rw [hsplit]
        unfold message unread
        dsimp only
        rw [take_setIfInBounds _ hroom, hpop, List.append_assoc, List.singleton_append]
      · dsimp only at hstop
        rw [show r.msgCur + (n + 1) = r.msgCur + 1 + n by omega]
        exact hstop
    · rw [if_neg (by simpa using hcond)]
      refine ⟨h, rfl, ?_⟩
      rw [not_and] at hcond
      by_cases helem : Ringbuffer.hasElement r.receiveBuf = true
      · have := hcond helem
        have := h.msgCur_le
        exact Or.inr (Or.inl (by omega))
      · exact Or.inl (Ringbuffer.contents_eq_nil_of_hasElement h.valid
          (Bool.eq_false_of_not_eq_true helem))

/-- The bytes that a call takes: at most as many as `msgBuf` holds. -/
theorem message_readLoop {r : Receiver} (h : r.Inv) (hcur : r.msgCur = 0) :
    (readLoop sizeofPacketHeader r).message = r.unread.take sizeofPacketHeader ∧
      (readLoop sizeofPacketHeader r).unread = r.unread.drop sizeofPacketHeader := by
  obtain ⟨hinv, hsplit, hstop⟩ := readLoop_contract sizeofPacketHeader h
  have hlen : (readLoop sizeofPacketHeader r).message.length =
      (readLoop sizeofPacketHeader r).msgCur := by
    rw [message, List.length_take, Vector.length_toList, Nat.min_eq_left hinv.msgCur_le]
  have hnil : r.message = [] := by rw [message, hcur, List.take_zero]
  rw [hnil, List.nil_append] at hsplit
  rw [hcur, Nat.zero_add] at hstop
  rw [← hsplit]
  rcases hstop with hempty | hfull
  · have hle := hinv.msgCur_le
    rw [hempty, List.append_nil, List.take_of_length_le (by omega),
      List.drop_eq_nil_of_le (by omega)]
    exact ⟨rfl, rfl⟩
  · rw [or_self] at hfull
    have hfull' := hlen.trans hfull
    exact ⟨(List.take_left' hfull').symm, (List.drop_left' hfull').symm⟩

theorem mem_setIfInBounds {n : ℕ} {v : Vector Byte n} {i : ℕ} {b c : Byte}
    (hb : b ∈ (v.setIfInBounds i c).toList) : b ∈ v.toList ∨ b = c := by
  rw [← Vector.toList_toArray, Vector.toArray_setIfInBounds, Array.toList_setIfInBounds] at hb
  exact List.mem_or_eq_of_mem_set hb

/-- What the loop stores in `msgBuf` was unread. -/
theorem mem_msgBuf_readLoop (n : ℕ) {r : Receiver} (h : r.Inv) {b : Byte}
    (hb : b ∈ (readLoop n r).msgBuf.toList) : b ∈ r.msgBuf.toList ∨ b ∈ r.unread.take n := by
  induction n generalizing r with
  | zero => exact Or.inl hb
  | succ n ih =>
    unfold readLoop at hb
    split at hb
    · next hcond =>
      simp only [Bool.and_eq_true, decide_eq_true_eq] at hcond
      obtain ⟨helem, hroom⟩ := hcond
      have hpop : r.unread = _ :: _ := Ringbuffer.contents_get h.valid helem
      rw [hpop, List.take_succ_cons, List.mem_cons]
      rcases ih (h.readElement hroom) hb with hold | hnew
      · rcases mem_setIfInBounds hold with hold | hnew
        · exact Or.inl hold
        · exact Or.inr (Or.inl hnew)
      · exact Or.inr (Or.inr hnew)
    · exact Or.inl hb

theorem displayPacket_frame (r : Receiver) :
    r.displayPacket = { r with pkt := r.displayPacket.pkt, console := r.displayPacket.console,
                               parses := r.displayPacket.parses } := by
  unfold displayPacket
  dsimp only
  split <;> split <;> rfl

theorem displayRaw_frame (r : Receiver) :
    r.displayRaw = { r with msgBuf := r.displayRaw.msgBuf, console := r.displayRaw.console } := by
  unfold displayRaw
  dsimp only
  split <;> rfl

/-- What a delivery leaves in the buffer is what the loop leaves there. -/
theorem receiveBuf_deliver (r : Receiver) :
    r.deliver.receiveBuf = (readLoop sizeofPacketHeader { r with msgCur := 0 }).receiveBuf := by
  unfold deliver
  dsimp only
  split
  · rw [displayPacket_frame]
  · rw [displayRaw_frame]

theorem parses_displayPacket (r : Receiver) :
    r.displayPacket.parses = r.parses ++
      [⟨r.message, (phParse r.pkt (memory r.msgBuf) r.msgCur).1,
        (phParse r.pkt (memory r.msgBuf) r.msgCur).2⟩] := by
  unfold displayPacket
  dsimp only
  split <;> split <;> rfl

/-- A delivery concerns the message and the display; the sampling goes on as it was. -/
theorem deliver_frame (r : Receiver) :
    r.deliver = { r with receiveBuf := r.deliver.receiveBuf, msgBuf := r.deliver.msgBuf,
                         msgCur := r.deliver.msgCur, pkt := r.deliver.pkt,
                         console := r.deliver.console, parses := r.deliver.parses } := by
  unfold deliver
  dsimp only
  split
  · rw [displayPacket_frame, readLoop_frame]
  · rw [displayRaw_frame, readLoop_frame]

end Receiver

/-- The result of a call of `ph_parse` is that of the bytes it was given. -/
def ParseCall.Sound (call : ParseCall) : Prop :=
  ∃ out, (call.result, call.out) =
    phParse out (fun i => call.buf[i]?.getD 0) call.buf.length

/-- `ph_parse` looks at no byte beyond the size it is given. -/
theorem phParse_congr (out : PacketHeader) {buf buf' : Memory} {size : ℕ}
    (h : ∀ i < size, buf i = buf' i) : phParse out buf size = phParse out buf' size := by
  unfold phParse
  by_cases hshort : size < sizeofPacketHeader - phMsgSize + 1
  · rw [if_pos hshort, if_pos hshort]
  have h8 : 8 ≤ size := Nat.le_of_not_lt hshort
  rw [if_neg hshort, if_neg hshort, h 0 (by omega), h 1 (by omega), h 2 (by omega), h 3 (by omega),
    h 4 (by omega), h 5 (by omega), h (size - 1) (by omega)]
  dsimp only
  by_cases hlong : size < sizeofPacketHeader - phMsgSize + (buf' 4).toNat
  · rw [if_pos hlong, if_pos hlong]
  have hmsg : memcpy out.msg (fun i => buf (6 + i)) (buf' 4).toNat =
      memcpy out.msg (fun i => buf' (6 + i)) (buf' 4).toNat := by
    apply memcpy_congr
    intro i hi
    have hsize : 7 + (buf' 4).toNat ≤ size := Nat.le_of_not_lt hlong
    exact h (6 + i) (by omega)
  rw [if_neg hlong, if_neg hlong, hmsg]

namespace Receiver

/-- A delivery takes the unread bytes, at most as many as `msgBuf` holds, and in packet mode
hands them to `ph_parse`. -/
theorem deliver_spec {r : Receiver} (h : r.Inv) :
    r.deliver.Inv ∧ r.deliver.unread = r.unread.drop sizeofPacketHeader ∧
      (r.packetMode = true → ∃ call, r.deliver.parses = r.parses ++ [call] ∧
        call.buf = r.unread.take sizeofPacketHeader ∧ call.Sound) := by
  have h0 : ({ r with msgCur := 0 } : Receiver).Inv := { h with msgCur_le := Nat.zero_le _ }
  obtain ⟨hinv, -, -⟩ := readLoop_contract sizeofPacketHeader h0
  obtain ⟨hmsg, hunread⟩ := message_readLoop h0 rfl
  have hlen : (readLoop sizeofPacketHeader { r with msgCur := 0 }).message.length =
      (readLoop sizeofPacketHeader { r with msgCur := 0 }).msgCur := by
    rw [message, List.length_take, Vector.length_toList, Nat.min_eq_left hinv.msgCur_le]
  have hframe := readLoop_frame sizeofPacketHeader { r with msgCur := 0 }
  have hmode : (readLoop sizeofPacketHeader { r with msgCur := 0 }).packetMode = r.packetMode := by
    rw [hframe]
  have hparses : (readLoop sizeofPacketHeader { r with msgCur := 0 }).parses = r.parses := by
    rw [hframe]
  unfold deliver
  dsimp only
  generalize readLoop sizeofPacketHeader { r with msgCur := 0 } = r' at *
  by_cases hpacket : r.packetMode = true
  · rw [if_pos (by rw [hmode, hpacket]), displayPacket_frame]
    refine ⟨⟨hinv.valid, hinv.currBit_lt, hinv.tim4, hinv.msgCur_le⟩, hunread, fun _ =>
      ⟨_, by rw [parses_displayPacket, hparses], hmsg, r'.pkt, ?_⟩⟩
    dsimp only
    rw [hlen]
    refine phParse_congr _ fun i hi => ?_
    rw [message, List.getElem?_take_of_lt hi, memory, Vector.getElem?_toList]
  · rw [if_neg (by rw [hmode]; exact hpacket), displayRaw_frame]
    exact ⟨⟨hinv.valid, hinv.currBit_lt, hinv.tim4, hinv.msgCur_le⟩, hunread,
      fun hp => absurd hp hpacket⟩

/-- In raw mode a delivery prints `msgBuf`, which has nothing but a NUL beside the unread bytes and
what was in it. -/
theorem deliver_raw {r : Receiver} (h : r.Inv) (hraw : r.packetMode = false) :
    r.deliver.console =
        r.console ++ [⟨"Recieveing %s", [.s r.deliver.msgBuf.toList]⟩] ∧
      ∀ b ∈ r.deliver.msgBuf.toList,
        b = 0 ∨ b ∈ r.msgBuf.toList ∨ b ∈ r.unread.take sizeofPacketHeader := by
  have h0 : ({ r with msgCur := 0 } : Receiver).Inv := { h with msgCur_le := Nat.zero_le _ }
  have hloop : ∀ b ∈ (readLoop sizeofPacketHeader { r with msgCur := 0 }).msgBuf.toList,
      b ∈ r.msgBuf.toList ∨ b ∈ r.unread.take sizeofPacketHeader :=
    fun b hb => mem_msgBuf_readLoop sizeofPacketHeader h0 hb
  have hframe := readLoop_frame sizeofPacketHeader { r with msgCur := 0 }
  have hmode : (readLoop sizeofPacketHeader { r with msgCur := 0 }).packetMode = false := by
    rw [hframe, hraw]
  have hconsole : (readLoop sizeofPacketHeader { r with msgCur := 0 }).console = r.console := by
    rw [hframe]
  unfold deliver
  dsimp only
  generalize readLoop sizeofPacketHeader { r with msgCur := 0 } = r' at *
  rw [if_neg (by rw [hmode]; simp)]
  unfold displayRaw
  dsimp only
  split
  · refine ⟨by rw [← hconsole]; rfl, fun b hb => ?_⟩
    rcases mem_setIfInBounds hb with hold | hnul
    · exact Or.inr (hloop b hold)
    · exact Or.inl hnul
  · exact ⟨by rw [← hconsole]; rfl, fun b hb => Or.inr (hloop b hb)⟩

/-! ## The main routine by cases -/

theorem mainRoutineUpdate_idle (r : Receiver) :
    r.mainRoutineUpdate .idle =
      if Ringbuffer.hasElement r.receiveBuf then r.idleReset.deliver else r.idleReset := by
  have hreset : r.idleReset.currentlyReceiving = false ∧
      r.idleReset.receiveBuf = r.receiveBuf := by
    unfold idleReset
    dsimp only
    split <;> exact ⟨rfl, rfl⟩
  simp only [mainRoutineUpdate, if_true, hreset.1, hreset.2, Bool.false_and, Bool.false_eq_true,
    if_false, Bool.not_false, Bool.true_and]

/-- While a message is being received and no collision is seen, the main routine does nothing. -/
theorem mainRoutineUpdate_receiving {r : Receiver} (h : r.currentlyReceiving = true) :
    r.mainRoutineUpdate .busy = r := by
  unfold mainRoutineUpdate
  simp [h]

theorem mainRoutineUpdate_dropping {r : Receiver} (h : r.currentlyReceiving = true) :
    r.mainRoutineUpdate .collision = r.dropMessage := by
  have hdrop : Ringbuffer.hasElement r.dropMessage.receiveBuf = false := by
    simp [dropMessage, printf, Ringbuffer.reset, Ringbuffer.hasElement]
  simp [mainRoutineUpdate, h, hdrop]

/-- Before a first bit is sampled, whatever is unread is delivered. -/
theorem mainRoutineUpdate_waiting {r : Receiver} (h : r.currentlyReceiving = false)
    {state : MonitorState} (hs : state ≠ .idle) :
    r.mainRoutineUpdate state =
      if Ringbuffer.hasElement r.receiveBuf then r.deliver else r := by
  simp only [mainRoutineUpdate, if_neg hs, h, Bool.false_and, Bool.false_eq_true, if_false,
    Bool.not_false, Bool.true_and]

theorem idleReset_frame (r : Receiver) :
    r.idleReset = { r with currBit := 0, dataByte := 0, currentlyReceiving := false,
                           sample := true } := by
  unfold idleReset
  dsimp only
  cases r.sample <;> simp

theorem Inv.idleReset {r : Receiver} (h : r.Inv) : r.idleReset.Inv := by
  rw [idleReset_frame]
  exact { h with currBit_lt := Nat.zero_lt_succ _ }

theorem Inv.dropMessage {r : Receiver} (h : r.Inv) : r.dropMessage.Inv :=
  { h with valid := Ringbuffer.valid_reset _, tim4 := { h.tim4 with } }

theorem Inv.mainRoutineUpdate {r : Receiver} (h : r.Inv) (state : MonitorState) :
    (r.mainRoutineUpdate state).Inv := by
  by_cases hidle : state = .idle
  · rw [hidle, mainRoutineUpdate_idle]
    split
    · exact (deliver_spec h.idleReset).1
    · exact h.idleReset
  cases hr : r.currentlyReceiving
  · rw [mainRoutineUpdate_waiting hr hidle]
    split
    · exact (deliver_spec h).1
    · exact h
  · cases state with
    | idle => exact absurd rfl hidle
    | busy =>
      rw [mainRoutineUpdate_receiving hr]
      exact h
    | collision =>
      rw [mainRoutineUpdate_dropping hr]
      exact h.dropMessage

theorem inv_init (packetMode : Bool) : (init packetMode).Inv where
  valid := ⟨Nat.zero_lt_succ _, Nat.zero_lt_succ _⟩
  currBit_lt := Nat.zero_lt_succ _
  tim4 := ⟨rfl, rfl, rfl, rfl, Nat.zero_le _⟩
  msgCur_le := Nat.zero_le _

end Receiver

namespace Node

theorem rxInv_timedStep (n : Node) (e : TimedEvent) (h : n.rx.Inv) : (n.timedStep e).rx.Inv := by
  cases e with
  | transmitterUpdate c random => exact h
  | receiverUpdate => exact h.mainRoutineUpdate _
  | line level =>
    by_cases hl : level = n.idr4
    · rw [timedStep, setLine_same hl]
      exact h
    · rw [timedStep, setLine_edge hl]
      exact h.edge level
  | cycle => exact h.cycle

/-- No event breaks the receiver's invariant. -/
theorem rxInv_step {n n' : Node} {e : Event} (h : n.rx.Inv) (hstep : n.step e = some n') :
    n'.rx.Inv := by
  cases e with
  | transmitterUpdate c random =>
    cases hstep
    exact h
  | receiverUpdate =>
    cases hstep
    exact h.mainRoutineUpdate _
  | tim2 =>
    obtain ⟨-, rfl⟩ := step_tim2_eq_some.mp hstep
    exact h
  | tim4 =>
    obtain ⟨-, rfl⟩ := step_tim4_eq_some.mp hstep
    exact h.timeout
  | exti4 level =>
    cases hstep
    exact h.edge level
  | sysTick =>
    obtain ⟨-, rfl⟩ := step_sysTick_eq_some.mp hstep
    exact h

/-- The receiver's invariant holds in every state of a timed run from boot. -/
theorem rxInv_timedRun (src dest : Byte) (packetMode pin line : Bool) (es : List TimedEvent) :
    ((boot src dest packetMode pin line).timedRun es).rx.Inv :=
  timedRun_invariant (I := fun n => n.rx.Inv) rxInv_timedStep (Receiver.inv_init packetMode) es

end Node

end NetworkingCard
