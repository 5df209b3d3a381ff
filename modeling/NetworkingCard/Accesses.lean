import NetworkingCard.Backlog

/-!
# Every index and every shift amount is in range

For each routine the list of the indices and shift amounts that it uses in a given state, under the
name of the routine and along its branches: `Node.uses` for an event of a board. None of them is
checked where it is used. `inRange_of_run`: in every reachable state all are in range, a message is
loaded into `transBuf` from place 0 on without wrapping, and what is driven has been loaded.

The bounds come from the two invariants `Transmitter.Inv` and `Receiver.Inv`; the one length that
comes from outside, that of a received packet, is a byte. The scans of the library (`strcmp` and
`%s`) are left out.
-/

namespace NetworkingCard

/-- The arrays of `transmitter.c`, `receiver.c` and `packet_header.c`; `pktMsg` and `parsedMsg` are
the messages of the two modules' packets. -/
inductive CArray
  | dataBuf
  | pktMsg
  | transBuf
  | receiveBuf
  | msgBuf
  | parsedMsg
  | crc8Lookuptable
deriving DecidableEq

/-- The number of elements. -/
def CArray.size : CArray → ℕ
  | .dataBuf => phMsgSize
  | .pktMsg => phMsgSize
  | .transBuf => bufSize
  | .receiveBuf => bufSize
  | .msgBuf => sizeofPacketHeader
  | .parsedMsg => phMsgSize
  | .crc8Lookuptable => 256

/-- An index into an array, or the amount of a shift of one bit in a byte. -/
inductive Use
  | index (array : CArray) (i : ℕ)
  | shift (amount : ℤ)
deriving DecidableEq

namespace Use

/-- The element exists, or the bit is in the byte. -/
def InRange : Use → Prop
  | index array i => i < array.size
  | shift amount => 0 ≤ amount ∧ amount ≤ 7

/-- The place in `transBuf`. -/
def place : Use → Option ℕ
  | index .transBuf i => some i
  | _ => none

end Use

/-! ## What the routines use -/

/-- `memcpy` of `size` bytes, from an offset on. -/
def memcpyUses (dst src : CArray) (offset size : ℕ) : List Use :=
  (List.range size).flatMap fun i => [.index src (offset + i), .index dst i]

/-- `ph_compute_crc8`. -/
def phComputeCrc8Uses (array : CArray) (msg : Memory) (size : ℕ) : List Use :=
  (List.range size).flatMap fun byte =>
    [.index array byte, .index .crc8Lookuptable (phComputeCrc8 msg byte ^^^ msg byte).toNat]

/-- `ph_create`, called with a CRC flag that is set. -/
def phCreateUses (out : PacketHeader) (msg : Memory) (size : Byte) : List Use :=
  memcpyUses .pktMsg .dataBuf 0 size.toNat ++
    phComputeCrc8Uses .pktMsg (memory (memcpy out.msg msg size.toNat)) size.toNat

/-- `ph_parse`. -/
def phParseUses (out : PacketHeader) (buf : Memory) (size : ℕ) : List Use :=
  if size < sizeofPacketHeader - phMsgSize + 1 then []
  else
    (List.range 6).map (.index .msgBuf) ++
    if size < sizeofPacketHeader - phMsgSize + (buf 4).toNat then []
    else
      memcpyUses .parsedMsg .msgBuf 6 (buf 4).toNat ++
      (if buf 5 = 0 then [.index .msgBuf (size - 1)] else []) ++
      if buf 5 = 0 ∧ buf (size - 1) ≠ 0xAA then []
      else
        .index .msgBuf (size - 1) :: phComputeCrc8Uses .parsedMsg
          (memory (memcpy out.msg (fun i => buf (6 + i)) (buf 4).toNat)) (buf 4).toNat

/-- `transmitByte`: two calls of `put`. -/
def transmitByteUses (transBuf : RingBuffer Byte) (byte : Byte) : List Use :=
  let manchesterSymbol := encodeManchester byte
  [.index .transBuf transBuf.put,
    .index .transBuf (Ringbuffer.put transBuf ((manchesterSymbol >>> 8).setWidth 8)).put]

/-- Calls of `transmitByte`, one after the other. -/
def transmitBytesUses : RingBuffer Byte → List Byte → List Use
  | _, [] => []
  | transBuf, byte :: bytes =>
    transmitByteUses transBuf byte ++ transmitBytesUses (transmitByte transBuf byte) bytes

/-- `transmitMessage`. -/
def transmitMessageUses (transBuf : RingBuffer Byte) (pkt : PacketHeader) : List Use :=
  (List.range pkt.length.toNat).map (.index .pktMsg) ++ transmitBytesUses transBuf (frameBytes pkt)

namespace Transmitter

def readCharUses (t : Transmitter) (c : Byte) : List Use :=
  if c = carriageReturn then
    .index .dataBuf t.dataCur ::
      if strcmpEqual (t.dataBuf.setIfInBounds t.dataCur 0).toList [0, 0x65, 0, 0x70, 0] then
        [.index .dataBuf 0]
      else []
  else if t.dataCur < phMsgSize - 1 then [.index .dataBuf t.dataCur]
  else []

def transmitPacketUses (t : Transmitter) : List Use :=
  phCreateUses t.pkt (memory t.dataBuf) (BitVec.ofNat 8 t.dataCur) ++
  (if t.createPacket.length.toNat < phMsgSize - 1 then
    [.index .pktMsg t.createPacket.length.toNat] else []) ++
  transmitMessageUses t.transBuf t.createPacket

def transmitRawUses (t : Transmitter) : List Use :=
  if t.dataCur < phMsgSize - 1 then
    let dataBuf := t.dataBuf.setIfInBounds t.dataCur 0
    .index .dataBuf t.dataCur :: (List.range (t.dataCur + 1)).map (.index .dataBuf) ++
      transmitBytesUses t.transBuf ((List.range (t.dataCur + 1)).map (memory dataBuf))
  else
    (List.range t.dataCur).map (.index .dataBuf) ++
      transmitBytesUses t.transBuf ((List.range t.dataCur).map (memory t.dataBuf))

def transmitDataUses (t : Transmitter) : List Use :=
  let t := { t with transBuf := Ringbuffer.reset t.transBuf }
  (if t.packetMode then t.transmitPacketUses else t.transmitRawUses) ++ [.index .dataBuf 0]

/-- `transmitter_mainRoutineUpdate`. -/
def mainRoutineUpdateUses (t : Transmitter) (state : MonitorState) (c : Byte) : List Use :=
  if t.readsChar then
    t.readCharUses c ++
      if state = .idle && (t.readChar c).gotMessage then (t.readChar c).transmitDataUses else []
  else []

/-- `TIM2_IRQHandler`. -/
def tim2IRQHandlerUses (t : Transmitter) (state : MonitorState) : List Use :=
  if t.retransmissionTimeoutActive then []
  else if t.atEnd then []
  else if state = .collision then []
  else [.index .transBuf t.currByte, .shift (7 - t.currBit)]

end Transmitter

namespace Receiver

def readLoopUses : ℕ → Receiver → List Use
  | 0, _ => []
  | n + 1, r =>
    if Ringbuffer.hasElement r.receiveBuf && decide (r.msgCur < sizeofPacketHeader) then
      let element := Ringbuffer.get r.receiveBuf
      [.index .msgBuf r.msgCur, .index .receiveBuf r.receiveBuf.get] ++
        readLoopUses n { r with receiveBuf := element.2,
                                msgBuf := r.msgBuf.setIfInBounds r.msgCur element.1,
                                msgCur := r.msgCur + 1 }
    else []

def displayPacketUses (r : Receiver) : List Use :=
  let pkt := (phParse r.pkt (memory r.msgBuf) r.msgCur).2
  phParseUses r.pkt (memory r.msgBuf) r.msgCur ++
    if pkt.length.toNat < phMsgSize - 1 then [.index .parsedMsg pkt.length.toNat] else []

def displayRawUses (r : Receiver) : List Use :=
  if r.msgCur < phMsgSize - 1 then [.index .msgBuf (r.msgCur + 1)] else []

def deliverUses (r : Receiver) : List Use :=
  let r := { r with msgCur := 0 }
  let read := readLoop sizeofPacketHeader r
  readLoopUses sizeofPacketHeader r ++
    if read.packetMode then read.displayPacketUses else read.displayRawUses

/-- `receiver_mainRoutineUpdate`. -/
def mainRoutineUpdateUses (r : Receiver) (state : MonitorState) : List Use :=
  let r := r.beforeDelivery state
  if r.delivers then r.deliverUses else []

/-- The receiver's part of `EXTI4_IRQHandler`. -/
def edgeUses (r : Receiver) : List Use :=
  if r.sample then
    .shift (7 - r.currBit) ::
      if r.currBit + 1 = 8 then [.index .receiveBuf r.receiveBuf.put] else []
  else []

end Receiver

/-- What an event uses. -/
def Node.uses (n : Node) : Event → List Use
  | .transmitterUpdate c _ => n.tx.mainRoutineUpdateUses n.mon.getState c
  | .receiverUpdate => n.rx.mainRoutineUpdateUses n.mon.getState
  | .tim2 => n.tx.tim2IRQHandlerUses n.mon.getState
  | .exti4 _ => n.rx.edgeUses
  | .tim4 | .sysTick => []

/-! ## The parts that loop -/

/-- A loop that makes two uses in each round. -/
theorem mem_pairUses {size : ℕ} {first second : ℕ → Use}
    (h : ∀ i < size, (first i).InRange ∧ (second i).InRange) :
    ∀ use ∈ (List.range size).flatMap fun i => [first i, second i], use.InRange := by
  intro use huse
  obtain ⟨i, hi, huse⟩ := List.mem_flatMap.mp huse
  obtain ⟨hfirst, hsecond⟩ := h i (List.mem_range.mp hi)
  simp only [List.mem_cons, List.not_mem_nil, or_false] at huse
  rcases huse with rfl | rfl
  · exact hfirst
  · exact hsecond

theorem mem_memcpyUses {dst src : CArray} {offset size : ℕ} (hdst : size ≤ dst.size)
    (hsrc : offset + size ≤ src.size) : ∀ use ∈ memcpyUses dst src offset size, use.InRange := by
  apply mem_pairUses
  intro i hi
  constructor
  · show offset + i < src.size
    omega
  · show i < dst.size
    omega

theorem mem_phComputeCrc8Uses {array : CArray} (msg : Memory) {size : ℕ}
    (hsize : size ≤ array.size) : ∀ use ∈ phComputeCrc8Uses array msg size, use.InRange := by
  apply mem_pairUses
  intro i hi
  constructor
  · show i < array.size
    omega
  · show (phComputeCrc8 msg i ^^^ msg i).toNat < 256
    exact (phComputeCrc8 msg i ^^^ msg i).isLt

theorem mem_indexRange (array : CArray) {size : ℕ} (hsize : size ≤ array.size) :
    ∀ use ∈ (List.range size).map (Use.index array), use.InRange := by
  intro use huse
  obtain ⟨i, hi, rfl⟩ := List.mem_map.mp huse
  show i < array.size
  have hlt := List.mem_range.mp hi
  omega

theorem mem_transmitBytesUses {transBuf : RingBuffer Byte} (h : Ringbuffer.Valid transBuf)
    (bytes : List Byte) : ∀ use ∈ transmitBytesUses transBuf bytes, use.InRange := by
  induction bytes generalizing transBuf with
  | nil => simp [transmitBytesUses]
  | cons byte bytes ih =>
    intro use huse
    have hfirst := h.put ((encodeManchester byte >>> 8).setWidth 8)
    rcases List.mem_append.mp huse with hnow | hlater
    · simp only [transmitByteUses, List.mem_cons, List.not_mem_nil, or_false] at hnow
      rcases hnow with rfl | rfl
      · exact h.put_lt
      · exact hfirst.put_lt
    · exact ih (hfirst.put _) use hlater

/-- The calls of `transmitByte` fill the buffer place by place. -/
theorem place_transmitBytesUses {transBuf : RingBuffer Byte} {done : List Byte}
    (h : Loaded transBuf done) (bytes : List Byte)
    (hroom : done.length + 2 * bytes.length < bufSize) :
    (transmitBytesUses transBuf bytes).filterMap Use.place =
      List.range' done.length (2 * bytes.length) := by
  induction bytes generalizing transBuf done with
  | nil => rfl
  | cons byte bytes ih =>
    rw [List.length_cons] at hroom ⊢
    have hfirst := h.put (by omega) ((encodeManchester byte >>> 8).setWidth 8)
    have hrest := ih (h.transmitByte (by omega) byte) (by simp [symbolBytes]; omega)
    have hplaces : (transmitByteUses transBuf byte).filterMap Use.place =
        [done.length, done.length + 1] := by
      have hput := hfirst.put_eq
      rw [List.length_append, List.length_singleton] at hput
      show [transBuf.put, _] = _
      rw [hput, h.put_eq]
    have hcount : 2 * (bytes.length + 1) = 2 * bytes.length + 1 + 1 := by omega
    have hsymbol : (done ++ symbolBytes byte).length = done.length + 1 + 1 := List.length_append
    rw [hsymbol] at hrest
    rw [transmitBytesUses, List.filterMap_append, hplaces, hrest, hcount]
    rfl

/-! ## The transmitter -/

namespace Transmitter

theorem mem_readCharUses {t : Transmitter} (h : t.Inv) (c : Byte) :
    ∀ use ∈ t.readCharUses c, use.InRange := by
  have hle := h.dataCur_le
  have hcur : (Use.index .dataBuf t.dataCur).InRange := Nat.lt_of_le_of_lt hle (by decide)
  have hzero : (Use.index .dataBuf 0).InRange := by
    show 0 < phMsgSize
    decide
  intro use huse
  unfold readCharUses at huse
  split at huse
  · rcases List.mem_cons.mp huse with rfl | hblank
    · exact hcur
    · split at hblank
      · rw [List.mem_singleton.mp hblank]
        exact hzero
      · cases hblank
  · split at huse
    · rw [List.mem_singleton.mp huse]
      exact hcur
    · cases huse

theorem length_createPacket (t : Transmitter) :
    t.createPacket.length = BitVec.ofNat 8 t.dataCur := by
  unfold createPacket
  rw [phCreate_true]
  dsimp only
  split <;> rfl

theorem toNat_dataCur {t : Transmitter} (h : t.dataCur ≤ phMsgSize - 1) :
    (BitVec.ofNat 8 t.dataCur).toNat = t.dataCur := by
  rw [BitVec.toNat_ofNat, Nat.mod_eq_of_lt]
  exact Nat.lt_of_le_of_lt h (by decide)

theorem mem_transmitPacketUses {t : Transmitter} (hvalid : Ringbuffer.Valid t.transBuf)
    (hcur : t.dataCur ≤ phMsgSize - 1) : ∀ use ∈ t.transmitPacketUses, use.InRange := by
  have hle : t.dataCur ≤ phMsgSize := hcur.trans (Nat.sub_le _ _)
  intro use huse
  unfold transmitPacketUses phCreateUses transmitMessageUses at huse
  rw [length_createPacket, toNat_dataCur hcur] at huse
  simp only [List.mem_append] at huse
  rcases huse with ((hcopy | hcrc) | hnul) | hmsg | hput
  · exact mem_memcpyUses hle (by rw [Nat.zero_add]; exact hle) use hcopy
  · exact mem_phComputeCrc8Uses _ hle use hcrc
  · split at hnul
    · next hshort =>
      rw [List.mem_singleton.mp hnul]
      exact hshort.trans_le (Nat.sub_le _ _)
    · cases hnul
  · exact mem_indexRange .pktMsg hle use hmsg
  · exact mem_transmitBytesUses hvalid _ use hput

theorem mem_transmitRawUses {t : Transmitter} (hvalid : Ringbuffer.Valid t.transBuf)
    (hcur : t.dataCur ≤ phMsgSize - 1) : ∀ use ∈ t.transmitRawUses, use.InRange := by
  intro use huse
  unfold transmitRawUses at huse
  split at huse
  · next hroom =>
    have hlt : t.dataCur < phMsgSize := hroom.trans_le (Nat.sub_le _ _)
    simp only [List.mem_cons, List.mem_append, List.cons_append] at huse
    rcases huse with rfl | hread | hput
    · exact hlt
    · exact mem_indexRange .dataBuf hlt use hread
    · exact mem_transmitBytesUses hvalid _ use hput
  · rcases List.mem_append.mp huse with hread | hput
    · exact mem_indexRange .dataBuf (hcur.trans (Nat.sub_le _ _)) use hread
    · exact mem_transmitBytesUses hvalid _ use hput

theorem mem_transmitDataUses {t : Transmitter} (hcur : t.dataCur ≤ phMsgSize - 1) :
    ∀ use ∈ t.transmitDataUses, use.InRange := by
  have hvalid := Ringbuffer.valid_reset t.transBuf
  intro use huse
  rcases List.mem_append.mp huse with hload | hclear
  · split at hload
    · exact mem_transmitPacketUses (t := { t with transBuf := Ringbuffer.reset t.transBuf }) hvalid
        hcur use hload
    · exact mem_transmitRawUses (t := { t with transBuf := Ringbuffer.reset t.transBuf }) hvalid
        hcur use hload
  · rw [List.mem_singleton.mp hclear]
    show 0 < phMsgSize
    decide

theorem mem_mainRoutineUpdateUses {t : Transmitter} (h : t.Inv) (state : MonitorState) (c : Byte) :
    ∀ use ∈ t.mainRoutineUpdateUses state c, use.InRange := by
  intro use huse
  unfold mainRoutineUpdateUses at huse
  split at huse
  · rcases List.mem_append.mp huse with hread | hload
    · exact mem_readCharUses h c use hread
    · split at hload
      · exact mem_transmitDataUses (dataCur_readChar_le t c h.dataCur_le) use hload
      · cases hload
  · cases huse

/-- When a bit is driven, its byte has been loaded. -/
theorem mem_tim2IRQHandlerUses {t : Transmitter} (h : t.Inv) (state : MonitorState) :
    (∀ use ∈ t.tim2IRQHandlerUses state, use.InRange) ∧
      (t.tim2IRQHandlerUses state ≠ [] → t.currByte < t.transBuf.put) := by
  unfold tim2IRQHandlerUses
  split
  · simp
  · cases hend : t.atEnd
    · have hbyte := h.not_atEnd_iff.mp hend
      have hput := h.valid.put_lt
      have hbit := h.currBit_lt
      rw [if_neg Bool.false_ne_true]
      refine ⟨?_, fun _ => hbyte⟩
      intro use huse
      split at huse
      · cases huse
      · simp only [List.mem_cons, List.not_mem_nil, or_false] at huse
        rcases huse with rfl | rfl
        · show t.currByte < bufSize
          omega
        · show 0 ≤ (7 - t.currBit : ℤ) ∧ (7 - t.currBit : ℤ) ≤ 7
          omega
    · simp

/-! ### The places of a load -/

theorem place_index {array : CArray} (harray : array ≠ .transBuf) (i : ℕ) :
    (Use.index array i).place = none := by
  cases array with
  | transBuf => exact absurd rfl harray
  | _ => rfl

theorem place_indexRange (array : CArray) (harray : array ≠ .transBuf) (size : ℕ) :
    ((List.range size).map (Use.index array)).filterMap Use.place = [] := by
  apply List.filterMap_eq_nil_iff.mpr
  intro use huse
  obtain ⟨i, -, rfl⟩ := List.mem_map.mp huse
  exact place_index harray i

theorem place_phCreateUses (out : PacketHeader) (msg : Memory) (size : Byte) :
    (phCreateUses out msg size).filterMap Use.place = [] := by
  apply List.filterMap_eq_nil_iff.mpr
  intro use huse
  rcases List.mem_append.mp huse with hcopy | hcrc
  · obtain ⟨i, -, huse⟩ := List.mem_flatMap.mp hcopy
    simp only [List.mem_cons, List.not_mem_nil, or_false] at huse
    rcases huse with rfl | rfl <;> rfl
  · obtain ⟨i, -, huse⟩ := List.mem_flatMap.mp hcrc
    simp only [List.mem_cons, List.not_mem_nil, or_false] at huse
    rcases huse with rfl | rfl <;> rfl

theorem place_transmitPacketUses {t : Transmitter} (hcur : t.dataCur ≤ phMsgSize - 1) :
    t.transmitPacketUses.filterMap Use.place =
      (transmitBytesUses t.transBuf (frameOf true t.src t.dest t.line)).filterMap Use.place := by
  have hmsg := place_indexRange .pktMsg (by decide) t.createPacket.length.toNat
  have hnul : (if t.createPacket.length.toNat < phMsgSize - 1 then
      [Use.index .pktMsg t.createPacket.length.toNat] else []).filterMap Use.place = [] := by
    split <;> rfl
  unfold transmitPacketUses transmitMessageUses
  rw [List.filterMap_append, List.filterMap_append, List.filterMap_append, place_phCreateUses, hnul,
    hmsg, frameBytes_createPacket t hcur]
  rfl

theorem place_transmitRawUses (t : Transmitter) :
    t.transmitRawUses.filterMap Use.place =
      (transmitBytesUses t.transBuf (frameOf false t.src t.dest t.line)).filterMap Use.place := by
  have hraw := place_indexRange .dataBuf (by decide)
  unfold transmitRawUses
  rw [frameOf, if_neg Bool.false_ne_true, length_line]
  by_cases hroom : t.dataCur < phMsgSize - 1
  · have hline := line_setIfInBounds t 0 (hroom.trans_le (Nat.sub_le _ _))
    rw [if_pos hroom, if_pos hroom]
    dsimp only
    rw [List.filterMap_append, List.filterMap_cons_none (place_index (by decide) _), hraw, hline]
    rfl
  · rw [if_neg hroom, if_neg hroom, List.filterMap_append, hraw, List.append_nil]
    rfl

/-- A load writes the places of `transBuf` one after the other, from the first one on. -/
theorem place_transmitDataUses {t : Transmitter} (hcur : t.dataCur ≤ phMsgSize - 1) :
    t.transmitDataUses.filterMap Use.place =
      List.range (2 * (frameOf t.packetMode t.src t.dest t.line).length) := by
  have hle : (frameOf t.packetMode t.src t.dest t.line).length ≤ 261 :=
    length_frameOf_le _ _ _ (by rw [length_line]; exact hcur)
  have hsize : bufSize = 1028 := rfl
  have hload := place_transmitBytesUses (loaded_reset t.transBuf)
    (frameOf t.packetMode t.src t.dest t.line) (by rw [List.length_nil]; omega)
  have hclear : [Use.index .dataBuf 0].filterMap Use.place = [] := rfl
  rw [List.length_nil, ← List.range_eq_range'] at hload
  unfold transmitDataUses
  rw [← hload, List.filterMap_append, hclear, List.append_nil]
  dsimp only
  cases hmode : t.packetMode
  · exact place_transmitRawUses { t with transBuf := Ringbuffer.reset t.transBuf }
  · exact place_transmitPacketUses (t := { t with transBuf := Ringbuffer.reset t.transBuf }) hcur

theorem place_readCharUses (t : Transmitter) (c : Byte) :
    (t.readCharUses c).filterMap Use.place = [] := by
  unfold readCharUses
  split
  · split <;> rfl
  · split <;> rfl

/-- A call of the main routine loads a message without wrapping around, or does not write to
`transBuf` at all. -/
theorem place_mainRoutineUpdateUses {t : Transmitter} (h : t.Inv) (state : MonitorState) (c : Byte)
    (random : ℕ) :
    (t.mainRoutineUpdateUses state c).filterMap Use.place = [] ∨
      ∃ k < bufSize, (t.mainRoutineUpdateUses state c).filterMap Use.place = List.range k ∧
        (t.mainRoutineUpdate state c random).transBuf.put = k := by
  have hcur := dataCur_readChar_le t c h.dataCur_le
  unfold mainRoutineUpdateUses
  split
  · next hreads =>
    rw [List.filterMap_append, place_readCharUses, List.nil_append]
    split
    · next hloads =>
      right
      obtain ⟨hidle, hgot⟩ : state = .idle ∧ (t.readChar c).gotMessage = true := by
        simpa using hloads
      have heq : t.mainRoutineUpdate state c random = (t.readChar c).transmitData := by
        obtain ⟨hr, -, -⟩ | ⟨-, hno, -⟩ | ⟨-, -, -, heq⟩ | ⟨-, hc', -, -⟩ :=
          t.mainRoutineUpdate_cases state c random
        · exact absurd (hreads.symm.trans hr) (by simp)
        · exact absurd ⟨hidle, hgot⟩ hno
        · exact heq
        · simp [readsChar, hc'] at hreads
      have hput := (loaded_transmitData (t.readChar c) hcur).put_eq
      rw [length_flatMap_symbolBytes] at hput
      have hle : (frameOf (t.readChar c).packetMode (t.readChar c).src (t.readChar c).dest
          (t.readChar c).line).length ≤ 261 :=
        length_frameOf_le _ _ _ (by rw [length_line]; exact hcur)
      have hsize : bufSize = 1028 := rfl
      refine ⟨_, ?_, place_transmitDataUses hcur, ?_⟩
      · omega
      · rw [heq]
        exact hput
    · exact Or.inl rfl
  · exact Or.inl rfl

end Transmitter

/-! ## The receiver -/

namespace Receiver

theorem mem_edgeUses {r : Receiver} (h : r.Inv) : ∀ use ∈ r.edgeUses, use.InRange := by
  have hbit := h.currBit_lt
  intro use huse
  unfold edgeUses at huse
  split at huse
  · rcases List.mem_cons.mp huse with rfl | hput
    · show 0 ≤ (7 - r.currBit : ℤ) ∧ (7 - r.currBit : ℤ) ≤ 7
      omega
    · split at hput
      · rw [List.mem_singleton.mp hput]
        exact h.valid.put_lt
      · cases hput
  · cases huse

theorem mem_readLoopUses (n : ℕ) {r : Receiver} (h : r.Inv) :
    ∀ use ∈ readLoopUses n r, use.InRange := by
  induction n generalizing r with
  | zero => simp [readLoopUses]
  | succ n ih =>
    intro use huse
    unfold readLoopUses at huse
    split at huse
    · next hcond =>
      have hroom : r.msgCur < sizeofPacketHeader := by
        simp only [Bool.and_eq_true, decide_eq_true_eq] at hcond
        exact hcond.2
      rcases List.mem_append.mp huse with hnow | hlater
      · simp only [List.mem_cons, List.not_mem_nil, or_false] at hnow
        rcases hnow with rfl | rfl
        · exact hroom
        · exact h.valid.get_lt
      · exact ih (h.readElement hroom) use hlater
    · cases huse

/-- The copy of a message is bounded by its length byte, whatever the other side has sent. -/
theorem mem_phParseUses (out : PacketHeader) (buf : Memory) {size : ℕ}
    (hsize : size ≤ sizeofPacketHeader) : ∀ use ∈ phParseUses out buf size, use.InRange := by
  have hmsg : phMsgSize = 255 := rfl
  have hheader : sizeofPacketHeader = 262 := rfl
  have hlength : (buf 4).toNat ≤ phMsgSize := by
    have := (buf 4).isLt
    omega
  have hlast : 0 < size → (Use.index .msgBuf (size - 1)).InRange := by
    intro hpos
    show size - 1 < sizeofPacketHeader
    omega
  intro use huse
  unfold phParseUses at huse
  split at huse
  · cases huse
  · next hlong =>
    have hpos : 0 < size := by omega
    rcases List.mem_append.mp huse with hfields | hrest
    · exact mem_indexRange .msgBuf (by show 6 ≤ sizeofPacketHeader; omega) use hfields
    · split at hrest
      · cases hrest
      · rcases List.mem_append.mp hrest with hcopy | hcrc
        · rcases List.mem_append.mp hcopy with hcopy | hflag
          · exact mem_memcpyUses hlength (by show 6 + _ ≤ sizeofPacketHeader; omega) use hcopy
          · split at hflag
            · rw [List.mem_singleton.mp hflag]
              exact hlast hpos
            · cases hflag
        · split at hcrc
          · cases hcrc
          · rcases List.mem_cons.mp hcrc with rfl | hcrc
            · exact hlast hpos
            · exact mem_phComputeCrc8Uses _ hlength use hcrc

theorem mem_mainRoutineUpdateUses {r : Receiver} (h : r.Inv) (state : MonitorState) :
    ∀ use ∈ r.mainRoutineUpdateUses state, use.InRange := by
  have hbefore := h.beforeDelivery state
  have hstart : Inv { r.beforeDelivery state with msgCur := 0 } :=
    { hbefore with msgCur_le := Nat.zero_le _ }
  obtain ⟨hread, -, -⟩ := readLoop_contract sizeofPacketHeader hstart
  intro use huse
  unfold mainRoutineUpdateUses deliverUses at huse
  dsimp only at huse
  split at huse
  · rcases List.mem_append.mp huse with hloop | hdisplay
    · exact mem_readLoopUses sizeofPacketHeader hstart use hloop
    · generalize readLoop sizeofPacketHeader { r.beforeDelivery state with msgCur := 0 } = r' at *
      split at hdisplay
      · rcases List.mem_append.mp hdisplay with hparse | hnul
        · exact mem_phParseUses _ _ hread.msgCur_le use hparse
        · split at hnul
          · next hshort =>
            rw [List.mem_singleton.mp hnul]
            exact hshort.trans_le (Nat.sub_le _ _)
          · cases hnul
      · unfold displayRawUses at hdisplay
        split at hdisplay
        · next hshort =>
          rw [List.mem_singleton.mp hdisplay]
          have hmsg : phMsgSize = 255 := rfl
          show r'.msgCur + 1 < 7 + phMsgSize
          omega
        · cases hdisplay
  · cases huse

end Receiver

/-! ## Runs -/

namespace Node

theorem mem_uses {n : Node} (htx : n.tx.Inv) (hrx : n.rx.Inv) (e : Event) :
    ∀ use ∈ n.uses e, use.InRange := by
  cases e with
  | transmitterUpdate c random => exact Transmitter.mem_mainRoutineUpdateUses htx _ c
  | receiverUpdate => exact Receiver.mem_mainRoutineUpdateUses hrx _
  | tim2 => exact (Transmitter.mem_tim2IRQHandlerUses htx _).1
  | exti4 level => exact Receiver.mem_edgeUses hrx
  | tim4 =>
    intro use huse
    cases huse
  | sysTick =>
    intro use huse
    cases huse

/-- **Every index and every shift amount is in range.** In every state reached from boot, in both
modes, whatever the next event uses is in range; if it writes to `transBuf` it loads a message from
the first place on, one place after the other, and `put` is the number of places written; if it
drives a half-bit, this is from a place before `put`. -/
theorem inRange_of_run {src dest : Byte} {packetMode pin line : Bool} {es : List Event} {n : Node}
    (hrun : (boot src dest packetMode pin line).run es = some n) (e : Event) :
    (∀ use ∈ n.uses e, use.InRange) ∧
      (∀ c random, e = .transmitterUpdate c random →
        (n.uses e).filterMap Use.place = [] ∨
          ∃ k < bufSize, (n.uses e).filterMap Use.place = List.range k ∧
            (n.transmitterUpdate c random).tx.transBuf.put = k) ∧
      (e = .tim2 → n.uses e ≠ [] → n.tx.currByte < n.tx.transBuf.put) := by
  have htx := inv_of_run hrun
  have hrx := rxInv_of_run (Receiver.inv_init packetMode) hrun
  refine ⟨mem_uses htx hrx e, ?_, ?_⟩
  · rintro c random rfl
    exact Transmitter.place_mainRoutineUpdateUses htx n.mon.getState c random
  · rintro rfl
    exact (Transmitter.mem_tim2IRQHandlerUses htx n.mon.getState).2

/-- The `'\r'` after a first character loads the packet of the line. -/
theorem inRange_typedA :
    ∃ n, (boot 0xAA 0xBB true true true).run [.transmitterUpdate 0x61 0] = some n ∧
      (n.uses (.transmitterUpdate carriageReturn 0) ≠ [] ∧
        ∀ use ∈ n.uses (.transmitterUpdate carriageReturn 0), use.InRange) := by
  have hrun : (boot 0xAA 0xBB true true true).run [.transmitterUpdate 0x61 0] =
      some ((boot 0xAA 0xBB true true true).transmitterUpdate 0x61 0) := rfl
  refine ⟨_, hrun, ?_, (inRange_of_run hrun (.transmitterUpdate carriageReturn 0)).1⟩
  exact List.append_ne_nil_of_left_ne_nil (List.cons_ne_nil _ _) _

end Node

end NetworkingCard
