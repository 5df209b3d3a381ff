import NetworkingCard.Library.Bits
import NetworkingCard.Library.LineCode
import NetworkingCard.Transmitter

/-!
# What the transmitter's routines do

* the Manchester symbol of a byte is the line code of its bits (`msbFirst_symbol`), so the bits of
  a loaded buffer are the line code of the frame (`flatMap_msbFirst_symbolBytes`);
* `readChar` and `transmitData` in terms of the line typed so far (`readChar_other`,
  `transBuf_transmitData`): what is transmitted is `frameOf` of that line;
* the case lemmas `mainRoutineUpdate_cases` and `tim2IRQHandler_cases`, which every invariant of
  the transmitter goes through.
-/

namespace NetworkingCard

/-! ## Manchester symbols -/

/-- The two buffer bytes of a byte's Manchester symbol. -/
def symbolBytes (byte : Byte) : List Byte :=
  [(encodeManchester byte >>> 8).setWidth 8, (encodeManchester byte &&& 0xFF).setWidth 8]

/-- The symbol, sent most significant bit first, is the line code of the byte's bits. -/
theorem msbFirst_symbol : ∀ byte : Byte,
    (symbolBytes byte).flatMap Bits.msbFirst = LineCode.encode (Bits.msbFirst byte) := by
  decide +kernel

/-- `transBuf.buffer[0 .. put)`. -/
def stored (buffer : RingBuffer Byte) : List Byte :=
  (List.range buffer.put).map (Ringbuffer.cell buffer)

/-- The bits of `transBuf.buffer[0 .. put)`, most significant first. -/
def bitsOf (buffer : RingBuffer Byte) : List Bool := (stored buffer).flatMap Bits.msbFirst

@[simp] theorem length_stored (buffer : RingBuffer Byte) :
    (stored buffer).length = buffer.put := by
  rw [stored, List.length_map, List.length_range]

@[simp] theorem length_bitsOf (buffer : RingBuffer Byte) :
    (bitsOf buffer).length = 8 * buffer.put := by
  rw [bitsOf, Bits.length_flatMap_msbFirst, length_stored]

theorem stored_put {buffer : RingBuffer Byte} (h : Ringbuffer.Valid buffer)
    (hroom : buffer.put + 1 < bufSize) (element : Byte) :
    stored (Ringbuffer.put buffer element) = stored buffer ++ [element] := by
  have hput : (Ringbuffer.put buffer element).put = buffer.put + 1 := by
    rw [Ringbuffer.put_eq]
    exact if_neg (by omega)
  rw [stored, hput, Ringbuffer.cell_put h, List.range_succ, List.map_append, stored]
  congr 1
  · refine List.map_congr_left fun i hi => Function.update_of_ne ?_ _ _
    have := List.mem_range.mp hi
    omega
  · rw [List.map_singleton, Function.update_self]

/-- A buffer that was reset and then filled from index 0, without wrapping. -/
structure Loaded (buffer : RingBuffer Byte) (bytes : List Byte) : Prop where
  valid : Ringbuffer.Valid buffer
  get_eq : buffer.get = 0
  stored_eq : stored buffer = bytes

theorem Loaded.put_eq {buffer : RingBuffer Byte} {bytes : List Byte} (h : Loaded buffer bytes) :
    buffer.put = bytes.length := by
  rw [← h.stored_eq, length_stored]

theorem loaded_reset (buffer : RingBuffer Byte) : Loaded (Ringbuffer.reset buffer) [] :=
  ⟨Ringbuffer.valid_reset buffer, rfl, rfl⟩

theorem Loaded.put {buffer : RingBuffer Byte} {bytes : List Byte} (h : Loaded buffer bytes)
    (hroom : bytes.length + 1 < bufSize) (element : Byte) :
    Loaded (Ringbuffer.put buffer element) (bytes ++ [element]) := by
  refine ⟨h.valid.put element, ?_, ?_⟩
  · rw [Ringbuffer.put_eq]
    exact h.get_eq
  · rw [stored_put h.valid (by rw [h.put_eq]; exact hroom), h.stored_eq]

theorem Loaded.transmitByte {buffer : RingBuffer Byte} {bytes : List Byte}
    (h : Loaded buffer bytes) (hroom : bytes.length + 2 < bufSize) (byte : Byte) :
    Loaded (transmitByte buffer byte) (bytes ++ symbolBytes byte) := by
  have h1 := h.put (by omega) ((encodeManchester byte >>> 8).setWidth 8)
  have h2 := h1.put (by simp; omega) ((encodeManchester byte &&& 0xFF).setWidth 8)
  rw [List.append_assoc] at h2
  exact h2

theorem length_flatMap_symbolBytes (bytes : List Byte) :
    (bytes.flatMap symbolBytes).length = 2 * bytes.length := by
  induction bytes with
  | nil => rfl
  | cons b bytes ih =>
    rw [List.flatMap_cons, List.length_append, ih, List.length_cons]
    simp only [symbolBytes, List.length_cons, List.length_nil]
    omega

theorem Loaded.transmitBytes {buffer : RingBuffer Byte} {bytes : List Byte}
    (h : Loaded buffer bytes) (frame : List Byte)
    (hroom : bytes.length + 2 * frame.length < bufSize) :
    Loaded (frame.foldl NetworkingCard.transmitByte buffer)
      (bytes ++ frame.flatMap symbolBytes) := by
  induction frame generalizing buffer bytes with
  | nil => simpa using h
  | cons b frame ih =>
    rw [List.length_cons] at hroom
    rw [List.foldl_cons, List.flatMap_cons, ← List.append_assoc]
    exact ih (h.transmitByte (by omega) b) (by simp [symbolBytes]; omega)

/-- The bits of a loaded frame are the line code of its bits. -/
theorem flatMap_msbFirst_symbolBytes (frame : List Byte) :
    (frame.flatMap symbolBytes).flatMap Bits.msbFirst =
      LineCode.encode (frame.flatMap Bits.msbFirst) := by
  induction frame with
  | nil => rfl
  | cons b frame ih =>
    rw [List.flatMap_cons, List.flatMap_append, ih, msbFirst_symbol, List.flatMap_cons,
      LineCode.encode_append]

namespace Transmitter

/-! ## The line typed so far and the frame made of it -/

/-- The characters of the current line that the data buffer holds. -/
def line (t : Transmitter) : List Byte := (List.range t.dataCur).map (memory t.dataBuf)

/-- The bytes transmitted for a line: a packet, or the raw line with a NUL if there is room. -/
def frameOf (packetMode : Bool) (src dest : Byte) (payload : List Byte) : List Byte :=
  if packetMode then
    [0x55, 0x01, src, dest, BitVec.ofNat 8 payload.length, 1] ++ payload ++
      [phComputeCrc8 (fun i => payload[i]?.getD 0) payload.length]
  else payload ++ if payload.length < phMsgSize - 1 then [0] else []

@[simp] theorem length_line (t : Transmitter) : t.line.length = t.dataCur := by
  rw [line, List.length_map, List.length_range]

theorem getElem?_line (t : Transmitter) {i : ℕ} (hi : i < t.dataCur) :
    t.line[i]? = some (memory t.dataBuf i) := by
  rw [line, List.getElem?_map, List.getElem?_range hi, Option.map_some]

theorem length_frameOf_pos (packetMode : Bool) (src dest : Byte) {line : List Byte}
    (h : line ≠ []) : 0 < (frameOf packetMode src dest line).length := by
  have := List.length_pos_iff.mpr h
  unfold frameOf
  split
  · simp
  · rw [List.length_append]
    omega

theorem length_frameOf_le (packetMode : Bool) (src dest : Byte) {line : List Byte}
    (h : line.length ≤ phMsgSize - 1) : (frameOf packetMode src dest line).length ≤ 261 := by
  unfold frameOf phMsgSize at *
  split
  · simp
    omega
  · rw [List.length_append]
    split <;> simp <;> omega

theorem line_setIfInBounds (t : Transmitter) (c : Byte) (h : t.dataCur < phMsgSize) :
    (List.range (t.dataCur + 1)).map (memory (t.dataBuf.setIfInBounds t.dataCur c)) =
      t.line ++ [c] := by
  rw [List.range_succ, List.map_append, List.map_singleton, line]
  congr 1
  · refine List.map_congr_left fun i hi => ?_
    rw [memory_setIfInBounds _ _ _ _ h, if_neg (Nat.ne_of_gt (List.mem_range.mp hi))]
  · rw [memory_setIfInBounds _ _ _ _ h, if_pos rfl]

/-! ## Reading a character -/

/-- The reading of a character changes the line and its flag, and nothing else. -/
theorem readChar_frame (t : Transmitter) (c : Byte) :
    t.readChar c = { t with dataBuf := (t.readChar c).dataBuf, dataCur := (t.readChar c).dataCur,
                            gotMessage := (t.readChar c).gotMessage } := by
  unfold readChar
  dsimp only
  split
  · split <;> rfl
  · split <;> rfl

/-- A line that `strcmp` takes for the empty one: it starts with NUL or has no characters. -/
def blank (line : List Byte) : Bool := cString line = []

theorem strcmpEqual_empty (bytes : List Byte) :
    strcmpEqual bytes [0, 0x65, 0, 0x70, 0] = blank bytes := by
  rw [strcmpEqual, blank, show cString [0, 0x65, 0, 0x70, 0] = [] from rfl]

theorem blank_iff (chars : List Byte) : blank chars = true ↔ chars[0]?.getD 0 = 0 := by
  cases chars with
  | nil => simp [blank, cString]
  | cons b chars => simp [blank, cString, List.takeWhile_cons]

theorem blank_toList {n : ℕ} (v : Vector Byte n) (chars : List Byte)
    (h : memory v 0 = chars[0]?.getD 0) : blank v.toList = blank chars := by
  rw [Bool.eq_iff_iff, blank_iff, blank_iff, ← h, memory, ← Vector.getElem?_toList]

/-- The first byte of the buffer after `'\r'` has been replaced by NUL. -/
theorem memory_terminated (t : Transmitter) (h : t.dataCur < phMsgSize) :
    memory (t.dataBuf.setIfInBounds t.dataCur 0) 0 = t.line[0]?.getD 0 := by
  rw [memory_setIfInBounds _ _ _ _ h]
  by_cases h0 : t.dataCur = 0
  · rw [if_pos h0, List.getElem?_eq_none (by rw [length_line]; omega), Option.getD_none]
  · rw [if_neg h0, getElem?_line t (by omega), Option.getD_some]

/-- A `'\r'` finishes the line, unless it counts as empty: then the line is forgotten. -/
theorem readChar_return (t : Transmitter) (h : t.dataCur < phMsgSize) :
    (t.readChar carriageReturn).gotMessage = !blank t.line ∧
      (t.readChar carriageReturn).line = if blank t.line then [] else t.line := by
  have hblank := blank_toList _ _ (memory_terminated t h)
  unfold readChar
  rw [if_pos rfl]
  dsimp only
  rw [strcmpEqual_empty, hblank]
  cases hb : blank t.line
  · refine ⟨rfl, ?_⟩
    rw [if_neg (by simp), if_neg (by simp), line, line]
    refine List.map_congr_left fun i hi => ?_
    rw [memory_setIfInBounds _ _ _ _ h, if_neg (Nat.ne_of_gt (List.mem_range.mp hi))]
  · exact ⟨rfl, rfl⟩

/-- Any other character is appended to the line, which is cut to what the buffer holds. -/
theorem readChar_other (t : Transmitter) {c : Byte} (hc : c ≠ carriageReturn)
    (h : t.dataCur ≤ phMsgSize - 1) :
    (t.readChar c).gotMessage = t.gotMessage ∧
      (t.readChar c).line = (t.line ++ [c]).take (phMsgSize - 1) := by
  unfold readChar
  rw [if_neg hc]
  by_cases hroom : t.dataCur < phMsgSize - 1
  · rw [if_pos hroom]
    refine ⟨rfl, ?_⟩
    rw [List.take_of_length_le (by simp; omega)]
    exact line_setIfInBounds t c (by omega)
  · rw [if_neg hroom]
    refine ⟨rfl, ?_⟩
    -- the buffer is full, so the line is cut
    rw [List.take_append_of_le_length (by rw [length_line]; omega),
      List.take_of_length_le (by rw [length_line]; exact h)]

theorem dataCur_readChar_le (t : Transmitter) (c : Byte) (h : t.dataCur ≤ phMsgSize - 1) :
    (t.readChar c).dataCur ≤ phMsgSize - 1 := by
  have hlt : t.dataCur < phMsgSize := by
    unfold phMsgSize at *
    omega
  rw [← length_line]
  by_cases hc : c = carriageReturn
  · rw [hc, (readChar_return t hlt).2]
    split
    · exact Nat.zero_le _
    · rwa [length_line]
  · rw [(readChar_other t hc h).2, List.length_take]
    exact Nat.min_le_left _ _

/-! ## Loading a line -/

/-- The packet created for a line, in sending order. -/
theorem frameBytes_createPacket (t : Transmitter) (h : t.dataCur ≤ phMsgSize - 1) :
    frameBytes t.createPacket = frameOf true t.src t.dest t.line := by
  have hlen : (BitVec.ofNat 8 t.dataCur).toNat = t.dataCur := by
    rw [BitVec.toNat_ofNat, Nat.mod_eq_of_lt]
    unfold phMsgSize at h
    omega
  have hle : t.dataCur ≤ phMsgSize := h.trans (Nat.sub_le _ _)
  -- the created message is the line, and so is its terminated copy
  have hmsg : ∀ i < t.dataCur,
      memory (memcpy t.pkt.msg (memory t.dataBuf) t.dataCur) i = t.line[i]?.getD 0 := by
    intro i hi
    rw [memory_memcpy _ _ hle hi, getElem?_line t hi, Option.getD_some]
  have hline : (List.range t.dataCur).map
      (memory (memcpy t.pkt.msg (memory t.dataBuf) t.dataCur)) = t.line :=
    List.map_congr_left fun i hi => by
      rw [hmsg i (List.mem_range.mp hi), getElem?_line t (List.mem_range.mp hi), Option.getD_some]
  have hterm : (List.range t.dataCur).map (memory
      ((memcpy t.pkt.msg (memory t.dataBuf) t.dataCur).setIfInBounds t.dataCur 0)) = t.line := by
    rw [← hline]
    refine List.map_congr_left fun i hi => ?_
    have := List.mem_range.mp hi
    rw [memory_setIfInBounds _ _ _ _ (by unfold phMsgSize at *; omega), if_neg (by omega)]
  rw [createPacket, phCreate_true, frameOf, if_pos rfl, length_line, hlen, phComputeCrc8_congr hmsg]
  split
  · rw [frameBytes]
    dsimp only
    rw [hlen, hterm]
  · rw [frameBytes]
    dsimp only
    rw [hlen, hline]

/-- The packet does not depend on the transmission's own state. -/
theorem createPacket_congr (t : Transmitter) (currByte : ℕ) (gotMessage : Bool)
    (transBuf : RingBuffer Byte) :
    createPacket { t with currByte := currByte, gotMessage := gotMessage, transBuf := transBuf } =
      t.createPacket := rfl

theorem transmitPacket_frame (t : Transmitter) :
    t.transmitPacket = { t with pkt := t.createPacket, console := t.transmitPacket.console,
                                transBuf := transmitMessage t.transBuf t.createPacket } := rfl

theorem transmitRaw_frame (t : Transmitter) :
    t.transmitRaw = { t with dataBuf := t.transmitRaw.dataBuf, dataCur := t.transmitRaw.dataCur,
                             console := t.transmitRaw.console,
                             transBuf := t.transmitRaw.transBuf } := by
  unfold transmitRaw
  dsimp only
  split <;> rfl

theorem transBuf_transmitRaw (t : Transmitter) :
    t.transmitRaw.transBuf =
      (frameOf false t.src t.dest t.line).foldl transmitByte t.transBuf := by
  rw [frameOf, if_neg (by simp), length_line]
  unfold transmitRaw
  dsimp only
  by_cases hroom : t.dataCur < phMsgSize - 1
  · rw [if_pos hroom, if_pos hroom]
    dsimp only [printf]
    rw [line_setIfInBounds t 0 (hroom.trans_le (Nat.sub_le _ _))]
  · rw [if_neg hroom, if_neg hroom, List.append_nil]
    rfl

/-- Loading a line changes the buffers, the byte position and the flags; the bit position stays. -/
theorem transmitData_frame (t : Transmitter) :
    t.transmitData =
      { t with currByte := 0, gotMessage := false, inTransmission := true, dataCur := 0,
               tim2 := t.tim2.clearCnt.startCounter, transBuf := t.transmitData.transBuf,
               pkt := t.transmitData.pkt, dataBuf := t.transmitData.dataBuf,
               console := t.transmitData.console } := by
  unfold transmitData startTransmission
  dsimp only
  split
  · rw [transmitPacket_frame]
  · rw [transmitRaw_frame]

theorem transBuf_transmitData (t : Transmitter) (h : t.dataCur ≤ phMsgSize - 1) :
    t.transmitData.transBuf =
      (frameOf t.packetMode t.src t.dest t.line).foldl transmitByte
        (Ringbuffer.reset t.transBuf) := by
  unfold transmitData startTransmission
  dsimp only
  by_cases hmode : t.packetMode = true
  · rw [if_pos hmode, transmitPacket_frame]
    dsimp only
    rw [transmitMessage, createPacket_congr, frameBytes_createPacket t h, hmode]
  · rw [if_neg hmode, transBuf_transmitRaw, Bool.eq_false_of_not_eq_true hmode]
    rfl

/-- The buffer after a load holds the symbols of the line's frame. -/
theorem loaded_transmitData (t : Transmitter) (h : t.dataCur ≤ phMsgSize - 1) :
    Loaded t.transmitData.transBuf
      ((frameOf t.packetMode t.src t.dest t.line).flatMap symbolBytes) := by
  rw [transBuf_transmitData t h]
  have hle : (frameOf t.packetMode t.src t.dest t.line).length ≤ 261 :=
    length_frameOf_le _ _ _ (by rwa [length_line])
  exact (loaded_reset t.transBuf).transmitBytes _ (by unfold bufSize; simp; omega)

/-! ## The two routines by cases -/

/-- What a call of the main routine can do: nothing, read a character, read the one that finishes
a line and load it, or start a back-off. -/
theorem mainRoutineUpdate_cases (t : Transmitter) (state : MonitorState) (c : Byte) (random : ℕ) :
    (t.readsChar = false ∧ ¬(state = .idle ∧ t.inTransmission = false) ∧
        t.mainRoutineUpdate state c random = t) ∨
      (t.readsChar = true ∧ ¬(state = .idle ∧ (t.readChar c).gotMessage = true) ∧
        t.mainRoutineUpdate state c random = t.readChar c) ∨
      (t.readsChar = true ∧ state = .idle ∧ (t.readChar c).gotMessage = true ∧
        t.mainRoutineUpdate state c random = (t.readChar c).transmitData) ∨
      (t.inTransmission = false ∧ t.transmissionComplete = false ∧ state = .idle ∧
        t.mainRoutineUpdate state c random = t.retransmit random) := by
  have hframe : (t.readChar c).inTransmission = t.inTransmission := by rw [readChar_frame]
  unfold mainRoutineUpdate readsChar
  cases htx : t.inTransmission <;> cases hcomplete : t.transmissionComplete <;>
    simp [hframe, htx]
  · by_cases hidle : state = .idle <;> simp [hidle]
  · by_cases hidle : state = .idle <;> cases hgot : (t.readChar c).gotMessage <;> simp [hidle]

theorem atEnd_tim2 (t : Transmitter) (tim2 : Tim) : { t with tim2 := tim2 }.atEnd = t.atEnd := rfl

/-- What the timer interrupt can do: end a back-off, end the message, give up after a collision,
or drive one half-bit. -/
theorem tim2IRQHandler_cases (t : Transmitter) (state : MonitorState) :
    (t.retransmissionTimeoutActive = true ∧
        t.tim2IRQHandler state = { t with
          retransmissionTimeoutActive := false, inTransmission := true,
          tim2 := { t.tim2 with uif := false, cen := true, cnt := 0, psc := 0,
                                arr := transmissionTicks, ccr1 := transmissionTicks } }) ∨
      (t.retransmissionTimeoutActive = false ∧ t.atEnd = true ∧
        t.tim2IRQHandler state = { t with
          inTransmission := false, transmissionComplete := true, pin := true,
          tim2 := { t.tim2 with uif := false, cen := false } }) ∨
      (t.retransmissionTimeoutActive = false ∧ t.atEnd = false ∧ state = .collision ∧
        t.tim2IRQHandler state = { t with
          inTransmission := false, transmissionComplete := false, pin := true,
          tim2 := { t.tim2 with uif := false, cen := false } }) ∨
      (t.retransmissionTimeoutActive = false ∧ t.atEnd = false ∧ state ≠ .collision ∧
        t.tim2IRQHandler state = { t with
          pin := t.nextHalfBit, tim2 := { t.tim2 with uif := false },
          currBit := if t.currBit + 1 = 8 then 0 else t.currBit + 1,
          currByte := if t.currBit + 1 = 8 then t.currByte + 1 else t.currByte }) := by
  by_cases hto : t.retransmissionTimeoutActive = true
  · exact Or.inl ⟨hto, if_pos hto⟩
  rw [Bool.not_eq_true] at hto
  have htail : t.tim2IRQHandler state =
      let t := { t with tim2 := t.tim2.clearOutputCmpModePendingFlag }
      if t.atEnd then { t.stopTransmission with transmissionComplete := true }
      else if state = .collision then { t.stopTransmission with transmissionComplete := false }
      else t.transmitBit := if_neg (by simp [hto])
  rw [htail]
  by_cases hat : t.atEnd = true
  · exact Or.inr (Or.inl ⟨hto, hat, if_pos hat⟩)
  rw [Bool.not_eq_true] at hat
  by_cases hs : state = .collision
  · exact Or.inr (Or.inr (Or.inl ⟨hto, hat, hs,
      (if_neg (by simp [atEnd_tim2, hat])).trans (if_pos hs)⟩))
  refine Or.inr (Or.inr (Or.inr ⟨hto, hat, hs, ?_⟩))
  refine (if_neg (by simp [atEnd_tim2, hat])).trans ((if_neg hs).trans ?_)
  unfold transmitBit
  dsimp only
  split <;> rfl

end Transmitter

end NetworkingCard
