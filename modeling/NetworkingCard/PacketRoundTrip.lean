import NetworkingCard.PacketFormat

/-!
# Sending and parsing a packet

* `phParse_phCreate`: what `ph_create` builds and `transmitMessage` sends, `ph_parse` reads back;
* `frameBytes_phParse`: what `ph_parse` accepts is sent again without the bytes between the
  message and the last byte, so as it was received only in a buffer of the packet's own size.
-/

namespace NetworkingCard

/-- Two packets agree in everything that is sent of them. -/
structure PacketHeader.SameFrame (pkt pkt' : PacketHeader) : Prop where
  synch : pkt.synch = pkt'.synch
  ver : pkt.ver = pkt'.ver
  src : pkt.src = pkt'.src
  dest : pkt.dest = pkt'.dest
  length : pkt.length = pkt'.length
  crcFlag : pkt.crcFlag = pkt'.crcFlag
  msg : ∀ i < pkt.length.toNat, memory pkt.msg i = memory pkt'.msg i
  crc8Fcs : pkt.crc8Fcs = pkt'.crc8Fcs

theorem frameBytes_eq_iff (pkt pkt' : PacketHeader) :
    frameBytes pkt = frameBytes pkt' ↔ pkt.SameFrame pkt' := by
  constructor
  · intro h
    unfold frameBytes at h
    simp only [List.cons_append, List.nil_append, List.cons.injEq] at h
    obtain ⟨hsynch, hver, hsrc, hdest, hlength, hflag, hrest⟩ := h
    rw [hlength] at hrest
    obtain ⟨hmsg, hfcs⟩ := List.append_inj hrest (by simp)
    refine ⟨hsynch, hver, hsrc, hdest, hlength, hflag, ?_, List.singleton_inj.mp hfcs⟩
    intro i hi
    rw [hlength] at hi
    exact List.map_inj_left.mp hmsg i (List.mem_range.mpr hi)
  · intro h
    unfold frameBytes
    have hmsg : (List.range pkt.length.toNat).map (memory pkt.msg) =
        (List.range pkt.length.toNat).map (memory pkt'.msg) :=
      List.map_congr_left fun i hi => h.msg i (List.mem_range.mp hi)
    rw [hmsg, h.synch, h.ver, h.src, h.dest, h.length, h.crcFlag, h.crc8Fcs]

/-- A packet read from a buffer is sent as the header and the message in it, and its last byte. -/
theorem PacketHeader.ReadFrom.frameBytes_eq {pkt : PacketHeader} {buf : Memory} {size : ℕ}
    (h : pkt.ReadFrom buf size) :
    frameBytes pkt = (List.range (6 + (buf 4).toNat)).map buf ++ [buf (size - 1)] := by
  have hmsg : (List.range pkt.length.toNat).map (memory pkt.msg) =
      (List.range (buf 4).toNat).map fun i => buf (6 + i) := h.message_eq
  unfold frameBytes
  rw [hmsg, h.synch, h.ver, h.src, h.dest, h.length, h.crcFlag, h.crc8Fcs, List.range_add,
    List.map_append, List.map_map]
  rfl

/-- In a buffer of the packet's own size the last byte is the one behind the message. -/
theorem range_map_of_size {buf : Memory} {size : ℕ} (hsize : size = 7 + (buf 4).toNat) :
    (List.range size).map buf =
      (List.range (6 + (buf 4).toNat)).map buf ++ [buf (size - 1)] := by
  have hlast : size - 1 = 6 + (buf 4).toNat := by omega
  rw [hlast, hsize, show 7 + (buf 4).toNat = 6 + (buf 4).toNat + 1 by omega, List.range_succ,
    List.map_append, List.map_singleton]

/-! ## What is sent is read back -/

/-- A packet with a CRC of its message is accepted in the order in which it is sent. -/
theorem phParse_frameBytes (out pkt : PacketHeader) (hpos : 1 ≤ pkt.length.toNat)
    (hflag : pkt.crcFlag ≠ 0)
    (hcrc : pkt.crc8Fcs = phComputeCrc8 (memory pkt.msg) pkt.length.toNat) :
    (phParse out (listMemory (frameBytes pkt)) (7 + pkt.length.toNat)).1 = true ∧
      (phParse out (listMemory (frameBytes pkt)) (7 + pkt.length.toNat)).2.SameFrame pkt := by
  have hlength : listMemory (frameBytes pkt) 4 = pkt.length := rfl
  have hflag' : listMemory (frameBytes pkt) 5 = pkt.crcFlag := rfl
  have hmessage : messageCrc (listMemory (frameBytes pkt)) = pkt.crc8Fcs := by
    rw [messageCrc, hlength, hcrc]
    exact phComputeCrc8_congr fun i hi => listMemory_frameBytes_msg pkt hi
  have haccept :
      (phParse out (listMemory (frameBytes pkt)) (7 + pkt.length.toNat)).1 = true := by
    rw [phParse_eq_true_iff, hmessage, hflag',
      show 7 + pkt.length.toNat - 1 = 6 + pkt.length.toNat by omega, listMemory_frameBytes_crc8Fcs]
    unfold TooSmall
    rw [hlength]
    exact ⟨by omega, fun h0 => absurd h0 hflag, rfl⟩
  have hsize : 7 + pkt.length.toNat = 7 + (listMemory (frameBytes pkt) 4).toNat := by rw [hlength]
  refine ⟨haccept, ?_⟩
  rw [← frameBytes_eq_iff, (phParse_readFrom haccept).frameBytes_eq, ← range_map_of_size hsize,
    ← length_frameBytes, range_map_listMemory _ le_rfl, List.take_length]

/-- A packet built with a CRC comes back from the bytes that are sent for it, whatever the two
packet structures held before. -/
theorem phParse_phCreate (earlier out : PacketHeader) (src dest : Byte) (msg : Memory)
    (size : Byte) (hsize : 1 ≤ size.toNat) :
    let sent := phCreate earlier src dest true msg size
    (phParse out (listMemory (frameBytes sent)) (7 + sent.length.toNat)).1 = true ∧
      (phParse out (listMemory (frameBytes sent)) (7 + sent.length.toNat)).2.SameFrame sent := by
  apply phParse_frameBytes
  · exact hsize
  · show (1 : Byte) ≠ 0
    decide
  · rw [phCreate_true]

/-- The character `a` comes back. -/
theorem phParse_phCreate_a :
    (phParse PacketHeader.zero (listMemory (frameBytes
      (phCreate PacketHeader.zero 0xAA 0xBB true (listMemory [0x61]) 1))) 8).1 = true :=
  (phParse_phCreate PacketHeader.zero PacketHeader.zero 0xAA 0xBB (listMemory [0x61]) 1
    (by decide)).1

/-! ## What is accepted is sent again -/

/-- A packet with the character `a` and one byte too many before the FCS. -/
def surplusFrame (surplus : Byte) : List Byte :=
  [0x55, 0x01, 0xAA, 0xBB, 1, 1, 0x61, surplus, phComputeCrc8 (listMemory [0x61]) 1]

/-- The byte too many is not looked at. -/
theorem phParse_surplus (out : PacketHeader) (surplus : Byte) :
    phParse out (listMemory (surplusFrame surplus)) 9 =
      (true, ⟨0x55, 0x01, 0xAA, 0xBB, 1, 1, memcpy out.msg (listMemory [0x61]) 1,
        phComputeCrc8 (listMemory [0x61]) 1⟩) := by
  have hlength : listMemory (surplusFrame surplus) 4 = 1 := rfl
  have hmsg : ∀ i < 1, listMemory (surplusFrame surplus) (6 + i) = listMemory [0x61] i := by
    intro i hi
    obtain rfl : i = 0 := by omega
    rfl
  have hcopy : memcpy out.msg (fun i => listMemory (surplusFrame surplus) (6 + i)) 1 =
      memcpy out.msg (listMemory [0x61]) 1 :=
    memcpy_congr out.msg hmsg
  have hfits : ¬TooSmall (listMemory (surplusFrame surplus)) 9 := by
    unfold TooSmall
    rw [hlength]
    decide
  have hflag : listMemory (surplusFrame surplus) 5 ≠ 0 := by
    show (1 : Byte) ≠ 0
    decide
  have hsize : (1 : Byte).toNat = 1 := rfl
  have hlast : listMemory (surplusFrame surplus) (9 - 1) =
      phComputeCrc8 (listMemory [0x61]) 1 := by
    simp [surplusFrame, listMemory]
  have hcrc : messageCrc (listMemory (surplusFrame surplus)) =
      listMemory (surplusFrame surplus) (9 - 1) := by
    rw [messageCrc, hlength, hsize, hlast]
    exact phComputeCrc8_congr hmsg
  rw [phParse_of_crc out hfits hflag hcrc, PacketHeader.parsed, hlast, hlength, hsize, hcopy]
  rfl

/-- An accepted packet is sent as the buffer without the bytes between its message and its last
byte. That is the buffer itself exactly when it has the packet's own size, and two such buffers
are never parsed into packets with the same frame unless they are the same. -/
theorem frameBytes_phParse (out : PacketHeader) (buf : Memory) (size : ℕ)
    (haccept : (phParse out buf size).1 = true) :
    frameBytes (phParse out buf size).2 =
        (List.range (6 + (buf 4).toNat)).map buf ++ [buf (size - 1)] ∧
      (frameBytes (phParse out buf size).2 = (List.range size).map buf ↔
        size = 7 + (buf 4).toNat) ∧
      ∀ (out' : PacketHeader) (buf' : Memory) (size' : ℕ), (phParse out' buf' size').1 = true →
        size = 7 + (buf 4).toNat → size' = 7 + (buf' 4).toNat →
        frameBytes (phParse out buf size).2 = frameBytes (phParse out' buf' size').2 →
          size = size' ∧ ∀ i < size, buf i = buf' i := by
  have hframe := (phParse_readFrom haccept).frameBytes_eq
  refine ⟨hframe, ?_, ?_⟩
  · constructor
    · intro h
      have hlen := congrArg List.length (hframe.symm.trans h)
      simp only [List.length_append, List.length_map, List.length_range, List.length_singleton]
        at hlen
      omega
    · intro hsize
      rw [hframe, range_map_of_size hsize]
  · intro out' buf' size' haccept' hsize hsize' h
    rw [hframe, ← range_map_of_size hsize, (phParse_readFrom haccept').frameBytes_eq,
      ← range_map_of_size hsize'] at h
    have hlen : size = size' := by simpa using congrArg List.length h
    subst hlen
    refine ⟨rfl, ?_⟩
    intro i hi
    exact List.map_inj_left.mp h i (List.mem_range.mpr hi)

theorem frameBytes_phParse_surplusFrame :
    frameBytes (phParse PacketHeader.zero (listMemory (surplusFrame 0)) 9).2 =
      (List.range 7).map (listMemory (surplusFrame 0)) ++ [listMemory (surplusFrame 0) 8] :=
  (frameBytes_phParse PacketHeader.zero (listMemory (surplusFrame 0)) 9
    (by rw [phParse_surplus])).1

/-- Different buffers are accepted as the same packet, and neither is what is sent for it. -/
theorem phParse_surplusFrame :
    surplusFrame 0 ≠ surplusFrame 1 ∧
      (phParse PacketHeader.zero (listMemory (surplusFrame 0)) 9).1 = true ∧
      phParse PacketHeader.zero (listMemory (surplusFrame 0)) 9 =
        phParse PacketHeader.zero (listMemory (surplusFrame 1)) 9 ∧
      frameBytes (phParse PacketHeader.zero (listMemory (surplusFrame 0)) 9).2 ≠
        (List.range 9).map (listMemory (surplusFrame 0)) := by
  rw [phParse_surplus, phParse_surplus]
  refine ⟨?_, rfl, rfl, ?_⟩
  · unfold surplusFrame
    simp
  · intro h
    have hlen := congrArg List.length h
    rw [length_frameBytes, List.length_map, List.length_range] at hlen
    exact absurd hlen (by decide)

end NetworkingCard
