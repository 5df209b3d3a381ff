import NetworkingCard.Library.Crc
import NetworkingCard.PacketHeader

/-!
# The packet format

What `ph_parse` accepts, for every buffer and size, and what the CRC protects.

* `phParse_eq_true_iff` and `phParse_readFrom`: the checks that an accepted buffer passes, and the
  packet it leaves;
* `InvalidFormat`, the format as the documentation of `ph_parse` has it. The code differs from it
  for packets without a CRC: their message is checked as well (`phParse_documented_iff`);
* frames with a single wrong bit (`flipBit`): any change of the message or of the FCS is
  noticed, a change of the length byte only if the CRC of the shortened message differs
  (`parse_oneBitError`).
-/

namespace NetworkingCard

/-- A list of bytes, seen through a pointer to its first element. -/
def listMemory (bytes : List Byte) : Memory := fun i => bytes[i]?.getD 0

theorem range_map_listMemory (bytes : List Byte) {n : ℕ} (hn : n ≤ bytes.length) :
    (List.range n).map (listMemory bytes) = bytes.take n := by
  refine List.ext_getElem (by simp; omega) fun k hk hk' => ?_
  rw [List.length_map, List.length_range] at hk
  rw [List.getElem_map, List.getElem_range, List.getElem_take, listMemory,
    List.getElem?_eq_getElem (by omega), Option.getD_some]

/-! ## The CRC as a shift register -/

theorem computeCrc8Byte_eq (byte polynomial : Byte) :
    computeCrc8Byte byte polynomial = (Crc.shift polynomial)^[8] byte := by
  have hstep : ∀ crc : Byte,
      (if crc &&& (1 <<< 7) ≠ 0 then (crc <<< 1) ^^^ polynomial else crc <<< 1) =
        Crc.shift polynomial crc := by
    intro crc
    have hmsb : crc &&& (1 <<< 7) ≠ 0 ↔ crc.msb = true := by
      revert crc
      decide +kernel
    unfold Crc.shift
    exact if_congr hmsb rfl rfl
  unfold computeCrc8Byte
  simp only [hstep]
  rw [List.foldl_const, List.length_range]

/-- What the table gives for a byte. -/
def crc8Step (crc : Byte) : Byte := crc8Lookuptable.get crc.toFin

theorem crc8Step_eq (crc : Byte) : crc8Step crc = (Crc.shift crc8Polynomial)^[8] crc := by
  have hbyte : BitVec.ofNat 8 crc.toNat = crc := by simp
  have hentry : crc8Step crc = computeCrc8Byte (BitVec.ofNat 8 crc.toNat) crc8Polynomial := by
    unfold crc8Step crc8Lookuptable computeCrc8LookupTable
    exact Vector.getElem_ofFn crc.isLt
  rw [hentry, hbyte, computeCrc8Byte_eq]

theorem crc8Step_eq_iterate : crc8Step = (Crc.shift crc8Polynomial)^[8] := by
  funext crc
  exact crc8Step_eq crc

theorem crc8Step_injective : Function.Injective crc8Step := by
  have hshift : Function.Injective (Crc.shift crc8Polynomial) := Crc.shift_injective rfl
  rw [crc8Step_eq_iterate]
  exact hshift.iterate 8

theorem phComputeCrc8_eq (msg : Memory) (size : ℕ) :
    phComputeCrc8 msg size = Crc.crc crc8Step 0 ((List.range size).map msg) := by
  unfold phComputeCrc8 Crc.crc
  rw [List.foldl_map]
  rfl

/-! ## What `ph_parse` accepts -/

/-- The buffer has no room for a header and a byte, or not for the message it announces. -/
def TooSmall (buf : Memory) (size : ℕ) : Prop := size < 8 ∨ size < 7 + (buf 4).toNat

/-- The CRC of the message bytes of a buffer. -/
def messageCrc (buf : Memory) : Byte := phComputeCrc8 (fun i => buf (6 + i)) (buf 4).toNat

/-- The formats that the documentation of `ph_parse` calls invalid. -/
def InvalidFormat (buf : Memory) (size : ℕ) : Prop :=
  TooSmall buf size ∨ (buf 5 = 0 ∧ buf (size - 1) ≠ 0xAA) ∨
    (buf 5 ≠ 0 ∧ buf (size - 1) ≠ messageCrc buf)

/-- A packet without a CRC, in the documented format, whose FCS is not the CRC of its message. -/
def UncheckedFormat (buf : Memory) (size : ℕ) : Prop :=
  ¬TooSmall buf size ∧ buf 5 = 0 ∧ buf (size - 1) = 0xAA ∧ messageCrc buf ≠ 0xAA

/-- The packet is the one in the buffer. -/
structure PacketHeader.ReadFrom (pkt : PacketHeader) (buf : Memory) (size : ℕ) : Prop where
  synch : pkt.synch = buf 0
  ver : pkt.ver = buf 1
  src : pkt.src = buf 2
  dest : pkt.dest = buf 3
  length : pkt.length = buf 4
  crcFlag : pkt.crcFlag = buf 5
  msg : ∀ i < pkt.length.toNat, memory pkt.msg i = buf (6 + i)
  crc8Fcs : pkt.crc8Fcs = buf (size - 1)

/-- The message of a packet. -/
def PacketHeader.message (pkt : PacketHeader) : List Byte :=
  (List.range pkt.length.toNat).map (memory pkt.msg)

theorem PacketHeader.ReadFrom.message_eq {pkt : PacketHeader} {buf : Memory} {size : ℕ}
    (h : pkt.ReadFrom buf size) :
    pkt.message = (List.range (buf 4).toNat).map fun k => buf (6 + k) := by
  unfold PacketHeader.message
  rw [h.length]
  refine List.map_congr_left fun k hk => h.msg k ?_
  rw [h.length]
  exact List.mem_range.mp hk

theorem toNat_le_phMsgSize (length : Byte) : length.toNat ≤ phMsgSize :=
  Nat.le_of_lt_succ length.isLt

/-- The CRC is computed over the copy of the message. -/
theorem phComputeCrc8_memcpy (dst : Vector Byte phMsgSize) (src : Memory) (length : Byte) :
    phComputeCrc8 (memory (memcpy dst src length.toNat)) length.toNat =
      phComputeCrc8 src length.toNat :=
  phComputeCrc8_congr fun _ hi => memory_memcpy dst src (toNat_le_phMsgSize length) hi

/-- The packet that `ph_parse` leaves when the buffer is large enough. -/
def PacketHeader.parsed (out : PacketHeader) (buf : Memory) (size : ℕ) : PacketHeader :=
  ⟨buf 0, buf 1, buf 2, buf 3, buf 4, buf 5, memcpy out.msg (fun i => buf (6 + i)) (buf 4).toNat,
    buf (size - 1)⟩

theorem PacketHeader.readFrom_parsed (out : PacketHeader) (buf : Memory) (size : ℕ) :
    (out.parsed buf size).ReadFrom buf size := by
  refine ⟨rfl, rfl, rfl, rfl, rfl, rfl, ?_, rfl⟩
  intro i hi
  exact memory_memcpy out.msg (fun i => buf (6 + i)) (toNat_le_phMsgSize (buf 4)) hi

theorem phParse_of_tooSmall {out : PacketHeader} {buf : Memory} {size : ℕ}
    (h : TooSmall buf size) : (phParse out buf size).1 = false := by
  have hheader : sizeofPacketHeader - phMsgSize = 7 := rfl
  unfold phParse
  rw [hheader]
  by_cases hshort : size < 7 + 1
  · rw [if_pos hshort]
  · have hlong : size < 7 + (buf 4).toNat := h.resolve_left hshort
    rw [if_neg hshort, if_pos hlong]

/-- With a large enough buffer the CRC decides, after the check of a cleared flag. -/
theorem phParse_of_fits {out : PacketHeader} {buf : Memory} {size : ℕ}
    (h : ¬TooSmall buf size) :
    phParse out buf size =
      if buf 5 = 0 ∧ buf (size - 1) ≠ 0xAA then
        (false, { out.parsed buf size with crc8Fcs := out.crc8Fcs })
      else (decide (messageCrc buf = buf (size - 1)), out.parsed buf size) := by
  have hheader : sizeofPacketHeader - phMsgSize = 7 := rfl
  obtain ⟨hshort, hlong⟩ := not_or.mp h
  unfold phParse
  rw [hheader, if_neg hshort, if_neg hlong]
  apply if_congr Iff.rfl rfl
  have hcrc := phComputeCrc8_memcpy out.msg (fun i => buf (6 + i)) (buf 4)
  dsimp only
  rw [hcrc]
  unfold messageCrc
  split
  · next hne => rw [decide_eq_false hne]; rfl
  · next heq => rw [decide_eq_true (not_not.mp heq)]; rfl

/-- A flagged packet that ends with the CRC of its message is accepted. -/
theorem phParse_of_crc (out : PacketHeader) {buf : Memory} {size : ℕ} (hfits : ¬TooSmall buf size)
    (hflag : buf 5 ≠ 0) (hcrc : messageCrc buf = buf (size - 1)) :
    phParse out buf size = (true, out.parsed buf size) := by
  rw [phParse_of_fits hfits, if_neg fun h => hflag h.1, decide_eq_true hcrc]

/-- The checks of `ph_parse`: the size, the FCS of a packet without a CRC, and the CRC of every
packet. -/
theorem phParse_eq_true_iff (out : PacketHeader) (buf : Memory) (size : ℕ) :
    (phParse out buf size).1 = true ↔
      ¬TooSmall buf size ∧ (buf 5 = 0 → buf (size - 1) = 0xAA) ∧
        messageCrc buf = buf (size - 1) := by
  by_cases hsmall : TooSmall buf size
  · rw [phParse_of_tooSmall hsmall]
    exact ⟨fun h => absurd h Bool.false_ne_true, fun h => absurd hsmall h.1⟩
  rw [phParse_of_fits hsmall]
  by_cases hflag : buf 5 = 0 ∧ buf (size - 1) ≠ 0xAA
  · rw [if_pos hflag]
    exact ⟨fun h => absurd h Bool.false_ne_true, fun h => absurd (h.2.1 hflag.1) hflag.2⟩
  · rw [if_neg hflag, decide_eq_true_iff]
    rw [not_and, not_not] at hflag
    exact ⟨fun h => ⟨hsmall, hflag, h⟩, fun h => h.2.2⟩

/-- What the structure held before has no influence on the result. -/
theorem phParse_result (out out' : PacketHeader) (buf : Memory) (size : ℕ) :
    (phParse out buf size).1 = (phParse out' buf size).1 := by
  rw [Bool.eq_iff_iff, phParse_eq_true_iff, phParse_eq_true_iff]

/-- Once the FCS is taken, the packet is the one in the buffer, right or wrong. -/
theorem phParse_takes_fcs (out : PacketHeader) {buf : Memory} {size : ℕ}
    (hfits : ¬TooSmall buf size) (hflag : buf 5 = 0 → buf (size - 1) = 0xAA) :
    (phParse out buf size).2 = out.parsed buf size := by
  rw [phParse_of_fits hfits, if_neg fun hbad => hbad.2 (hflag hbad.1)]

theorem phParse_of_accepted {out : PacketHeader} {buf : Memory} {size : ℕ}
    (h : (phParse out buf size).1 = true) : (phParse out buf size).2 = out.parsed buf size := by
  obtain ⟨hsmall, hflag, -⟩ := (phParse_eq_true_iff out buf size).mp h
  exact phParse_takes_fcs out hsmall hflag

/-- Before that, the FCS is an old one. -/
theorem phParse_keeps_fcs (out : PacketHeader) {buf : Memory} {size : ℕ}
    (h : TooSmall buf size ∨ (buf 5 = 0 ∧ buf (size - 1) ≠ 0xAA)) :
    (phParse out buf size).2.crc8Fcs = out.crc8Fcs := by
  by_cases hsmall : TooSmall buf size
  · have hheader : sizeofPacketHeader - phMsgSize = 7 := rfl
    unfold phParse
    rw [hheader]
    by_cases hshort : size < 7 + 1
    · rw [if_pos hshort]
    · have hlong : size < 7 + (buf 4).toNat := hsmall.resolve_left hshort
      rw [if_neg hshort, if_pos hlong]
  · rw [phParse_of_fits hsmall, if_pos (h.resolve_left hsmall)]

/-- An accepted buffer leaves its packet. -/
theorem phParse_readFrom {out : PacketHeader} {buf : Memory} {size : ℕ}
    (h : (phParse out buf size).1 = true) : (phParse out buf size).2.ReadFrom buf size := by
  rw [phParse_of_accepted h]
  exact PacketHeader.readFrom_parsed out buf size

theorem InvalidFormat.not_uncheckedFormat {buf : Memory} {size : ℕ} (h : InvalidFormat buf size) :
    ¬UncheckedFormat buf size := by
  rintro ⟨hsmall, hflag, hfcs, -⟩
  rcases h with h | h | h
  · exact hsmall h
  · exact h.2 hfcs
  · exact h.1 hflag

/-- What `ph_parse` rejects. -/
theorem phParse_eq_false_iff (out : PacketHeader) (buf : Memory) (size : ℕ) :
    (phParse out buf size).1 = false ↔ InvalidFormat buf size ∨ UncheckedFormat buf size := by
  rw [← Bool.not_eq_true, phParse_eq_true_iff]
  unfold InvalidFormat UncheckedFormat
  by_cases hsmall : TooSmall buf size
  · simp only [hsmall, not_true_eq_false, false_and, not_false_eq_true, true_or]
  by_cases hflag : buf 5 = 0
  -- of a packet without a CRC the code checks both, the FCS and the CRC
  · simp only [hsmall, hflag, not_false_eq_true, true_and, false_or, true_implies,
      not_true_eq_false, ne_eq, false_and, or_false]
    by_cases hfcs : buf (size - 1) = 0xAA
    · rw [hfcs]
      tauto
    · tauto
  · simp only [hsmall, hflag, not_false_eq_true, false_implies, true_and, false_and, false_or,
      ne_eq, or_false, and_false, eq_comm (a := messageCrc buf)]

/-- `ph_parse` follows its documentation exactly on the buffers that do not hold a packet without
a CRC whose FCS differs from the CRC of its message; these it rejects as well. -/
theorem phParse_documented_iff (out : PacketHeader) (buf : Memory) (size : ℕ) :
    (((phParse out buf size).1 = false ↔ InvalidFormat buf size) ∧
        ((phParse out buf size).1 = true → (phParse out buf size).2.ReadFrom buf size)) ↔
      ¬UncheckedFormat buf size := by
  rw [and_iff_left phParse_readFrom, phParse_eq_false_iff]
  constructor
  · intro hdoc hunchecked
    exact (hdoc.mp (Or.inr hunchecked)).not_uncheckedFormat hunchecked
  · intro hchecked
    exact or_iff_left hchecked

/-- A packet without a CRC that carries the character `a`. -/
def unflaggedFrame : List Byte := [0x55, 0x01, 0xAA, 0xBB, 1, 0, 0x61, 0xAA]

/-- The documentation accepts this packet, the code does not. -/
theorem phParse_unflaggedFrame :
    ¬(((phParse PacketHeader.zero (listMemory unflaggedFrame) 8).1 = false ↔
          InvalidFormat (listMemory unflaggedFrame) 8) ∧
        ((phParse PacketHeader.zero (listMemory unflaggedFrame) 8).1 = true →
          (phParse PacketHeader.zero (listMemory unflaggedFrame) 8).2.ReadFrom
            (listMemory unflaggedFrame) 8)) := by
  have hunchecked : UncheckedFormat (listMemory unflaggedFrame) 8 := by
    unfold UncheckedFormat TooSmall messageCrc
    decide +kernel
  rintro ⟨hdoc, -⟩
  rw [phParse_eq_false_iff] at hdoc
  exact (hdoc.mp (Or.inr hunchecked)).not_uncheckedFormat hunchecked

/-! ## The bytes of a frame -/

theorem listMemory_frameBytes_msg (pkt : PacketHeader) {i : ℕ} (hi : i < pkt.length.toNat) :
    listMemory (frameBytes pkt) (6 + i) = memory pkt.msg i := by
  unfold listMemory frameBytes
  rw [List.getElem?_append_left (by simp; omega), List.getElem?_append_right (by simp)]
  simp [hi]

theorem listMemory_frameBytes_crc8Fcs (pkt : PacketHeader) :
    listMemory (frameBytes pkt) (6 + pkt.length.toNat) = pkt.crc8Fcs := by
  unfold listMemory frameBytes
  have hlen : ([pkt.synch, pkt.ver, pkt.src, pkt.dest, pkt.length, pkt.crcFlag] ++
      (List.range pkt.length.toNat).map (memory pkt.msg)).length = 6 + pkt.length.toNat := by
    simp
    omega
  rw [List.getElem?_append_right (by omega), hlen, Nat.sub_self]
  rfl

/-- The frame sent for a message: the packet that `ph_create` builds over an earlier one, in the
order of `transmitMessage`. -/
def messageFrame (earlier : PacketHeader) (src dest : Byte) (m : List Byte) : List Byte :=
  frameBytes (phCreate earlier src dest true (listMemory m) (BitVec.ofNat 8 m.length))

section MessageFrame

variable (earlier : PacketHeader) (src dest : Byte) {m : List Byte} (hm : m.length ≤ 255)
include hm

theorem toNat_ofNat_length : (BitVec.ofNat 8 m.length).toNat = m.length := by
  rw [BitVec.toNat_ofNat]
  exact Nat.mod_eq_of_lt (by omega)

theorem length_messageFrame : (messageFrame earlier src dest m).length = 7 + m.length := by
  rw [messageFrame, length_frameBytes, phCreate_true, toNat_ofNat_length hm]

theorem messageFrame_msg {k : ℕ} (hk : k < m.length) :
    listMemory (messageFrame earlier src dest m) (6 + k) = listMemory m k := by
  unfold messageFrame
  rw [phCreate_true, listMemory_frameBytes_msg _ (by rwa [toNat_ofNat_length hm]),
    toNat_ofNat_length hm]
  exact memory_memcpy _ _ hm hk

theorem messageFrame_crc8Fcs :
    listMemory (messageFrame earlier src dest m) (6 + m.length) =
      phComputeCrc8 (listMemory m) m.length := by
  unfold messageFrame
  have hfcs := listMemory_frameBytes_crc8Fcs
    (phCreate earlier src dest true (listMemory m) (BitVec.ofNat 8 m.length))
  rw [phCreate_true, phComputeCrc8_memcpy, toNat_ofNat_length hm] at hfcs
  rw [phCreate_true, phComputeCrc8_memcpy, toNat_ofNat_length hm]
  exact hfcs

end MessageFrame

/-! ## A single wrong bit -/

/-- The bytes with bit `j` of byte `i` inverted. -/
def flipBit (bytes : List Byte) (i j : ℕ) : List Byte := bytes.modify i (· ^^^ (1#8 <<< j))

theorem listMemory_flipBit {bytes : List Byte} {i : ℕ} (hi : i < bytes.length) (j k : ℕ) :
    listMemory (flipBit bytes i j) k =
      if i = k then listMemory bytes k ^^^ (1#8 <<< j) else listMemory bytes k := by
  unfold listMemory flipBit
  rw [List.getElem?_modify]
  by_cases h : i = k
  · subst h
    simp [hi]
  · simp [h]

theorem xor_shiftLeft_ne (b : Byte) {j : ℕ} (hj : j < 8) : b ^^^ (1#8 <<< j) ≠ b := by
  have hbit : ∀ j : Fin 8, 1#8 <<< j.val ≠ 0 := by decide
  intro h
  exact hbit ⟨j, hj⟩ ((BitVec.xor_right_inj b).mp (h.trans BitVec.xor_zero.symm))

/-- Inverting a one makes the number smaller, inverting a zero makes it larger. -/
theorem toNat_xor_shiftLeft (b : Byte) {j : ℕ} (hj : j < 8) :
    (b ^^^ (1#8 <<< j)).toNat =
      if b.toNat.testBit j then b.toNat - 2 ^ j else b.toNat + 2 ^ j := by
  have hall : ∀ b : Byte, ∀ j : Fin 8, (b ^^^ (1#8 <<< j.val)).toNat =
      if b.toNat.testBit j.val then b.toNat - 2 ^ j.val else b.toNat + 2 ^ j.val := by
    decide +kernel
  exact hall b ⟨j, hj⟩

/-- A change in a single byte of a message changes its CRC. -/
theorem phComputeCrc8_ne {msg msg' : Memory} {i size : ℕ} (hi : i < size)
    (hne : msg i ≠ msg' i) (hsame : ∀ k < size, k ≠ i → msg k = msg' k) :
    phComputeCrc8 msg size ≠ phComputeCrc8 msg' size := by
  obtain ⟨r, rfl⟩ : ∃ r, size = i + 1 + r := ⟨size - (i + 1), by omega⟩
  have hsplit : ∀ f : Memory, (List.range (i + 1 + r)).map f =
      (List.range i).map f ++ f i :: (List.range r).map fun k => f (i + 1 + k) := by
    intro f
    rw [List.range_add, List.range_succ, List.map_append, List.map_append, List.append_assoc,
      List.map_map]
    rfl
  have hpre : (List.range i).map msg = (List.range i).map msg' :=
    List.map_congr_left fun k hk =>
      have hlt := List.mem_range.mp hk
      hsame k (by omega) (by omega)
  have hpost : ((List.range r).map fun k => msg (i + 1 + k)) =
      (List.range r).map fun k => msg' (i + 1 + k) :=
    List.map_congr_left fun k hk =>
      have hlt := List.mem_range.mp hk
      hsame (i + 1 + k) (by omega) (by omega)
  rw [phComputeCrc8_eq, phComputeCrc8_eq, hsplit, hsplit, hpre, hpost]
  exact Crc.crc_ne_of_word_ne crc8Step_injective hne 0 _ _

/-- `ph_parse` of the frame of a message in which bit `j` of byte `i` has been inverted. -/
def parseFlipped (earlier out : PacketHeader) (src dest : Byte) (m : List Byte) (i j : ℕ) :
    Bool × PacketHeader :=
  phParse out (listMemory (flipBit (messageFrame earlier src dest m) i j)) (7 + m.length)

/-- The inverted bit is a one of the length byte, and the CRC does not tell the shortened message
from the whole one. -/
def UnnoticedShortening (m : List Byte) (i j : ℕ) : Prop :=
  i = 4 ∧ m.length.testBit j = true ∧
    phComputeCrc8 (listMemory m) (m.length - 2 ^ j) = phComputeCrc8 (listMemory m) m.length

section OneBit

variable (earlier out : PacketHeader) (src dest : Byte) {m : List Byte} (hm : m.length ≤ 255)
  {i j : ℕ}
include hm

/-- An accepted frame with its length byte intact carries the message it holds, and the FCS of
that message. -/
theorem parseFlipped_length_intact (hi : i < 7 + m.length) (hlength : i ≠ 4)
    (haccept : (parseFlipped earlier out src dest m i j).1 = true) :
    let buf := listMemory (flipBit (messageFrame earlier src dest m) i j)
    (parseFlipped earlier out src dest m i j).2.message =
        (List.range m.length).map (fun k => buf (6 + k)) ∧
      phComputeCrc8 (fun k => buf (6 + k)) m.length = buf (6 + m.length) := by
  have hi' : i < (messageFrame earlier src dest m).length := by
    rwa [length_messageFrame earlier src dest hm]
  have hlen : (listMemory (flipBit (messageFrame earlier src dest m) i j) 4).toNat = m.length := by
    rw [listMemory_flipBit hi', if_neg hlength]
    exact toNat_ofNat_length hm
  have hmessage := (phParse_readFrom haccept).message_eq
  obtain ⟨-, -, hcrc⟩ := (phParse_eq_true_iff _ _ _).mp haccept
  unfold messageCrc at hcrc
  rw [hlen] at hmessage hcrc
  refine ⟨hmessage, ?_⟩
  rw [hcrc]
  congr 1
  omega

/-- Outside the length byte a wrong bit leaves the message right or is noticed. -/
theorem message_parseFlipped (hi : i < 7 + m.length) (hj : j < 8) (hlength : i ≠ 4)
    (haccept : (parseFlipped earlier out src dest m i j).1 = true) :
    (parseFlipped earlier out src dest m i j).2.message = m := by
  have hi' : i < (messageFrame earlier src dest m).length := by
    rwa [length_messageFrame earlier src dest hm]
  obtain ⟨hmessage, hcrc⟩ := parseFlipped_length_intact earlier out src dest hm hi hlength haccept
  have hbyte : ∀ k, k < m.length → i ≠ 6 + k →
      listMemory (flipBit (messageFrame earlier src dest m) i j) (6 + k) = listMemory m k := by
    intro k hk hne
    rw [listMemory_flipBit hi', if_neg hne, messageFrame_msg earlier src dest hm hk]
  rcases Nat.lt_or_ge i 6 with hheader | hbody
  · -- one of the other header bytes
    have hall : (List.range m.length).map
        (fun k => listMemory (flipBit (messageFrame earlier src dest m) i j) (6 + k)) =
          (List.range m.length).map (listMemory m) :=
      List.map_congr_left fun k hk => hbyte k (List.mem_range.mp hk) (by omega)
    rw [hmessage, hall, range_map_listMemory m le_rfl, List.take_length]
  exfalso
  rw [listMemory_flipBit hi' j (6 + m.length), messageFrame_crc8Fcs earlier src dest hm] at hcrc
  by_cases hfcs : i = 6 + m.length
  · -- the FCS is wrong, the message is not
    have hsame : phComputeCrc8
        (fun k => listMemory (flipBit (messageFrame earlier src dest m) i j) (6 + k)) m.length =
          phComputeCrc8 (listMemory m) m.length :=
      phComputeCrc8_congr fun k hk => hbyte k hk (by omega)
    rw [if_pos hfcs, hsame] at hcrc
    exact xor_shiftLeft_ne _ hj hcrc.symm
  · -- a message byte is wrong, the FCS is not
    obtain ⟨p, rfl⟩ : ∃ p, i = 6 + p := ⟨i - 6, by omega⟩
    rw [if_neg hfcs] at hcrc
    refine phComputeCrc8_ne (i := p) (by omega) ?_ ?_ hcrc
    · rw [listMemory_flipBit hi', if_pos rfl, messageFrame_msg earlier src dest hm (by omega)]
      exact xor_shiftLeft_ne _ hj
    · exact fun k hk hne => hbyte k hk (by omega)

/-- What the frame holds when bit `j` of the length byte is wrong. -/
theorem flipBit_length (hj : j < 8) :
    let buf := listMemory (flipBit (messageFrame earlier src dest m) 4 j)
    (buf 4).toNat = (if m.length.testBit j then m.length - 2 ^ j else m.length + 2 ^ j) ∧
      buf 5 = 1 ∧ (∀ k < m.length, buf (6 + k) = listMemory m k) ∧
      buf (6 + m.length) = phComputeCrc8 (listMemory m) m.length := by
  have hi : 4 < (messageFrame earlier src dest m).length := by
    rw [length_messageFrame earlier src dest hm]
    omega
  have hlength : listMemory (messageFrame earlier src dest m) 4 = BitVec.ofNat 8 m.length := rfl
  have hflag : listMemory (messageFrame earlier src dest m) 5 = 1 := rfl
  dsimp only
  refine ⟨?_, ?_, fun k hk => ?_, ?_⟩
  · rw [listMemory_flipBit hi, if_pos rfl, toNat_xor_shiftLeft _ hj, hlength,
      toNat_ofNat_length hm]
  · rw [listMemory_flipBit hi, if_neg (by omega), hflag]
  · rw [listMemory_flipBit hi, if_neg (by omega), messageFrame_msg earlier src dest hm hk]
  · rw [listMemory_flipBit hi, if_neg (by omega), messageFrame_crc8Fcs earlier src dest hm]

/-- A wrong bit in the length byte is noticed unless it shortens the message to one with the
same CRC. -/
theorem parseFlipped_length_iff (hne : m ≠ []) (hj : j < 8) :
    (parseFlipped earlier out src dest m 4 j).1 = true ↔ UnnoticedShortening m 4 j := by
  have hpos : 0 < m.length := List.length_pos_iff.mpr hne
  have hpow : 0 < 2 ^ j := Nat.two_pow_pos j
  have hle : m.length - 2 ^ j ≤ m.length := Nat.sub_le _ _
  obtain ⟨hlen, hflag, hmsg, hfcs⟩ :=
    flipBit_length earlier src dest hm hj
  unfold parseFlipped UnnoticedShortening
  rw [phParse_eq_true_iff]
  unfold TooSmall messageCrc
  rw [hlen, hflag, show 7 + m.length - 1 = 6 + m.length by omega, hfcs]
  by_cases hbit : m.length.testBit j = true
  · have hcrc : phComputeCrc8
        (fun k => listMemory (flipBit (messageFrame earlier src dest m) 4 j) (6 + k))
          (m.length - 2 ^ j) = phComputeCrc8 (listMemory m) (m.length - 2 ^ j) :=
      phComputeCrc8_congr fun k hk => hmsg k (Nat.lt_of_lt_of_le hk hle)
    rw [if_pos hbit, hcrc]
    constructor
    · exact fun h => ⟨rfl, hbit, h.2.2⟩
    · exact fun h => ⟨by omega, fun h01 => absurd h01 (by decide), h.2.2⟩
  · rw [if_neg hbit]
    constructor
    · exact fun h => absurd (Or.inr (by omega)) h.1
    · exact fun h => absurd h.2.1 hbit

/-- The message that is then taken for the one sent. -/
theorem message_of_unnoticedShortening (hj : j < 8) (hbit : m.length.testBit j = true)
    (haccept : (parseFlipped earlier out src dest m 4 j).1 = true) :
    (parseFlipped earlier out src dest m 4 j).2.message = m.take (m.length - 2 ^ j) := by
  obtain ⟨hlen, -, hmsg, -⟩ :=
    flipBit_length earlier src dest hm hj
  have hle : m.length - 2 ^ j ≤ m.length := Nat.sub_le _ _
  have hmessage := (phParse_readFrom haccept).message_eq
  rw [hlen, if_pos hbit] at hmessage
  rw [← range_map_listMemory m hle]
  refine hmessage.trans (List.map_congr_left fun k hk => hmsg k ?_)
  exact Nat.lt_of_lt_of_le (List.mem_range.mp hk) hle

end OneBit

/-- A frame with a single wrong bit is rejected or carries its message, except for shortenings
that the CRC does not notice: these are accepted. -/
theorem parse_oneBitError (earlier out : PacketHeader) (src dest : Byte) (m : List Byte)
    (hne : m ≠ []) (hm : m.length ≤ 255) (i j : ℕ) (hi : i < 7 + m.length) (hj : j < 8) :
    ((parseFlipped earlier out src dest m i j).1 = true →
        (parseFlipped earlier out src dest m i j).2.message = m ∨ UnnoticedShortening m i j) ∧
      (UnnoticedShortening m i j →
        (parseFlipped earlier out src dest m i j).1 = true ∧
          (parseFlipped earlier out src dest m i j).2.message = m.take (m.length - 2 ^ j)) := by
  constructor
  · intro haccept
    by_cases hlength : i = 4
    · subst hlength
      exact Or.inr ((parseFlipped_length_iff earlier out src dest hm hne hj).mp haccept)
    · exact Or.inl (message_parseFlipped earlier out src dest hm hi hj hlength haccept)
  · intro hshort
    obtain rfl : i = 4 := hshort.1
    have haccept : (parseFlipped earlier out src dest m 4 j).1 = true :=
      (parseFlipped_length_iff earlier out src dest hm hne hj).mpr hshort
    exact ⟨haccept, message_of_unnoticedShortening earlier out src dest hm hj hshort.2.1 haccept⟩

/-- In the frame of `ab`, every single wrong bit of the letters is noticed or harmless. -/
theorem parse_oneBitError_ab :
    ([0x61, 0x62] : List Byte) ≠ [] ∧
      ((parseFlipped PacketHeader.zero PacketHeader.zero 0xAA 0xBB [0x61, 0x62] 6 0).1 = true →
        (parseFlipped PacketHeader.zero PacketHeader.zero 0xAA 0xBB [0x61, 0x62] 6 0).2.message =
            [0x61, 0x62] ∨ UnnoticedShortening [0x61, 0x62] 6 0) :=
  ⟨by decide, (parse_oneBitError PacketHeader.zero PacketHeader.zero 0xAA 0xBB [0x61, 0x62]
    (by decide) (by decide) 6 0 (by decide) (by decide)).1⟩

/-- Two NUL characters have the CRC of no character at all: with the length byte 0 for 2, the
frame is accepted with an empty message. -/
theorem parse_shortened_nul :
    (parseFlipped PacketHeader.zero PacketHeader.zero 0xAA 0xBB [0, 0] 4 1).1 = true ∧
      (parseFlipped PacketHeader.zero PacketHeader.zero 0xAA 0xBB [0, 0] 4 1).2.message ≠
        [0, 0] := by
  have hshort : UnnoticedShortening [0, 0] 4 1 := by
    unfold UnnoticedShortening
    decide +kernel
  have haccept := (parseFlipped_length_iff PacketHeader.zero PacketHeader.zero 0xAA 0xBB
    (m := [0, 0]) (by decide) (by decide) (by decide)).mpr hshort
  refine ⟨haccept, ?_⟩
  rw [message_of_unnoticedShortening _ _ _ _ (by decide) (by decide) (by decide) haccept]
  decide

end NetworkingCard
