import NetworkingCard.Basic

/-!
# `packet_header.c`

The packet structure, its construction and parsing, and the table-driven CRC. The table is the
one `ph_init` leaves behind; `main` calls it before anything else.
-/

namespace NetworkingCard

/-- `PH_MSG_SIZE`. -/
def phMsgSize : ℕ := 0xFF

/-- `PacketHeader`. All fields are bytes, so the structure has no padding. -/
structure PacketHeader where
  synch : Byte
  ver : Byte
  src : Byte
  dest : Byte
  length : Byte
  crcFlag : Byte
  msg : Vector Byte phMsgSize
  crc8Fcs : Byte

/-- `sizeof(PacketHeader)`. -/
def sizeofPacketHeader : ℕ := 7 + phMsgSize

/-- A zero-initialised `static PacketHeader`. -/
def PacketHeader.zero : PacketHeader := ⟨0, 0, 0, 0, 0, 0, Vector.replicate _ 0, 0⟩

/-! ## CRC -/

/-- `CRC8_POLYNOMIAL`. -/
def crc8Polynomial : Byte := (1 <<< 2) ||| (1 <<< 1) ||| (1 <<< 0)

/-- `compute_crc8_byte`. -/
def computeCrc8Byte (byte polynomial : Byte) : Byte :=
  (List.range 8).foldl
    (fun crc _ => if crc &&& (1 <<< 7) ≠ 0 then (crc <<< 1) ^^^ polynomial else crc <<< 1) byte

/-- `compute_crc8_lookup_table`. -/
def computeCrc8LookupTable (polynomial : Byte) : Vector Byte 256 :=
  Vector.ofFn fun i => computeCrc8Byte (BitVec.ofNat 8 i) polynomial

/-- `crc8_lookuptable`, as `ph_init` fills it. -/
def crc8Lookuptable : Vector Byte 256 := computeCrc8LookupTable crc8Polynomial

/-- `ph_compute_crc8`. -/
def phComputeCrc8 (msg : Memory) (size : ℕ) : Byte :=
  (List.range size).foldl (fun crc byte => crc8Lookuptable.get (crc ^^^ msg byte).toFin) 0

/-! ## Packets -/

/-- `ph_create`. -/
def phCreate (out : PacketHeader) (src dest : Byte) (crcFlag : Bool) (msg : Memory)
    (size : Byte) : PacketHeader :=
  let out := { out with synch := 0x55, ver := 0x01, src := src, dest := dest, length := size,
                        crcFlag := if crcFlag then 1 else 0 }
  let out := { out with msg := memcpy out.msg msg size.toNat }
  if out.crcFlag ≠ 0 then
    { out with crc8Fcs := phComputeCrc8 (memory out.msg) out.length.toNat }
  else { out with crc8Fcs := 0xAA }

/-- `ph_parse`: the result, and `*out` as the call leaves it. -/
def phParse (out : PacketHeader) (buf : Memory) (size : ℕ) : Bool × PacketHeader :=
  -- buffer must at least contain a msg of 1 byte
  if size < sizeofPacketHeader - phMsgSize + 1 then (false, out)
  else
    let out := { out with synch := buf 0, ver := buf 1, src := buf 2, dest := buf 3,
                          length := buf 4, crcFlag := buf 5 }
    if size < sizeofPacketHeader - phMsgSize + out.length.toNat then (false, out)
    else
      let out := { out with msg := memcpy out.msg (fun i => buf (6 + i)) out.length.toNat }
      if out.crcFlag = 0 ∧ buf (size - 1) ≠ 0xAA then (false, out)
      else
        let out := { out with crc8Fcs := buf (size - 1) }
        -- confirm the CRC field, whatever the flag says
        if phComputeCrc8 (memory out.msg) out.length.toNat ≠ out.crc8Fcs then (false, out)
        else (true, out)

/-- The bytes of a packet in the order in which it is sent. -/
def frameBytes (pkt : PacketHeader) : List Byte :=
  [pkt.synch, pkt.ver, pkt.src, pkt.dest, pkt.length, pkt.crcFlag] ++
    (List.range pkt.length.toNat).map (memory pkt.msg) ++ [pkt.crc8Fcs]

@[simp] theorem length_frameBytes (pkt : PacketHeader) :
    (frameBytes pkt).length = 7 + pkt.length.toNat := by
  simp [frameBytes]
  omega

/-- With a CRC the flag is 1, and the CRC is that of the copied message. -/
theorem phCreate_true (out : PacketHeader) (src dest : Byte) (msg : Memory) (size : Byte) :
    phCreate out src dest true msg size =
      ⟨0x55, 0x01, src, dest, size, 1, memcpy out.msg msg size.toNat,
        phComputeCrc8 (memory (memcpy out.msg msg size.toNat)) size.toNat⟩ := rfl

/-- The CRC depends on the message bytes only. -/
theorem phComputeCrc8_congr {m m' : Memory} {size : ℕ} (h : ∀ i < size, m i = m' i) :
    phComputeCrc8 m size = phComputeCrc8 m' size := by
  unfold phComputeCrc8
  refine List.foldl_ext _ _ _ fun crc i hi => ?_
  rw [h i (List.mem_range.mp hi)]

end NetworkingCard
