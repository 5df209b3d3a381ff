import NetworkingCard.Deliveries

/-!
# What the receiver displays

A delivery prints strings that lie in static variables, so what is printed depends on the NUL that
ends them. `text_eq_iff` says when a string in a reused array is exactly the new bytes. From it,
for every reachable state:

* when an accepted packet is displayed exactly (`Node.recieveingText_packet_iff`);
* when a message in raw mode is (`Node.recieveingText_raw_iff`);
* for which buffers the output does not depend on earlier packets (`Node.output_same_iff`).
-/

namespace NetworkingCard

/-! ## Strings -/

/-- What `%s` prints for an object: up to its first NUL. Without one `printf` reads on behind the
object. -/
def text (object : List Byte) : Option (List Byte) :=
  if 0 ∈ object then some (cString object) else none

theorem cString_append_of_mem {bytes : List Byte} (h : 0 ∈ bytes) (rest : List Byte) :
    cString (bytes ++ rest) = cString bytes := by
  unfold cString
  induction bytes with
  | nil => simp at h
  | cons b bytes ih =>
    rw [List.cons_append, List.takeWhile_cons, List.takeWhile_cons]
    by_cases hb : b = 0
    · simp [hb]
    · have htail : 0 ∈ bytes := (List.mem_cons.mp h).resolve_left (Ne.symm hb)
      rw [ih htail]

theorem cString_append_of_not_mem {bytes : List Byte} (h : 0 ∉ bytes) (rest : List Byte) :
    cString (bytes ++ rest) = bytes ++ cString rest := by
  apply List.takeWhile_append_of_pos
  intro b hb
  rw [decide_eq_true_iff]
  rintro rfl
  exact h hb

theorem cString_of_not_mem {bytes : List Byte} (h : 0 ∉ bytes) : cString bytes = bytes := by
  have happend := cString_append_of_not_mem h []
  rwa [List.append_nil, show cString [] = [] from rfl, List.append_nil] at happend

/-- The bytes at the start of an object are what is printed exactly when a NUL ends them, one of
their own or the byte behind them. -/
theorem text_eq_iff {bytes object : List Byte} (h : bytes <+: object) :
    text object = some (cString bytes) ↔ 0 ∈ bytes ∨ object[bytes.length]? = some 0 := by
  obtain ⟨rest, rfl⟩ := h
  rw [List.getElem?_append_right le_rfl, Nat.sub_self]
  unfold text
  by_cases hmem : 0 ∈ bytes
  · rw [if_pos (List.mem_append_left _ hmem), cString_append_of_mem hmem]
    exact ⟨fun _ => Or.inl hmem, fun _ => rfl⟩
  rw [cString_append_of_not_mem hmem, cString_of_not_mem hmem, or_iff_right hmem]
  cases rest with
  | nil =>
    rw [if_neg (by rwa [List.append_nil])]
    exact ⟨fun h => (nomatch h), fun h => (nomatch h)⟩
  | cons c rest =>
    rw [List.getElem?_cons_zero]
    constructor
    · intro h
      by_contra hc
      rw [Option.some.injEq] at hc
      split at h
      · -- one more byte is printed
        have hlen := congrArg List.length (Option.some.inj h)
        unfold cString at hlen
        rw [List.takeWhile_cons_of_pos (by simpa using hc)] at hlen
        simp at hlen
      · exact nomatch h
    · intro h
      rw [Option.some.inj h, if_pos (by simp)]
      rw [show cString (0 :: rest) = [] from rfl, List.append_nil]

/-! ## What is displayed -/

/-- The message bytes that a packet in a buffer announces. -/
def messageIn (bytes : List Byte) : List Byte := (bytes.drop 6).take (listMemory bytes 4).toNat

theorem range_map_message {bytes : List Byte} (hfits : ¬TooSmall (listMemory bytes) bytes.length) :
    ((List.range (listMemory bytes 4).toNat).map fun k => listMemory bytes (6 + k)) =
      messageIn bytes := by
  have hdrop : (fun k => listMemory bytes (6 + k)) = listMemory (bytes.drop 6) := by
    funext k
    rw [listMemory, listMemory, List.getElem?_drop]
  unfold TooSmall at hfits
  rw [hdrop, range_map_listMemory _ (by rw [List.length_drop]; omega), messageIn]

theorem message_phParse {out : PacketHeader} {bytes : List Byte}
    (haccept : (phParse out (listMemory bytes) bytes.length).1 = true) :
    (phParse out (listMemory bytes) bytes.length).2.message = messageIn bytes := by
  have hfits := ((phParse_eq_true_iff _ _ _).mp haccept).1
  rw [(phParse_readFrom haccept).message_eq, range_map_message hfits]

/-- The string of a packet read into a structure is exactly its message, up to the first NUL, when
that contains a NUL, when one is written behind it, or when the next byte happens to be one: the
old last byte of the array, or the FCS. -/
theorem text_parsed_iff (out : PacketHeader) {bytes : List Byte}
    (hfits : ¬TooSmall (listMemory bytes) bytes.length) :
    text (out.parsed (listMemory bytes) bytes.length).terminated.msgObject =
        some (cString (messageIn bytes)) ↔
      0 ∈ messageIn bytes ∨ (listMemory bytes 4).toNat < 254 ∨
        ((listMemory bytes 4).toNat = 254 ∧ memory out.msg 254 = 0) ∨
        ((listMemory bytes 4).toNat = 255 ∧ listMemory bytes (bytes.length - 1) = 0) := by
  have hread := out.readFrom_parsed (listMemory bytes) bytes.length
  have hmessage := hread.message_eq
  rw [range_map_message hfits] at hmessage
  have hle : (listMemory bytes 4).toNat ≤ 255 := toNat_le_phMsgSize _
  obtain ⟨hfront, hnext⟩ := (out.parsed (listMemory bytes) bytes.length).msgObject_terminated
  rw [hmessage] at hfront hnext
  rw [text_eq_iff hfront, hnext, hread.length, hread.crc8Fcs, Option.some.injEq]
  apply or_congr_right
  rcases Nat.lt_trichotomy (listMemory bytes 4).toNat 254 with hlt | heq | hgt
  · simp [hlt]
  · -- the copy does not reach the last byte of the array
    have hold : memory (out.parsed (listMemory bytes) bytes.length).msg 254 =
        memory out.msg 254 := by
      unfold PacketHeader.parsed
      rw [memory_memcpy_of_le _ _ (Nat.le_of_eq heq)]
    rw [if_neg (by omega), if_pos heq, hold]
    simp [heq]
  · have hfull : (listMemory bytes 4).toNat = 255 := by omega
    rw [if_neg (by omega), if_neg (by omega)]
    simp [hfull]

/-- At full length a string ends in the message or in the FCS, or not in the structure. -/
theorem nul_of_text_full {out : PacketHeader} {bytes string : List Byte}
    (hfits : ¬TooSmall (listMemory bytes) bytes.length) (hfull : (listMemory bytes 4).toNat = 255)
    (h : text (out.parsed (listMemory bytes) bytes.length).terminated.msgObject = some string) :
    0 ∈ messageIn bytes ∨ listMemory bytes (bytes.length - 1) = 0 := by
  have hread := out.readFrom_parsed (listMemory bytes) bytes.length
  have hlen : (out.parsed (listMemory bytes) bytes.length).msg.toList.length = 255 :=
    Vector.length_toList
  have hmessage := (PacketHeader.message_eq_take _).symm.trans hread.message_eq
  rw [range_map_message hfits, hread.length, hfull, List.take_of_length_le hlen.le] at hmessage
  unfold text at h
  split at h
  · next hmem =>
    rw [PacketHeader.terminated, hread.length, hfull, if_neg (by decide), PacketHeader.msgObject,
      hmessage, hread.crc8Fcs, List.mem_append, List.mem_singleton] at hmem
    exact hmem.imp_right Eq.symm
  · exact nomatch h

/-! ## A packet of full length -/

/-- The characters `a` and blank in turn. The CRC of an `a` is a blank. -/
def pairs (k : ℕ) : List Byte := (List.replicate k [0x61, 0x20]).flatten

theorem length_pairs (k : ℕ) : (pairs k).length = k * 2 := by simp [pairs]

theorem not_mem_pairs (k : ℕ) : 0 ∉ pairs k := by simp [pairs]

theorem crc_pairs (k : ℕ) : Crc.crc crc8Step 0 (pairs k) = 0 := by
  have hpair : Crc.crc crc8Step 0 [0x61, 0x20] = 0 := by decide +kernel
  unfold pairs
  induction k with
  | zero => rfl
  | succ k ih => rw [List.replicate_succ, List.flatten_cons, Crc.crc_append, hpair, ih]

/-- A message of 255 characters. -/
def fullMessage : List Byte := pairs 127 ++ [0x61]

/-- The packet with it, which has a blank for its FCS as well. -/
def fullFrame : List Byte := [0x55, 0x01, 0xAA, 0xBB, 255, 1] ++ fullMessage ++ [0x20]

theorem length_fullMessage : fullMessage.length = 255 := by
  rw [fullMessage, List.length_append, length_pairs]
  rfl

theorem not_mem_fullMessage : 0 ∉ fullMessage := by
  rw [fullMessage, List.mem_append, not_or]
  exact ⟨not_mem_pairs 127, by decide⟩

theorem crc_fullMessage : Crc.crc crc8Step 0 fullMessage = 0x20 := by
  rw [fullMessage, Crc.crc_append, crc_pairs]
  decide +kernel

theorem messageIn_fullFrame : messageIn fullFrame = fullMessage := by
  have hlength : (listMemory fullFrame 4).toNat = 255 := rfl
  have hdrop : fullFrame.drop 6 = fullMessage ++ [0x20] := rfl
  rw [messageIn, hlength, hdrop]
  exact List.take_left' length_fullMessage

theorem length_fullFrame : fullFrame.length = 262 := by
  simp [fullFrame, length_fullMessage]

theorem listMemory_fullFrame_last : listMemory fullFrame (fullFrame.length - 1) = 0x20 := by
  have hlen : ([0x55, 0x01, 0xAA, 0xBB, 255, 1] ++ fullMessage : List Byte).length = 261 := by
    simp [length_fullMessage]
  rw [length_fullFrame, listMemory, fullFrame, List.getElem?_append_right (by omega), hlen]
  rfl

theorem phParse_fullFrame (out : PacketHeader) :
    phParse out (listMemory fullFrame) fullFrame.length =
      (true, out.parsed (listMemory fullFrame) fullFrame.length) := by
  have hlength : (listMemory fullFrame 4).toNat = 255 := rfl
  have hfits : ¬TooSmall (listMemory fullFrame) fullFrame.length := by
    unfold TooSmall
    rw [hlength, length_fullFrame]
    omega
  have hflag : listMemory fullFrame 5 ≠ 0 := by
    show (1 : Byte) ≠ 0
    decide
  apply phParse_of_crc out hfits hflag
  rw [messageCrc, phComputeCrc8_eq, range_map_message hfits, messageIn_fullFrame, crc_fullMessage,
    listMemory_fullFrame_last]

theorem ne_nil_fullFrame : fullFrame ≠ [] := by
  apply List.ne_nil_of_length_pos
  rw [length_fullFrame]
  decide

theorem listMemory_fullFrame_254 : listMemory fullFrame (6 + 254) = 0x61 := by
  have hlen : ([0x55, 0x01, 0xAA, 0xBB, 255, 1] ++ pairs 127 : List Byte).length = 260 := by
    rw [List.length_append, length_pairs]
    rfl
  rw [listMemory, fullFrame, fullMessage, ← List.append_assoc, List.append_assoc,
    List.getElem?_append_right (by omega), hlen]
  rfl

/-! ## Exact displays -/

namespace Node

/-- The text after `Recieveing `: the string of the last call of `printf`. -/
def recieveingText (n : Node) : Option (List Byte) :=
  n.printed.getLast?.bind fun p =>
    match p.args with
    | [.s object] => text object
    | _ => none

/-- The text displayed for a packet, whatever the result of `ph_parse`. -/
theorem recieveingText_packet {n : Node} (hinv : n.rx.Inv) (hmode : n.rx.packetMode = true)
    {bytes : List Byte} (hdel : n.delivered = some bytes) :
    n.recieveingText =
      text (phParse n.rx.pkt (listMemory bytes) bytes.length).2.terminated.msgObject := by
  obtain ⟨hprints, -⟩ := receiverUpdate_packet hinv hmode hdel
  unfold recieveingText
  rw [hprints, packetOutput, List.getLast?_append]
  rfl

/-- **Packet mode.** From every reachable state, the text displayed for an accepted packet is
exactly its message, up to the first NUL, when that contains a NUL, is shorter than 254 bytes, or
happens to be followed by a NUL: at 254 bytes by one that an earlier packet left in the last byte
of `msg`, at 255 bytes by an FCS that is 0. -/
theorem recieveingText_packet_iff {n : Node} (hreach : Reachable n)
    (hmode : n.rx.packetMode = true) {bytes : List Byte} (hdel : n.delivered = some bytes)
    (haccept : (phParse n.rx.pkt (listMemory bytes) bytes.length).1 = true) :
    n.recieveingText =
        some (cString (phParse n.rx.pkt (listMemory bytes) bytes.length).2.message) ↔
      0 ∈ messageIn bytes ∨ (listMemory bytes 4).toNat < 254 ∨
        ((listMemory bytes 4).toNat = 254 ∧ memory n.rx.pkt.msg 254 = 0) ∨
        ((listMemory bytes 4).toNat = 255 ∧ listMemory bytes (bytes.length - 1) = 0) := by
  have hfits := ((phParse_eq_true_iff _ _ _).mp haccept).1
  rw [recieveingText_packet hreach.rxInv hmode hdel, message_phParse haccept,
    phParse_of_accepted haccept, text_parsed_iff _ hfits]

/-- The packet `a` is displayed exactly. -/
theorem recieveingText_packet_a :
    ∃ n, Reachable n ∧
      n.delivered = some [0x55, 0x01, 0xAA, 0xBB, 1, 1, 0x61, 0x20] ∧
      n.recieveingText = some (cString (phParse n.rx.pkt
        (listMemory [0x55, 0x01, 0xAA, 0xBB, 1, 1, 0x61, 0x20]) 8).2.message) := by
  obtain ⟨n, hreach, hmode, hdel, -⟩ :=
    (settled_boot 0xAA 0xBB true true true).receive
      [0x55, 0x01, 0xAA, 0xBB, 1, 1, 0x61, 0x20] (by decide) (by decide)
  have haccept : (phParse n.rx.pkt
      (listMemory [0x55, 0x01, 0xAA, 0xBB, 1, 1, 0x61, 0x20]) 8).1 = true := by
    rw [phParse_eq_true_iff]
    unfold TooSmall messageCrc
    decide +kernel
  exact ⟨n, hreach, hdel,
    (recieveingText_packet_iff hreach hmode hdel haccept).mpr (Or.inr (Or.inl (by decide)))⟩

/-- A message of 255 characters is displayed with the FCS and what lies behind it. -/
theorem recieveingText_fullFrame :
    ∃ n, Reachable n ∧ n.rx.packetMode = true ∧ n.delivered = some fullFrame ∧
      (phParse n.rx.pkt (listMemory fullFrame) fullFrame.length).1 = true ∧
      n.recieveingText ≠
        some (cString (phParse n.rx.pkt (listMemory fullFrame) fullFrame.length).2.message) := by
  obtain ⟨n, hreach, hmode, hdel, -⟩ :=
    (settled_boot 0xAA 0xBB true true true).receive fullFrame ne_nil_fullFrame
      (show fullFrame.length ≤ 262 from length_fullFrame.le)
  have haccept : (phParse n.rx.pkt (listMemory fullFrame) fullFrame.length).1 = true := by
    rw [phParse_fullFrame]
  have hfits := ((phParse_eq_true_iff _ _ _).mp haccept).1
  have hlength : (listMemory fullFrame 4).toNat = 255 := rfl
  refine ⟨n, hreach, hmode, hdel, haccept, ?_⟩
  rw [recieveingText_packet hreach.rxInv hmode hdel, message_phParse haccept,
    phParse_of_accepted haccept, ne_eq, text_parsed_iff _ hfits, messageIn_fullFrame, hlength,
    listMemory_fullFrame_last]
  rintro (hmem | hshort | ⟨hlast, -⟩ | ⟨-, hfcs⟩)
  · exact not_mem_fullMessage hmem
  · omega
  · omega
  · exact absurd hfcs (by decide)

/-- The text displayed in raw mode. -/
theorem recieveingText_raw {n : Node} (hinv : n.rx.Inv) (hmode : n.rx.packetMode = false)
    {bytes : List Byte} (hdel : n.delivered = some bytes) :
    n.recieveingText = text n.receiverUpdate.rx.msgBuf.toList := by
  obtain ⟨hprints, -, -⟩ := receiverUpdate_raw hinv hmode hdel
  unfold recieveingText
  rw [hprints]
  rfl

/-- **Raw mode.** From every reachable state, the text displayed is exactly the bytes delivered, up
to their first NUL, when they contain one or an earlier NUL lies behind them in `msgBuf`. -/
theorem recieveingText_raw_iff {n : Node} (hreach : Reachable n)
    (hmode : n.rx.packetMode = false) {bytes : List Byte} (hdel : n.delivered = some bytes) :
    n.recieveingText = some (cString bytes) ↔
      0 ∈ bytes ∨ n.rx.msgBuf[bytes.length]? = some 0 := by
  obtain ⟨hfront, hnext⟩ := (receiverUpdate_raw hreach.rxInv hmode hdel).2
  rw [recieveingText_raw hreach.rxInv hmode hdel, text_eq_iff hfront, Vector.getElem?_toList,
    hnext]

/-- The first message is displayed exactly. -/
theorem recieveingText_raw_first :
    ∃ n, Reachable n ∧ n.delivered = some [0x61] ∧ n.recieveingText = some [0x61] := by
  obtain ⟨n, hreach, hmode, hdel, -, hmsgBuf, -⟩ :=
    (settled_boot 0xAA 0xBB false true true).receive [0x61] (by decide) (by decide)
  refine ⟨n, hreach, hdel, (recieveingText_raw_iff hreach hmode hdel).mpr (Or.inr ?_)⟩
  rw [hmsgBuf]
  show (Vector.replicate sizeofPacketHeader (0 : Byte))[1]? = some 0
  rw [Vector.getElem?_replicate_of_lt (by decide)]

/-- After the message `ab` the message `c` is displayed with the `b`. -/
theorem recieveingText_raw_stale :
    ∃ n, Reachable n ∧ n.rx.packetMode = false ∧ n.delivered = some [0x63] ∧
      n.recieveingText ≠ some (cString [0x63]) := by
  obtain ⟨n₁, hreach₁, hmode₁, hdel₁, -, -, hsettled⟩ :=
    (settled_boot 0xAA 0xBB false true true).receive [0x61, 0x62] (by decide)
      (by decide)
  obtain ⟨-, ⟨rest, hfirst⟩, -⟩ := receiverUpdate_raw hreach₁.rxInv hmode₁ hdel₁
  obtain ⟨n, hreach, hmode, hdel, -, hmsgBuf, -⟩ :=
    hsettled.receive [0x63] (by decide) (by decide)
  refine ⟨n, hreach, hmode, hdel, ?_⟩
  obtain ⟨hfront, hnext⟩ := (receiverUpdate_raw hreach.rxInv hmode hdel).2
  rw [recieveingText_raw hreach.rxInv hmode hdel, ne_eq, text_eq_iff hfront,
    Vector.getElem?_toList, hnext, hmsgBuf, ← Vector.getElem?_toList, ← hfirst]
  simp

end Node

/-! ## Rejected packets -/

/-- An argument of `printf` as it is printed: of an object only the string in it. -/
def PrintfArg.shown : PrintfArg → Option PrintfArg
  | .s object => (text object).map .s
  | arg => some arg

/-- A call of `printf` as it is printed. -/
def Printf.shown (p : Printf) : Option Printf :=
  (p.args.mapM PrintfArg.shown).map (Printf.mk p.format)

/-- Two packets are printed alike, with strings that end inside the structure. -/
structure PacketHeader.ShownAlike (pkt pkt' : PacketHeader) : Prop where
  src : pkt.src = pkt'.src
  dest : pkt.dest = pkt'.dest
  length : pkt.length = pkt'.length
  crc8Fcs : pkt.crc8Fcs = pkt'.crc8Fcs
  string : ∃ string, text pkt.msgObject = some string ∧ text pkt'.msgObject = some string

/-- After packets with different FCS, the same is printed only when the FCS is taken. -/
theorem PacketHeader.ShownAlike.takes_fcs {out out' : PacketHeader} {buf : Memory} {size : ℕ}
    (h : (phParse out buf size).2.terminated.ShownAlike (phParse out' buf size).2.terminated)
    (hne : out.crc8Fcs ≠ out'.crc8Fcs) :
    ¬TooSmall buf size ∧ (buf 5 = 0 → buf (size - 1) = 0xAA) := by
  have htaken : ¬(TooSmall buf size ∨ (buf 5 = 0 ∧ buf (size - 1) ≠ 0xAA)) := by
    intro hkept
    have hfcs := h.crc8Fcs
    rw [crc8Fcs_terminated, crc8Fcs_terminated, phParse_keeps_fcs _ hkept,
      phParse_keeps_fcs _ hkept] at hfcs
    exact hne hfcs
  obtain ⟨hfits, hflag⟩ := not_or.mp htaken
  refine ⟨hfits, ?_⟩
  intro h0
  by_contra hfcs
  exact hflag ⟨h0, hfcs⟩

/-- After packets with and without a NUL in the last byte of the array, the same is printed only
when the string ends in what the buffer holds. -/
theorem PacketHeader.ShownAlike.ends {out out' : PacketHeader} {bytes : List Byte}
    (hfits : ¬TooSmall (listMemory bytes) bytes.length)
    (h : (out.parsed (listMemory bytes) bytes.length).terminated.ShownAlike
      (out'.parsed (listMemory bytes) bytes.length).terminated)
    (hnul : memory out.msg 254 = 0) (hbyte : memory out'.msg 254 ≠ 0) :
    0 ∈ messageIn bytes ∨ (listMemory bytes 4).toNat < 254 ∨
      ((listMemory bytes 4).toNat = 255 ∧ listMemory bytes (bytes.length - 1) = 0) := by
  obtain ⟨string, hstring, hstring'⟩ := h.string
  have hle : (listMemory bytes 4).toNat ≤ 255 := toNat_le_phMsgSize _
  rcases Nat.lt_trichotomy (listMemory bytes 4).toNat 254 with hlt | heq | hgt
  · exact Or.inr (Or.inl hlt)
  · -- the NUL ends the one string, so the other one has to end there as well
    have hexact := (text_parsed_iff out hfits).mpr (Or.inr (Or.inr (Or.inl ⟨heq, hnul⟩)))
    rw [hstring] at hexact
    rw [hexact, text_parsed_iff out' hfits] at hstring'
    rcases hstring' with hmem | hlt | ⟨-, hzero⟩ | ⟨hfull, -⟩
    · exact Or.inl hmem
    · omega
    · exact absurd hzero hbyte
    · omega
  · have hfull : (listMemory bytes 4).toNat = 255 := by omega
    rcases nul_of_text_full hfits hfull hstring with hmem | hzero
    · exact Or.inl hmem
    · exact Or.inr (Or.inr ⟨hfull, hzero⟩)

/-- When it does, the packet is printed alike whatever came before. -/
theorem PacketHeader.shownAlike_parsed (out out' : PacketHeader) {bytes : List Byte}
    (hfits : ¬TooSmall (listMemory bytes) bytes.length)
    (hend : 0 ∈ messageIn bytes ∨ (listMemory bytes 4).toNat < 254 ∨
      ((listMemory bytes 4).toNat = 255 ∧ listMemory bytes (bytes.length - 1) = 0)) :
    (out.parsed (listMemory bytes) bytes.length).terminated.ShownAlike
      (out'.parsed (listMemory bytes) bytes.length).terminated := by
  have htext : ∀ out : PacketHeader,
      text (out.parsed (listMemory bytes) bytes.length).terminated.msgObject =
        some (cString (messageIn bytes)) := by
    intro out
    rw [text_parsed_iff out hfits]
    tauto
  refine ⟨?_, ?_, ?_, ?_, _, htext out, htext out'⟩
  · rw [src_terminated, src_terminated]
    rfl
  · rw [dest_terminated, dest_terminated]
    rfl
  · rw [length_terminated, length_terminated]
    rfl
  · rw [crc8Fcs_terminated, crc8Fcs_terminated]
    rfl

theorem shown_packetOutput (ok : Bool) (pkt : PacketHeader) :
    (packetOutput ok pkt).mapM Printf.shown = (text pkt.msgObject).map fun string =>
      (if ok then [] else [⟨" ERROR: invalid packet\r\n", []⟩]) ++
        [⟨"The source=%x, The destination=%x, length=%d, CRC=%x\r\n",
          [.x pkt.src, .x pkt.dest, .d pkt.length.toNat, .x pkt.crc8Fcs]⟩,
        ⟨"Recieveing %s\r\n", [.s string]⟩] := by
  unfold packetOutput
  cases ok <;> cases htext : text pkt.msgObject <;>
    simp [Printf.shown, PrintfArg.shown, htext]

theorem shown_packetOutput_iff (ok : Bool) (pkt pkt' : PacketHeader) :
    (∃ output, (packetOutput ok pkt).mapM Printf.shown = some output ∧
        (packetOutput ok pkt').mapM Printf.shown = some output) ↔ pkt.ShownAlike pkt' := by
  rw [shown_packetOutput, shown_packetOutput]
  constructor
  · rintro ⟨output, hpkt, hpkt'⟩
    obtain ⟨string, hstring, hout⟩ := Option.map_eq_some_iff.mp hpkt
    obtain ⟨string', hstring', hout'⟩ := Option.map_eq_some_iff.mp hpkt'
    have hcalls := List.append_cancel_left (hout.trans hout'.symm)
    simp only [List.cons.injEq, Printf.mk.injEq, PrintfArg.x.injEq, PrintfArg.d.injEq,
      PrintfArg.s.injEq, true_and, and_true] at hcalls
    obtain ⟨⟨hsrc, hdest, hlength, hfcs⟩, rfl⟩ := hcalls
    exact ⟨hsrc, hdest, BitVec.eq_of_toNat_eq hlength, hfcs, string, hstring, hstring'⟩
  · intro h
    obtain ⟨string, hstring, hstring'⟩ := h.string
    rw [hstring, hstring', h.src, h.dest, h.length, h.crc8Fcs]
    exact ⟨_, rfl, rfl⟩

namespace Node

/-- The output of a call of the main routine, as far as it is determined by the strings that end
inside the objects that are printed. -/
def output (n : Node) : Option (List Printf) := n.printed.mapM Printf.shown

/-- The display of the receiver: what is printed does not depend on the result of `ph_parse`, apart
from the error message. -/
theorem output_alike_iff {n n' : Node} (hinv : n.rx.Inv) (hinv' : n'.rx.Inv)
    (hmode : n.rx.packetMode = true) (hmode' : n'.rx.packetMode = true) {bytes : List Byte}
    (hdel : n.delivered = some bytes) (hdel' : n'.delivered = some bytes) :
    (∃ output, n.output = some output ∧ n'.output = some output) ↔
      (phParse n.rx.pkt (listMemory bytes) bytes.length).2.terminated.ShownAlike
        (phParse n'.rx.pkt (listMemory bytes) bytes.length).2.terminated := by
  obtain ⟨hprints, -⟩ := receiverUpdate_packet hinv hmode hdel
  obtain ⟨hprints', -⟩ := receiverUpdate_packet hinv' hmode' hdel'
  have hresult := phParse_result n.rx.pkt n'.rx.pkt (listMemory bytes) bytes.length
  unfold output
  rw [hprints, hprints', hresult, shown_packetOutput_iff]

/-- A board that has received the packet of full length. -/
theorem settled_fullFrame :
    ∃ n, Settled n true ∧ n.rx.pkt.crc8Fcs = 0x20 ∧ memory n.rx.pkt.msg 254 = 0x61 := by
  obtain ⟨n, hreach, hmode, hdel, -, -, hsettled⟩ :=
    (settled_boot 0xAA 0xBB true true true).receive fullFrame ne_nil_fullFrame
      (show fullFrame.length ≤ 262 from length_fullFrame.le)
  obtain ⟨-, hpkt⟩ := receiverUpdate_packet hreach.rxInv hmode hdel
  have hread := n.rx.pkt.readFrom_parsed (listMemory fullFrame) fullFrame.length
  have hlength : listMemory fullFrame 4 = 255 := rfl
  refine ⟨n.receiverUpdate, hsettled, ?_, ?_⟩
  all_goals
    rw [hpkt, phParse_fullFrame, PacketHeader.terminated, hread.length, hlength, if_neg (by decide)]
  · rw [hread.crc8Fcs, listMemory_fullFrame_last]
  · rw [hread.msg 254 (by rw [hread.length, hlength]; decide), listMemory_fullFrame_254]

/-- **Rejected packets.** What is printed for a buffer, rejected or not, is the same after all
histories exactly when its FCS is taken and the string ends in what it holds: the message contains
a NUL, one is written behind it, or it is of full length with an FCS that is 0. -/
theorem output_same_iff {bytes : List Byte} (hne : bytes ≠ [])
    (hlen : bytes.length ≤ sizeofPacketHeader) :
    (∀ n n' : Node, Reachable n → Reachable n' → n.rx.packetMode = true →
        n'.rx.packetMode = true → n.delivered = some bytes → n'.delivered = some bytes →
          ∃ output, n.output = some output ∧ n'.output = some output) ↔
      ¬TooSmall (listMemory bytes) bytes.length ∧
        (listMemory bytes 5 = 0 → listMemory bytes (bytes.length - 1) = 0xAA) ∧
        (0 ∈ messageIn bytes ∨ (listMemory bytes 4).toNat < 254 ∨
          ((listMemory bytes 4).toNat = 255 ∧ listMemory bytes (bytes.length - 1) = 0)) := by
  constructor
  · intro hsame
    -- a fresh board, and one that has received the packet of full length
    obtain ⟨n, hreach, hmode, hdel, hpkt, -⟩ :=
      (settled_boot 0xAA 0xBB true true true).receive bytes hne hlen
    obtain ⟨m, hsettled, hfcs, hlast⟩ := settled_fullFrame
    obtain ⟨n', hreach', hmode', hdel', hpkt', -⟩ := hsettled.receive bytes hne hlen
    have halike := (output_alike_iff hreach.rxInv hreach'.rxInv hmode hmode' hdel hdel').mp
      (hsame n n' hreach hreach' hmode hmode' hdel hdel')
    rw [hpkt, hpkt'] at halike
    have hnul : memory (boot 0xAA 0xBB true true true).rx.pkt.msg 254 = 0 := rfl
    have hdiffer : (boot 0xAA 0xBB true true true).rx.pkt.crc8Fcs ≠ m.rx.pkt.crc8Fcs := by
      rw [hfcs]
      decide
    obtain ⟨hfits, hflag⟩ := halike.takes_fcs hdiffer
    rw [phParse_takes_fcs _ hfits hflag, phParse_takes_fcs _ hfits hflag] at halike
    exact ⟨hfits, hflag, halike.ends hfits hnul (by rw [hlast]; decide)⟩
  · rintro ⟨hfits, hflag, hend⟩ n n' hreach hreach' hmode hmode' hdel hdel'
    rw [output_alike_iff hreach.rxInv hreach'.rxInv hmode hmode' hdel hdel',
      phParse_takes_fcs _ hfits hflag, phParse_takes_fcs _ hfits hflag]
    exact PacketHeader.shownAlike_parsed _ _ hfits hend

/-- A wrong FCS behind an `a` is displayed alike by a fresh board and by one that has received the
packet of full length. -/
theorem output_same_wrongFcs :
    ∃ n n' : Node, n.rx.pkt.crc8Fcs ≠ n'.rx.pkt.crc8Fcs ∧
      ∃ output, n.output = some output ∧ n'.output = some output := by
  obtain ⟨n, hreach, hmode, hdel, hpkt, -⟩ :=
    (settled_boot 0xAA 0xBB true true true).receive
      [0x55, 0x01, 0xAA, 0xBB, 1, 1, 0x61, 0x21] (by decide) (by decide)
  obtain ⟨m, hsettled, hfcs, -⟩ := settled_fullFrame
  obtain ⟨n', hreach', hmode', hdel', hpkt', -⟩ := hsettled.receive
    [0x55, 0x01, 0xAA, 0xBB, 1, 1, 0x61, 0x21] (by decide) (by decide)
  have hfits : ¬TooSmall (listMemory [0x55, 0x01, 0xAA, 0xBB, 1, 1, 0x61, 0x21]) 8 := by
    unfold TooSmall
    decide
  refine ⟨n, n', ?_, ?_⟩
  · rw [hpkt, hpkt', hfcs]
    decide
  · exact (output_same_iff (by decide) (by decide)).mpr
      ⟨hfits, fun h0 => absurd h0 (by decide), Or.inr (Or.inl (by decide))⟩
      n n' hreach hreach' hmode hmode' hdel hdel'

/-- A single byte is displayed with whatever packet has come before. -/
theorem output_stale :
    ∃ n n' : Node, Reachable n ∧ Reachable n' ∧ n.rx.packetMode = true ∧
      n'.rx.packetMode = true ∧ n.delivered = some [0x41] ∧ n'.delivered = some [0x41] ∧
      (∀ out, (phParse out (listMemory [0x41]) 1).1 = false) ∧
      ¬∃ output, n.output = some output ∧ n'.output = some output := by
  obtain ⟨n, hreach, hmode, hdel, hpkt, -⟩ :=
    (settled_boot 0xAA 0xBB true true true).receive [0x41] (by decide) (by decide)
  obtain ⟨m, hsettled, hfcs, -⟩ := settled_fullFrame
  obtain ⟨n', hreach', hmode', hdel', hpkt', -⟩ :=
    hsettled.receive [0x41] (by decide) (by decide)
  have hsmall : TooSmall (listMemory [0x41]) 1 := Or.inl (by decide)
  refine ⟨n, n', hreach, hreach', hmode, hmode', hdel, hdel',
    fun out => phParse_of_tooSmall hsmall, ?_⟩
  intro hsame
  have halike := (output_alike_iff hreach.rxInv hreach'.rxInv hmode hmode' hdel hdel').mp hsame
  have hdiffer : n.rx.pkt.crc8Fcs ≠ n'.rx.pkt.crc8Fcs := by
    rw [hpkt, hpkt', hfcs]
    decide
  exact (halike.takes_fcs hdiffer).1 hsmall

end Node

end NetworkingCard
