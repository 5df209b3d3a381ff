import NetworkingCard.CollisionDrop
import NetworkingCard.PacketFormat
import NetworkingCard.Recovery

/-!
# What a call of the main routine delivers

* `Receiver.deliver_packet` and `Receiver.deliver_rawText`, a delivery from the bytes it takes: a
  packet depends on nothing else in `msgBuf` (`phParse_received_only`), in raw mode the byte behind
  them is an old one;
* `Node.receiverUpdate_packet` and `Node.receiverUpdate_raw`, what a call of the main routine
  prints;
* `Node.Settled.receive`: a board that has taken everything can be given any bytes next.
-/

namespace NetworkingCard

/-! ## A delivery -/

theorem toList_setIfInBounds {n : ℕ} (v : Vector Byte n) (i : ℕ) (c : Byte) :
    (v.setIfInBounds i c).toList = v.toList.set i c := by
  rw [← Vector.toList_toArray, Vector.toArray_setIfInBounds, Array.toList_setIfInBounds,
    Vector.toList_toArray]

/-- The packet with the NUL that the receiver writes behind its message, if it does. -/
def PacketHeader.terminated (pkt : PacketHeader) : PacketHeader :=
  if pkt.length.toNat < phMsgSize - 1 then
    { pkt with msg := pkt.msg.setIfInBounds pkt.length.toNat 0 }
  else pkt

@[simp] theorem PacketHeader.src_terminated (pkt : PacketHeader) :
    pkt.terminated.src = pkt.src := by
  unfold terminated
  split <;> rfl

@[simp] theorem PacketHeader.dest_terminated (pkt : PacketHeader) :
    pkt.terminated.dest = pkt.dest := by
  unfold terminated
  split <;> rfl

@[simp] theorem PacketHeader.length_terminated (pkt : PacketHeader) :
    pkt.terminated.length = pkt.length := by
  unfold terminated
  split <;> rfl

@[simp] theorem PacketHeader.crc8Fcs_terminated (pkt : PacketHeader) :
    pkt.terminated.crc8Fcs = pkt.crc8Fcs := by
  unfold terminated
  split <;> rfl

/-- The bytes from `pkt.msg` to the end of the structure. -/
def PacketHeader.msgObject (pkt : PacketHeader) : List Byte := pkt.msg.toList ++ [pkt.crc8Fcs]

theorem PacketHeader.message_eq_take (pkt : PacketHeader) :
    pkt.message = pkt.msg.toList.take pkt.length.toNat := by
  have hle := toNat_le_phMsgSize pkt.length
  have hlist : memory pkt.msg = listMemory pkt.msg.toList := by
    funext i
    rw [memory, listMemory, Vector.getElem?_toList]
  rw [PacketHeader.message, hlist, range_map_listMemory]
  rwa [Vector.length_toList]

/-- The string that is displayed starts with the message. The byte behind it is the NUL, if one is
written, else the last byte of the array or the FCS behind the array. -/
theorem PacketHeader.msgObject_terminated (pkt : PacketHeader) :
    pkt.message <+: pkt.terminated.msgObject ∧
      pkt.terminated.msgObject[pkt.message.length]? = some
        (if pkt.length.toNat < 254 then 0
          else if pkt.length.toNat = 254 then memory pkt.msg 254 else pkt.crc8Fcs) := by
  have hle : pkt.length.toNat ≤ 255 := toNat_le_phMsgSize pkt.length
  have hlen : pkt.msg.toList.length = 255 := Vector.length_toList
  rw [pkt.message_eq_take, List.length_take, Nat.min_eq_left (by omega)]
  unfold terminated msgObject
  by_cases hshort : pkt.length.toNat < 254
  · rw [if_pos (show pkt.length.toNat < phMsgSize - 1 from hshort), if_pos hshort,
      toList_setIfInBounds]
    constructor
    · rw [List.prefix_iff_eq_take, List.length_take, Nat.min_eq_left (by omega),
        List.take_append_of_le_length (by rw [List.length_set]; omega), List.take_set_of_le le_rfl]
    · rw [List.getElem?_append_left (by rw [List.length_set]; omega),
        List.getElem?_set_self (by omega)]
  · rw [if_neg (show ¬pkt.length.toNat < phMsgSize - 1 from hshort), if_neg hshort]
    refine ⟨(List.take_prefix _ _).trans (List.prefix_append _ _), ?_⟩
    by_cases hlast : pkt.length.toNat = 254
    · rw [if_pos hlast, hlast, List.getElem?_append_left (by omega), Vector.getElem?_toList,
        memory, Vector.getElem?_eq_getElem (by decide), Option.getD_some]
    · rw [if_neg hlast, List.getElem?_append_right (by omega), hlen,
        show pkt.length.toNat - 255 = 0 by omega]
      rfl

/-- What is printed for a packet, with the result of `ph_parse`. -/
def packetOutput (ok : Bool) (pkt : PacketHeader) : List Printf :=
  (if ok then [] else [⟨" ERROR: invalid packet\r\n", []⟩]) ++
    [⟨"The source=%x, The destination=%x, length=%d, CRC=%x\r\n",
      [.x pkt.src, .x pkt.dest, .d pkt.length.toNat, .x pkt.crc8Fcs]⟩,
    ⟨"Recieveing %s\r\n", [.s pkt.msgObject]⟩]

namespace Receiver

theorem console_displayPacket (r : Receiver) :
    let parse := phParse r.pkt (memory r.msgBuf) r.msgCur
    r.displayPacket.console = r.console ++ packetOutput parse.1 parse.2.terminated ∧
      r.displayPacket.pkt = parse.2.terminated := by
  unfold displayPacket packetOutput PacketHeader.terminated PacketHeader.msgObject
  generalize phParse r.pkt (memory r.msgBuf) r.msgCur = parse
  obtain ⟨ok, pkt⟩ := parse
  dsimp only
  by_cases hshort : pkt.length.toNat < phMsgSize - 1
  · cases ok <;> simp [hshort, printf]
  · cases ok <;> simp [hshort, printf]

/-- From the cursor on the loop leaves `msgBuf` as it was. -/
theorem msgBuf_readLoop (n : ℕ) (r : Receiver) :
    r.msgCur ≤ (readLoop n r).msgCur ∧
      ∀ i, (readLoop n r).msgCur ≤ i → (readLoop n r).msgBuf[i]? = r.msgBuf[i]? := by
  induction n generalizing r with
  | zero => exact ⟨le_rfl, fun _ _ => rfl⟩
  | succ n ih =>
    unfold readLoop
    split
    · obtain ⟨hcur, hrest⟩ := ih { r with
        receiveBuf := (Ringbuffer.get r.receiveBuf).2,
        msgBuf := r.msgBuf.setIfInBounds r.msgCur (Ringbuffer.get r.receiveBuf).1,
        msgCur := r.msgCur + 1 }
      dsimp only at hcur hrest ⊢
      refine ⟨by omega, ?_⟩
      intro i hi
      rw [hrest i hi, Vector.getElem?_setIfInBounds_ne (by omega)]
    · exact ⟨le_rfl, fun _ _ => rfl⟩

/-- The bytes that a delivery takes. -/
def taken (r : Receiver) : List Byte := r.unread.take sizeofPacketHeader

/-- What the loop of a delivery makes of a receiver: the bytes taken lie at the start of `msgBuf`,
the byte behind them is an old one, and nothing else has changed. -/
theorem readLoop_taken {r : Receiver} (h : r.Inv) :
    let r' := readLoop sizeofPacketHeader { r with msgCur := 0 }
    r'.msgCur = r.taken.length ∧ r.taken <+: r'.msgBuf.toList ∧
      r'.msgBuf[r.taken.length]? = r.msgBuf[r.taken.length]? ∧
      r'.pkt = r.pkt ∧ r'.packetMode = r.packetMode ∧ r'.console = r.console := by
  have h0 : ({ r with msgCur := 0 } : Receiver).Inv := { h with msgCur_le := Nat.zero_le _ }
  obtain ⟨hinv, -, -⟩ := readLoop_contract sizeofPacketHeader h0
  have hmsg : (readLoop sizeofPacketHeader { r with msgCur := 0 }).message = r.taken :=
    (message_readLoop h0 rfl).1
  have hlen : r.taken.length = (readLoop sizeofPacketHeader { r with msgCur := 0 }).msgCur := by
    rw [← hmsg, message, List.length_take, Vector.length_toList, Nat.min_eq_left hinv.msgCur_le]
  have hframe := readLoop_frame sizeofPacketHeader { r with msgCur := 0 }
  refine ⟨hlen.symm, ?_, ?_, ?_, ?_, ?_⟩
  · rw [← hmsg]
    exact List.take_prefix _ _
  · rw [hlen]
    exact (msgBuf_readLoop sizeofPacketHeader { r with msgCur := 0 }).2 _ le_rfl
  · rw [hframe]
  · rw [hframe]
  · rw [hframe]

/-- In packet mode a delivery parses the bytes taken and prints the packet. -/
theorem deliver_packet {r : Receiver} (h : r.Inv) (hmode : r.packetMode = true) :
    let parse := phParse r.pkt (listMemory r.taken) r.taken.length
    r.deliver.console = r.console ++ packetOutput parse.1 parse.2.terminated ∧
      r.deliver.pkt = parse.2.terminated := by
  obtain ⟨hcur, ⟨rest, hfront⟩, -, hpkt, hmode', hconsole⟩ := readLoop_taken h
  have hdeliver :
      r.deliver = (readLoop sizeofPacketHeader { r with msgCur := 0 }).displayPacket := by
    unfold deliver
    dsimp only
    rw [if_pos (hmode'.trans hmode)]
  have hdisplay := console_displayPacket (readLoop sizeofPacketHeader { r with msgCur := 0 })
  -- `ph_parse` looks at the bytes taken only
  have hparse : phParse r.pkt
      (memory (readLoop sizeofPacketHeader { r with msgCur := 0 }).msgBuf) r.taken.length =
        phParse r.pkt (listMemory r.taken) r.taken.length := by
    apply phParse_congr
    intro i hi
    rw [memory, listMemory, ← Vector.getElem?_toList, ← hfront, List.getElem?_append_left hi]
  dsimp only at hdisplay ⊢
  rw [hpkt, hcur, hparse, hconsole] at hdisplay
  rwa [hdeliver]

/-- The NUL that the raw display writes is one byte too far to end the message. -/
theorem displayRaw_msgBuf (r : Receiver) {bytes : List Byte} (hcur : r.msgCur = bytes.length)
    (hfront : bytes <+: r.msgBuf.toList) :
    bytes <+: r.displayRaw.msgBuf.toList ∧
      r.displayRaw.msgBuf[bytes.length]? = r.msgBuf[bytes.length]? := by
  have hbuf : r.displayRaw.msgBuf = if r.msgCur < phMsgSize - 1 then
      r.msgBuf.setIfInBounds (r.msgCur + 1) 0 else r.msgBuf := by
    unfold displayRaw
    dsimp only
    split <;> rfl
  rw [hbuf, hcur]
  split
  · rw [toList_setIfInBounds, Vector.getElem?_setIfInBounds_ne (by omega)]
    rw [List.prefix_iff_eq_take] at hfront ⊢
    rw [List.take_set_of_le (by omega)]
    exact ⟨hfront, rfl⟩
  · exact ⟨hfront, rfl⟩

/-- In raw mode a delivery prints `msgBuf`: the bytes taken, and behind them an old byte. -/
theorem deliver_rawText {r : Receiver} (h : r.Inv) (hmode : r.packetMode = false) :
    r.deliver.console = r.console ++ [⟨"Recieveing %s", [.s r.deliver.msgBuf.toList]⟩] ∧
      r.taken <+: r.deliver.msgBuf.toList ∧
      r.deliver.msgBuf[r.taken.length]? = r.msgBuf[r.taken.length]? := by
  obtain ⟨hcur, hfront, hbehind, -, hmode', -⟩ := readLoop_taken h
  have hdeliver : r.deliver = (readLoop sizeofPacketHeader { r with msgCur := 0 }).displayRaw := by
    unfold deliver
    dsimp only
    rw [if_neg (by rw [hmode', hmode]; exact Bool.false_ne_true)]
  obtain ⟨hstart, hnext⟩ := displayRaw_msgBuf _ hcur hfront
  rw [hbehind, ← hdeliver] at hnext
  rw [← hdeliver] at hstart
  exact ⟨(deliver_raw h hmode).1, hstart, hnext⟩

end Receiver

/-- What lies behind the bytes received, in a buffer or from earlier frames in `msgBuf`, has no
influence on the packet. -/
theorem phParse_received_only (out : PacketHeader) (buf buf' : Memory) (size : ℕ)
    (h : ∀ i < size, buf i = buf' i) :
    phParse out buf size = phParse out buf' size ∧
      ∀ (r : Receiver) (msgBuf : Vector Byte sizeofPacketHeader), r.Inv → r.packetMode = true →
        ({ r with msgBuf := msgBuf } : Receiver).deliver.pkt = r.deliver.pkt ∧
          ({ r with msgBuf := msgBuf } : Receiver).deliver.console = r.deliver.console := by
  refine ⟨phParse_congr out h, ?_⟩
  intro r msgBuf hinv hmode
  obtain ⟨hconsole, hpkt⟩ := Receiver.deliver_packet hinv hmode
  obtain ⟨hconsole', hpkt'⟩ :=
    Receiver.deliver_packet (r := { r with msgBuf := msgBuf }) { hinv with } hmode
  rw [hconsole, hpkt, hconsole', hpkt']
  exact ⟨rfl, rfl⟩

/-- The frame of the message `a`. -/
def frameOfA : List Byte := [0x55, 0x01, 0xAA, 0xBB, 0x01, 0x01, 0x61, 0x20]

/-- A receiver that has received this frame. -/
def receivedA : Receiver :=
  { Receiver.init true with
    receiveBuf := frameOfA.foldl Ringbuffer.put (Receiver.init true).receiveBuf }

/-- The frame is accepted, whatever lies behind it and in `msgBuf`. -/
theorem phParse_received_only_frameA :
    (phParse PacketHeader.zero (listMemory (frameOfA ++ [0x42])) 8).1 = true ∧
      phParse PacketHeader.zero (listMemory (frameOfA ++ [0x42])) 8 =
        phParse PacketHeader.zero (listMemory (frameOfA ++ [0x43, 0x44])) 8 ∧
      ({ receivedA with msgBuf := Vector.replicate _ 0x42 } : Receiver).deliver.pkt =
        receivedA.deliver.pkt ∧
      ({ receivedA with msgBuf := Vector.replicate _ 0x42 } : Receiver).deliver.console =
        receivedA.deliver.console := by
  have hfront : ∀ i < 8,
      listMemory (frameOfA ++ [0x42]) i = listMemory (frameOfA ++ [0x43, 0x44]) i := by
    decide
  have hinv : receivedA.Inv :=
    { Receiver.inv_init true with valid := ⟨by decide +kernel, by decide +kernel⟩ }
  obtain ⟨hparse, hbuf⟩ := phParse_received_only PacketHeader.zero _ _ 8 hfront
  exact ⟨by decide +kernel, hparse, hbuf receivedA _ hinv rfl⟩

/-! ## A call of the main routine -/

namespace Receiver

/-- Before a delivery nothing is printed, and the message and the packet stay as they were. -/
theorem beforeDelivery_of_delivers {r : Receiver} {state : MonitorState}
    (h : (r.beforeDelivery state).delivers = true) :
    (r.beforeDelivery state).pkt = r.pkt ∧ (r.beforeDelivery state).msgBuf = r.msgBuf ∧
      (r.beforeDelivery state).packetMode = r.packetMode ∧
      (r.beforeDelivery state).console = r.console := by
  obtain ⟨-, heq⟩ | ⟨-, -, heq⟩ | ⟨-, heq⟩ := r.beforeDelivery_cases state
  · rw [heq, idleReset_frame]
    exact ⟨rfl, rfl, rfl, rfl⟩
  · -- a collision leaves nothing to deliver
    rw [heq] at h
    simp [delivers, dropMessage, printf, Ringbuffer.reset, Ringbuffer.hasElement] at h
  · rw [heq]
    exact ⟨rfl, rfl, rfl, rfl⟩

end Receiver

namespace Node

/-- The bytes that a call of the main routine delivers, if it delivers any. -/
def delivered (n : Node) : Option (List Byte) :=
  let r := n.rx.beforeDelivery n.mon.getState
  if r.delivers then some r.taken else none

/-- What a call of the main routine prints. -/
def printed (n : Node) : List Printf := n.receiverUpdate.rx.console.drop n.rx.console.length

/-- A call that delivers bytes is a delivery of them, by a receiver that has kept its message, its
packet and what it has printed. -/
theorem exists_deliver {n : Node} (hinv : n.rx.Inv) {bytes : List Byte}
    (hdel : n.delivered = some bytes) :
    ∃ r : Receiver, r.Inv ∧ r.taken = bytes ∧ n.receiverUpdate.rx = r.deliver ∧
      r.pkt = n.rx.pkt ∧ r.msgBuf = n.rx.msgBuf ∧ r.packetMode = n.rx.packetMode ∧
      r.console = n.rx.console := by
  unfold delivered at hdel
  dsimp only at hdel
  split at hdel
  · next hdelivers =>
    refine ⟨n.rx.beforeDelivery n.mon.getState, hinv.beforeDelivery _, Option.some.inj hdel, ?_,
      Receiver.beforeDelivery_of_delivers hdelivers⟩
    show n.rx.mainRoutineUpdate n.mon.getState = _
    rw [Receiver.mainRoutineUpdate_eq, if_pos hdelivers]
  · exact nomatch hdel

/-- In packet mode a delivery parses the bytes and prints the packet. -/
theorem receiverUpdate_packet {n : Node} (hinv : n.rx.Inv) (hmode : n.rx.packetMode = true)
    {bytes : List Byte} (hdel : n.delivered = some bytes) :
    let parse := phParse n.rx.pkt (listMemory bytes) bytes.length
    n.printed = packetOutput parse.1 parse.2.terminated ∧
      n.receiverUpdate.rx.pkt = parse.2.terminated := by
  obtain ⟨r, hr, rfl, hrx, hpkt, -, hmode', hconsole⟩ := exists_deliver hinv hdel
  obtain ⟨hprints, hleaves⟩ := Receiver.deliver_packet hr (hmode'.trans hmode)
  rw [hpkt, hconsole] at hprints
  rw [hpkt] at hleaves
  unfold printed
  rw [hrx, hprints, List.drop_left]
  exact ⟨rfl, hleaves⟩

/-- In raw mode a delivery prints `msgBuf`: the bytes, and behind them what was there before. -/
theorem receiverUpdate_raw {n : Node} (hinv : n.rx.Inv) (hmode : n.rx.packetMode = false)
    {bytes : List Byte} (hdel : n.delivered = some bytes) :
    n.printed = [⟨"Recieveing %s", [.s n.receiverUpdate.rx.msgBuf.toList]⟩] ∧
      bytes <+: n.receiverUpdate.rx.msgBuf.toList ∧
      n.receiverUpdate.rx.msgBuf[bytes.length]? = n.rx.msgBuf[bytes.length]? := by
  obtain ⟨r, hr, rfl, hrx, -, hmsgBuf, hmode', hconsole⟩ := exists_deliver hinv hdel
  obtain ⟨hprints, hfront, hnext⟩ := Receiver.deliver_rawText hr (hmode'.trans hmode)
  rw [hconsole] at hprints
  rw [hmsgBuf] at hnext
  unfold printed
  rw [hrx, hprints, List.drop_left]
  exact ⟨rfl, hfront, hnext⟩

/-! ## Any bytes can be delivered -/

/-- The edges that carry a bit and leave the line high. -/
def bitEvents (b : Bool) : List Event := [.exti4 b, .exti4 true]

/-- The first edge is sampled, the second one is between two bits. -/
theorem bits_edge_edge {r : Receiver} (h : r.Inv) (hs : r.sample = true)
    (hroom : r.bits.length < 8 * (bufSize - 1)) (b : Bool) :
    ((r.edge b).edge true).Inv ∧ ((r.edge b).edge true).sample = true ∧
      ((r.edge b).edge true).bits = r.bits ++ [b] ∧ ((r.edge b).edge true).pkt = r.pkt ∧
      ((r.edge b).edge true).msgBuf = r.msgBuf ∧
      ((r.edge b).edge true).packetMode = r.packetMode := by
  have hboundary : (r.edge b).sample = false := by rw [Receiver.edge_sample hs]
  refine ⟨(h.edge b).edge true, ?_, ?_, ?_, ?_, ?_⟩
  · rw [Receiver.edge_boundary hboundary]
  · rw [Receiver.edge_boundary hboundary, ← Receiver.bits_edge h hs hroom]
    rfl
  · rw [Receiver.edge_frame, Receiver.edge_frame r]
  · rw [Receiver.edge_frame, Receiver.edge_frame r]
  · rw [Receiver.edge_frame, Receiver.edge_frame r]

/-- After the edges of some bits these have been sampled, and nothing else has happened to the
receiver. -/
theorem run_bitEvents {n : Node} (h : n.rx.Inv) (hs : n.rx.sample = true) (bs : List Bool)
    (hroom : n.rx.bits.length + bs.length ≤ 8 * (bufSize - 1))
    (hmon : bs = [] → n.mon.lineState = true ∧ n.mon.stk.enable = true) :
    ∃ n', n.run (bs.flatMap bitEvents) = some n' ∧ n'.rx.Inv ∧
      (n'.mon.lineState = true ∧ n'.mon.stk.enable = true) ∧ n'.rx.bits = n.rx.bits ++ bs ∧
      n'.rx.pkt = n.rx.pkt ∧ n'.rx.msgBuf = n.rx.msgBuf ∧
      n'.rx.packetMode = n.rx.packetMode := by
  induction bs generalizing n with
  | nil => exact ⟨n, rfl, h, hmon rfl, (List.append_nil _).symm, rfl, rfl, rfl⟩
  | cons b bs ih =>
    rw [List.length_cons] at hroom
    obtain ⟨hinv, hsample, hbits, hpkt, hmsgBuf, hmode⟩ := bits_edge_edge h hs (by omega) b
    obtain ⟨n', hrun, hinv', hmon', hbits', hpkt', hmsgBuf', hmode'⟩ :=
      ih (n := ⟨n.tx, (n.mon.edgeIntrr b).edgeIntrr true, (n.rx.edge b).edge true, true⟩) hinv
        hsample (by dsimp only; rw [hbits, List.length_append, List.length_singleton]; omega)
        fun _ => ⟨rfl, rfl⟩
    refine ⟨n', hrun, hinv', hmon', ?_, hpkt'.trans hpkt, hmsgBuf'.trans hmsgBuf,
      hmode'.trans hmode⟩
    rw [hbits', hbits, List.append_assoc]
    rfl

/-- A board that has taken everything it has received. -/
structure Settled (n : Node) (packetMode : Bool) : Prop where
  reachable : Reachable n
  mode : n.rx.packetMode = packetMode
  sample : n.rx.sample = true
  bits : n.rx.bits = []

theorem settled_boot (src dest : Byte) (packetMode pin line : Bool) :
    (boot src dest packetMode pin line).Settled packetMode :=
  ⟨.boot src dest packetMode pin line, rfl, rfl, rfl⟩

/-- Once the line has become idle, what has been received is delivered. -/
theorem delivered_of_idle {n : Node} (hinv : n.rx.Inv) (hidle : n.mon.getState = .idle)
    {bytes : List Byte} (hne : bytes ≠ []) (hlen : bytes.length ≤ sizeofPacketHeader)
    (hunread : n.rx.unread = bytes) :
    n.delivered = some bytes ∧ n.receiverUpdate.rx = n.rx.idleReset.deliver := by
  have hreset : n.rx.beforeDelivery n.mon.getState = n.rx.idleReset := by
    obtain ⟨-, heq⟩ | ⟨hcol, -, -⟩ | ⟨hbusy, -⟩ := n.rx.beforeDelivery_cases n.mon.getState
    · exact heq
    · rw [hidle] at hcol
      cases hcol
    · exact absurd hidle hbusy
  have hdelivers : n.rx.idleReset.delivers = true := by
    rw [Receiver.idleReset_frame, Receiver.delivers, Ringbuffer.hasElement_eq hinv.valid]
    show (!false && !n.rx.unread.isEmpty) = true
    rw [hunread]
    simpa using hne
  have htaken : n.rx.idleReset.taken = bytes := by
    rw [Receiver.idleReset_frame]
    show n.rx.unread.take sizeofPacketHeader = bytes
    rw [hunread, List.take_of_length_le hlen]
  constructor
  · unfold delivered
    dsimp only
    rw [hreset, if_pos hdelivers, htaken]
  · show n.rx.mainRoutineUpdate n.mon.getState = _
    rw [Receiver.mainRoutineUpdate_eq, hreset, if_pos hdelivers]

/-- Any bytes can come next: the edges that carry them, and the end of the activity period. -/
theorem Settled.receive {n : Node} {packetMode : Bool} (h : n.Settled packetMode)
    (bytes : List Byte) (hne : bytes ≠ []) (hlen : bytes.length ≤ sizeofPacketHeader) :
    ∃ n', Reachable n' ∧ n'.rx.packetMode = packetMode ∧ n'.delivered = some bytes ∧
      n'.rx.pkt = n.rx.pkt ∧ n'.rx.msgBuf = n.rx.msgBuf ∧
      n'.receiverUpdate.Settled packetMode := by
  have hbits : bytes.flatMap Bits.msbFirst ≠ [] := by
    intro hnil
    have hzero := Bits.length_flatMap_msbFirst bytes
    rw [hnil, List.length_nil] at hzero
    exact hne (List.eq_nil_of_length_eq_zero (by omega))
  have hroom : n.rx.bits.length + (bytes.flatMap Bits.msbFirst).length ≤ 8 * (bufSize - 1) := by
    have hsize : sizeofPacketHeader = 262 := rfl
    have hbuf : bufSize = 1028 := rfl
    rw [h.bits, List.length_nil, Bits.length_flatMap_msbFirst]
    omega
  obtain ⟨n₁, hrun, hinv, ⟨hline, htimer⟩, hbits₁, hpkt, hmsgBuf, hmode⟩ :=
    run_bitEvents h.reachable.rxInv h.sample _ hroom fun hnil => absurd hnil hbits
  -- the bits are those of whole bytes
  rw [h.bits, List.nil_append] at hbits₁
  have hunread : n₁.rx.unread = bytes :=
    (Bits.words_unique (s := []) (hbits₁.trans (List.append_nil _).symm)
      (by have := hinv.currBit_lt; simp; omega) (by simp)).1
  have hstep : n₁.step .sysTick = some n₁.sysTickHandler := by rw [step, if_pos htimer]
  have hidle : n₁.sysTickHandler.mon.getState = .idle := by
    show n₁.mon.sysTickHandler.monitorState = .idle
    rw [Monitor.monitorState_sysTickHandler, if_pos hline]
  have hreach : Reachable n₁.sysTickHandler := (h.reachable.run hrun).step hstep
  obtain ⟨hdelivered, hupdate⟩ :=
    delivered_of_idle (n := n₁.sysTickHandler) hinv hidle hne hlen hunread
  refine ⟨n₁.sysTickHandler, hreach, hmode.trans h.mode, hdelivered, hpkt, hmsgBuf,
    hreach.step (e := .receiverUpdate) rfl, ?_, ?_, ?_⟩
  · rw [hupdate, Receiver.deliver_frame, Receiver.idleReset_frame]
    exact hmode.trans h.mode
  · rw [hupdate, Receiver.deliver_frame, Receiver.idleReset_frame]
  · obtain ⟨-, hrest, -⟩ := Receiver.deliver_spec hinv.idleReset
    have hbit : n₁.rx.idleReset.deliver.currBit = 0 := by
      rw [Receiver.deliver_frame, Receiver.idleReset_frame]
    have hunread₁ : n₁.rx.idleReset.unread = bytes := by
      rw [Receiver.idleReset_frame]
      exact hunread
    rw [hupdate]
    show n₁.rx.idleReset.deliver.bits = []
    rw [Receiver.bits, hrest, hunread₁, hbit, List.drop_eq_nil_of_le hlen]
    rfl

end Node

end NetworkingCard
