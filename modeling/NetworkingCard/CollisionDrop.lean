import NetworkingCard.Reception

/-!
# What becomes of a collided reception

An activity period lasts from the first edge after an idle state to the next idle state. A
`History` records beside the board in which period every bit was sampled, in which periods the
monitor has found a collision, and which bytes the main routine has taken from `receiveBuf`.

`notTaken_of_run`: no byte with a bit of a collided period is ever taken, if

* no edge comes in `MS_COLLISION` while a byte with a bit of that period is unread, that is, the
  main loop has seen the collision before; and
* no edge completes a byte with a bit of a period that has had a collision already.

The invariant is `HistoryInv`: a collided byte is unread only as long as `MS_COLLISION` shows, and
`currentlyReceiving` is set then, so that the next call of the main routine drops it.
-/

namespace NetworkingCard

/-- The bytes that an argument of `printf` prints as a string. -/
def PrintfArg.bytes : PrintfArg → List Byte
  | .s object => object
  | .x _ | .d _ => []

/-- The bytes that a call of `printf` prints as strings. -/
def Printf.bytes (p : Printf) : List Byte := p.args.flatMap PrintfArg.bytes

namespace Receiver

/-- The receiver when the main routine comes to its last part, the delivery. -/
def beforeDelivery (r : Receiver) (state : MonitorState) : Receiver :=
  let r := if state = .idle then r.idleReset else r
  if r.currentlyReceiving && decide (state = .collision) then r.dropMessage else r

/-- The condition of the last part. -/
def delivers (r : Receiver) : Bool := !r.currentlyReceiving && Ringbuffer.hasElement r.receiveBuf

theorem mainRoutineUpdate_eq (r : Receiver) (state : MonitorState) :
    r.mainRoutineUpdate state = if (r.beforeDelivery state).delivers
      then (r.beforeDelivery state).deliver else r.beforeDelivery state := rfl

/-- The bytes of the strings printed so far. -/
def displayed (r : Receiver) : List Byte := r.console.flatMap Printf.bytes

theorem displayed_of_console {r r' : Receiver} {format : String} {args : List PrintfArg}
    (h : r'.console = r.console ++ [⟨format, args⟩]) :
    r'.displayed = r.displayed ++ args.flatMap PrintfArg.bytes := by
  rw [displayed, h, List.flatMap_append, List.flatMap_singleton]
  rfl

end Receiver

/-- The elements at the unread places of a buffer, for elements stored beside it. -/
def unreadAt {α : Type} (cells : ℕ → α) (buffer : RingBuffer Byte) : List α :=
  CircularQueue.unread bufSize cells buffer.put buffer.get

/-- What has happened on the line and to the received bytes: the current or last activity period,
the collided ones, the periods of the bits in `dataByte`, for each cell of `receiveBuf` the periods
of the bits of the byte in it, and the bytes taken by the main routine, with the periods of their
bits. -/
structure History where
  period : ℕ
  collided : List ℕ
  bits : List ℕ
  origins : ℕ → List ℕ
  taken : List (Byte × List ℕ)

namespace History

/-- Nothing has happened. -/
def init : History := ⟨0, [], [], fun _ => [], []⟩

/-- The period an edge belongs to. -/
def periodAt (g : History) (state : MonitorState) : ℕ :=
  if state = .idle then g.period + 1 else g.period

/-- The record of an edge. -/
def edge (g : History) (n : Node) : History :=
  let g := { g with period := g.periodAt n.mon.monitorState }
  if n.rx.sample then
    let g := { g with bits := g.bits ++ [g.period] }
    if n.rx.currBit + 1 = 8 then
      { g with origins := Function.update g.origins n.rx.receiveBuf.put g.bits, bits := [] }
    else g
  else g

/-- The record of a call of `receiver_mainRoutineUpdate`. -/
def receiverUpdate (g : History) (n : Node) : History :=
  let r := n.rx.beforeDelivery n.mon.getState
  let g := if n.mon.getState = .idle then { g with bits := [] } else g
  if r.delivers then
    { g with taken := g.taken ++
        (r.unread.zip (unreadAt g.origins r.receiveBuf)).take sizeofPacketHeader }
  else g

/-- The record of one event, which leads to the board `n'`. -/
def update (g : History) (n : Node) (e : Event) (n' : Node) : History :=
  match e with
  | .exti4 _ => g.edge n
  | .sysTick =>
    if n'.mon.monitorState = .collision then { g with collided := g.period :: g.collided } else g
  | .receiverUpdate => g.receiverUpdate n
  | .transmitterUpdate _ _ | .tim2 | .tim4 => g

end History

namespace Node

/-- A run of a board with its history. -/
abbrev recordedStep (s : Node × History) (e : Event) : Option (Node × History) :=
  Runs.instrument step History.update s e

/-- The record restricts no run: the runs with a history are those of the board. -/
theorem run_iff_exists_history {n n' : Node} (g : History) {es : List Event} :
    n.run es = some n' ↔ ∃ g', Runs.run recordedStep (n, g) es = some (n', g') := by
  constructor
  · intro h
    exact Runs.exists_run_instrument h g
  · rintro ⟨g', h⟩
    exact Runs.run_of_run_instrument h

/-- No byte that was taken has a bit of a collided period. -/
def NotTaken (g : History) : Prop := ∀ b ∈ g.taken, ∀ p ∈ b.2, p ∉ g.collided

instance (g : History) : Decidable (NotTaken g) :=
  inferInstanceAs (Decidable (∀ b ∈ g.taken, ∀ p ∈ b.2, p ∉ g.collided))

/-- An edge does not come between a collision and the dropping of its bytes, and completes no byte
with a bit of a collided period. -/
def DropsInTime (s : Node × History) : Event → Prop
  | .exti4 _ =>
    (s.1.mon.monitorState = .collision →
      ∀ tags ∈ unreadAt s.2.origins s.1.rx.receiveBuf, s.2.period ∉ tags) ∧
    (s.1.rx.sample = true → s.1.rx.currBit + 1 = 8 →
      ∀ p ∈ s.2.bits ++ [s.2.periodAt s.1.mon.monitorState], p ∉ s.2.collided)
  | _ => True

instance (s : Node × History) : ∀ e, Decidable (DropsInTime s e)
  | .exti4 _ => inferInstanceAs (Decidable (_ ∧ _))
  | .transmitterUpdate _ _ | .receiverUpdate | .tim2 | .tim4 | .sysTick => isTrue trivial

/-! ## The invariant -/

/-- What holds of a board and its history. -/
structure HistoryInv (n : Node) (g : History) : Prop where
  rx : n.rx.Inv
  running : n.mon.stk.enable = true → n.mon.monitorState = .busy
  length_bits : g.bits.length = n.rx.currBit
  collided_le : ∀ p ∈ g.collided, p ≤ g.period
  bits_le : ∀ p ∈ g.bits, p ≤ g.period
  unread_le : ∀ tags ∈ unreadAt g.origins n.rx.receiveBuf, ∀ p ∈ tags, p ≤ g.period
  receiving : n.mon.monitorState ≠ .idle →
    ∀ tags ∈ unreadAt g.origins n.rx.receiveBuf, g.period ∈ tags → n.rx.currentlyReceiving = true
  -- a collision that still shows will be seen by the main routine
  unread_clean : ∀ tags ∈ unreadAt g.origins n.rx.receiveBuf, ∀ p ∈ tags, p ∈ g.collided →
    p = g.period ∧ n.mon.monitorState = .collision
  -- a period is over before any of its bytes is taken
  taken_over : ∀ b ∈ g.taken, ∀ p ∈ b.2,
    p ≤ g.period ∧ (n.mon.monitorState ≠ .idle → p ≠ g.period)
  taken_clean : NotTaken g

theorem historyInv_boot (src dest : Byte) (packetMode pin line : Bool) :
    HistoryInv (boot src dest packetMode pin line) History.init where
  rx := Receiver.inv_init packetMode
  running := by simp [boot, Monitor.start]
  length_bits := rfl
  collided_le := by simp [History.init]
  bits_le := by simp [History.init]
  unread_le := by simp [unreadAt, boot, Receiver.init]
  receiving := by simp [unreadAt, boot, Receiver.init]
  unread_clean := by simp [unreadAt, boot, Receiver.init]
  taken_over := by simp [History.init]
  taken_clean := by simp [NotTaken, History.init]

theorem mem_unreadAt_put {α : Type} {cells : ℕ → α} {buffer : RingBuffer Byte}
    (h : Ringbuffer.Valid buffer) {a x : α} {element : Byte}
    (hx : x ∈ unreadAt (Function.update cells buffer.put a) (Ringbuffer.put buffer element)) :
    x ∈ unreadAt cells buffer ∨ x = a := by
  rw [unreadAt, Ringbuffer.put_eq] at hx
  exact CircularQueue.mem_unread_push h.put_lt h.get_lt hx

theorem period_le_periodAt (g : History) (state : MonitorState) : g.period ≤ g.periodAt state := by
  unfold History.periodAt
  split <;> omega

/-- What an edge finds unread is clean, and was received in an earlier period unless the reception
is still going on. -/
theorem HistoryInv.unread_at_edge {n : Node} {g : History} (h : HistoryInv n g) {level : Bool}
    (hc : DropsInTime (n, g) (.exti4 level)) {tags : List ℕ}
    (htags : tags ∈ unreadAt g.origins n.rx.receiveBuf) :
    (∀ p ∈ tags, p ≤ g.periodAt n.mon.monitorState) ∧
      (g.periodAt n.mon.monitorState ∈ tags → n.rx.currentlyReceiving = true) ∧
      ∀ p ∈ tags, p ∉ g.collided := by
  refine ⟨fun p hp => (h.unread_le tags htags p hp).trans (period_le_periodAt g _), fun hk => ?_,
    fun p hp hcol => ?_⟩
  · by_cases hidle : n.mon.monitorState = .idle
    · have hle := h.unread_le tags htags _ hk
      rw [History.periodAt, if_pos hidle] at hle
      omega
    · rw [History.periodAt, if_neg hidle] at hk
      exact h.receiving hidle tags htags hk
  · obtain ⟨rfl, hstate⟩ := h.unread_clean tags htags p hp hcol
    exact hc.1 hstate tags htags hp

/-- No byte of the period of an edge has been taken. -/
theorem HistoryInv.taken_at_edge {n : Node} {g : History} (h : HistoryInv n g)
    {b : Byte × List ℕ} (hb : b ∈ g.taken) {p : ℕ} (hp : p ∈ b.2) :
    p ≤ g.periodAt n.mon.monitorState ∧ p ≠ g.periodAt n.mon.monitorState := by
  obtain ⟨hle, hne⟩ := h.taken_over b hb p hp
  unfold History.periodAt
  split
  · omega
  · exact ⟨hle, hne ‹_›⟩

/-- The monitor's part of an edge: it may begin a period. -/
theorem HistoryInv.monitorEdge {n : Node} {g : History} (h : HistoryInv n g) {level : Bool}
    (hc : DropsInTime (n, g) (.exti4 level)) :
    HistoryInv { n with idr4 := level, mon := n.mon.edgeIntrr level }
      { g with period := g.periodAt n.mon.monitorState } where
  rx := h.rx
  running := fun _ => rfl
  length_bits := h.length_bits
  collided_le := fun p hp => (h.collided_le p hp).trans (period_le_periodAt g _)
  bits_le := fun p hp => (h.bits_le p hp).trans (period_le_periodAt g _)
  unread_le := fun _ htags => (h.unread_at_edge hc htags).1
  receiving := fun _ _ htags => (h.unread_at_edge hc htags).2.1
  unread_clean := fun _ htags p hp hcol => absurd hcol ((h.unread_at_edge hc htags).2.2 p hp)
  taken_over := fun _ hb _ hp => ⟨(h.taken_at_edge hb hp).1, fun _ => (h.taken_at_edge hb hp).2⟩
  taken_clean := h.taken_clean

/-- An edge: after the monitor's part, the sampling and the byte that it may complete. -/
theorem HistoryInv.edge {n : Node} {g : History} (h : HistoryInv n g) {level : Bool}
    (hc : DropsInTime (n, g) (.exti4 level)) :
    HistoryInv { n with idr4 := level }.exti4IRQHandler (g.edge n) := by
  have hmon := h.monitorEdge hc
  have hrx : (n.rx.edge level).Inv := h.rx.edge level
  have hbits : ∀ p ∈ g.bits ++ [g.periodAt n.mon.monitorState],
      p ≤ g.periodAt n.mon.monitorState := by
    intro p hp
    rcases List.mem_append.mp hp with hold | hnew
    · exact hmon.bits_le p hold
    · exact Nat.le_of_eq (List.mem_singleton.mp hnew)
  unfold exti4IRQHandler History.edge
  dsimp only
  cases hs : n.rx.sample
  · -- the boundary between two bits
    rw [Receiver.edge_boundary hs] at hrx ⊢
    exact { hmon with rx := hrx }
  rw [Receiver.edge_sample hs] at hrx ⊢
  by_cases h8 : n.rx.currBit + 1 = 8
  · -- the byte is complete
    rw [if_pos rfl, if_pos h8]
    rw [if_pos h8, if_pos h8] at hrx ⊢
    have hclean := hc.2 hs h8
    refine
      { hmon with
        rx := hrx
        length_bits := rfl
        bits_le := by simp
        unread_le := fun tags htags => ?_
        receiving := fun _ _ _ _ => rfl
        unread_clean := fun tags htags p hp hcol => absurd hcol ?_ }
    -- what is unread now was unread before or is the completed byte
    · rcases mem_unreadAt_put h.rx.valid htags with hold | rfl
      · exact hmon.unread_le tags hold
      · exact hbits
    · rcases mem_unreadAt_put h.rx.valid htags with hold | rfl
      · exact (h.unread_at_edge hc hold).2.2 p hp
      · exact hclean p hp
  · -- one more bit of the byte
    have hlen : (g.bits ++ [g.periodAt n.mon.monitorState]).length = n.rx.currBit + 1 := by
      rw [List.length_append, h.length_bits]
      rfl
    rw [if_pos rfl, if_neg h8]
    rw [if_neg h8, if_neg h8] at hrx ⊢
    exact
      { hmon with
        rx := hrx
        length_bits := hlen
        bits_le := hbits
        receiving := fun _ _ _ _ => rfl }

/-- The monitor's timeout ends the period or finds a collision in it. -/
theorem HistoryInv.sysTick {n : Node} {g : History} (h : HistoryInv n g)
    (hen : n.mon.stk.enable = true) :
    HistoryInv n.sysTickHandler (if n.sysTickHandler.mon.monitorState = .collision
      then { g with collided := g.period :: g.collided } else g) := by
  have hbusy := h.running hen
  have hne : n.mon.monitorState ≠ .idle := by rw [hbusy]; simp
  have hclean : ∀ tags ∈ unreadAt g.origins n.rx.receiveBuf, ∀ p ∈ tags, p ∉ g.collided := by
    intro tags htags p hp hcol
    have hstate := (h.unread_clean tags htags p hp hcol).2
    exact absurd (hbusy.symm.trans hstate) (by simp)
  have hstate : n.sysTickHandler.mon.monitorState = if n.mon.lineState then .idle else .collision :=
    Monitor.monitorState_sysTickHandler n.mon
  have hstopped : n.sysTickHandler.mon.stk.enable = false := by
    rw [sysTickHandler, Monitor.stk_sysTickHandler]
  cases hline : n.mon.lineState
  · -- a collision
    rw [hline, if_neg (by simp)] at hstate
    rw [if_pos hstate]
    refine
      { rx := h.rx
        running := fun hen' => absurd (hstopped.symm.trans hen') (by simp)
        length_bits := h.length_bits
        collided_le := fun p hp => ?_
        bits_le := h.bits_le
        unread_le := h.unread_le
        receiving := fun _ => h.receiving hne
        unread_clean := fun tags htags p hp hcol => ?_
        taken_over := fun b hb p hp =>
          ⟨(h.taken_over b hb p hp).1, fun _ => (h.taken_over b hb p hp).2 hne⟩
        taken_clean := fun b hb p hp => ?_ }
    · rcases List.mem_cons.mp hp with rfl | hp
      · exact Nat.le_refl _
      · exact h.collided_le p hp
    · rcases List.mem_cons.mp hcol with rfl | hcol
      · exact ⟨rfl, hstate⟩
      · exact absurd hcol (hclean tags htags p hp)
    · rw [List.mem_cons, not_or]
      exact ⟨(h.taken_over b hb p hp).2 hne, h.taken_clean b hb p hp⟩
  · -- the line is idle
    rw [hline, if_pos rfl] at hstate
    rw [if_neg (by rw [hstate]; simp)]
    exact
      { h with
        running := fun hen' => absurd (hstopped.symm.trans hen') (by simp)
        receiving := fun hne => absurd hstate hne
        unread_clean := fun tags htags p hp hcol => absurd hcol (hclean tags htags p hp)
        taken_over := fun b hb p hp =>
          ⟨(h.taken_over b hb p hp).1, fun hne => absurd hstate hne⟩ }

end Node

namespace Receiver

theorem beforeDelivery_cases (r : Receiver) (state : MonitorState) :
    (state = .idle ∧ r.beforeDelivery state = r.idleReset) ∨
      (state = .collision ∧ r.currentlyReceiving = true ∧
        r.beforeDelivery state = r.dropMessage) ∨
      (state ≠ .idle ∧ r.beforeDelivery state = r) := by
  have hreset : r.idleReset.currentlyReceiving = false := by rw [idleReset_frame]
  unfold beforeDelivery
  by_cases hidle : state = .idle
  · simp [hidle, hreset]
  · by_cases hcol : state = .collision ∧ r.currentlyReceiving = true
    · exact Or.inr (Or.inl ⟨hcol.1, hcol.2, by simp [hcol.1, hcol.2]⟩)
    · refine Or.inr (Or.inr ⟨hidle, ?_⟩)
      rw [not_and] at hcol
      simp only [if_neg hidle, Bool.and_eq_true, decide_eq_true_eq]
      exact if_neg fun hand => hcol hand.2 hand.1

theorem Inv.beforeDelivery {r : Receiver} (h : r.Inv) (state : MonitorState) :
    (r.beforeDelivery state).Inv := by
  obtain ⟨-, heq⟩ | ⟨-, -, heq⟩ | ⟨-, heq⟩ := r.beforeDelivery_cases state <;> rw [heq]
  · exact h.idleReset
  · exact h.dropMessage
  · exact h

/-- The loop takes unread bytes from the front, wherever their contents are stored. -/
theorem unreadAt_readLoop {α : Type} (cells : ℕ → α) (n : ℕ) {r : Receiver} (h : r.Inv) :
    unreadAt cells (readLoop n r).receiveBuf <:+ unreadAt cells r.receiveBuf := by
  induction n generalizing r with
  | zero => exact List.suffix_rfl
  | succ n ih =>
    unfold readLoop
    by_cases hcond : Ringbuffer.hasElement r.receiveBuf = true ∧ r.msgCur < sizeofPacketHeader
    · rw [if_pos (by simpa using hcond)]
      obtain ⟨helem, hroom⟩ := hcond
      have hne : r.receiveBuf.put ≠ r.receiveBuf.get := by
        simpa [Ringbuffer.hasElement] using helem
      have hpop : unreadAt cells (Ringbuffer.get r.receiveBuf).2 <:+ unreadAt cells r.receiveBuf := by
        rw [Ringbuffer.get_eq, unreadAt, unreadAt,
          CircularQueue.unread_pop h.valid.put_lt h.valid.get_lt hne]
        exact List.suffix_cons _ _
      exact (ih (h.readElement hroom)).trans hpop
    · rw [if_neg (by simpa using hcond)]

theorem unreadAt_deliver {α : Type} {r : Receiver} (h : r.Inv) (cells : ℕ → α) :
    unreadAt cells r.deliver.receiveBuf <:+ unreadAt cells r.receiveBuf := by
  have h0 : ({ r with msgCur := 0 } : Receiver).Inv := { h with msgCur_le := Nat.zero_le _ }
  rw [receiveBuf_deliver]
  exact unreadAt_readLoop cells sizeofPacketHeader h0

end Receiver

namespace Node

/-- What the main routine has before it delivers: a collision that shows has been dropped. -/
theorem HistoryInv.beforeDelivery {n : Node} {g : History} (h : HistoryInv n g) :
    let r := n.rx.beforeDelivery n.mon.getState
    (∀ tags ∈ unreadAt g.origins r.receiveBuf, tags ∈ unreadAt g.origins n.rx.receiveBuf) ∧
      (n.mon.monitorState ≠ .idle → ∀ tags ∈ unreadAt g.origins r.receiveBuf,
        g.period ∈ tags → r.currentlyReceiving = true) ∧
      r.currBit = if n.mon.monitorState = .idle then 0 else n.rx.currBit := by
  intro r
  obtain ⟨hidle, heq⟩ | ⟨hcol, -, heq⟩ | ⟨hne, heq⟩ := n.rx.beforeDelivery_cases n.mon.getState
  · rw [show r = _ from heq, Receiver.idleReset_frame]
    exact ⟨fun _ htags => htags, fun hne => absurd hidle hne, (if_pos hidle).symm⟩
  · have hnil : unreadAt g.origins r.receiveBuf = [] := by
      rw [show r = _ from heq]
      exact CircularQueue.unread_self _ _ _
    -- the buffer was dropped, so nothing is unread
    have hne : n.mon.monitorState ≠ .idle := fun hidle => by
      rw [Monitor.getState, hidle] at hcol
      cases hcol
    rw [hnil, show r = _ from heq, if_neg hne]
    exact ⟨by simp, by simp, rfl⟩
  · rw [show r = _ from heq]
    exact ⟨fun _ htags => htags, h.receiving, (if_neg hne).symm⟩

/-- What a delivery leaves. -/
theorem HistoryInv.afterDelivery {n : Node} {g : History} (h : HistoryInv n g) :
    let r := n.rx.beforeDelivery n.mon.getState
    (∀ tags ∈ unreadAt g.origins n.receiverUpdate.rx.receiveBuf,
        tags ∈ unreadAt g.origins r.receiveBuf) ∧
      n.receiverUpdate.rx.currentlyReceiving = r.currentlyReceiving ∧
      n.receiverUpdate.rx.currBit = r.currBit := by
  intro r
  rw [Node.receiverUpdate]
  dsimp only
  rw [Receiver.mainRoutineUpdate_eq]
  split
  · refine ⟨fun tags htags => ?_, ?_, ?_⟩
    · exact (Receiver.unreadAt_deliver (h.rx.beforeDelivery _) g.origins).subset htags
    · rw [Receiver.deliver_frame]
    · rw [Receiver.deliver_frame]
  · exact ⟨fun _ htags => htags, rfl, rfl⟩

theorem taken_receiverUpdate (g : History) (n : Node) :
    (g.receiverUpdate n).taken =
      if (n.rx.beforeDelivery n.mon.getState).delivers then g.taken ++
        ((n.rx.beforeDelivery n.mon.getState).unread.zip (unreadAt g.origins
          (n.rx.beforeDelivery n.mon.getState).receiveBuf)).take sizeofPacketHeader
      else g.taken := by
  unfold History.receiverUpdate
  dsimp only
  by_cases hidle : n.mon.getState = .idle
  · rw [if_pos hidle]
    split <;> rfl
  · rw [if_neg hidle]
    split <;> rfl

/-- A byte that is taken was unread, and no reception is going on. -/
theorem mem_taken_receiverUpdate {n : Node} {g : History} {b : Byte × List ℕ}
    (hb : b ∈ (g.receiverUpdate n).taken) :
    b ∈ g.taken ∨
      b.2 ∈ unreadAt g.origins (n.rx.beforeDelivery n.mon.getState).receiveBuf ∧
        (n.rx.beforeDelivery n.mon.getState).currentlyReceiving = false := by
  rw [taken_receiverUpdate] at hb
  split at hb
  · next hdelivers =>
    simp only [Receiver.delivers, Bool.and_eq_true, Bool.not_eq_true'] at hdelivers
    rcases List.mem_append.mp hb with hold | hnew
    · exact Or.inl hold
    · exact Or.inr ⟨(List.of_mem_zip (List.mem_of_mem_take hnew)).2, hdelivers.1⟩
  · exact Or.inl hb

theorem receiverUpdate_frame (g : History) (n : Node) :
    (g.receiverUpdate n).period = g.period ∧ (g.receiverUpdate n).collided = g.collided ∧
      (g.receiverUpdate n).origins = g.origins ∧
      (g.receiverUpdate n).bits = if n.mon.monitorState = .idle then [] else g.bits := by
  unfold History.receiverUpdate Monitor.getState
  dsimp only
  split <;> split <;> exact ⟨rfl, rfl, rfl, rfl⟩

theorem HistoryInv.receiverUpdate {n : Node} {g : History} (h : HistoryInv n g) :
    HistoryInv n.receiverUpdate (g.receiverUpdate n) := by
  obtain ⟨hsub₁, hreceiving₁, hbit₁⟩ := h.beforeDelivery
  obtain ⟨hsub, hcr, hbit⟩ := h.afterDelivery
  obtain ⟨hperiod, hcollided, horigins, hbits⟩ := receiverUpdate_frame g n
  have hbits_sub : ∀ p ∈ (g.receiverUpdate n).bits, p ∈ g.bits := by
    intro p hp
    rw [hbits] at hp
    split at hp
    · cases hp
    · exact hp
  have hlen : (g.receiverUpdate n).bits.length = n.receiverUpdate.rx.currBit := by
    rw [hbits, hbit, hbit₁]
    split
    · rfl
    · exact h.length_bits
  -- nothing collided is unread when the main routine delivers
  have hnew : ∀ tags ∈ unreadAt g.origins (n.rx.beforeDelivery n.mon.getState).receiveBuf,
      (n.rx.beforeDelivery n.mon.getState).currentlyReceiving = false →
      ∀ p ∈ tags, (n.mon.monitorState ≠ .idle → p ≠ g.period) ∧ p ∉ g.collided := by
    intro tags htags hnot p hp
    have hover : n.mon.monitorState ≠ .idle → p ≠ g.period := by
      rintro hne rfl
      exact absurd ((hreceiving₁ hne tags htags hp).symm.trans hnot) (by simp)
    refine ⟨hover, fun hcol => ?_⟩
    obtain ⟨heq, hstate⟩ := h.unread_clean tags (hsub₁ tags htags) p hp hcol
    exact hover (by rw [hstate]; simp) heq
  refine ⟨h.rx.mainRoutineUpdate _, h.running, hlen, ?_, ?_, ?_, ?_, ?_, ?_, ?_⟩
  · rw [hcollided, hperiod]
    exact h.collided_le
  · rw [hperiod]
    exact fun p hp => h.bits_le p (hbits_sub p hp)
  · rw [horigins, hperiod]
    exact fun tags htags => h.unread_le tags (hsub₁ tags (hsub tags htags))
  · rw [horigins, hperiod, hcr]
    exact fun hne tags htags => hreceiving₁ hne tags (hsub tags htags)
  · rw [horigins, hperiod, hcollided]
    exact fun tags htags => h.unread_clean tags (hsub₁ tags (hsub tags htags))
  · rw [hperiod]
    intro b hb p hp
    obtain hold | ⟨htags, hnot⟩ := mem_taken_receiverUpdate hb
    · exact h.taken_over b hold p hp
    · exact ⟨h.unread_le b.2 (hsub₁ b.2 htags) p hp, (hnew b.2 htags hnot p hp).1⟩
  · intro b hb p hp
    rw [hcollided]
    obtain hold | ⟨htags, hnot⟩ := mem_taken_receiverUpdate hb
    · exact h.taken_clean b hold p hp
    · exact (hnew b.2 htags hnot p hp).2

/-- Every step that meets the condition keeps the invariant. -/
theorem historyInv_step (s : Node × History) (e : Event) (s' : Node × History)
    (h : HistoryInv s.1 s.2) (hc : DropsInTime s e) (hs : recordedStep s e = some s') :
    HistoryInv s'.1 s'.2 := by
  obtain ⟨hstep, hg⟩ := Runs.instrument_eq_some.mp hs
  rw [hg]
  obtain ⟨n, g⟩ := s
  obtain ⟨n', g'⟩ := s'
  dsimp only at h hstep ⊢
  cases e with
  | transmitterUpdate c random =>
    cases hstep
    exact { h with }
  | receiverUpdate =>
    cases hstep
    exact h.receiverUpdate
  | tim2 =>
    obtain ⟨-, rfl⟩ := step_tim2_eq_some.mp hstep
    exact { h with }
  | tim4 =>
    obtain ⟨-, rfl⟩ := step_tim4_eq_some.mp hstep
    exact { h with rx := h.rx.timeout }
  | exti4 level =>
    cases hstep
    exact h.edge hc
  | sysTick =>
    obtain ⟨hen, rfl⟩ := step_sysTick_eq_some.mp hstep
    exact h.sysTick hen

/-! ## The record is that of the bytes handed over -/

/-- A NUL, or a byte that the main routine has taken. -/
def OfTaken (g : History) (b : Byte) : Prop := b = 0 ∨ b ∈ g.taken.map Prod.fst

/-- In packet mode the bytes taken are those handed to `ph_parse`; in raw mode the strings printed
are made of them. -/
structure Recorded (packetMode : Bool) (n : Node) (g : History) : Prop where
  rx : n.rx.Inv
  mode : n.rx.packetMode = packetMode
  handed : packetMode = true → n.rx.parses.flatMap ParseCall.buf = g.taken.map Prod.fst
  stored : packetMode = false → ∀ b ∈ n.rx.msgBuf.toList, OfTaken g b
  shown : packetMode = false → ∀ b ∈ n.rx.displayed, OfTaken g b

theorem recorded_boot (src dest : Byte) (packetMode pin line : Bool) :
    Recorded packetMode (boot src dest packetMode pin line) History.init where
  rx := Receiver.inv_init packetMode
  mode := rfl
  handed := fun _ => rfl
  stored := by
    intro _ b hb
    have hzero : sizeofPacketHeader ≠ 0 ∧ b = 0 := by simpa [boot, Receiver.init] using hb
    exact Or.inl hzero.2
  shown := by simp [boot, Receiver.init, Receiver.displayed]

theorem taken_edge (g : History) (n : Node) : (g.edge n).taken = g.taken := by
  unfold History.edge
  dsimp only
  split
  · split <;> rfl
  · rfl

theorem beforeDelivery_frame (r : Receiver) (state : MonitorState) :
    (r.beforeDelivery state).packetMode = r.packetMode ∧
      (r.beforeDelivery state).parses = r.parses ∧
      (r.beforeDelivery state).msgBuf = r.msgBuf ∧
      (r.beforeDelivery state).displayed = r.displayed := by
  obtain ⟨-, heq⟩ | ⟨-, -, heq⟩ | ⟨-, heq⟩ := r.beforeDelivery_cases state <;> rw [heq]
  · rw [Receiver.idleReset_frame]
    exact ⟨rfl, rfl, rfl, rfl⟩
  · refine ⟨rfl, rfl, rfl, ?_⟩
    rw [Receiver.displayed_of_console (r := r) rfl, List.flatMap_nil, List.append_nil]
  · exact ⟨rfl, rfl, rfl, rfl⟩

/-- What a call of the main routine takes is what it then hands over or prints. -/
theorem Recorded.receiverUpdate {packetMode : Bool} {n : Node} {g : History}
    (h : Recorded packetMode n g) : Recorded packetMode n.receiverUpdate (g.receiverUpdate n) := by
  obtain ⟨hmode, hparses, hmsgBuf, hdisplayed⟩ := beforeDelivery_frame n.rx n.mon.getState
  have hinv := h.rx.beforeDelivery n.mon.getState
  have htaken := taken_receiverUpdate g n
  have hrx : n.receiverUpdate.rx = n.rx.mainRoutineUpdate n.mon.getState := rfl
  rw [Receiver.mainRoutineUpdate_eq] at hrx
  generalize n.rx.beforeDelivery n.mon.getState = r at *
  rw [h.mode] at hmode
  have hkept : ∀ b, OfTaken g b → OfTaken (g.receiverUpdate n) b := by
    intro b hb
    unfold OfTaken at hb ⊢
    rw [htaken]
    split
    · rw [List.map_append, List.mem_append]
      exact hb.imp_right Or.inl
    · exact hb
  by_cases hdelivers : r.delivers = true
  · rw [if_pos hdelivers] at hrx htaken
    have hlen : r.unread.length ≤ (unreadAt g.origins r.receiveBuf).length := by
      rw [Receiver.unread, Ringbuffer.contents, unreadAt, CircularQueue.length_unread,
        CircularQueue.length_unread]
    have hbytes : (g.receiverUpdate n).taken.map Prod.fst =
        g.taken.map Prod.fst ++ r.unread.take sizeofPacketHeader := by
      rw [htaken, List.map_append, List.map_take, List.map_fst_zip hlen]
    obtain ⟨hinv', -, hcall⟩ := Receiver.deliver_spec hinv
    -- in raw mode `msgBuf` is printed as it is left
    have hraw : packetMode = false → r.deliver.displayed = r.displayed ++ r.deliver.msgBuf.toList ∧
        ∀ b ∈ r.deliver.msgBuf.toList, OfTaken (g.receiverUpdate n) b := by
      intro hfalse
      obtain ⟨hconsole, hmem⟩ := Receiver.deliver_raw hinv (hmode.trans hfalse)
      have hdisplay := Receiver.displayed_of_console hconsole
      rw [List.flatMap_singleton] at hdisplay
      refine ⟨hdisplay, fun b hb => ?_⟩
      rcases hmem b hb with rfl | hold | hnew
      · exact Or.inl rfl
      · exact hkept b (h.stored hfalse b (hmsgBuf ▸ hold))
      · exact Or.inr (by rw [hbytes]; exact List.mem_append_right _ hnew)
    rw [← hrx] at hinv' hcall hraw
    refine ⟨hinv', ?_, fun hpacket => ?_, fun hfalse => (hraw hfalse).2, fun hfalse => ?_⟩
    · rw [hrx, Receiver.deliver_frame, hmode]
    · obtain ⟨call, hcalls, hbuf, -⟩ := hcall (hmode.trans hpacket)
      rw [hcalls, hparses, List.flatMap_append, List.flatMap_singleton, hbuf, hbytes,
        h.handed hpacket]
    · intro b hb
      rw [(hraw hfalse).1, hdisplayed] at hb
      rcases List.mem_append.mp hb with hold | hnew
      · exact hkept b (h.shown hfalse b hold)
      · exact (hraw hfalse).2 b hnew
  · rw [if_neg hdelivers] at hrx htaken
    rw [← hrx] at hinv hmode hparses hmsgBuf hdisplayed
    refine ⟨hinv, hmode, ?_, ?_, ?_⟩
    · rw [hparses, htaken]
      exact h.handed
    · rw [hmsgBuf]
      exact fun hfalse b hb => hkept b (h.stored hfalse b hb)
    · rw [hdisplayed]
      exact fun hfalse b hb => hkept b (h.shown hfalse b hb)

theorem recorded_step {packetMode : Bool} (s : Node × History) (e : Event) (s' : Node × History)
    (h : Recorded packetMode s.1 s.2) (hs : recordedStep s e = some s') :
    Recorded packetMode s'.1 s'.2 := by
  obtain ⟨hstep, hg⟩ := Runs.instrument_eq_some.mp hs
  rw [hg]
  obtain ⟨n, g⟩ := s
  obtain ⟨n', g'⟩ := s'
  dsimp only at h hstep ⊢
  cases e with
  | transmitterUpdate c random =>
    cases hstep
    exact { h with }
  | receiverUpdate =>
    cases hstep
    exact h.receiverUpdate
  | tim2 =>
    obtain ⟨-, rfl⟩ := step_tim2_eq_some.mp hstep
    exact { h with }
  | tim4 =>
    obtain ⟨-, rfl⟩ := step_tim4_eq_some.mp hstep
    exact { h with rx := h.rx.timeout }
  | exti4 level =>
    cases hstep
    have hsame : ∀ b, OfTaken g b → OfTaken (g.edge n) b := by
      intro b hb
      rw [OfTaken, taken_edge]
      exact hb
    have hinv := h.rx.edge level
    have hframe := n.rx.edge_frame level
    refine ⟨hinv, ?_, fun hpacket => ?_, fun hfalse b hb => ?_, fun hfalse b hb => ?_⟩
    · show (n.rx.edge level).packetMode = packetMode
      rw [hframe]
      exact h.mode
    · show (n.rx.edge level).parses.flatMap ParseCall.buf = (g.edge n).taken.map Prod.fst
      rw [hframe, taken_edge]
      exact h.handed hpacket
    · apply hsame b
      apply h.stored hfalse b
      show b ∈ n.rx.msgBuf.toList
      have hb' : b ∈ (n.rx.edge level).msgBuf.toList := hb
      rwa [hframe] at hb'
    · apply hsame b
      apply h.shown hfalse b
      have hb' : b ∈ (n.rx.edge level).displayed := hb
      rwa [hframe] at hb'
  | sysTick =>
    obtain ⟨-, rfl⟩ := step_sysTick_eq_some.mp hstep
    dsimp only [History.update]
    split <;> exact { h with }

/-- **Dropping of collided receptions.** In every run whose steps meet the condition no byte with
a bit of a collided activity period is ever taken, to be handed to `ph_parse` or displayed. -/
theorem notTaken_of_run {src dest : Byte} {packetMode pin line : Bool} {es : List Event} {n : Node}
    {g : History}
    (hr : Runs.run recordedStep (boot src dest packetMode pin line, History.init) es = some (n, g))
    (hc : Runs.Along recordedStep DropsInTime (boot src dest packetMode pin line, History.init)
      es) :
    NotTaken g ∧
      (packetMode = true → n.rx.parses.flatMap ParseCall.buf = g.taken.map Prod.fst) ∧
      (packetMode = false → ∀ b ∈ n.rx.displayed, OfTaken g b) := by
  have hinv := Runs.run_invariant_along (I := fun s => HistoryInv s.1 s.2) historyInv_step
    (historyInv_boot src dest packetMode pin line) hc hr
  have hrecorded := Runs.run_invariant (I := fun s => Recorded packetMode s.1 s.2) recorded_step
    (recorded_boot src dest packetMode pin line) hr
  exact ⟨hinv.taken_clean, hrecorded.handed, hrecorded.shown⟩

/-! ## A collision that the main loop does not see -/

/-- A byte arrives, and then the line is held low. -/
def collidedByte : List Event :=
  (List.range 8).flatMap (fun i => [.exti4 (i % 2 = 1), .tim4]) ++ [.exti4 false, .sysTick]

/-- The line is released and becomes idle, and the main loop comes back. -/
def released : List Event := [.exti4 true, .sysTick, .receiverUpdate]

/-- Without a call of the main routine during the collision the byte is taken. -/
theorem taken_unpolledCollision :
    ¬∀ es n g, Runs.run recordedStep (boot 0xAA 0xBB true true true, History.init) es =
      some (n, g) → NotTaken g := by
  intro h
  have hcheck : (Runs.run recordedStep (boot 0xAA 0xBB true true true, History.init)
      (collidedByte ++ released)).any (fun s => !decide (NotTaken s.2)) = true := by
    decide +kernel
  obtain ⟨s, hs, htaken⟩ := (Option.any_eq_true _ _).mp hcheck
  rw [Bool.not_eq_true', decide_eq_false_iff_not] at htaken
  exact htaken (h _ s.1 s.2 hs)

/-- With one, it is dropped. -/
theorem notTaken_polledCollision :
    ∃ n g, Runs.run recordedStep (boot 0xAA 0xBB true true true, History.init)
        (collidedByte ++ [.receiverUpdate] ++ released) = some (n, g) ∧ g.collided = [1] ∧
      NotTaken g ∧ n.rx.parses.flatMap ParseCall.buf = g.taken.map Prod.fst := by
  have hcheck : (Runs.run recordedStep (boot 0xAA 0xBB true true true, History.init)
      (collidedByte ++ [.receiverUpdate] ++ released)).any
        (fun s => decide (s.2.collided = [1])) = true := by
    decide +kernel
  obtain ⟨s, hs, hcollided⟩ := (Option.any_eq_true _ _).mp hcheck
  obtain ⟨hnot, hhanded, -⟩ := notTaken_of_run hs (by decide +kernel)
  exact ⟨s.1, s.2, hs, of_decide_eq_true hcollided, hnot, hhanded rfl⟩

end Node

end NetworkingCard
