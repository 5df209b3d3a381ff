import NetworkingCard.CollisionDrop

/-!
# The backlog of received bytes

`EXTI4_IRQHandler` puts each complete byte into `receiveBuf` and never asks for room; the main
routine reads them when it comes round to it. `Node.puts` and `Node.reads` are the bytes put and
read by an event, `Node.readable` those that `get` would still return.

Nothing is lost as long as no byte is completed while `BUF_SIZE - 1` bytes are unread
(`Node.InTime`); the byte that is completed then makes the full buffer look empty. `intact_iff` says
both for every run without a collision.
-/

namespace NetworkingCard

namespace Receiver

/-- The bytes that the interrupt of an edge puts into `receiveBuf`. -/
def edgePuts (r : Receiver) (idr4 : Bool) : List Byte :=
  if r.sample && decide (r.currBit + 1 = 8) then [(r.edge idr4).dataByte] else []

/-- The bytes that the loop of the main routine reads out of `receiveBuf`. -/
def readLoopReads : ℕ → Receiver → List Byte
  | 0, _ => []
  | n + 1, r =>
    if Ringbuffer.hasElement r.receiveBuf && decide (r.msgCur < sizeofPacketHeader) then
      let element := Ringbuffer.get r.receiveBuf
      element.1 :: readLoopReads n { r with receiveBuf := element.2,
                                            msgBuf := r.msgBuf.setIfInBounds r.msgCur element.1,
                                            msgCur := r.msgCur + 1 }
    else []

/-- The bytes that a call of the main routine reads out of `receiveBuf`. -/
def mainRoutineReads (r : Receiver) (state : MonitorState) : List Byte :=
  let r := r.beforeDelivery state
  if r.delivers then readLoopReads sizeofPacketHeader { r with msgCur := 0 } else []

/-- An edge appends what it puts, while there is room for it. -/
theorem unread_edge {r : Receiver} (h : r.Inv) (b : Bool)
    (hroom : r.edgePuts b ≠ [] → r.unread.length < bufSize - 1) :
    (r.edge b).unread = r.unread ++ r.edgePuts b := by
  unfold edgePuts at hroom ⊢
  cases hs : r.sample
  · rw [edge_boundary hs, Bool.false_and, if_neg Bool.false_ne_true, List.append_nil]
    rfl
  rw [hs, Bool.true_and] at hroom
  rw [Bool.true_and, edge_sample hs]
  by_cases h8 : r.currBit + 1 = 8
  · have hspace := hroom (by simp [h8])
    rw [decide_eq_true h8, if_pos rfl]
    unfold unread
    dsimp only
    rw [if_pos h8, Ringbuffer.contents_put h.valid hspace]
  · rw [decide_eq_false h8, if_neg Bool.false_ne_true, List.append_nil]
    unfold unread
    dsimp only
    rw [if_neg h8]

/-- Without room for it, everything unread is lost. -/
theorem unread_edge_full {r : Receiver} (h : r.Inv) (b : Bool) (hputs : r.edgePuts b ≠ [])
    (hfull : ¬r.unread.length < bufSize - 1) : (r.edge b).unread = [] := by
  unfold edgePuts at hputs
  cases hs : r.sample
  · rw [hs] at hputs
    exact absurd rfl hputs
  by_cases h8 : r.currBit + 1 = 8
  · rw [edge_sample hs]
    unfold unread
    dsimp only
    rw [if_pos h8]
    exact Ringbuffer.contents_put_full h.valid hfull _
  · rw [hs, decide_eq_false h8] at hputs
    exact absurd rfl hputs

/-- What the loop reads was unread, in this order. -/
theorem readLoopReads_append (n : ℕ) {r : Receiver} (h : r.Inv) :
    readLoopReads n r ++ (readLoop n r).unread = r.unread := by
  induction n generalizing r with
  | zero => rfl
  | succ n ih =>
    unfold readLoopReads readLoop
    by_cases hcond : Ringbuffer.hasElement r.receiveBuf = true ∧ r.msgCur < sizeofPacketHeader
    · rw [if_pos (by simpa using hcond), if_pos (by simpa using hcond)]
      have hpop := Ringbuffer.contents_get h.valid hcond.1
      have hrest := ih (h.readElement hcond.2)
      exact (congrArg (List.cons _) hrest).trans hpop.symm
    · rw [if_neg (by simpa using hcond), if_neg (by simpa using hcond)]
      rfl

/-- While no collision shows, a call of the main routine reads from the front of what is unread. -/
theorem mainRoutineReads_append {r : Receiver} (h : r.Inv) {state : MonitorState}
    (hstate : state ≠ .collision) :
    r.mainRoutineReads state ++ (r.mainRoutineUpdate state).unread = r.unread := by
  have hkeep : (r.beforeDelivery state).unread = r.unread := by
    rcases r.beforeDelivery_cases state with ⟨-, heq⟩ | ⟨hcol, -, -⟩ | ⟨-, heq⟩
    · rw [heq, idleReset_frame]
      rfl
    · exact absurd hcol hstate
    · rw [heq]
  have hinv : (r.beforeDelivery state).Inv := h.beforeDelivery state
  rw [mainRoutineUpdate_eq, mainRoutineReads, ← hkeep]
  split
  · have hloop := readLoopReads_append sizeofPacketHeader
      (r := { r.beforeDelivery state with msgCur := 0 }) { hinv with msgCur_le := Nat.zero_le _ }
    rw [unread, receiveBuf_deliver]
    exact hloop
  · rfl

end Receiver

namespace Node

/-- The bytes that an event puts into `receiveBuf`. -/
def puts (n : Node) : Event → List Byte
  | .exti4 level => n.rx.edgePuts level
  | _ => []

/-- The bytes that an event reads out of `receiveBuf`. -/
def reads (n : Node) : Event → List Byte
  | .receiverUpdate => n.rx.mainRoutineReads n.mon.getState
  | _ => []

/-- The bytes that can still be read, by `get` while `hasElement`. -/
def readable (n : Node) : List Byte := Ringbuffer.drain bufSize n.rx.receiveBuf

/-- No byte is completed while `BUF_SIZE - 1` bytes are unread. -/
def InTime (n : Node) (e : Event) : Prop := n.puts e ≠ [] → n.readable.length < bufSize - 1

/-- In every state that the run reaches, the bytes read and those still readable are the bytes
put. -/
def Intact (n : Node) (es : List Event) : Prop :=
  ∀ before after m, es = before ++ after → n.run before = some m →
    Runs.outputs step reads n before ++ m.readable = Runs.outputs step puts n before

theorem readable_eq {n : Node} (h : n.rx.Inv) : n.readable = n.rx.unread := by
  unfold readable Receiver.unread
  rw [Ringbuffer.drain_eq_take h.valid, List.take_of_length_le]
  exact Nat.le_of_lt (Ringbuffer.length_contents_lt h.valid)

/-- One event neither loses nor reorders bytes. -/
theorem step_reads {n n' : Node} {e : Event} (h : n.rx.Inv) (hmon : n.mon.getState ≠ .collision)
    (hroom : n.InTime e) (hstep : n.step e = some n') :
    n'.rx.Inv ∧ n.reads e ++ n'.readable = n.readable ++ n.puts e := by
  have hinv := rxInv_step h hstep
  refine ⟨hinv, ?_⟩
  unfold InTime at hroom
  rw [readable_eq h] at hroom ⊢
  rw [readable_eq hinv]
  cases e with
  | receiverUpdate =>
    cases hstep
    have hputs : n.puts .receiverUpdate = [] := rfl
    rw [hputs, List.append_nil]
    exact Receiver.mainRoutineReads_append h hmon
  | exti4 level =>
    cases hstep
    exact Receiver.unread_edge h level hroom
  | transmitterUpdate c random =>
    cases hstep
    exact (List.append_nil _).symm
  | tim2 =>
    obtain ⟨-, rfl⟩ := step_tim2_eq_some.mp hstep
    exact (List.append_nil _).symm
  | tim4 =>
    obtain ⟨-, rfl⟩ := step_tim4_eq_some.mp hstep
    exact (List.append_nil _).symm
  | sysTick =>
    obtain ⟨-, rfl⟩ := step_sysTick_eq_some.mp hstep
    exact (List.append_nil _).symm

/-! ## Runs -/

/-- While every byte comes in time, the bytes read and those still readable are the bytes put. -/
theorem reads_append_readable {n n' : Node} {es : List Event} (h : n.rx.Inv)
    (hempty : n.readable = []) (hmon : Runs.Along step (fun n _ => n.mon.getState ≠ .collision) n es)
    (hroom : Runs.Along step InTime n es) (hrun : n.run es = some n') :
    Runs.outputs step reads n es ++ n'.readable = Runs.outputs step puts n es := by
  have hstep : ∀ (n : Node) (e : Event) (n' : Node), n.rx.Inv →
      n.mon.getState ≠ .collision ∧ n.InTime e → n.step e = some n' →
      n'.rx.Inv ∧ n.reads e ++ n'.readable = n.readable ++ n.puts e := by
    intro n e n' h hP hs
    exact step_reads h hP.1 hP.2 hs
  rw [Runs.conserved_of_run hstep h (hmon.and hroom) hrun, hempty, List.nil_append]

/-- A byte that does not come in time makes everything unread unreadable. -/
theorem readable_full {n n' : Node} {e : Event} (h : n.rx.Inv) (hputs : n.puts e ≠ [])
    (hfull : ¬n.readable.length < bufSize - 1) (hstep : n.step e = some n') :
    n'.readable = [] := by
  have hinv := rxInv_step h hstep
  rw [readable_eq h] at hfull
  rw [readable_eq hinv]
  cases e with
  | exti4 level =>
    cases hstep
    exact Receiver.unread_edge_full h level hputs hfull
  | receiverUpdate => exact absurd rfl hputs
  | transmitterUpdate c random => exact absurd rfl hputs
  | tim2 => exact absurd rfl hputs
  | tim4 => exact absurd rfl hputs
  | sysTick => exact absurd rfl hputs

theorem rxInv_of_run {n n' : Node} {es : List Event} (h : n.rx.Inv) (hrun : n.run es = some n') :
    n'.rx.Inv :=
  Runs.run_invariant (fun _ _ _ h hstep => rxInv_step h hstep) h hrun

/-- **No received byte is lost, exactly while there is room.** In every run from boot in which the
monitor never shows a collision: the bytes read and those still readable are at all times the
bytes put, if and only if no byte is completed while `BUF_SIZE - 1` bytes are unread. -/
theorem intact_iff {src dest : Byte} {packetMode pin line : Bool} {es : List Event} {n : Node}
    (hrun : (boot src dest packetMode pin line).run es = some n)
    (hmon : Runs.Along step (fun n _ => n.mon.getState ≠ .collision)
      (boot src dest packetMode pin line) es) :
    Intact (boot src dest packetMode pin line) es ↔
      Runs.Along step InTime (boot src dest packetMode pin line) es := by
  have hboot : (boot src dest packetMode pin line).rx.Inv := Receiver.inv_init packetMode
  constructor
  · intro hintact
    apply Runs.along_of_splits
    intro before e after m hes hbefore hputs
    by_contra hfull
    have hinv := rxInv_of_run hboot hbefore
    -- the event takes place, as the run goes on after it
    rw [hes] at hrun
    obtain ⟨m₁, hm₁, hrest⟩ := Runs.run_append_eq_some.mp hrun
    obtain rfl : m = m₁ := Option.some.inj (hbefore.symm.trans hm₁)
    obtain ⟨m', hstep, -⟩ := Runs.run_cons_eq_some.mp hrest
    have hthere := hintact before (e :: after) m hes hbefore
    have hafter := hintact (before ++ [e]) after m' (by rw [hes, List.append_assoc]; rfl)
      (Runs.run_concat_eq_some.mpr ⟨m, hbefore, hstep⟩)
    rw [Runs.outputs_concat hbefore hstep, Runs.outputs_concat hbefore hstep, ← hthere,
      readable_full hinv hputs hfull hstep] at hafter
    have hreads : m.reads e = [] := by
      cases e with
      | receiverUpdate => exact absurd rfl hputs
      | _ => rfl
    have hlen := congrArg List.length hafter
    rw [hreads] at hlen
    simp only [List.length_append, List.length_nil] at hlen
    have hpos := List.length_pos_iff.mpr hputs
    omega
  · intro hroom before after m hes hbefore
    rw [hes] at hmon hroom
    exact reads_append_readable hboot rfl (hmon.append hbefore).1 (hroom.append hbefore).1 hbefore

/-- A byte `00`, which is read on the idle line, and a byte `55` behind it. -/
def twoBytes : List Event :=
  (List.replicate 8 [.exti4 false, .exti4 true]).flatten ++ [.sysTick, .receiverUpdate] ++
    (List.replicate 4 [.exti4 false, .tim4, .exti4 true, .tim4]).flatten

theorem intact_twoBytes :
    Runs.outputs step puts (boot 0xAA 0xBB true true true) twoBytes = [0x00, 0x55] ∧
      Runs.outputs step reads (boot 0xAA 0xBB true true true) twoBytes = [0x00] ∧
      Intact (boot 0xAA 0xBB true true true) twoBytes := by
  have hsome : ((boot 0xAA 0xBB true true true).run twoBytes).isSome = true := by decide +kernel
  obtain ⟨n, hrun⟩ := Option.isSome_iff_exists.mp hsome
  have hmon : Runs.Along step (fun n _ => n.mon.getState ≠ .collision)
      (boot 0xAA 0xBB true true true) twoBytes := by decide +kernel
  have hroom : Runs.Along step InTime (boot 0xAA 0xBB true true true) twoBytes := by
    unfold InTime
    decide +kernel
  exact ⟨by decide +kernel, by decide +kernel, (intact_iff hrun hmon).mpr hroom⟩

/-! ## A full buffer -/

/-- The two edges of a bit 0 on a line that comes back to high. -/
def bitEdges : List Event := [.exti4 false, .exti4 true]

theorem step_exti4 (n : Node) (level : Bool) :
    n.step (.exti4 level) = some ⟨n.tx, n.mon.edgeIntrr level, n.rx.edge level, level⟩ := rfl

/-- Edges alone never show a collision, and nothing is read. -/
theorem edges_only {es : List Event} (hes : ∀ e ∈ es, ∃ level, e = .exti4 level) {n : Node}
    (hmon : n.mon.getState ≠ .collision) :
    Runs.Along step (fun n _ => n.mon.getState ≠ .collision) n es ∧
      Runs.outputs step reads n es = [] := by
  induction es generalizing n with
  | nil => exact ⟨trivial, rfl⟩
  | cons e es ih =>
    obtain ⟨level, rfl⟩ := hes e List.mem_cons_self
    have hbusy : (⟨n.tx, n.mon.edgeIntrr level, n.rx.edge level, level⟩ : Node).mon.getState ≠
        .collision := by
      show MonitorState.busy ≠ .collision
      decide
    obtain ⟨halong, hreads⟩ := ih (fun e he => hes e (List.mem_cons_of_mem _ he)) hbusy
    refine ⟨⟨hmon, ?_⟩, ?_⟩
    · intro n' hn'
      rw [step_exti4] at hn'
      cases hn'
      exact halong
    · rw [Runs.outputs_cons (step_exti4 n level), hreads]
      rfl

/-- The edges of one bit, with the bits in `receiveBuf` and in `dataByte` counted together. -/
theorem bitEdges_count {r : Receiver} (h : r.Inv) (hs : r.sample = true)
    (hroom : 8 * r.unread.length + r.currBit < 8 * (bufSize - 1) + 7) :
    ((r.edge false).edge true).Inv ∧ ((r.edge false).edge true).sample = true ∧
      8 * ((r.edge false).edge true).unread.length + ((r.edge false).edge true).currBit =
        8 * r.unread.length + r.currBit + 1 := by
  have hbit := h.currBit_lt
  have hsample : (r.edge false).sample = false := by rw [Receiver.edge_sample hs]
  have hspace : r.edgePuts false ≠ [] → r.unread.length < bufSize - 1 := by
    intro hputs
    by_cases h8 : r.currBit + 1 = 8
    · omega
    · unfold Receiver.edgePuts at hputs
      rw [hs, decide_eq_false h8] at hputs
      exact absurd rfl hputs
  have hunread := congrArg List.length (Receiver.unread_edge h false hspace)
  refine ⟨(h.edge false).edge true, ?_, ?_⟩
  · rw [Receiver.edge_boundary hsample]
  · rw [Receiver.edge_boundary hsample]
    show 8 * (r.edge false).unread.length + (r.edge false).currBit = _
    rw [hunread, List.length_append, Receiver.edge_sample hs]
    unfold Receiver.edgePuts
    rw [hs]
    by_cases h8 : r.currBit + 1 = 8
    · simp [h8]
      omega
    · simp [h8]
      omega

/-- After the edges of `k` bits, `k` bits have been sampled. -/
theorem run_bitEdges {n : Node} (h : n.rx.Inv) (hs : n.rx.sample = true) (k : ℕ)
    (hroom : 8 * n.rx.unread.length + n.rx.currBit + k ≤ 8 * (bufSize - 1) + 7) :
    ∃ n', n.run (List.replicate k bitEdges).flatten = some n' ∧ n'.rx.Inv ∧
      n'.rx.sample = true ∧
      8 * n'.rx.unread.length + n'.rx.currBit = 8 * n.rx.unread.length + n.rx.currBit + k := by
  induction k generalizing n with
  | zero => exact ⟨n, rfl, h, hs, rfl⟩
  | succ k ih =>
    obtain ⟨hinv, hsample, hcount⟩ := bitEdges_count h hs (by omega)
    obtain ⟨n', hrun, hn'⟩ := ih (n := ⟨n.tx, (n.mon.edgeIntrr false).edgeIntrr true,
      (n.rx.edge false).edge true, true⟩) hinv hsample (by dsimp only; omega)
    refine ⟨n', hrun, hn'.1, hn'.2.1, ?_⟩
    rw [hn'.2.2]
    dsimp only
    omega

/-- The edges of 1028 bytes on a line that never rests, up to the last bit's first edge. -/
def backlog : List Event := (List.replicate 8223 bitEdges).flatten ++ [.exti4 false]

/-- The byte that makes the buffer full makes 1028 bytes unreadable. -/
theorem backlog_lost :
    (∃ n, (boot 0xAA 0xBB true true true).run backlog = some n) ∧
      Runs.Along step (fun n _ => n.mon.getState ≠ .collision)
        (boot 0xAA 0xBB true true true) backlog ∧
      ¬Intact (boot 0xAA 0xBB true true true) backlog := by
  obtain ⟨n, hrun, hinv, hsample, hcount⟩ :=
    run_bitEdges (n := boot 0xAA 0xBB true true true) (Receiver.inv_init true) rfl 8223 (by decide)
  have hedges : ∀ e ∈ backlog, ∃ level, e = .exti4 level := by
    intro e he
    simp only [backlog, bitEdges, List.mem_append, List.mem_flatten, List.mem_singleton] at he
    rcases he with ⟨l, hl, he⟩ | rfl
    · rw [List.eq_of_mem_replicate hl] at he
      simp only [List.mem_cons, List.not_mem_nil, or_false] at he
      rcases he with rfl | rfl
      · exact ⟨false, rfl⟩
      · exact ⟨true, rfl⟩
    · exact ⟨false, rfl⟩
  obtain ⟨hmon, hreads⟩ := edges_only hedges (n := boot 0xAA 0xBB true true true) (by decide)
  have hboot : 8 * (boot 0xAA 0xBB true true true).rx.unread.length +
      (boot 0xAA 0xBB true true true).rx.currBit = 0 := rfl
  have hbit := hinv.currBit_lt
  have h8 : n.rx.currBit + 1 = 8 := by omega
  have hlast := step_exti4 n false
  have hputs : n.puts (.exti4 false) ≠ [] := by
    show n.rx.edgePuts false ≠ []
    unfold Receiver.edgePuts
    rw [hsample, decide_eq_true h8]
    simp
  have hfull : ¬n.readable.length < bufSize - 1 := by
    rw [readable_eq hinv]
    have hbuf : bufSize = 1028 := rfl
    omega
  have hrun' := Runs.run_concat_eq_some.mpr ⟨n, hrun, hlast⟩
  refine ⟨⟨_, hrun'⟩, hmon, ?_⟩
  intro hintact
  have hall := hintact backlog [] _ (List.append_nil _).symm hrun'
  rw [hreads, readable_full hinv hputs hfull hlast] at hall
  unfold backlog at hall
  rw [Runs.outputs_concat hrun hlast] at hall
  exact hputs (List.append_eq_nil_iff.mp hall.symm).2

end Node

end NetworkingCard
