import NetworkingCard.Deliveries
import NetworkingCard.TypedLines
import NetworkingCard.UartDriver

/-!
# `main.c`

The loop of `main`, which calls the two main-loop routines in turn, with the USART that the
transmitter's routine reads from. Between two messages that routine waits in `usart2_getch` until a
character comes, and nothing else of the loop runs.

Every run of the loop is one of the board (`MainLoop.run_node`), so what is proved about boards
holds here. Besides:

* `typed_of_run`: the characters that are read are those that have come, but for the ones that come
  while another one waits; and each call of the receiver's routine takes a character of them, or a
  call of the transmitter's routine while a message is under way;
* `deaf_of_run`: without a keystroke the board displays nothing, and does not send a line that has
  found the line busy either. What it receives piles up, and the next keystroke delivers it as one
  block, whatever packets it has been.
-/

namespace NetworkingCard

namespace Node

/-! ## Interrupts alone -/

/-- Between two messages an interrupt leaves the transmitter there, with the line that waits. -/
theorem readsChar_of_interrupt {n n' : Node} {e : Event} (hinv : n.tx.Inv)
    (h : n.tx.readsChar = true) (he : e.isInterrupt = true) (hs : n.step e = some n') :
    n'.tx.readsChar = true ∧ n'.tx.waiting = n.tx.waiting := by
  have hreads := h
  simp only [Transmitter.readsChar, Bool.and_eq_true, Bool.not_eq_true'] at hreads
  by_cases htim2 : e = .tim2
  · subst htim2
    obtain ⟨hcen, rfl⟩ := step_tim2_eq_some.mp hs
    -- only the tick that follows boot finds the timer running
    rcases Transmitter.tim2IRQHandler_cases { n.tx with tim2 := n.tx.tim2.updateEvent }
      n.mon.getState with ⟨hto, -⟩ | ⟨-, -, heq⟩ | ⟨-, hend, -⟩ | ⟨-, hend, -⟩
    · exact absurd ((hinv.not_backoff_of_complete hreads.2).symm.trans hto) (by simp)
    · show Transmitter.readsChar (Transmitter.tim2IRQHandler _ _) = true ∧
        Transmitter.waiting (Transmitter.tim2IRQHandler _ _) = _
      rw [heq]
      exact ⟨rfl, rfl⟩
    · have htx := hinv.inTransmission_of_cen hcen hend
      exact absurd (hreads.1.symm.trans htx) (by simp)
    · have htx := hinv.inTransmission_of_cen hcen hend
      exact absurd (hreads.1.symm.trans htx) (by simp)
  · rw [tx_of_step hs ?_ htim2]
    · exact ⟨h, rfl⟩
    · rintro c random rfl
      cases he

/-- An interrupt displays nothing, and what it completes is there to be read. -/
theorem rx_of_interrupt {n n' : Node} {e : Event} (hinv : n.rx.Inv) (he : e.isInterrupt = true)
    (hs : n.step e = some n') :
    n'.rx.console = n.rx.console ∧ (n.InTime e → n'.readable = n.readable ++ n.puts e) := by
  have hinv' := rxInv_step hinv hs
  unfold InTime
  rw [readable_eq hinv, readable_eq hinv']
  cases e with
  | transmitterUpdate c random => cases he
  | receiverUpdate => cases he
  | exti4 level =>
    cases hs
    refine ⟨?_, Receiver.unread_edge hinv level⟩
    show (n.rx.edge level).console = _
    rw [Receiver.edge_frame]
  | tim2 =>
    obtain ⟨-, rfl⟩ := step_tim2_eq_some.mp hs
    exact ⟨rfl, fun _ => (List.append_nil _).symm⟩
  | tim4 =>
    obtain ⟨-, rfl⟩ := step_tim4_eq_some.mp hs
    exact ⟨rfl, fun _ => (List.append_nil _).symm⟩
  | sysTick =>
    obtain ⟨-, rfl⟩ := step_sysTick_eq_some.mp hs
    exact ⟨rfl, fun _ => (List.append_nil _).symm⟩

/-- Whole runs of interrupts. -/
theorem rx_of_interrupts {n n' : Node} {es : List Event} (hinv : n.rx.Inv)
    (hes : ∀ e ∈ es, e.isInterrupt = true) (hrun : n.run es = some n') :
    n'.rx.console = n.rx.console ∧
      (Runs.Along step InTime n es → n'.readable = n.readable ++ Runs.outputs step puts n es) := by
  induction es generalizing n with
  | nil =>
    cases hrun
    exact ⟨rfl, fun _ => (List.append_nil _).symm⟩
  | cons e es ih =>
    obtain ⟨m, hm, hrest⟩ := Runs.run_cons_eq_some.mp hrun
    obtain ⟨hconsole, hreadable⟩ := rx_of_interrupt hinv (hes e List.mem_cons_self) hm
    obtain ⟨hconsole', hreadable'⟩ := ih (rxInv_step hinv hm)
      (fun e he => hes e (List.mem_cons_of_mem _ he)) hrest
    refine ⟨hconsole'.trans hconsole, fun hroom => ?_⟩
    rw [hreadable' (hroom.2 m hm), hreadable hroom.1, Runs.outputs_cons hm, List.append_assoc]

/-- On an idle line a call of the receiver's routine delivers the first of the unread bytes. -/
theorem delivered_take {n : Node} (hinv : n.rx.Inv) (hidle : n.mon.getState = .idle)
    (hne : n.readable ≠ []) : n.delivered = some (n.readable.take sizeofPacketHeader) := by
  rw [readable_eq hinv] at hne ⊢
  have hreset : n.rx.beforeDelivery n.mon.getState = n.rx.idleReset := by
    rcases n.rx.beforeDelivery_cases n.mon.getState with ⟨-, heq⟩ | ⟨hcol, -, -⟩ | ⟨hbusy, -⟩
    · exact heq
    · exact absurd (hidle.symm.trans hcol) (by simp)
    · exact absurd hidle hbusy
  have hdelivers : n.rx.idleReset.delivers = true := by
    rw [Receiver.idleReset_frame, Receiver.delivers, Ringbuffer.hasElement_eq hinv.valid]
    simpa [Receiver.unread] using hne
  have htaken : n.rx.idleReset.taken = n.rx.unread.take sizeofPacketHeader := by
    rw [Receiver.idleReset_frame]
    rfl
  unfold delivered
  dsimp only
  rw [hreset, if_pos hdelivers, htaken]

end Node

/-! ## The loop -/

/-- Where the loop of `main` has got to. -/
inductive MainPoint
  /-- before `transmitter_mainRoutineUpdate()` -/
  | transmitter
  /-- before `receiver_mainRoutineUpdate()` -/
  | receiver
deriving DecidableEq

/-- The program: the board, its USART, and the position of the loop. -/
structure MainLoop where
  node : Node
  uart : Usart
  point : MainPoint

/-- What can happen: the next call of the loop, with the random number that it would draw, a
character that comes at the USART, or an interrupt. -/
inductive MainEvent
  | call (random : ℕ)
  | received (c : Byte)
  | interrupt (e : Event)

namespace MainLoop

/-- `main` before its loop. -/
def boot (src dest : Byte) (packetMode pin line : Bool) : MainLoop :=
  ⟨Node.boot src dest packetMode pin line, Usart.reset, .transmitter⟩

/-- The next call of the loop; `none` while it waits in `usart2_getch`. -/
def call (s : MainLoop) (random : ℕ) : Option MainLoop :=
  match s.point with
  | .transmitter =>
    if s.node.tx.readsChar then
      s.uart.getch.map fun r => ⟨s.node.transmitterUpdate r.1 random, r.2, .receiver⟩
    else some ⟨s.node.transmitterUpdate 0 random, s.uart, .receiver⟩
  | .receiver => some ⟨s.node.receiverUpdate, s.uart, .transmitter⟩

/-- One event. -/
def step (s : MainLoop) : MainEvent → Option MainLoop
  | .call random => s.call random
  | .received c => some { s with uart := s.uart.receive c }
  | .interrupt e =>
    if e.isInterrupt then (s.node.step e).map fun node => { s with node := node } else none

/-- Execute the events in order. -/
abbrev run (s : MainLoop) (es : List MainEvent) : Option MainLoop := Runs.run step s es

/-- What an event is for the board. -/
def nodeEventsBy (s : MainLoop) : MainEvent → List Event
  | .call random =>
    match s.point with
    | .transmitter => [.transmitterUpdate (if s.node.tx.readsChar then s.uart.rdr else 0) random]
    | .receiver => [.receiverUpdate]
  | .received _ => []
  | .interrupt e => [e]

/-- The events of a run for the board. -/
def nodeEvents (s : MainLoop) (es : List MainEvent) : List Event :=
  Runs.outputs step nodeEventsBy s es

/-- What a step can do. -/
theorem step_cases {s s' : MainLoop} {e : MainEvent} (hs : s.step e = some s') :
    (∃ random c uart, e = .call random ∧ s.point = .transmitter ∧ s.node.tx.readsChar = true ∧
        s.uart.getch = some (c, uart) ∧
        s' = ⟨s.node.transmitterUpdate c random, uart, .receiver⟩) ∨
      (∃ random, e = .call random ∧ s.point = .transmitter ∧ s.node.tx.readsChar = false ∧
        s' = ⟨s.node.transmitterUpdate 0 random, s.uart, .receiver⟩) ∨
      (∃ random, e = .call random ∧ s.point = .receiver ∧
        s' = ⟨s.node.receiverUpdate, s.uart, .transmitter⟩) ∨
      (∃ c, e = .received c ∧ s' = { s with uart := s.uart.receive c }) ∨
      (∃ e' node, e = .interrupt e' ∧ e'.isInterrupt = true ∧ s.node.step e' = some node ∧
        s' = { s with node := node }) := by
  cases e with
  | call random =>
    rw [step, call] at hs
    split at hs
    · next hpoint =>
      split at hs
      · next hreads =>
        obtain ⟨⟨c, uart⟩, hgetch, rfl⟩ := Option.map_eq_some_iff.mp hs
        exact Or.inl ⟨random, c, uart, rfl, hpoint, hreads, hgetch, rfl⟩
      · next hreads =>
        cases hs
        exact Or.inr (Or.inl ⟨random, rfl, hpoint, Bool.eq_false_of_not_eq_true hreads, rfl⟩)
    · next hpoint =>
      cases hs
      exact Or.inr (Or.inr (Or.inl ⟨random, rfl, hpoint, rfl⟩))
  | received c =>
    cases hs
    exact Or.inr (Or.inr (Or.inr (Or.inl ⟨c, rfl, rfl⟩)))
  | interrupt e =>
    rw [step, Option.ite_none_right_eq_some] at hs
    obtain ⟨he, hs⟩ := hs
    obtain ⟨node, hnode, rfl⟩ := Option.map_eq_some_iff.mp hs
    exact Or.inr (Or.inr (Or.inr (Or.inr ⟨e, node, rfl, he, hnode, rfl⟩)))

theorem rdr_of_getch {u u' : Usart} {c : Byte} (h : u.getch = some (c, u')) : u.rdr = c := by
  rw [Usart.getch, Option.ite_none_right_eq_some, Option.some.injEq, Prod.mk.injEq] at h
  exact h.2.1

/-- One event of the loop is at most one of the board. -/
theorem step_node (s : MainLoop) (e : MainEvent) (s' : MainLoop) (hs : s.step e = some s') :
    Runs.run Node.step s.node (nodeEventsBy s e) = some s'.node := by
  rcases step_cases hs with ⟨random, c, uart, rfl, hpoint, hreads, hgetch, rfl⟩ |
    ⟨random, rfl, hpoint, hreads, rfl⟩ | ⟨random, rfl, hpoint, rfl⟩ | ⟨c, rfl, rfl⟩ |
    ⟨e, node, rfl, -, hnode, rfl⟩
  · rw [nodeEventsBy, hpoint]
    dsimp only
    rw [if_pos hreads, rdr_of_getch hgetch]
    rfl
  · rw [nodeEventsBy, hpoint]
    dsimp only
    rw [if_neg (by simp [hreads])]
    rfl
  · rw [nodeEventsBy, hpoint]
    rfl
  · rfl
  · rw [nodeEventsBy, Runs.run_singleton]
    exact hnode

/-- A run of the loop is one of the board. -/
theorem run_node {s t : MainLoop} {es : List MainEvent} (hrun : s.run es = some t) :
    s.node.run (nodeEvents s es) = some t.node :=
  Runs.run_of_simulation step_node hrun

/-! ## Characters and calls -/

/-- A character that comes while none waits. -/
def acceptedBy (s : MainLoop) : MainEvent → List Byte
  | .received c => if s.uart.canRead then [] else [c]
  | .call _ | .interrupt _ => []

/-- The characters that have not been lost. -/
def accepted (s : MainLoop) (es : List MainEvent) : List Byte := Runs.outputs step acceptedBy s es

/-- A call of the transmitter's routine that reads no character, as a message is under way. -/
def busyBy (s : MainLoop) : MainEvent → List ℕ
  | .call random => if s.point = .transmitter ∧ s.node.tx.readsChar = false then [random] else []
  | .received _ | .interrupt _ => []

/-- The number of such calls. -/
def busyCalls (s : MainLoop) (es : List MainEvent) : ℕ := (Runs.outputs step busyBy s es).length

/-- The number of calls of the receiver's routine. -/
def receiverCalls (s : MainLoop) (es : List MainEvent) : ℕ :=
  (nodeEvents s es).count .receiverUpdate

/-- The characters that one event has the board read. -/
def typedBy (s : MainLoop) (e : MainEvent) : List Byte :=
  Runs.outputs Node.step Node.typedBy s.node (nodeEventsBy s e)

/-- The calls of the transmitter's routine that the receiver's routine has not followed yet. -/
def owed (s : MainLoop) : ℕ := if s.point = .receiver then 1 else 0

/-- One event: what it reads, what waits after it, and the calls it makes. -/
theorem step_balance {s s' : MainLoop} {e : MainEvent} (hs : s.step e = some s') :
    s.typedBy e ++ s'.uart.waiting = s.uart.waiting ++ s.acceptedBy e ∧
      (nodeEventsBy s e).count .receiverUpdate + s'.owed =
        s.owed + (s.typedBy e).length + (s.busyBy e).length := by
  have hnode := step_node s e s' hs
  rcases step_cases hs with ⟨random, c, uart, rfl, hpoint, hreads, hgetch, rfl⟩ |
    ⟨random, rfl, hpoint, hreads, rfl⟩ | ⟨random, rfl, hpoint, rfl⟩ | ⟨c, rfl, rfl⟩ |
    ⟨e, node, rfl, he, -, rfl⟩
  · obtain ⟨hwaits, hafter⟩ := Usart.getch_eq_some hgetch
    have htyped : s.typedBy (.call random) = [c] := by
      rw [typedBy, nodeEventsBy, hpoint]
      dsimp only
      rw [if_pos hreads, rdr_of_getch hgetch]
      simp [Runs.outputs, Node.typedBy, hreads, Node.step]
    rw [htyped, hwaits, acceptedBy, busyBy, if_neg (by simp [hreads]), owed, owed, hpoint,
      nodeEventsBy, hpoint]
    refine ⟨?_, rfl⟩
    rw [Usart.waiting, hafter]
    rfl
  · have htyped : s.typedBy (.call random) = [] := by
      rw [typedBy, nodeEventsBy, hpoint]
      simp [Runs.outputs, Node.typedBy, hreads, Node.step]
    rw [htyped, acceptedBy, busyBy, if_pos ⟨hpoint, hreads⟩, owed, owed, hpoint, nodeEventsBy,
      hpoint]
    refine ⟨(List.append_nil _).symm, rfl⟩
  · have htyped : s.typedBy (.call random) = [] := by
      rw [typedBy, nodeEventsBy, hpoint]
      simp [Runs.outputs, Node.typedBy, Node.step]
    rw [htyped, acceptedBy, busyBy, if_neg (by simp [hpoint]), owed, owed, hpoint, nodeEventsBy,
      hpoint]
    refine ⟨(List.append_nil _).symm, rfl⟩
  · exact ⟨Usart.waiting_receive s.uart c, Nat.zero_add _⟩
  · have htyped : s.typedBy (.interrupt e) = [] := by
      have hnone : s.node.typedBy e = [] := by
        cases e <;> first | rfl | cases he
      rw [typedBy, nodeEventsBy, Runs.outputs, hnone]
      cases s.node.step e <;> rfl
    have hcount : (nodeEventsBy s (.interrupt e)).count .receiverUpdate = 0 := by
      rw [nodeEventsBy, List.count_eq_zero]
      simp only [List.mem_singleton]
      rintro rfl
      cases he
    rw [htyped, hcount, acceptedBy, busyBy]
    exact ⟨(List.append_nil _).symm, Nat.zero_add _⟩

/-- Whole runs. -/
theorem balance_of_run {s t : MainLoop} {es : List MainEvent} (hrun : s.run es = some t) :
    s.node.typed (nodeEvents s es) ++ t.uart.waiting = s.uart.waiting ++ accepted s es ∧
      receiverCalls s es + t.owed =
        s.owed + (s.node.typed (nodeEvents s es)).length + busyCalls s es := by
  have htyped : s.node.typed (nodeEvents s es) = Runs.outputs step typedBy s es :=
    Runs.outputs_of_simulation step_node hrun Node.typedBy
  rw [htyped]
  constructor
  · have htrue : Runs.Along step (fun _ _ => True) s es :=
      Runs.along_of_forall (fun _ _ _ => trivial) s
    exact Runs.conserved_of_run (I := fun _ => True)
      (fun _ _ _ _ _ hs => ⟨trivial, (step_balance hs).1⟩) trivial htrue hrun
  · unfold receiverCalls busyCalls nodeEvents
    clear htyped
    induction es generalizing s with
    | nil =>
      cases hrun
      exact Nat.zero_add _
    | cons e es ih =>
      obtain ⟨s', hs', hrest⟩ := Runs.run_cons_eq_some.mp hrun
      have hfirst := (step_balance hs').2
      have hothers := ih hrest
      rw [Runs.outputs_cons hs', Runs.outputs_cons hs', Runs.outputs_cons hs', List.count_append,
        List.length_append, List.length_append]
      omega

/-- The characters that the transmitter reads are those that have come while none waited, in order.
Every call of the receiver's routine follows a call that reads one of them or that finds a message
under way. -/
theorem typed_of_run {src dest : Byte} {packetMode pin line : Bool} {es : List MainEvent}
    {t : MainLoop} (hrun : (boot src dest packetMode pin line).run es = some t) :
    (boot src dest packetMode pin line).node.typed
          (nodeEvents (boot src dest packetMode pin line) es) ++ t.uart.waiting =
        accepted (boot src dest packetMode pin line) es ∧
      receiverCalls (boot src dest packetMode pin line) es ≤
        (accepted (boot src dest packetMode pin line) es).length +
          busyCalls (boot src dest packetMode pin line) es := by
  obtain ⟨htyped, hcalls⟩ := balance_of_run hrun
  have hnone : (boot src dest packetMode pin line).uart.waiting = [] := by
    simp [boot, Usart.reset, Usart.waiting, Usart.canRead, rxne, txe]
  have howed : (boot src dest packetMode pin line).owed = 0 := rfl
  rw [hnone, List.nil_append] at htyped
  refine ⟨htyped, ?_⟩
  rw [← htyped, List.length_append]
  omega

/-- A `b` that comes while an `a` waits is lost. The carriage return starts a message, and the next
call of the transmitter's routine reads nothing. -/
def lostKey : List MainEvent :=
  [.received 0x61, .received 0x62, .call 0, .call 0, .received 0x0D, .call 0, .call 0, .call 0,
    .call 0]

/-- Two characters are read, and the receiver's routine is called three times. -/
theorem typed_lostKey :
    (boot 0xAA 0xBB true true true).node.typed
        (nodeEvents (boot 0xAA 0xBB true true true) lostKey) = [0x61, 0x0D] ∧
      receiverCalls (boot 0xAA 0xBB true true true) lostKey = 3 ∧
      receiverCalls (boot 0xAA 0xBB true true true) lostKey ≤ [0x61, 0x0D].length + 1 := by
  have hcheck : ((boot 0xAA 0xBB true true true).run lostKey).map (fun t => t.uart.waiting) =
      some [] := by
    decide +kernel
  obtain ⟨t, ht, hwaiting⟩ := Option.map_eq_some_iff.mp hcheck
  obtain ⟨htyped, hcalls⟩ := typed_of_run ht
  have haccepted : accepted (boot 0xAA 0xBB true true true) lostKey = [0x61, 0x0D] := by
    decide +kernel
  have hbusy : busyCalls (boot 0xAA 0xBB true true true) lostKey = 1 := by decide +kernel
  have hreceiver : receiverCalls (boot 0xAA 0xBB true true true) lostKey = 3 := by decide +kernel
  rw [hwaiting, List.append_nil, haccepted] at htyped
  rw [haccepted, hbusy] at hcalls
  exact ⟨htyped, hreceiver, hcalls⟩

/-! ## Without a keystroke -/

/-- The loop waits in `usart2_getch`. -/
structure Waits (s : MainLoop) : Prop where
  point : s.point = .transmitter
  readsChar : s.node.tx.readsChar = true
  canRead : s.uart.canRead = false

/-- Nothing but a character ends the wait. -/
theorem Waits.step {s s' : MainLoop} {e : MainEvent} (h : s.Waits) (hinv : s.node.tx.Inv)
    (he : ∀ c, e ≠ .received c) (hs : s.step e = some s') :
    s'.Waits ∧ s'.node.tx.waiting = s.node.tx.waiting ∧
      ∃ e', nodeEventsBy s e = [e'] ∧ e'.isInterrupt = true := by
  rcases step_cases hs with ⟨random, c, uart, rfl, -, -, hgetch, -⟩ |
    ⟨random, rfl, -, hreads, -⟩ | ⟨random, rfl, hpoint, -⟩ | ⟨c, rfl, -⟩ |
    ⟨e, node, rfl, he', hnode, rfl⟩
  · rw [Usart.getch, h.canRead, if_neg Bool.false_ne_true] at hgetch
    cases hgetch
  · exact absurd (hreads.symm.trans h.readsChar) (by simp)
  · exact absurd (hpoint.symm.trans h.point) (by simp)
  · exact absurd rfl (he c)
  · obtain ⟨hreads, hline⟩ := Node.readsChar_of_interrupt hinv h.readsChar he' hnode
    exact ⟨⟨h.point, hreads, h.canRead⟩, hline, e, rfl, he'⟩

theorem Waits.run {s t : MainLoop} {es : List MainEvent} (h : s.Waits) (hinv : s.node.tx.Inv)
    (hes : ∀ c, MainEvent.received c ∉ es) (hrun : s.run es = some t) :
    t.Waits ∧ t.node.tx.waiting = s.node.tx.waiting ∧
      ∀ e ∈ nodeEvents s es, e.isInterrupt = true := by
  unfold nodeEvents
  induction es generalizing s with
  | nil =>
    cases hrun
    exact ⟨h, rfl, fun e he => absurd he List.not_mem_nil⟩
  | cons e es ih =>
    obtain ⟨s', hs', hrest⟩ := Runs.run_cons_eq_some.mp hrun
    have hnot (c : Byte) : e ≠ .received c := by
      rintro rfl
      exact hes c List.mem_cons_self
    obtain ⟨hwaits, hline, e', he', hinterrupt⟩ := h.step hinv hnot hs'
    have hnode := step_node s e s' hs'
    rw [he', Runs.run_singleton] at hnode
    obtain ⟨ht, hline', hothers⟩ := ih hwaits (Node.inv_step _ _ _ hinv hnode)
      (fun c hc => hes c (List.mem_cons_of_mem _ hc)) hrest
    refine ⟨ht, hline'.trans hline, fun e₁ he₁ => ?_⟩
    rw [Runs.outputs_cons hs', he'] at he₁
    rcases List.mem_append.mp he₁ with he₁ | he₁
    · rw [List.mem_singleton.mp he₁]
      exact hinterrupt
    · exact hothers e₁ he₁

/-- **A board that is not typed to is deaf.** From any state in which the loop waits for a character,
and for as long as none comes: the loop goes on waiting, nothing is displayed, and a finished line
that has not been sent goes on waiting too. All bytes that come from the line in the meantime are
kept behind those already there, as long as there is room; once the line is idle and a character has
come, all of it up to the size of a packet is delivered as one block. -/
theorem deaf_of_run {src dest : Byte} {packetMode pin line : Bool} {es₀ es : List MainEvent}
    {s t : MainLoop} (hreach : (boot src dest packetMode pin line).run es₀ = some s)
    (hwaits : s.Waits) (hsilent : ∀ c, MainEvent.received c ∉ es) (hrun : s.run es = some t) :
    (t.Waits ∧ t.node.rx.console = s.node.rx.console ∧ t.node.tx.waiting = s.node.tx.waiting) ∧
      (Runs.Along Node.step Node.InTime s.node (nodeEvents s es) →
        t.node.readable =
            s.node.readable ++ Runs.outputs Node.step Node.puts s.node (nodeEvents s es) ∧
          ∀ c random, t.node.mon.getState = .idle → t.node.readable ≠ [] →
            ∃ t', t.run [.received c, .call random] = some t' ∧ t'.point = .receiver ∧
              t'.node.delivered = some (t.node.readable.take sizeofPacketHeader)) := by
  have hnode := run_node hreach
  have hinv : s.node.tx.Inv := Node.inv_of_run hnode
  have hrx : s.node.rx.Inv := Node.rxInv_of_run (Receiver.inv_init packetMode) hnode
  obtain ⟨ht, hline, hinterrupts⟩ := hwaits.run hinv hsilent hrun
  obtain ⟨hconsole, hreadable⟩ := Node.rx_of_interrupts hrx hinterrupts (run_node hrun)
  refine ⟨⟨ht, hconsole, hline⟩, fun hroom => ⟨hreadable hroom, ?_⟩⟩
  intro c random hidle hne
  have hrx' : t.node.rx.Inv := Node.rxInv_of_run hrx (run_node hrun)
  -- the character is read at once
  have hcan : (t.uart.receive c).canRead = true := by
    rw [Usart.receive, ht.canRead, if_neg Bool.false_ne_true, Usart.canRead_eq,
      BitVec.getLsbD_setBit _ (by decide), if_pos rfl]
  obtain ⟨r, hgetch⟩ : ∃ r, (t.uart.receive c).getch = some r := by
    rw [Usart.getch, if_pos hcan]
    exact ⟨_, rfl⟩
  refine ⟨⟨t.node.transmitterUpdate r.1 random, r.2, .receiver⟩, ?_, rfl, ?_⟩
  · refine Runs.run_cons_eq_some.mpr ⟨{ t with uart := t.uart.receive c }, rfl, ?_⟩
    rw [Runs.run_singleton, step, call]
    dsimp only
    rw [ht.point]
    dsimp only
    rw [if_pos ht.readsChar, hgetch]
    rfl
  · exact Node.delivered_take (n := t.node.transmitterUpdate r.1 random) hrx' hidle hne

instance (n : Node) (e : Event) : Decidable (n.InTime e) := inferInstanceAs (Decidable (_ → _))

/-- Two activity periods on the line of a board that nobody types to, with one byte each. -/
def twoPackets : List MainEvent :=
  let period := (Bits.msbFirst (0x55 : Byte)).flatMap Node.bitEvents ++ [.sysTick]
  (period ++ period).map .interrupt

theorem deaf_twoPackets :
    ∃ t t', (boot 0xAA 0xBB true true true).run twoPackets = some t ∧
      t.run [.received 0x61, .call 0] = some t' ∧ t'.node.delivered = some [0x55, 0x55] := by
  have hcheck : ((boot 0xAA 0xBB true true true).run twoPackets).map
      (fun t => t.node.mon.getState) = some .idle := by
    decide +kernel
  obtain ⟨t, ht, hidle⟩ := Option.map_eq_some_iff.mp hcheck
  have hwaits : (boot 0xAA 0xBB true true true).Waits := ⟨rfl, rfl, by decide⟩
  have hsilent : ∀ c, MainEvent.received c ∉ twoPackets := by
    simp [twoPackets]
  have hroom : Runs.Along Node.step Node.InTime (boot 0xAA 0xBB true true true).node
      (nodeEvents (boot 0xAA 0xBB true true true) twoPackets) := by
    decide +kernel
  have hputs : Runs.outputs Node.step Node.puts (boot 0xAA 0xBB true true true).node
      (nodeEvents (boot 0xAA 0xBB true true true) twoPackets) = [0x55, 0x55] := by
    decide +kernel
  have hboot : (boot 0xAA 0xBB true true true).run [] = some (boot 0xAA 0xBB true true true) := rfl
  obtain ⟨hreadable, hkey⟩ := (deaf_of_run hboot hwaits hsilent ht).2 hroom
  have hbytes : t.node.readable = [0x55, 0x55] := by
    rw [hreadable, hputs]
    rfl
  obtain ⟨t', hrun, -, hdelivered⟩ := hkey 0x61 0 hidle (by rw [hbytes]; simp)
  rw [hbytes] at hdelivered
  exact ⟨t, t', ht, hrun, hdelivered⟩

end MainLoop

end NetworkingCard
