import NetworkingCard.Basic
import NetworkingCard.Library.RegisterFile
import NetworkingCard.Library.Runs

/-!
# `uart_driver.c` and the console of `syscalls.c`

USART2 with the two polled functions of the driver. A read of `USART_DR` gives the character that
has come last, a write to it is what is to be sent; the character that is being sent is in a shift
register of its own.

`usart2_getch` waits for a character, and one that comes while another still waits is lost. In the
other direction `_write` waits before each character: `wire_of_run` says that nothing is lost or
repeated there, whatever the hardware does in the meantime.
-/

namespace NetworkingCard

/-- `RXNE` of `USART_SR`: a character waits to be read. -/
def rxne : ℕ := 5

/-- `TXE` of `USART_SR`: the next character can be written. -/
def txe : ℕ := 7

/-- The bit of `USART_SR` that tells of a lost character. -/
def ore : ℕ := 3

/-- `USART_SR`, the two registers behind `USART_DR`, and the shift register. -/
structure Usart where
  sr : BitVec 32
  rdr : Byte
  tdr : Byte
  shift : Option Byte

namespace Usart

/-- The registers after reset: nothing has come, and nothing is to be sent. -/
def reset : Usart := ⟨1#32 <<< txe, 0, 0, none⟩

/-- The condition that `usart2_getch` waits for. -/
def canRead (u : Usart) : Bool := decide (u.sr &&& (1#32 <<< rxne) = 1#32 <<< rxne)

/-- The condition that `usart2_putch` waits for. -/
def canWrite (u : Usart) : Bool := decide (u.sr &&& (1#32 <<< txe) = 1#32 <<< txe)

/-- `usart2_getch`, or `none` as long as it waits. The read of `USART_DR` clears `RXNE`. -/
def getch (u : Usart) : Option (Byte × Usart) :=
  if u.canRead then some (u.rdr, { u with sr := u.sr &&& ~~~(1#32 <<< rxne) &&& ~~~(1#32 <<< ore) })
  else none

/-- The statement of `usart2_putch` after its loop. The write clears `TXE`. -/
def putch (u : Usart) (c : Byte) : Usart :=
  { u with tdr := c, sr := u.sr &&& ~~~(1#32 <<< txe) }

/-! ## The hardware -/

/-- A character comes; while another one waits, it is lost. -/
def receive (u : Usart) (c : Byte) : Usart :=
  if u.canRead then { u with sr := u.sr ||| 1#32 <<< ore }
  else { u with rdr := c, sr := u.sr ||| 1#32 <<< rxne }

/-- The character that has been written moves on to the shift register. -/
def load (u : Usart) : Option Usart :=
  if u.shift = none ∧ u.canWrite = false then
    some { u with shift := some u.tdr, sr := u.sr ||| 1#32 <<< txe }
  else none

/-- The character in the shift register has been sent. -/
def finish (u : Usart) : Option Usart :=
  if u.shift = none then none else some { u with shift := none }

/-- The character that waits to be read. -/
def waiting (u : Usart) : List Byte := if u.canRead then [u.rdr] else []

/-- The characters that have been written and not sent. -/
def unsent (u : Usart) : List Byte := u.shift.toList ++ if u.canWrite then [] else [u.tdr]

/-! ## The two status bits -/

theorem canRead_eq (u : Usart) : u.canRead = u.sr.getLsbD rxne := by
  rw [canRead, Bool.eq_iff_iff, decide_eq_true_iff]
  exact BitVec.and_one_shiftLeft_eq_iff u.sr (by decide)

theorem canWrite_eq (u : Usart) : u.canWrite = u.sr.getLsbD txe := by
  rw [canWrite, Bool.eq_iff_iff, decide_eq_true_iff]
  exact BitVec.and_one_shiftLeft_eq_iff u.sr (by decide)

/-- The part for sending is unchanged. -/
def SameOutput (u u' : Usart) : Prop :=
  u'.tdr = u.tdr ∧ u'.shift = u.shift ∧ u'.canWrite = u.canWrite

theorem SameOutput.unsent {u u' : Usart} (h : SameOutput u u') : u'.unsent = u.unsent := by
  obtain ⟨htdr, hshift, hwrite⟩ := h
  rw [Usart.unsent, Usart.unsent, htdr, hshift, hwrite]

theorem receive_sameOutput (u : Usart) (c : Byte) : SameOutput u (u.receive c) := by
  unfold receive
  split
  · refine ⟨rfl, rfl, ?_⟩
    rw [canWrite_eq, canWrite_eq, BitVec.getLsbD_setBit _ (by decide)]
    rfl
  · refine ⟨rfl, rfl, ?_⟩
    rw [canWrite_eq, canWrite_eq, BitVec.getLsbD_setBit _ (by decide)]
    rfl

/-- What has come and can be read: the register holds one character. -/
theorem waiting_receive (u : Usart) (c : Byte) :
    (u.receive c).waiting = u.waiting ++ if u.canRead then [] else [c] := by
  have hread : (u.receive c).canRead = true := by
    rw [canRead_eq, receive]
    cases hcan : u.canRead
    · rw [if_neg Bool.false_ne_true, BitVec.getLsbD_setBit _ (by decide), if_pos rfl]
    · rw [if_pos rfl, BitVec.getLsbD_setBit _ (by decide), if_neg (by decide), ← canRead_eq]
      exact hcan
  rw [waiting, hread, waiting, receive]
  cases u.canRead <;> rfl

/-- A character that is read waits no longer. -/
theorem getch_eq_some {u u' : Usart} {c : Byte} (h : u.getch = some (c, u')) :
    u.waiting = [c] ∧ u'.canRead = false := by
  rw [getch, Option.ite_none_right_eq_some, Option.some.injEq, Prod.mk.injEq] at h
  obtain ⟨hread, rfl, rfl⟩ := h
  refine ⟨if_pos hread, ?_⟩
  rw [canRead_eq, BitVec.getLsbD_clearBit, BitVec.getLsbD_clearBit, if_neg (by decide), if_pos rfl]

/-- Once `USART_DR` is free, a character joins those that are to be sent. -/
theorem unsent_putch {u : Usart} (h : u.canWrite = true) (c : Byte) :
    (u.putch c).unsent = u.unsent ++ [c] := by
  have hclear : (u.putch c).canWrite = false := by
    rw [canWrite_eq, putch, BitVec.getLsbD_clearBit, if_pos rfl]
  rw [unsent, unsent, h, hclear, if_pos rfl, if_neg Bool.false_ne_true, List.append_nil]
  rfl

theorem unsent_load {u u' : Usart} (h : u.load = some u') : u'.unsent = u.unsent := by
  rw [load, Option.ite_none_right_eq_some, Option.some.injEq] at h
  obtain ⟨⟨hshift, hwrite⟩, rfl⟩ := h
  have hset : canWrite ⟨u.sr ||| 1#32 <<< txe, u.rdr, u.tdr, some u.tdr⟩ = true := by
    rw [canWrite_eq, BitVec.getLsbD_setBit _ (by decide), if_pos rfl]
  rw [unsent, unsent, hset, hshift, hwrite]
  rfl

theorem unsent_finish {u u' : Usart} (h : u.finish = some u') :
    u.shift.toList ++ u'.unsent = u.unsent ∧ u'.canWrite = u.canWrite := by
  rw [finish, Option.ite_none_left_eq_some, Option.some.injEq] at h
  obtain ⟨-, rfl⟩ := h
  exact ⟨rfl, rfl⟩

end Usart

/-! ## `_write` -/

/-- Where a call of `_write` has got to. -/
inductive WritePoint
  /-- in the loop of `usart2_putch` for the first of these characters; with none left, `_write`
  returns -/
  | polling (rest : List Byte)
  /-- before the write to `USART_DR` -/
  | putting (c : Byte) (rest : List Byte)

/-- A call of `_write` with the USART it writes to. -/
structure Writing where
  uart : Usart
  point : WritePoint

/-- What can happen: a statement of `_write`, or something in the hardware. -/
inductive WriteEvent
  | statement
  | load
  | finish
  | receive (c : Byte)

namespace Writing

/-- The characters that `_write` has not written yet. -/
def unwritten (s : Writing) : List Byte :=
  match s.point with
  | .polling rest => rest
  | .putting c rest => c :: rest

/-- One statement; a `usart2_putch` that has to wait polls once more. -/
def statement (s : Writing) : Option Writing :=
  match s.point with
  | .polling [] => none
  | .polling (c :: rest) => some (if s.uart.canWrite then { s with point := .putting c rest } else s)
  | .putting c rest => some { uart := s.uart.putch c, point := .polling rest }

/-- One event. -/
def step (s : Writing) : WriteEvent → Option Writing
  | .statement => s.statement
  | .load => s.uart.load.map fun uart => { s with uart := uart }
  | .finish => s.uart.finish.map fun uart => { s with uart := uart }
  | .receive c => some { s with uart := s.uart.receive c }

/-- The character that an event has sent. -/
def wireBy (s : Writing) : WriteEvent → List Byte
  | .finish => s.uart.shift.toList
  | _ => []

/-- The characters sent in a run. -/
def wire (s : Writing) (es : List WriteEvent) : List Byte := Runs.outputs step wireBy s es

/-- After the loop of `usart2_putch` nothing stands in `USART_DR`. -/
def Polled (s : Writing) : Prop := ∀ c rest, s.point = .putting c rest → s.uart.canWrite = true

/-- All characters that are still to be sent. -/
def queue (s : Writing) : List Byte := s.uart.unsent ++ s.unwritten

theorem step_conserves {s s' : Writing} {e : WriteEvent} (h : s.Polled) (hs : s.step e = some s') :
    s'.Polled ∧ s.wireBy e ++ s'.queue = s.queue := by
  obtain ⟨u, point⟩ := s
  cases e with
  | statement =>
    rcases point with (_ | ⟨c, rest⟩) | ⟨c, rest⟩
    · cases hs
    · cases hwrite : u.canWrite
      · -- `TXE` is clear, and the loop polls again
        simp only [step, statement, hwrite, if_neg Bool.false_ne_true, Option.some.injEq] at hs
        subst hs
        exact ⟨h, rfl⟩
      · simp only [step, statement, hwrite, if_pos, Option.some.injEq] at hs
        subst hs
        exact ⟨fun _ _ _ => hwrite, rfl⟩
    · cases hs
      refine ⟨fun c' rest' hpoint => ?_, ?_⟩
      · cases hpoint
      · have hput := Usart.unsent_putch (h c rest rfl) c
        rw [queue, queue, hput]
        exact List.append_assoc _ _ _
  | load =>
    obtain ⟨u', hload, rfl⟩ := Option.map_eq_some_iff.mp hs
    refine ⟨fun c rest hpoint => ?_, ?_⟩
    · -- only a free `USART_DR` is written to
      rw [Usart.load, Option.ite_none_right_eq_some] at hload
      have hfree : u.canWrite = true := h c rest hpoint
      exact absurd (hload.1.2.symm.trans hfree) (by simp)
    · rw [queue, queue, Usart.unsent_load hload]
      rfl
  | finish =>
    obtain ⟨u', hfinish, rfl⟩ := Option.map_eq_some_iff.mp hs
    obtain ⟨hunsent, hwrite⟩ := Usart.unsent_finish hfinish
    refine ⟨fun c rest hpoint => ?_, ?_⟩
    · exact hwrite.trans (h c rest hpoint)
    · rw [queue, queue, ← hunsent, List.append_assoc]
      rfl
  | receive c =>
    cases hs
    have hsame := u.receive_sameOutput c
    refine ⟨fun c' rest hpoint => ?_, ?_⟩
    · exact hsame.2.2.trans (h c' rest hpoint)
    · rw [queue, queue, hsame.unsent]
      rfl

/-- **The console loses nothing.** For every order of the statements of `_write` and of what the
hardware does: the characters that have been sent and those still to be sent are those that were to
be sent, in order. -/
theorem wire_of_run {s t : Writing} {es : List WriteEvent} (h : s.Polled)
    (hrun : Runs.run step s es = some t) : s.wire es ++ t.queue = s.queue := by
  have htrue : Runs.Along step (fun _ _ => True) s es := Runs.along_of_forall (fun _ _ _ => trivial) s
  have hnone : Runs.outputs step (fun _ _ => ([] : List Byte)) s es = [] := by
    rw [Runs.outputs_of_events (fun _ => []) hrun]
    simp
  have hstep : ∀ (s : Writing) (e : WriteEvent) (s' : Writing), s.Polled → True →
      s.step e = some s' → s'.Polled ∧ s.wireBy e ++ s'.queue = s.queue ++ ([] : List Byte) := by
    intro s e s' hs _ he
    rw [List.append_nil]
    exact step_conserves hs he
  have hqueue := Runs.conserved_of_run hstep h htrue hrun
  rw [hnone, List.append_nil] at hqueue
  exact hqueue

/-- Two characters are written; the second waits for the first to leave `USART_DR`. -/
def writesAB : List WriteEvent :=
  [.statement, .statement, .statement, .load, .statement, .statement, .finish, .load, .receive 0x63,
    .finish]

theorem wire_writesAB :
    wire ⟨Usart.reset, .polling [0x61, 0x62]⟩ writesAB = [0x61, 0x62] := by
  obtain ⟨t, ht⟩ : ∃ t, Runs.run step ⟨Usart.reset, .polling [0x61, 0x62]⟩ writesAB = some t :=
    ⟨_, rfl⟩
  have hqueue : t.queue = [] := by
    cases ht
    rfl
  have hwire := wire_of_run (fun c rest hpoint => by cases hpoint) ht
  rwa [hqueue, List.append_nil] at hwire

end Writing

end NetworkingCard
