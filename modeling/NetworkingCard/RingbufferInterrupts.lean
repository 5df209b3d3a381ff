import NetworkingCard.Library.Runs
import NetworkingCard.Ringbuffer

/-!
# The ring buffer under interrupts

`get` statement by statement, with whole calls of `put` in between, as when the main loop reads
and an interrupt writes. `GetPoint` is the program counter of `get`.

An element counts as unread until the `get` that takes it has returned (`unread`). Every step
keeps `Inv` and conserves the elements (`step_conserves`): what is returned leaves the unread
elements at the front, what is put joins them at the back. Hence the run is that of a queue
(`returned_append_unread`).
-/

namespace NetworkingCard

/-- Where a call of `get` has got to, with the value of `tempChar` once it has been read. -/
inductive GetPoint (α : Type)
  /-- no call is in progress -/
  | outside
  /-- before `tempChar = buffer->buffer[buffer->get]` -/
  | called
  /-- before `buffer->get++` -/
  | fetched (tempChar : α)
  /-- before the test of `buffer->get == BUF_SIZE` -/
  | advanced (tempChar : α)
  /-- before `buffer->get = 0` -/
  | wrapping (tempChar : α)
  /-- before `return tempChar` -/
  | returning (tempChar : α)

/-- A ring buffer that a call of `get` may be reading. -/
structure SharedRing (α : Type) where
  buffer : RingBuffer α
  point : GetPoint α

namespace SharedRing

variable {α : Type}

/-- What can happen: an interrupt that calls `put`, the main loop's call of `get`, the next
statement of that call, or an evaluation of `hasElement`. -/
inductive Event (α : Type)
  | put (element : α)
  | call
  | statement
  | hasElement

/-- The buffer with the index `get` wrapped around. -/
def wrapped (buffer : RingBuffer α) : RingBuffer α :=
  if buffer.get = bufSize then { buffer with get := 0 } else buffer

section

variable [Inhabited α]

/-- One step; `get` is called only after `hasElement`. -/
def step (s : SharedRing α) (e : Event α) : Option (SharedRing α) :=
  match e, s.point with
  | .put element, _ => some { s with buffer := Ringbuffer.put s.buffer element }
  | .call, .outside =>
    if Ringbuffer.hasElement s.buffer then some { s with point := .called } else none
  | .statement, .called =>
    some { s with point := .fetched (Ringbuffer.cell s.buffer s.buffer.get) }
  | .statement, .fetched tempChar =>
    some ⟨{ s.buffer with get := s.buffer.get + 1 }, .advanced tempChar⟩
  | .statement, .advanced tempChar =>
    some { s with point := if s.buffer.get = bufSize then .wrapping tempChar
                           else .returning tempChar }
  | .statement, .wrapping tempChar => some ⟨{ s.buffer with get := 0 }, .returning tempChar⟩
  | .statement, .returning _ => some { s with point := .outside }
  | .hasElement, .outside => some s
  | _, _ => none

/-- What a step returns to the caller of `get`. -/
def returned (s : SharedRing α) (e : Event α) : List α :=
  match e, s.point with
  | .statement, .returning tempChar => [tempChar]
  | _, _ => []

/-- What a step puts. -/
def puts (_ : SharedRing α) : Event α → List α
  | .put element => [element]
  | _ => []

/-- Without interrupts in between, the statements do what `Ringbuffer.get` does. -/
theorem run_statements {buffer : RingBuffer α}
    (helem : Ringbuffer.hasElement buffer = true) :
    ∃ n, Runs.run step ⟨buffer, .outside⟩ (.call :: List.replicate n .statement) =
        some ⟨(Ringbuffer.get buffer).2, .outside⟩ ∧
      Runs.outputs step returned ⟨buffer, .outside⟩ (.call :: List.replicate n .statement) =
        [(Ringbuffer.get buffer).1] := by
  have hcall : step ⟨buffer, .outside⟩ .call = some ⟨buffer, .called⟩ := if_pos helem
  by_cases hend : buffer.get + 1 = bufSize
  · refine ⟨5, ?_⟩
    rw [Runs.run_cons, hcall, Runs.outputs_cons hcall]
    simp [List.replicate, Runs.run_cons, Runs.outputs, step, returned, Ringbuffer.get, hend]
  · refine ⟨4, ?_⟩
    rw [Runs.run_cons, hcall, Runs.outputs_cons hcall]
    simp [List.replicate, Runs.run_cons, Runs.outputs, step, returned, Ringbuffer.get, hend]

/-- The element that `get` has taken from the buffer and not yet returned. -/
def taken : GetPoint α → List α
  | .outside | .called | .fetched _ => []
  | .advanced tempChar | .wrapping tempChar | .returning tempChar => [tempChar]

/-- The elements put and not yet returned, oldest first. -/
def unread (s : SharedRing α) : List α :=
  taken s.point ++ Ringbuffer.contents (wrapped s.buffer)

/-- What holds of the indices at each point of `get`. -/
def AtPoint (buffer : RingBuffer α) : GetPoint α → Prop
  | .outside => buffer.get < bufSize
  | .called => buffer.get < bufSize ∧ buffer.put ≠ buffer.get
  | .fetched tempChar => buffer.get < bufSize ∧ buffer.put ≠ buffer.get ∧
      tempChar = Ringbuffer.cell buffer buffer.get
  | .advanced _ => buffer.get ≤ bufSize
  | .wrapping _ => buffer.get = bufSize
  | .returning _ => buffer.get < bufSize

/-- What holds in every reachable state. -/
structure Inv (s : SharedRing α) : Prop where
  put_lt : s.buffer.put < bufSize
  atPoint : AtPoint s.buffer s.point

/-! ## One step -/

omit [Inhabited α] in
@[simp] theorem get_put (buffer : RingBuffer α) (element : α) :
    (Ringbuffer.put buffer element).get = buffer.get := by
  rw [Ringbuffer.put_eq]

omit [Inhabited α] in
theorem put_wrapped (buffer : RingBuffer α) (element : α) :
    wrapped (Ringbuffer.put buffer element) = Ringbuffer.put (wrapped buffer) element := by
  unfold wrapped
  rw [Ringbuffer.put_eq]
  dsimp only
  split
  · rw [Ringbuffer.put_eq]
  · rw [Ringbuffer.put_eq]

omit [Inhabited α] in
theorem wrapped_of_lt {buffer : RingBuffer α} (h : buffer.get < bufSize) :
    wrapped buffer = buffer :=
  if_neg (by omega)

omit [Inhabited α] in
theorem valid_wrapped {buffer : RingBuffer α} (hput : buffer.put < bufSize)
    (hget : buffer.get ≤ bufSize) : Ringbuffer.Valid (wrapped buffer) := by
  unfold wrapped
  split
  · exact ⟨hput, Nat.zero_lt_succ _⟩
  · exact ⟨hput, by omega⟩

/-- At every point of `get` the index, once wrapped, is inside the array. -/
theorem Inv.valid {s : SharedRing α} (h : s.Inv) : Ringbuffer.Valid (wrapped s.buffer) := by
  obtain ⟨buffer, point⟩ := s
  apply valid_wrapped h.put_lt
  have hpoint := h.atPoint
  cases point with
  | outside => exact Nat.le_of_lt hpoint
  | called => exact Nat.le_of_lt hpoint.1
  | fetched tempChar => exact Nat.le_of_lt hpoint.1
  | advanced tempChar => exact hpoint
  | wrapping tempChar => exact Nat.le_of_eq hpoint
  | returning tempChar => exact Nat.le_of_lt hpoint

/-- A first element that is unread stays in front while others are put. -/
theorem cell_get_put {buffer : RingBuffer α} (hvalid : Ringbuffer.Valid buffer)
    (hne : buffer.put ≠ buffer.get) (hroom : (Ringbuffer.contents buffer).length < bufSize - 1)
    (element : α) :
    (Ringbuffer.put buffer element).put ≠ buffer.get ∧
      Ringbuffer.cell (Ringbuffer.put buffer element) buffer.get =
        Ringbuffer.cell buffer buffer.get := by
  constructor
  · intro heq
    have hempty : Ringbuffer.hasElement (Ringbuffer.put buffer element) = false := by
      unfold Ringbuffer.hasElement
      rw [get_put, heq]
      simp
    have hnil := Ringbuffer.contents_eq_nil_of_hasElement (hvalid.put element) hempty
    rw [Ringbuffer.contents_put hvalid hroom] at hnil
    simp at hnil
  · rw [Ringbuffer.cell_put hvalid, Function.update_of_ne hne.symm]

/-- The points look at the index `get` and at the element it refers to. -/
theorem AtPoint.of_get_eq {buffer buffer' : RingBuffer α} {point : GetPoint α}
    (h : AtPoint buffer point) (hget : buffer'.get = buffer.get)
    (hfront : buffer.get < bufSize → buffer.put ≠ buffer.get → buffer'.put ≠ buffer.get ∧
      Ringbuffer.cell buffer' buffer.get = Ringbuffer.cell buffer buffer.get) :
    AtPoint buffer' point := by
  unfold AtPoint at h ⊢
  rw [hget]
  cases point with
  | outside => exact h
  | called =>
    obtain ⟨hlt, hne⟩ := h
    exact ⟨hlt, (hfront hlt hne).1⟩
  | fetched tempChar =>
    obtain ⟨hlt, hne, hcell⟩ := h
    obtain ⟨hne', hcell'⟩ := hfront hlt hne
    exact ⟨hlt, hne', hcell.trans hcell'.symm⟩
  | advanced tempChar => exact h
  | wrapping tempChar => exact h
  | returning tempChar => exact h

theorem contents_length_lt {s : SharedRing α} (hroom : s.unread.length < bufSize - 1) :
    (Ringbuffer.contents (wrapped s.buffer)).length < bufSize - 1 := by
  unfold unread at hroom
  rw [List.length_append] at hroom
  omega

/-- A `put` finds room at every point of `get`. -/
theorem Inv.put {s : SharedRing α} (h : s.Inv) (hroom : s.unread.length < bufSize - 1)
    (element : α) : Inv { s with buffer := Ringbuffer.put s.buffer element } := by
  constructor
  · show (Ringbuffer.put s.buffer element).put < bufSize
    rw [Ringbuffer.put_eq]
    exact CircularQueue.next_lt h.put_lt
  · apply h.atPoint.of_get_eq (get_put s.buffer element)
    intro hlt hne
    have hvalid := h.valid
    have hspace := contents_length_lt hroom
    rw [wrapped_of_lt hlt] at hvalid hspace
    exact cell_get_put hvalid hne hspace element

theorem unread_put {s : SharedRing α} (h : s.Inv) (hroom : s.unread.length < bufSize - 1)
    (element : α) :
    unread { s with buffer := Ringbuffer.put s.buffer element } = s.unread ++ [element] := by
  unfold unread
  rw [put_wrapped, Ringbuffer.contents_put h.valid (contents_length_lt hroom), List.append_assoc]

/-- A statement of `get` keeps the invariant, and what it returns was the oldest unread element. -/
theorem statement_conserves {s s' : SharedRing α} (h : s.Inv)
    (hstep : s.step .statement = some s') :
    s'.Inv ∧ s.returned .statement ++ s'.unread = s.unread := by
  have hvalid := h.valid
  obtain ⟨buffer, point⟩ := s
  obtain ⟨hput, hpoint⟩ := h
  cases point with
  | outside => cases hstep
  | called =>
    cases hstep
    exact ⟨⟨hput, hpoint.1, hpoint.2, rfl⟩, rfl⟩
  | fetched tempChar =>
    cases hstep
    obtain ⟨hlt, hne, hcell⟩ := hpoint
    have helem : Ringbuffer.hasElement buffer = true := by simpa [Ringbuffer.hasElement] using hne
    have hpop := Ringbuffer.contents_get ⟨hput, hlt⟩ helem
    refine ⟨⟨hput, hlt⟩, ?_⟩
    show tempChar :: Ringbuffer.contents (Ringbuffer.get buffer).2 =
      Ringbuffer.contents (wrapped buffer)
    rw [wrapped_of_lt hlt, hpop, hcell]
    rfl
  | advanced tempChar =>
    cases hstep
    have hle : buffer.get ≤ bufSize := hpoint
    by_cases hend : buffer.get = bufSize
    · dsimp only
      rw [if_pos hend]
      exact ⟨⟨hput, hend⟩, rfl⟩
    · dsimp only
      rw [if_neg hend]
      exact ⟨⟨hput, Nat.lt_of_le_of_ne hle hend⟩, rfl⟩
  | wrapping tempChar =>
    cases hstep
    have hend : wrapped buffer = { buffer with get := 0 } := if_pos hpoint
    refine ⟨⟨hput, Nat.zero_lt_succ _⟩, ?_⟩
    show tempChar :: Ringbuffer.contents { buffer with get := 0 } =
      tempChar :: Ringbuffer.contents (wrapped buffer)
    rw [hend]
  | returning tempChar =>
    cases hstep
    exact ⟨⟨hput, hpoint⟩, rfl⟩

/-- Every step conserves the elements: what it returns was in front of the unread ones, and what
it puts is behind them. -/
theorem step_conserves {s s' : SharedRing α} {e : Event α} (h : s.Inv)
    (hroom : s.puts e ≠ [] → s.unread.length < bufSize - 1) (hstep : s.step e = some s') :
    s'.Inv ∧ s.returned e ++ s'.unread = s.unread ++ s.puts e := by
  cases e with
  | put element =>
    cases hstep
    have hspace := hroom (by simp [puts])
    exact ⟨h.put hspace element, unread_put h hspace element⟩
  | statement =>
    obtain ⟨hinv, hunread⟩ := statement_conserves h hstep
    exact ⟨hinv, by rw [hunread]; simp [puts]⟩
  | call =>
    obtain ⟨buffer, point⟩ := s
    cases point with
    | outside =>
      obtain ⟨helem, heq⟩ := Option.ite_none_right_eq_some.mp hstep
      cases heq
      have hne : buffer.put ≠ buffer.get := by simpa [Ringbuffer.hasElement] using helem
      exact ⟨⟨h.put_lt, h.atPoint, hne⟩, by simp [puts, returned, unread, taken]⟩
    | called => cases hstep
    | fetched tempChar => cases hstep
    | advanced tempChar => cases hstep
    | wrapping tempChar => cases hstep
    | returning tempChar => cases hstep
  | hasElement =>
    obtain ⟨buffer, point⟩ := s
    cases point with
    | outside =>
      cases hstep
      exact ⟨h, by simp [puts, returned]⟩
    | called => cases hstep
    | fetched tempChar => cases hstep
    | advanced tempChar => cases hstep
    | wrapping tempChar => cases hstep
    | returning tempChar => cases hstep

/-! ## Runs -/

/-- No call in progress and nothing unread, at any place of the array. -/
structure Empty (s : SharedRing α) : Prop where
  outside : s.point = .outside
  put_lt : s.buffer.put < bufSize
  empty : s.buffer.put = s.buffer.get

/-- Every `put` of the run comes while fewer than `BUF_SIZE - 1` of the elements put have not been
returned yet. -/
def RoomForPuts (s : SharedRing α) (es : List (Event α)) : Prop :=
  ∀ before element after, es = before ++ .put element :: after →
    (Runs.outputs step puts s before).length <
      (Runs.outputs step returned s before).length + (bufSize - 1)

theorem RoomForPuts.of_concat {s : SharedRing α} {es : List (Event α)} {e : Event α}
    (h : RoomForPuts s (es ++ [e])) : RoomForPuts s es := by
  intro before element after hes
  apply h before element (after ++ [e])
  rw [hes, List.append_assoc, List.cons_append]

/-- The invariant of a whole run, and the elements in it: returned, unread, or still to be put. -/
theorem inv_of_run {s t : SharedRing α} {es : List (Event α)} (hs : s.Empty)
    (hroom : RoomForPuts s es) (hrun : Runs.run step s es = some t) :
    t.Inv ∧ Runs.outputs step returned s es ++ t.unread = Runs.outputs step puts s es := by
  induction es using List.reverseRecOn generalizing t with
  | nil =>
    cases hrun
    have hlt : s.buffer.get < bufSize := hs.empty ▸ hs.put_lt
    have hunread : s.unread = [] := by
      unfold unread Ringbuffer.contents
      rw [hs.outside, wrapped_of_lt hlt, hs.empty, CircularQueue.unread_self]
      rfl
    refine ⟨⟨hs.put_lt, ?_⟩, by rw [hunread]; rfl⟩
    rw [hs.outside]
    exact hlt
  | append_singleton es e ih =>
    obtain ⟨m, hm, hstep⟩ := Runs.run_concat_eq_some.mp hrun
    obtain ⟨hinv, hconserved⟩ := ih hroom.of_concat hm
    have hspace : m.puts e ≠ [] → m.unread.length < bufSize - 1 := by
      intro hput
      cases e with
      | put element =>
        have hcount := hroom es element [] rfl
        rw [← hconserved, List.length_append] at hcount
        omega
      | statement => exact absurd rfl hput
      | call => exact absurd rfl hput
      | hasElement => exact absurd rfl hput
    obtain ⟨hinv', hstep'⟩ := step_conserves hinv hspace hstep
    refine ⟨hinv', ?_⟩
    rw [Runs.outputs_concat hm hstep, Runs.outputs_concat hm hstep, List.append_assoc, hstep',
      ← List.append_assoc, hconserved]

/-- **The ring buffer is a queue, also under interrupts.** In every run with room for what is put:
what the completed calls of `get` returned, followed by what is unread, is what was put. Between
the calls of `get` both indices are inside the array, the unread elements are those in the buffer,
and `hasElement` tells whether there are any. -/
theorem returned_append_unread {s t : SharedRing α} {es : List (Event α)} (hs : s.Empty)
    (hroom : RoomForPuts s es) (hrun : Runs.run step s es = some t) :
    Runs.outputs step returned s es ++ t.unread = Runs.outputs step puts s es ∧
      (t.point = .outside →
        (t.buffer.put < bufSize ∧ t.buffer.get < bufSize) ∧
          t.unread = Ringbuffer.contents t.buffer ∧
          (Ringbuffer.hasElement t.buffer = true ↔ t.unread ≠ [])) := by
  obtain ⟨hinv, hconserved⟩ := inv_of_run hs hroom hrun
  refine ⟨hconserved, ?_⟩
  intro hpoint
  have hget : t.buffer.get < bufSize := by
    have hatPoint := hinv.atPoint
    rw [hpoint] at hatPoint
    exact hatPoint
  have hunread : t.unread = Ringbuffer.contents t.buffer := by
    unfold unread
    rw [hpoint, wrapped_of_lt hget]
    rfl
  refine ⟨⟨hinv.put_lt, hget⟩, hunread, ?_⟩
  rw [hunread, Ringbuffer.hasElement_eq ⟨hinv.put_lt, hget⟩]
  simp

/-- A run shorter than the array always has room. -/
theorem roomForPuts_of_length_lt (s : SharedRing α) {es : List (Event α)}
    (h : es.length < bufSize - 1) : RoomForPuts s es := by
  intro before element after hes
  have hputs : ∀ (s : SharedRing α) e, (puts s e).length ≤ 1 := by
    intro s e
    cases e with
    | put element => exact le_rfl
    | call => exact Nat.zero_le 1
    | statement => exact Nat.zero_le 1
    | hasElement => exact Nat.zero_le 1
  have hle : (Runs.outputs step puts s before).length ≤ before.length :=
    Runs.length_outputs_le hputs s before
  have hlen := congrArg List.length hes
  rw [List.length_append] at hlen
  omega

/-- A byte is put while `get` is about to return the one before it. -/
theorem returned_append_unread_two :
    ∃ t, Runs.run step (⟨⟨0, 0, Vector.replicate _ 0⟩, .outside⟩ : SharedRing ℕ)
        [.put 7, .call, .statement, .statement, .put 8, .statement] = some t ∧
      Runs.outputs step returned (⟨⟨0, 0, Vector.replicate _ 0⟩, .outside⟩ : SharedRing ℕ)
          [.put 7, .call, .statement, .statement, .put 8, .statement] ++ t.unread = [7, 8] :=
  ⟨_, rfl, (returned_append_unread ⟨rfl, Nat.zero_lt_succ _, rfl⟩
    (roomForPuts_of_length_lt _ (by decide)) rfl).1⟩

end

end SharedRing

end NetworkingCard
