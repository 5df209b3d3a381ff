import NetworkingCard.Library.Runs
import NetworkingCard.Ringbuffer

/-!
# The guards of the ring buffer

Runs of calls of `put` and `get`, the latter only after `hasElement`. `hasSpace` and `numElements`
do not take into account that the indices wrap around:

* with `put` only after `hasSpace` no index ever wraps around. So nothing is lost, but once the
  index `put` has come to the end of the array there is no space any more, also in an empty buffer
  (`hasSpace_iff_of_run`);
* `numElements` is the number of unread elements exactly while `put` and `get` have wrapped around
  equally often (`numElements_iff_of_run`).
-/

namespace NetworkingCard

namespace Ringbuffer

variable {α : Type}

/-- A call of `put` or `get`. -/
inductive Call (α : Type)
  | put (element : α)
  | get

/-- The elements that a call puts. -/
def Call.elements : Call α → List α
  | .put element => [element]
  | .get => []

def Call.isPut : Call α → Bool
  | .put _ => true
  | .get => false

/-- The number of calls of `put`. -/
def puts (calls : List (Call α)) : ℕ := calls.countP Call.isPut

/-- The number of calls of `get`. -/
def gets (calls : List (Call α)) : ℕ := calls.countP fun c => !c.isPut

@[simp] theorem puts_nil : puts ([] : List (Call α)) = 0 := rfl

@[simp] theorem gets_nil : gets ([] : List (Call α)) = 0 := rfl

@[simp] theorem puts_cons_put (element : α) (calls : List (Call α)) :
    puts (.put element :: calls) = puts calls + 1 := List.countP_cons_of_pos rfl

@[simp] theorem puts_cons_get (calls : List (Call α)) : puts (.get :: calls) = puts calls :=
  List.countP_cons_of_neg Bool.false_ne_true

@[simp] theorem gets_cons_put (element : α) (calls : List (Call α)) :
    gets (.put element :: calls) = gets calls := List.countP_cons_of_neg Bool.false_ne_true

@[simp] theorem gets_cons_get (calls : List (Call α)) : gets (.get :: calls) = gets calls + 1 :=
  List.countP_cons_of_pos rfl

theorem puts_append (calls calls' : List (Call α)) :
    puts (calls ++ calls') = puts calls + puts calls' := List.countP_append

theorem gets_append (calls calls' : List (Call α)) :
    gets (calls ++ calls') = gets calls + gets calls' := List.countP_append

theorem puts_cons (c : Call α) (calls : List (Call α)) :
    puts (c :: calls) = puts [c] + puts calls := puts_append [c] calls

theorem gets_cons (c : Call α) (calls : List (Call α)) :
    gets (c :: calls) = gets [c] + gets calls := gets_append [c] calls

theorem length_elements (calls : List (Call α)) :
    (calls.flatMap Call.elements).length = puts calls := by
  induction calls with
  | nil => rfl
  | cons c calls ih =>
    rw [List.flatMap_cons, List.length_append, ih, puts_cons]
    cases c with
    | put element => rfl
    | get => rfl

/-- Nothing is unread, at any place of the array. -/
structure Empty (buffer : RingBuffer α) : Prop where
  put_lt : buffer.put < bufSize
  empty : buffer.put = buffer.get

theorem Empty.valid {buffer : RingBuffer α} (h : Empty buffer) : Valid buffer :=
  ⟨h.put_lt, h.empty ▸ h.put_lt⟩

/-- `{0, 0}`. -/
def zero : RingBuffer Byte := ⟨0, 0, Vector.replicate _ 0⟩

theorem empty_zero : Empty zero := ⟨Nat.zero_lt_succ _, rfl⟩

/-- `put` is called right after `hasSpace` has returned non-zero. -/
def SpaceTested (buffer : RingBuffer α) (c : Call α) : Prop :=
  c.isPut = true → hasSpace buffer = true

section

variable [Inhabited α]

/-- One call; `get` is called right after `hasElement` has returned non-zero. -/
def step (buffer : RingBuffer α) : Call α → Option (RingBuffer α)
  | .put element => some (put buffer element)
  | .get => if hasElement buffer then some (get buffer).2 else none

/-- What a call returns. -/
def returned (buffer : RingBuffer α) : Call α → List α
  | .put _ => []
  | .get => [(get buffer).1]

/-- The elements that can still be read, by `get` while `hasElement`. -/
def readable (buffer : RingBuffer α) : List α := drain bufSize buffer

/-- `put` is called while fewer than `BUF_SIZE - 1` elements are unread. -/
def RoomLeft (buffer : RingBuffer α) (c : Call α) : Prop :=
  c.isPut = true → (readable buffer).length < bufSize - 1

theorem step_get_eq_some {buffer buffer' : RingBuffer α} :
    step buffer .get = some buffer' ↔ hasElement buffer = true ∧ (get buffer).2 = buffer' := by
  rw [step, Option.ite_none_right_eq_some, Option.some.injEq]

/-! ## The queue -/

theorem readable_eq {buffer : RingBuffer α} (h : Valid buffer) :
    readable buffer = contents buffer := by
  rw [readable, drain_eq_take h, List.take_of_length_le (length_contents_lt h).le]

theorem Empty.readable {buffer : RingBuffer α} (h : Empty buffer) : readable buffer = [] := by
  rw [readable_eq h.valid, contents, h.empty, CircularQueue.unread_self]

/-- With room left, a call puts an element behind the unread ones or returns the first of them. -/
theorem step_conserves {buffer buffer' : RingBuffer α} {c : Call α} (h : Valid buffer)
    (hroom : RoomLeft buffer c) (hstep : step buffer c = some buffer') :
    Valid buffer' ∧ returned buffer c ++ readable buffer' = readable buffer ++ c.elements := by
  cases c with
  | put element =>
    cases hstep
    have hspace := hroom rfl
    rw [readable_eq h] at hspace ⊢
    refine ⟨h.put element, ?_⟩
    rw [readable_eq (h.put element), contents_put h hspace]
    rfl
  | get =>
    obtain ⟨helem, rfl⟩ := step_get_eq_some.mp hstep
    refine ⟨h.get, ?_⟩
    rw [readable_eq h, readable_eq h.get, contents_get h helem]
    exact (List.append_nil _).symm

/-- What has been returned and what can still be read are the elements put, in order. -/
theorem queue_of_run {s t : RingBuffer α} {calls : List (Call α)} (hs : Empty s)
    (hroom : Runs.Along step RoomLeft s calls) (hrun : Runs.run step s calls = some t) :
    Runs.outputs step returned s calls ++ readable t = calls.flatMap Call.elements := by
  have hstep : ∀ (b : RingBuffer α) c b', Valid b → RoomLeft b c → step b c = some b' →
      Valid b' ∧ returned b c ++ readable b' = readable b ++ c.elements := by
    intro b c b' hb hc hstep
    exact step_conserves hb hc hstep
  rw [Runs.conserved_of_run hstep hs.valid hroom hrun, hs.readable, List.nil_append,
    Runs.outputs_of_events Call.elements hrun]

theorem length_returned {s t : RingBuffer α} {calls : List (Call α)}
    (hrun : Runs.run step s calls = some t) :
    (Runs.outputs step returned s calls).length = gets calls := by
  induction calls generalizing s with
  | nil => rfl
  | cons c calls ih =>
    obtain ⟨s', hs', hrest⟩ := Runs.run_cons_eq_some.mp hrun
    rw [Runs.outputs_cons hs', List.length_append, ih hrest, gets_cons]
    cases c with
    | put element => rfl
    | get => rfl

/-- The unread elements are those put and not yet got. -/
theorem gets_add_length_readable {s t : RingBuffer α} {calls : List (Call α)} (hs : Empty s)
    (hroom : Runs.Along step RoomLeft s calls) (hrun : Runs.run step s calls = some t) :
    gets calls + (readable t).length = puts calls := by
  rw [← length_returned hrun, ← length_elements, ← queue_of_run hs hroom hrun, List.length_append]

/-- A call advances one of the indices, cyclically. -/
theorem indices_of_step {buffer buffer' : RingBuffer α} {c : Call α} (h : Valid buffer)
    (hstep : step buffer c = some buffer') :
    Valid buffer' ∧ buffer'.put = (buffer.put + puts [c]) % bufSize ∧
      buffer'.get = (buffer.get + gets [c]) % bufSize := by
  have hput := (Nat.mod_eq_of_lt h.put_lt).symm
  have hget := (Nat.mod_eq_of_lt h.get_lt).symm
  cases c with
  | put element =>
    cases hstep
    refine ⟨h.put element, ?_⟩
    rw [put_eq]
    exact ⟨CircularQueue.next_eq_mod h.put_lt, hget⟩
  | get =>
    obtain ⟨-, rfl⟩ := step_get_eq_some.mp hstep
    refine ⟨h.get, ?_⟩
    rw [get_eq]
    exact ⟨hput, CircularQueue.next_eq_mod h.get_lt⟩

/-- The indices count the calls, modulo the size of the array. -/
theorem indices_of_run {s t : RingBuffer α} {calls : List (Call α)} (hs : Valid s)
    (hrun : Runs.run step s calls = some t) :
    Valid t ∧ t.put = (s.put + puts calls) % bufSize ∧ t.get = (s.get + gets calls) % bufSize := by
  induction calls generalizing s with
  | nil =>
    cases hrun
    exact ⟨hs, (Nat.mod_eq_of_lt hs.put_lt).symm, (Nat.mod_eq_of_lt hs.get_lt).symm⟩
  | cons c calls ih =>
    obtain ⟨s', hs', hrest⟩ := Runs.run_cons_eq_some.mp hrun
    obtain ⟨hvalid, hput, hget⟩ := indices_of_step hs hs'
    obtain ⟨ht, hputs, hgets⟩ := ih hvalid hrest
    refine ⟨ht, ?_, ?_⟩
    · rw [hputs, hput, Nat.mod_add_mod, Nat.add_assoc, puts_cons c calls]
    · rw [hgets, hget, Nat.mod_add_mod, Nat.add_assoc, gets_cons c calls]

/-! ## `hasSpace` -/

/-- No index has wrapped around. -/
structure Unwrapped (buffer : RingBuffer α) : Prop where
  put_lt : buffer.put < bufSize
  get_le : buffer.get ≤ buffer.put

omit [Inhabited α] in
theorem Unwrapped.valid {buffer : RingBuffer α} (h : Unwrapped buffer) : Valid buffer :=
  ⟨h.put_lt, h.get_le.trans_lt h.put_lt⟩

theorem Unwrapped.length_readable {buffer : RingBuffer α} (h : Unwrapped buffer) :
    (readable buffer).length = buffer.put - buffer.get := by
  rw [readable_eq h.valid, contents, CircularQueue.length_unread, CircularQueue.count,
    if_pos h.get_le]

/-- After a successful test a call advances one of the indices, and neither wraps around. -/
theorem Unwrapped.step {buffer buffer' : RingBuffer α} {c : Call α} (h : Unwrapped buffer)
    (hspace : SpaceTested buffer c) (hstep : step buffer c = some buffer') :
    Unwrapped buffer' ∧ buffer'.put = buffer.put + puts [c] ∧
      buffer'.get = buffer.get + gets [c] := by
  have hput := h.put_lt
  have hget := h.get_le
  cases c with
  | put element =>
    cases hstep
    have hne : buffer.put ≠ bufSize - 1 := of_decide_eq_true (hspace rfl)
    have hnext : CircularQueue.next bufSize buffer.put = buffer.put + 1 := if_neg (by omega)
    rw [put_eq, hnext]
    refine ⟨⟨?_, ?_⟩, rfl, rfl⟩
    · show buffer.put + 1 < bufSize
      omega
    · show buffer.get ≤ buffer.put + 1
      omega
  | get =>
    obtain ⟨helem, rfl⟩ := step_get_eq_some.mp hstep
    have hne : buffer.put ≠ buffer.get := of_decide_eq_true helem
    have hnext : CircularQueue.next bufSize buffer.get = buffer.get + 1 := if_neg (by omega)
    rw [get_eq, hnext]
    refine ⟨⟨hput, ?_⟩, rfl, rfl⟩
    show buffer.get + 1 ≤ buffer.put
    omega

theorem Unwrapped.roomLeft {buffer : RingBuffer α} {c : Call α} (h : Unwrapped buffer)
    (hspace : SpaceTested buffer c) : RoomLeft buffer c := by
  intro hput
  have hne : buffer.put ≠ bufSize - 1 := of_decide_eq_true (hspace hput)
  have hlt := h.put_lt
  rw [h.length_readable]
  omega

/-- A run whose calls of `put` are all tested: the indices count the calls. -/
theorem Unwrapped.run {s t : RingBuffer α} {calls : List (Call α)} (h : Unwrapped s)
    (hspace : Runs.Along Ringbuffer.step SpaceTested s calls)
    (hrun : Runs.run Ringbuffer.step s calls = some t) :
    Unwrapped t ∧ t.put = s.put + puts calls ∧ t.get = s.get + gets calls := by
  induction calls generalizing s with
  | nil =>
    cases hrun
    exact ⟨h, rfl, rfl⟩
  | cons c calls ih =>
    obtain ⟨s', hs', hrest⟩ := Runs.run_cons_eq_some.mp hrun
    obtain ⟨h', hput, hget⟩ := h.step hspace.1 hs'
    obtain ⟨ht, hputs, hgets⟩ := ih h' (hspace.2 s' hs') hrest
    refine ⟨ht, ?_, ?_⟩
    · rw [hputs, hput, puts_cons c calls, Nat.add_assoc]
    · rw [hgets, hget, gets_cons c calls, Nat.add_assoc]

theorem roomLeft_of_spaceTested {s : RingBuffer α} {calls : List (Call α)} (h : Unwrapped s)
    (hspace : Runs.Along step SpaceTested s calls) : Runs.Along step RoomLeft s calls :=
  Runs.Along.imp_of_invariant (fun _ _ _ hb hc hstep => (hb.step hc hstep).1)
    (fun _ _ hb hc => hb.roomLeft hc) h hspace

/-- **`hasSpace` as a guard.** In every run from an empty buffer in which `put` comes only after
`hasSpace`, the elements come out in order and none is lost. That `hasSpace` returns non-zero
whenever fewer than `BUF_SIZE - 1` elements are unread is true of the state reached exactly when
`put` has not come to the end of the array, or when the buffer began at its start and nothing has
been got. -/
theorem hasSpace_iff_of_run {s t : RingBuffer α} {calls : List (Call α)} (hs : Empty s)
    (hspace : Runs.Along step SpaceTested s calls) (hrun : Runs.run step s calls = some t) :
    Runs.outputs step returned s calls ++ readable t = calls.flatMap Call.elements ∧
      (((readable t).length < bufSize - 1 → hasSpace t = true) ↔
        s.put + puts calls < bufSize - 1 ∨ s.put + gets calls = 0) := by
  have hunwrapped : Unwrapped s := ⟨hs.put_lt, hs.empty.ge⟩
  obtain ⟨ht, hput, hget⟩ := hunwrapped.run hspace hrun
  refine ⟨queue_of_run hs (roomLeft_of_spaceTested hunwrapped hspace) hrun, ?_⟩
  have hlt := ht.put_lt
  have hle := ht.get_le
  have hsize : bufSize = 1028 := rfl
  rw [← hs.empty] at hget
  rw [ht.length_readable, hasSpace, decide_eq_true_iff, ← hput, ← hget]
  omega

/-- Two bytes are put, the first of them is got, and another one is put. -/
def fewCalls : List (Call Byte) := [.put 0x61, .put 0x62, .get, .put 0x63]

theorem spaceTested_fewCalls : Runs.Along step SpaceTested zero fewCalls := by
  unfold SpaceTested
  decide

/-- Nothing is lost by these calls, and there is space for another byte. -/
theorem hasSpace_iff_of_run_fewCalls :
    ∃ t, Runs.run step zero fewCalls = some t ∧
      Runs.outputs step returned zero fewCalls ++ readable t = [0x61, 0x62, 0x63] ∧
      ((readable t).length < bufSize - 1 → hasSpace t = true) := by
  obtain ⟨t, hrun⟩ : ∃ t, Runs.run step zero fewCalls = some t := ⟨_, rfl⟩
  obtain ⟨hqueue, hspace⟩ := hasSpace_iff_of_run empty_zero spaceTested_fewCalls hrun
  exact ⟨t, hrun, hqueue, hspace.mpr (Or.inl (by decide))⟩

/-! ## `numElements` -/

/-- **`numElements` as a count.** In every run from an empty buffer with room for what is put,
`numElements` is the number of elements put and not yet got exactly while both indices have wrapped
around equally often. Otherwise it is too small by `BUF_SIZE`. -/
theorem numElements_iff_of_run {s t : RingBuffer α} {calls : List (Call α)} (hs : Empty s)
    (hroom : Runs.Along step RoomLeft s calls) (hrun : Runs.run step s calls = some t) :
    (numElements t = (puts calls : ℤ) - gets calls ↔
        (s.put + puts calls) / bufSize = (s.put + gets calls) / bufSize) ∧
      ((s.put + puts calls) / bufSize ≠ (s.put + gets calls) / bufSize →
        numElements t = (puts calls : ℤ) - gets calls - bufSize) := by
  obtain ⟨ht, hput, hget⟩ := indices_of_run hs.valid hrun
  have hcount := gets_add_length_readable hs hroom hrun
  have hlen : (readable t).length < bufSize := by
    rw [readable_eq ht]
    exact length_contents_lt ht
  rw [← hs.empty] at hget
  rw [numElements_eq ht, hput, hget]
  have hsize : bufSize = 1028 := rfl
  rw [hsize] at hlen ⊢
  constructor
  · omega
  · omega

/-- After these calls two bytes are counted. -/
theorem numElements_iff_of_run_fewCalls :
    ∃ t, Runs.run step zero fewCalls = some t ∧ numElements t = 2 := by
  obtain ⟨t, hrun⟩ : ∃ t, Runs.run step zero fewCalls = some t := ⟨_, rfl⟩
  have hroom : Runs.Along step RoomLeft zero fewCalls :=
    roomLeft_of_spaceTested ⟨empty_zero.put_lt, Nat.le_refl _⟩ spaceTested_fewCalls
  have hcount := (numElements_iff_of_run empty_zero hroom hrun).1.mpr (by decide)
  exact ⟨t, hrun, hcount⟩

end

/-! ## At the end of the array -/

/-- A byte is put and got, `n` times. -/
def alternating (n : ℕ) : List (Call Byte) := (List.replicate n [.put 0x61, .get]).flatten

theorem alternating_succ (n : ℕ) :
    alternating (n + 1) = .put 0x61 :: .get :: alternating n := by
  rw [alternating, List.replicate_succ, List.flatten_cons]
  rfl

theorem puts_alternating (n : ℕ) : puts (alternating n) = n := by
  induction n with
  | zero => rfl
  | succ n ih => rw [alternating_succ, puts_cons_put, puts_cons_get, ih]

theorem gets_alternating (n : ℕ) : gets (alternating n) = n := by
  induction n with
  | zero => rfl
  | succ n ih => rw [alternating_succ, gets_cons_put, gets_cons_get, ih]

/-- As far as the end of the array there is always space, and both indices move together. -/
theorem run_alternating {s : RingBuffer Byte} (n : ℕ) (hs : s.put = s.get)
    (hn : s.put + n < bufSize) :
    ∃ t, Runs.run step s (alternating n) = some t ∧
      Runs.Along step SpaceTested s (alternating n) ∧ t.put = s.put + n ∧ t.get = s.put + n := by
  induction n generalizing s with
  | zero => exact ⟨s, rfl, trivial, rfl, hs.symm⟩
  | succ n ih =>
    have hput : put s 0x61 = ⟨s.put + 1, s.get, s.buffer.setIfInBounds s.put 0x61⟩ := by
      rw [put_eq, CircularQueue.next, if_neg (by omega)]
    have hget : (get (put s 0x61)).2 =
        ⟨s.put + 1, s.put + 1, s.buffer.setIfInBounds s.put 0x61⟩ := by
      rw [hput, get_eq, ← hs]
      dsimp only
      rw [CircularQueue.next, if_neg (by omega)]
    have hspace : hasSpace s = true := by
      rw [hasSpace, decide_eq_true_iff]
      omega
    have helem : hasElement (put s 0x61) = true := by
      rw [hput, hasElement, decide_eq_true_iff, ← hs]
      exact Nat.succ_ne_self _
    have hfirst : step s (.put 0x61) = some (put s 0x61) := rfl
    have hsecond : step (put s 0x61) .get = some (get (put s 0x61)).2 := if_pos helem
    obtain ⟨t, hrun, hall, htput, htget⟩ :=
      ih (s := (get (put s 0x61)).2) (by rw [hget]) (by rw [hget]; dsimp only; omega)
    rw [hget] at htput htget
    rw [alternating_succ]
    refine ⟨t, ?_, ?_, ?_, ?_⟩
    · rw [Runs.run_cons, hfirst, Option.bind_some, Runs.run_cons, hsecond]
      exact hrun
    · rw [Runs.along_cons_iff hfirst, Runs.along_cons_iff hsecond]
      exact ⟨fun _ => hspace, fun h => absurd h Bool.false_ne_true, hall⟩
    · rw [htput]
      dsimp only
      omega
    · rw [htget]
      dsimp only
      omega

/-- After 1027 bytes the buffer is empty, at the end of the array. -/
theorem exists_empty_at_end :
    ∃ t, Runs.run step zero (alternating 1027) = some t ∧
      Runs.Along step SpaceTested zero (alternating 1027) ∧ Empty t ∧ t.put = 1027 := by
  obtain ⟨t, hrun, hspace, hput, hget⟩ := run_alternating (s := zero) 1027 rfl (by decide)
  simp only [zero, Nat.zero_add] at hput hget
  refine ⟨t, hrun, hspace, ⟨?_, hput.trans hget.symm⟩, hput⟩
  rw [hput]
  decide

/-- There the buffer is said to have no space. -/
theorem not_hasSpace_alternating :
    ¬∀ (calls : List (Call Byte)) (t : RingBuffer Byte),
      Runs.Along step SpaceTested zero calls → Runs.run step zero calls = some t →
        Runs.outputs step returned zero calls ++ readable t = calls.flatMap Call.elements ∧
          ((readable t).length < bufSize - 1 → hasSpace t = true) := by
  intro h
  obtain ⟨t, hrun, hspace, hempty, hput⟩ := exists_empty_at_end
  have hroom : (readable t).length < bufSize - 1 := by
    rw [hempty.readable]
    decide
  have hthere := (h (alternating 1027) t hspace hrun).2 hroom
  rw [hasSpace, hput] at hthere
  exact absurd hthere (by decide)

/-- The byte put next wraps around, and the buffer with this one byte is said to have -1027. -/
theorem not_numElements_alternating :
    ¬∀ (calls : List (Call Byte)) (t : RingBuffer Byte),
      Runs.Along step RoomLeft zero calls → Runs.run step zero calls = some t →
        numElements t = (puts calls : ℤ) - gets calls := by
  intro h
  obtain ⟨t, hrun, hspace, hempty, hput⟩ := exists_empty_at_end
  have hroom : Runs.Along step RoomLeft zero (alternating 1027 ++ [.put 0x61]) := by
    apply (roomLeft_of_spaceTested ⟨empty_zero.put_lt, le_rfl⟩ hspace).concat hrun
    exact ⟨fun _ => by rw [hempty.readable]; decide, fun _ _ => trivial⟩
  have hcount := h _ _ hroom (Runs.run_concat_eq_some.mpr ⟨t, hrun, rfl⟩)
  have hnext : CircularQueue.next bufSize t.put = 0 := by
    rw [hput]
    rfl
  rw [numElements_eq (hempty.valid.put _), put_eq, hnext, ← hempty.empty, hput, puts_append,
    gets_append, puts_alternating, gets_alternating] at hcount
  dsimp only at hcount
  exact absurd hcount (by decide)

end Ringbuffer

end NetworkingCard
