import NetworkingCard.Basic
import NetworkingCard.Library.CircularQueue

/-!
# `ringbuffer.c`

The ring buffer behind transmission and reception: two indices into an array of `BUF_SIZE`
elements. The firmware stores `char`s; the code never looks at an element, so the element type
is a parameter.

`contents` is the queue the two indices stand for, and each function is related to it:
`put` appends (`contents_put`), `get` removes the head (`contents_get`), and `hasElement` tests
for emptiness (`hasElement_eq`). None of the functions checks for room.
-/

namespace NetworkingCard

/-- `BUF_SIZE`. -/
def bufSize : ℕ := 1028

/-- `RingBuffer`. -/
structure RingBuffer (α : Type) where
  put : ℕ
  get : ℕ
  buffer : Vector α bufSize

namespace Ringbuffer

variable {α : Type}

/-- `put`: store the element and advance, without asking whether there is room. -/
def put (buffer : RingBuffer α) (element : α) : RingBuffer α :=
  let buffer := { buffer with buffer := buffer.buffer.setIfInBounds buffer.put element }
  let buffer := { buffer with put := buffer.put + 1 }
  if buffer.put = bufSize then { buffer with put := 0 } else buffer

/-- The element an index refers to. -/
def cell [Inhabited α] (buffer : RingBuffer α) (i : ℕ) : α := buffer.buffer[i]?.getD default

/-- `get`: read the element and advance, without asking whether there is one. -/
def get [Inhabited α] (buffer : RingBuffer α) : α × RingBuffer α :=
  let tempChar := cell buffer buffer.get
  let buffer := { buffer with get := buffer.get + 1 }
  (tempChar, if buffer.get = bufSize then { buffer with get := 0 } else buffer)

/-- `hasSpace`. -/
def hasSpace (buffer : RingBuffer α) : Bool := buffer.put ≠ bufSize - 1

/-- `hasElement`: the difference of two unsigned numbers is not zero. -/
def hasElement (buffer : RingBuffer α) : Bool := buffer.put ≠ buffer.get

/-- `numElements`: the difference of two unsigned numbers, returned as a signed one. -/
def numElements (buffer : RingBuffer α) : ℤ :=
  (BitVec.ofNat 32 buffer.put - BitVec.ofNat 32 buffer.get).toInt

/-- `put = get = 0`, as the main loop drops a buffer's content. -/
def reset (buffer : RingBuffer α) : RingBuffer α := { buffer with put := 0, get := 0 }

/-! ## The queue in the buffer -/

/-- Both indices are inside the array: so after every call. -/
structure Valid (buffer : RingBuffer α) : Prop where
  put_lt : buffer.put < bufSize
  get_lt : buffer.get < bufSize

/-- The elements put and not yet got, oldest first. -/
def contents [Inhabited α] (buffer : RingBuffer α) : List α :=
  CircularQueue.unread bufSize (cell buffer) buffer.put buffer.get

theorem put_eq (buffer : RingBuffer α) (element : α) :
    put buffer element = ⟨CircularQueue.next bufSize buffer.put, buffer.get,
      buffer.buffer.setIfInBounds buffer.put element⟩ := by
  unfold put CircularQueue.next
  dsimp only
  split <;> rfl

theorem get_eq [Inhabited α] (buffer : RingBuffer α) :
    get buffer = (cell buffer buffer.get,
      { buffer with get := CircularQueue.next bufSize buffer.get }) := by
  unfold get CircularQueue.next
  dsimp only
  split <;> rfl

theorem Valid.put {buffer : RingBuffer α} (h : Valid buffer) (element : α) :
    Valid (put buffer element) := by
  rw [put_eq]
  exact ⟨CircularQueue.next_lt h.put_lt, h.get_lt⟩

theorem Valid.get [Inhabited α] {buffer : RingBuffer α} (h : Valid buffer) :
    Valid (get buffer).2 := by
  rw [get_eq]
  exact ⟨h.put_lt, CircularQueue.next_lt h.get_lt⟩

theorem valid_reset (buffer : RingBuffer α) : Valid (reset buffer) :=
  ⟨Nat.zero_lt_succ _, Nat.zero_lt_succ _⟩

theorem cell_put [Inhabited α] {buffer : RingBuffer α} (h : Valid buffer) (element : α) :
    cell (put buffer element) = Function.update (cell buffer) buffer.put element := by
  funext i
  have hput := h.put_lt
  rw [put_eq]
  unfold cell
  rw [Vector.getElem?_setIfInBounds]
  by_cases hi : buffer.put = i
  · subst hi
    rw [if_pos rfl, if_pos hput, Function.update_self, Option.getD_some]
  · rw [if_neg hi, Function.update_of_ne (Ne.symm hi)]

/-- `put` appends while fewer than `BUF_SIZE - 1` elements are unread. -/
theorem contents_put [Inhabited α] {buffer : RingBuffer α} (h : Valid buffer)
    (hspace : (contents buffer).length < bufSize - 1) (element : α) :
    contents (put buffer element) = contents buffer ++ [element] := by
  rw [contents, CircularQueue.length_unread] at hspace
  rw [contents, cell_put h, put_eq]
  exact CircularQueue.unread_push h.put_lt h.get_lt hspace element

theorem hasElement_eq [Inhabited α] {buffer : RingBuffer α} (h : Valid buffer) :
    hasElement buffer = !(contents buffer).isEmpty := by
  have hnil : CircularQueue.unread bufSize (cell buffer) buffer.put buffer.get = [] ↔
      buffer.put = buffer.get := CircularQueue.unread_eq_nil_iff h.get_lt
  rw [Bool.eq_iff_iff, hasElement, contents, decide_eq_true_iff, Bool.not_eq_true',
    List.isEmpty_eq_false_iff, Ne, Ne, hnil]

theorem contents_eq_nil_of_hasElement [Inhabited α] {buffer : RingBuffer α} (h : Valid buffer)
    (hempty : hasElement buffer = false) : contents buffer = [] := by
  rw [hasElement_eq h, Bool.not_eq_false', List.isEmpty_iff] at hempty
  exact hempty

/-- `get` returns the oldest unread element and leaves the others. -/
theorem contents_get [Inhabited α] {buffer : RingBuffer α} (h : Valid buffer)
    (hsome : hasElement buffer = true) :
    contents buffer = (get buffer).1 :: contents (get buffer).2 := by
  have hne : buffer.put ≠ buffer.get := by simpa [hasElement] using hsome
  rw [get_eq]
  exact CircularQueue.unread_pop h.put_lt h.get_lt hne

@[simp] theorem contents_reset [Inhabited α] (buffer : RingBuffer α) :
    contents (reset buffer) = [] := CircularQueue.unread_self _ _ _

/-- The difference of the indices, negative once `put` has wrapped around and `get` has not. -/
theorem numElements_eq {buffer : RingBuffer α} (h : Valid buffer) :
    numElements buffer = (buffer.put : ℤ) - buffer.get := by
  have hput := h.put_lt
  have hget := h.get_lt
  unfold bufSize at hput hget
  have hsmall : ∀ i : ℕ, i < 1028 → (BitVec.ofNat 32 i).toInt = i := by
    intro i hi
    rw [BitVec.toInt_ofNat', Int.bmod_eq_of_le (by omega) (by omega)]
  rw [numElements, BitVec.toInt_sub, hsmall _ hput, hsmall _ hget,
    Int.bmod_eq_of_le (by omega) (by omega)]

/-- What `get` returns, called while `hasElement`, at most `n` times. -/
def drain [Inhabited α] : ℕ → RingBuffer α → List α
  | 0, _ => []
  | n + 1, buffer =>
    if hasElement buffer then (get buffer).1 :: drain n (get buffer).2 else []

theorem drain_eq_take [Inhabited α] {buffer : RingBuffer α} (h : Valid buffer) (n : ℕ) :
    drain n buffer = (contents buffer).take n := by
  induction n generalizing buffer with
  | zero => rfl
  | succ n ih =>
    unfold drain
    cases helem : hasElement buffer
    · rw [contents_eq_nil_of_hasElement h helem]
      rfl
    · rw [if_pos rfl, contents_get h helem, List.take_succ_cons, ih h.get]

/-- Fewer than `BUF_SIZE` elements are ever readable. -/
theorem length_contents_lt [Inhabited α] {buffer : RingBuffer α} (h : Valid buffer) :
    (contents buffer).length < bufSize := by
  unfold contents
  rw [CircularQueue.length_unread]
  exact CircularQueue.count_lt h.put_lt h.get_lt

/-- A `put` into a full buffer makes it look empty. -/
theorem contents_put_full [Inhabited α] {buffer : RingBuffer α} (h : Valid buffer)
    (hfull : ¬(contents buffer).length < bufSize - 1) (element : α) :
    contents (put buffer element) = [] := by
  unfold contents at hfull ⊢
  rw [CircularQueue.length_unread] at hfull
  rw [put_eq]
  exact CircularQueue.unread_push_full h.put_lt h.get_lt hfull

end Ringbuffer

end NetworkingCard
