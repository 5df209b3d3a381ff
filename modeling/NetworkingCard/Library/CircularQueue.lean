import Mathlib.Data.List.Range
import Mathlib.Logic.Function.Basic
import Mathlib.Data.List.GetD

/-!
# Queues kept in a circular array

A circular array of `n` cells with a write index `put` and a read index `get` holds the queue
`unread`: the cells from `get` up to, but not including, `put`, cyclically. One cell stays free,
so that `put = get` means empty.

* `unread_push`: writing a cell and advancing `put` appends, while fewer than `n - 1` are unread;
* `unread_pop`: advancing `get` removes the head.
-/

namespace CircularQueue

variable {α : Type}

/-- The index after `i` in an array of `n` cells. -/
def next (n i : ℕ) : ℕ := if i + 1 = n then 0 else i + 1

/-- How many cells lie between the two indices. -/
def count (n put get : ℕ) : ℕ := if get ≤ put then put - get else put + n - get

/-- The cell that lies `i` places after `get`. -/
def place (n get i : ℕ) : ℕ := if get + i < n then get + i else get + i - n

/-- The unread elements, oldest first. -/
def unread (n : ℕ) (cell : ℕ → α) (put get : ℕ) : List α :=
  (List.range (count n put get)).map fun i => cell (place n get i)

theorem next_lt {n i : ℕ} (hi : i < n) : next n i < n := by
  unfold next
  split <;> omega

/-- Advancing an index counts modulo the size of the array. -/
theorem next_eq_mod {n i : ℕ} (hi : i < n) : next n i = (i + 1) % n := by
  unfold next
  split
  · next h => rw [h, Nat.mod_self]
  · rw [Nat.mod_eq_of_lt (by omega)]

theorem count_lt {n put get : ℕ} (hp : put < n) (hg : get < n) : count n put get < n := by
  unfold count
  split <;> omega

@[simp] theorem length_unread (n : ℕ) (cell : ℕ → α) (put get : ℕ) :
    (unread n cell put get).length = count n put get := by
  rw [unread, List.length_map, List.length_range]

@[simp] theorem unread_self (n : ℕ) (cell : ℕ → α) (i : ℕ) : unread n cell i i = [] := by
  simp [unread, count]

theorem unread_eq_nil_iff {n : ℕ} {cell : ℕ → α} {put get : ℕ} (hg : get < n) :
    unread n cell put get = [] ↔ put = get := by
  rw [← List.length_eq_zero_iff, length_unread, count]
  split <;> omega

theorem place_zero {n get : ℕ} (hg : get < n) : place n get 0 = get := by
  rw [place, if_pos (by omega), Nat.add_zero]

theorem place_next {n get i : ℕ} (hi : i + 1 < n) :
    place n (next n get) i = place n get (i + 1) := by
  unfold place next
  split <;> split <;> split <;> omega

/-- The unread cells are all different from the one about to be written. -/
theorem place_ne_put {n put get i : ℕ} (hp : put < n)
    (hi : i < count n put get) : place n get i ≠ put := by
  unfold count at hi
  unfold place
  split at hi <;> split <;> omega

theorem count_next_put {n put get : ℕ} (hg : get < n)
    (hspace : count n put get < n - 1) : count n (next n put) get = count n put get + 1 := by
  unfold count next at *
  split at hspace <;> split <;> split <;> omega

theorem count_next_get {n put get : ℕ} (hp : put < n) (hg : get < n) (hne : put ≠ get) :
    count n put get = count n put (next n get) + 1 := by
  unfold count next
  split <;> split <;> split <;> omega

theorem place_count {n put get : ℕ} (hp : put < n) (hg : get < n) :
    place n get (count n put get) = put := by
  unfold place count
  split <;> split <;> omega

/-- Writing at `put` and advancing it appends to the queue, while a second cell is free. -/
theorem unread_push {n : ℕ} {cell : ℕ → α} {put get : ℕ} (hp : put < n) (hg : get < n)
    (hspace : count n put get < n - 1) (a : α) :
    unread n (Function.update cell put a) (next n put) get = unread n cell put get ++ [a] := by
  rw [unread, count_next_put hg hspace, List.range_succ, List.map_append, unread]
  congr 1
  · refine List.map_congr_left fun i hi => ?_
    rw [Function.update_of_ne (place_ne_put hp (List.mem_range.mp hi))]
  · rw [List.map_singleton, place_count hp hg, Function.update_self]

/-- Advancing `get` removes the oldest element. -/
theorem unread_pop {n : ℕ} {cell : ℕ → α} {put get : ℕ} (hp : put < n) (hg : get < n)
    (hne : put ≠ get) :
    unread n cell put get = cell get :: unread n cell put (next n get) := by
  have hlt := count_lt hp (next_lt hg)
  have hcount := count_next_get hp hg hne
  have hlt' := count_lt hp hg
  rw [unread, hcount, List.range_succ_eq_map, List.map_cons, place_zero hg, List.map_map, unread]
  congr 1
  refine List.map_congr_left fun i hi => ?_
  rw [Function.comp_apply, place_next (by have := List.mem_range.mp hi; omega)]

/-- Without a second free cell the queue is lost: its end comes to lie on its beginning. -/
theorem unread_push_full {n : ℕ} {cell : ℕ → α} {put get : ℕ} (hp : put < n) (hg : get < n)
    (hfull : ¬count n put get < n - 1) : unread n cell (next n put) get = [] := by
  have hlt := count_lt hp hg
  have hnext : next n put = get := by
    unfold count at hfull hlt
    unfold next
    split at hfull <;> split <;> omega
  rw [hnext, unread_self]

/-- A queue never holds anything but what was in it and what was written. -/
theorem mem_unread_push {n : ℕ} {cell : ℕ → α} {put get : ℕ} (hp : put < n) (hg : get < n)
    {a x : α} (hx : x ∈ unread n (Function.update cell put a) (next n put) get) :
    x ∈ unread n cell put get ∨ x = a := by
  by_cases hspace : count n put get < n - 1
  · rw [unread_push hp hg hspace, List.mem_append, List.mem_singleton] at hx
    exact hx
  · rw [unread_push_full hp hg hspace] at hx
    cases hx

end CircularQueue
