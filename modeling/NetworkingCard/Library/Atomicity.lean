import Mathlib.Logic.Function.Iterate

/-!
# Routines that are executed statement by statement

A `Routine` works on a value of type `α` with a program counter `π`; nothing happens any more once
it has returned. `Completes` says what it leaves in the end if nobody else acts on that value: one
more statement does not change it (`Completes.next`), and where the routine has returned it is the
value itself (`Completes.eq_of_returned`).

So an interrupted routine needs no more than this: from the point on where it has looked for the
last time at what others write, what it will leave is fixed.
-/

namespace Atomicity

/-- A routine, one statement at a time. -/
structure Routine (α π : Type) where
  next : α × π → α × π
  returned : π
  next_returned : ∀ a, next (a, returned) = (a, returned)

variable {α π : Type} {R : Routine α π}

namespace Routine

theorem iterate_returned (R : Routine α π) (a : α) (k : ℕ) :
    R.next^[k] (a, R.returned) = (a, R.returned) := by
  induction k with
  | zero => rfl
  | succ k ih => rw [Function.iterate_succ_apply, R.next_returned, ih]

/-- The statements that are left from `s` on leave `a`. -/
def Completes (R : Routine α π) (s : α × π) (a : α) : Prop :=
  ∃ k, R.next^[k] s = (a, R.returned)

theorem completes_returned (R : Routine α π) (a : α) : R.Completes (a, R.returned) a := ⟨0, rfl⟩

/-- One statement more. -/
theorem Completes.next {s : α × π} {a : α} (h : R.Completes s a) : R.Completes (R.next s) a := by
  obtain ⟨k, hk⟩ := h
  refine ⟨k, ?_⟩
  rw [← Function.iterate_succ_apply, Function.iterate_succ_apply', hk, R.next_returned]

/-- One statement less. -/
theorem Completes.of_next {s : α × π} {a : α} (h : R.Completes (R.next s) a) :
    R.Completes s a := by
  obtain ⟨k, hk⟩ := h
  refine ⟨k + 1, ?_⟩
  rw [Function.iterate_succ_apply]
  exact hk

theorem Completes.eq_of_returned {a b : α} (h : R.Completes (b, R.returned) a) : b = a := by
  obtain ⟨k, hk⟩ := h
  rw [iterate_returned] at hk
  exact congrArg Prod.fst hk

end Routine

end Atomicity
