import Mathlib.Logic.Function.Basic
import Mathlib.Data.BitVec

/-!
# Memory-mapped registers

* `RegisterFile`, a word at each address, and the assignments that drivers make to registers;
* what setting, clearing, toggling and testing one bit of a word mean for its bits;
* `foldl_component`: operations that each act on one component of a state act on every component
  as if the others did not exist.
-/

/-! ## One bit of a word -/

namespace BitVec

variable {w : ℕ}

theorem getLsbD_one_shiftLeft (i j : ℕ) :
    (1#w <<< i).getLsbD j = (decide (i < w) && decide (i = j)) := by
  rw [← twoPow_eq, getLsbD_twoPow]

/-- The test of a bit as `(x & (1 << i)) == (1 << i)`. -/
theorem and_one_shiftLeft_eq_iff (x : BitVec w) {i : ℕ} (hi : i < w) :
    x &&& (1#w <<< i) = 1#w <<< i ↔ x.getLsbD i = true := by
  rw [← twoPow_eq, and_twoPow]
  constructor
  · intro h
    by_contra hx
    rw [if_neg hx] at h
    have hbit := congrArg (fun y => BitVec.getLsbD y i) h
    simp [hi] at hbit
  · intro h
    rw [if_pos h]

/-- The test of a bit as `(x & (1 << i)) != 0`. -/
theorem and_one_shiftLeft_ne_zero_iff (x : BitVec w) {i : ℕ} (hi : i < w) :
    x &&& (1#w <<< i) ≠ 0 ↔ x.getLsbD i = true := by
  rw [← twoPow_eq, and_twoPow]
  constructor
  · intro h
    by_contra hx
    exact h (if_neg hx)
  · intro h hzero
    rw [if_pos h] at hzero
    have hbit := congrArg (fun y => BitVec.getLsbD y i) hzero
    simp [hi] at hbit

/-- `x |= 1 << i`. -/
theorem getLsbD_setBit (x : BitVec w) {i : ℕ} (hi : i < w) (j : ℕ) :
    (x ||| 1#w <<< i).getLsbD j = if j = i then true else x.getLsbD j := by
  rw [getLsbD_or, getLsbD_one_shiftLeft]
  by_cases hj : j = i
  · simp [hj, hi]
  · simp [hj, Ne.symm hj]

/-- `x &= ~(1 << i)`. -/
theorem getLsbD_clearBit (x : BitVec w) (i j : ℕ) :
    (x &&& ~~~(1#w <<< i)).getLsbD j = if j = i then false else x.getLsbD j := by
  rw [getLsbD_and, getLsbD_not, getLsbD_one_shiftLeft]
  by_cases hw : j < w
  · by_cases hj : j = i
    · subst hj
      simp [hw]
    · simp [hj, Ne.symm hj, hw]
  · simp [hw, getLsbD_of_ge x j (Nat.le_of_not_lt hw)]

/-- `x ^= 1 << i`. -/
theorem getLsbD_toggleBit (x : BitVec w) {i : ℕ} (hi : i < w) (j : ℕ) :
    (x ^^^ 1#w <<< i).getLsbD j = if j = i then !x.getLsbD j else x.getLsbD j := by
  rw [getLsbD_xor, getLsbD_one_shiftLeft]
  by_cases hj : j = i
  · simp [hj, hi]
  · simp [hj, Ne.symm hj]

/-- A field of a word after it was written: `x = (x & ~mask) | value`. -/
theorem and_setField_self (x : BitVec w) {mask value : BitVec w} (h : value &&& mask = value) :
    (x &&& ~~~mask ||| value) &&& mask = value := by
  refine Eq.trans ?_ h
  ext i hi
  simp only [getElem_and, getElem_or, getElem_not]
  cases x[i] <;> cases mask[i] <;> simp

/-- A field after another one was written. -/
theorem and_setField_of_disjoint (x : BitVec w) {mask value field : BitVec w}
    (hmask : mask &&& field = 0) (hvalue : value &&& field = 0) :
    (x &&& ~~~mask ||| value) &&& field = x &&& field := by
  ext i hi
  have hmask' : (mask[i] && field[i]) = false := by
    rw [← getElem_and, hmask]
    exact getElem_zero hi
  have hvalue' : (value[i] && field[i]) = false := by
    rw [← getElem_and, hvalue]
    exact getElem_zero hi
  revert hmask' hvalue'
  simp only [getElem_and, getElem_or, getElem_not]
  cases x[i] <;> cases mask[i] <;> cases value[i] <;> cases field[i] <;> simp

/-- A field after it was cleared. -/
theorem and_clear_self (x mask : BitVec w) : x &&& ~~~mask &&& mask = 0 := by
  ext i hi
  simp only [getElem_and, getElem_not]
  cases x[i] <;> cases mask[i] <;> simp

theorem and_clear_of_disjoint (x : BitVec w) {mask field : BitVec w} (hmask : mask &&& field = 0) :
    x &&& ~~~mask &&& field = x &&& field := by
  have hzero : 0#w &&& field = 0 := zero_and
  have h := and_setField_of_disjoint x hmask hzero
  rwa [or_zero] at h

/-- Clearing the bits of a mask before setting them makes no difference. -/
theorem and_not_or_self (x mask : BitVec w) : x &&& ~~~mask ||| mask = x ||| mask := by
  ext i hi
  simp only [getElem_or, getElem_and, getElem_not]
  cases x[i] <;> cases mask[i] <;> rfl

end BitVec

/-! ## Register files -/

/-- What an assignment does with the word of a register: `=`, `|=`, `&=` or `^=`. -/
inductive Assign (w : ℕ)
  | set (value : BitVec w)
  | or (mask : BitVec w)
  | and (mask : BitVec w)
  | xor (mask : BitVec w)

/-- The new word. -/
def Assign.apply {w : ℕ} (x : BitVec w) : Assign w → BitVec w
  | .set value => value
  | .or mask => x ||| mask
  | .and mask => x &&& mask
  | .xor mask => x ^^^ mask

/-- A word of `w` bits at each address. -/
abbrev RegisterFile (α : Type) (w : ℕ) := α → BitVec w

namespace RegisterFile

variable {α : Type} [DecidableEq α] {w : ℕ}

/-- An assignment to the register at an address. -/
def assign (m : RegisterFile α w) (a : α) (op : Assign w) : RegisterFile α w :=
  Function.update m a (op.apply (m a))

/-- Assignments in order. -/
def assigns (m : RegisterFile α w) (ops : List (α × Assign w)) : RegisterFile α w :=
  ops.foldl (fun m op => m.assign op.1 op.2) m

theorem assign_apply (m : RegisterFile α w) (a : α) (op : Assign w) (b : α) :
    m.assign a op b = if b = a then op.apply (m b) else m b := by
  rw [assign, Function.update_apply]
  split
  · next h => rw [h]
  · rfl

theorem assigns_of_not_mem (m : RegisterFile α w) {ops : List (α × Assign w)} {a : α}
    (h : ∀ op ∈ ops, a ≠ op.1) : m.assigns ops a = m a := by
  induction ops generalizing m with
  | nil => rfl
  | cons op ops ih =>
    show (m.assign op.1 op.2).assigns ops a = m a
    rw [ih _ fun op' hop' => h op' (List.mem_cons_of_mem _ hop'), assign_apply,
      if_neg (h op List.mem_cons_self)]

/-- A part of a register file that is addressed in its own way. -/
theorem assigns_comp {β : Type} [DecidableEq β] (m : RegisterFile α w) {f : β → α}
    (hf : Function.Injective f) (ops : List (β × Assign w)) :
    (m.assigns (ops.map fun op => (f op.1, op.2))) ∘ f = assigns (m ∘ f) ops := by
  induction ops generalizing m with
  | nil => rfl
  | cons op ops ih =>
    have hfirst : (m.assign (f op.1) op.2) ∘ f = assign (m ∘ f) op.1 op.2 := by
      funext b
      rw [Function.comp_apply, assign_apply, assign_apply]
      by_cases hb : b = op.1
      · rw [if_pos (congrArg f hb), if_pos hb]
        rfl
      · rw [if_neg (hf.ne hb), if_neg hb]
        rfl
    show (m.assign (f op.1) op.2).assigns (ops.map fun op => (f op.1, op.2)) ∘ f = _
    rw [ih, hfirst]
    rfl

end RegisterFile

/-! ## Independent components -/

/-- Operations that each act on one component: what a component is after any of them is what those
of its own make of it. -/
theorem foldl_component {σ κ ο ν : Type} [DecidableEq κ] {apply : σ → κ × ο → σ}
    {effect : ν → ο → ν} (view : σ → ν) (k : κ)
    (hself : ∀ s o, view (apply s (k, o)) = effect (view s) o)
    (hother : ∀ s k' o, k' ≠ k → view (apply s (k', o)) = view s) (s : σ) (ops : List (κ × ο)) :
    view (ops.foldl apply s) =
      ((ops.filter fun op => op.1 = k).map Prod.snd).foldl effect (view s) := by
  induction ops generalizing s with
  | nil => rfl
  | cons op ops ih =>
    obtain ⟨k', o⟩ := op
    rw [List.foldl_cons, ih]
    by_cases hk : k' = k
    · subst hk
      rw [List.filter_cons_of_pos (by simp), hself]
      rfl
    · rw [List.filter_cons_of_neg (by simpa using hk), hother s k' o hk]
