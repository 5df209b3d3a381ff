import Mathlib.Data.List.Basic
import Mathlib.Data.List.GetD
import Mathlib.Data.Nat.Basic

/-!
# Words as bit strings, most significant bit first

* `msbFirst`, the bits of a word in the order in which a serial line carries them;
* `setMsb`, a shift register's write of one of those bits, and how it extends a known prefix;
* a bit string splits uniquely into whole words and a shorter rest (`words_unique`).
-/

namespace Bits

variable {w : ℕ}

/-- The bits of a word, most significant first. -/
def msbFirst (x : BitVec w) : List Bool := (List.range w).map x.getMsbD

@[simp] theorem length_msbFirst (x : BitVec w) : (msbFirst x).length = w := by
  rw [msbFirst, List.length_map, List.length_range]

theorem getElem_msbFirst (x : BitVec w) (i : ℕ) (hi : i < (msbFirst x).length) :
    (msbFirst x)[i] = x.getMsbD i := by
  simp [msbFirst]

theorem msbFirst_injective : Function.Injective (msbFirst (w := w)) := by
  intro x y h
  refine BitVec.eq_of_getMsbD_eq fun i hi => ?_
  have hx := getElem_msbFirst x i (by simpa using hi)
  have hy := getElem_msbFirst y i (by simpa using hi)
  rw [← hx, ← hy]
  simp only [h]

/-- The bits from the lowest one on. -/
theorem getD_reverse_msbFirst (x : BitVec w) (i : ℕ) :
    (msbFirst x).reverse.getD i false = x.getLsbD i := by
  rw [List.getD_eq_getElem?_getD]
  by_cases hi : i < w
  · rw [List.getElem?_eq_getElem (by simpa using hi), Option.getD_some, List.getElem_reverse,
      getElem_msbFirst, length_msbFirst, BitVec.getLsbD_eq_getMsbD]
    simp [hi]
  · rw [List.getElem?_eq_none (by simpa using hi), Option.getD_none,
      BitVec.getLsbD_of_ge x i (by omega)]

theorem msbFirst_xor (x y : BitVec w) :
    msbFirst (x ^^^ y) = List.zipWith (· ^^ ·) (msbFirst x) (msbFirst y) := by
  unfold msbFirst
  rw [List.zipWith_map, List.zipWith_self]
  apply List.map_congr_left
  intro i _
  exact BitVec.getMsbD_xor

/-- The word with these bits, the most significant one given first. -/
def ofMsbFirst (w : ℕ) (f : ℕ → Bool) : BitVec w :=
  (BitVec.ofBoolListBE ((List.range w).map f)).cast (by simp)

theorem msbFirst_ofMsbFirst (w : ℕ) (f : ℕ → Bool) :
    msbFirst (ofMsbFirst w f) = (List.range w).map f := by
  unfold msbFirst ofMsbFirst
  apply List.map_congr_left
  intro i hi
  have hlt : i < ((List.range w).map f).length := by simpa using hi
  rw [BitVec.getMsbD_cast, BitVec.getMsbD_ofBoolListBE, List.getD_eq_getElem _ _ hlt,
    List.getElem_map, List.getElem_range]

/-! ## Writing one bit -/

/-- Set or clear bit `i`, counted from the most significant one. -/
def setMsb (x : BitVec w) (i : ℕ) (b : Bool) : BitVec w :=
  if b then x ||| (1#w <<< (w - 1 - i)) else x &&& ~~~(1#w <<< (w - 1 - i))

theorem getMsbD_one_shiftLeft {i j : ℕ} (hi : i < w) (hj : j < w) :
    (1#w <<< (w - 1 - i)).getMsbD j = decide (j = i) := by
  rw [BitVec.getMsbD_shiftLeft, BitVec.getMsbD_one]
  simp only [Bool.and_eq_decide, decide_eq_true_eq]
  by_cases h : j = i
  · subst h
    simp
    omega
  · simp [h]
    omega

theorem getMsbD_setMsb (x : BitVec w) {i j : ℕ} (hi : i < w) (hj : j < w) (b : Bool) :
    (setMsb x i b).getMsbD j = if j = i then b else x.getMsbD j := by
  cases b
  · simp only [setMsb, Bool.false_eq_true, if_false, BitVec.getMsbD_and, BitVec.getMsbD_not,
      getMsbD_one_shiftLeft hi hj, hj]
    by_cases h : j = i <;> simp [h]
  · simp only [setMsb, if_true, BitVec.getMsbD_or, getMsbD_one_shiftLeft hi hj]
    by_cases h : j = i <;> simp [h]

/-- Writing bit `i` extends the known prefix of `i` bits by one. -/
theorem take_succ_msbFirst_setMsb (x : BitVec w) {i : ℕ} (hi : i < w) (b : Bool) :
    (msbFirst (setMsb x i b)).take (i + 1) = (msbFirst x).take i ++ [b] := by
  refine List.ext_getElem (by simp; omega) fun j hj hj' => ?_
  have hlt : j < i + 1 := by
    rw [List.length_take] at hj
    omega
  rw [List.getElem_take, getElem_msbFirst, getMsbD_setMsb x hi (by omega) b]
  by_cases h : j = i
  · subst h
    rw [if_pos rfl, List.getElem_append_right (by rw [List.length_take]; omega),
      List.getElem_singleton]
  · rw [if_neg h, List.getElem_append_left (by simp; omega), List.getElem_take, getElem_msbFirst]

/-! ## Lists of words -/

theorem length_flatMap_msbFirst (xs : List (BitVec w)) :
    (xs.flatMap msbFirst).length = w * xs.length := by
  induction xs with
  | nil => rfl
  | cons x xs ih =>
    rw [List.flatMap_cons, List.length_append, length_msbFirst, ih, List.length_cons, Nat.mul_succ,
      Nat.add_comm]

/-- Bit `i` of word `k`, found in the bit string of the whole list. -/
theorem getElem?_flatMap_msbFirst (xs : List (BitVec w)) {k i : ℕ} (hi : i < w) :
    (xs.flatMap msbFirst)[w * k + i]? = xs[k]?.map fun x => x.getMsbD i := by
  induction xs generalizing k with
  | nil => simp
  | cons x xs ih =>
    rw [List.flatMap_cons]
    cases k with
    | zero =>
      rw [List.getElem?_append_left (by simp; omega),
        List.getElem?_eq_getElem (by simp; omega), getElem_msbFirst]
      simp
    | succ k =>
      rw [List.getElem?_append_right (by simp [Nat.mul_succ]; omega), length_msbFirst,
        show w * (k + 1) + i - w = w * k + i by rw [Nat.mul_succ]; omega, ih]
      simp

/-- Exclusive or, word by word or bit by bit. -/
theorem flatMap_zipWith_xor {xs ys : List (BitVec w)} (h : xs.length = ys.length) :
    (List.zipWith (· ^^^ ·) xs ys).flatMap msbFirst =
      List.zipWith (· ^^ ·) (xs.flatMap msbFirst) (ys.flatMap msbFirst) := by
  induction xs generalizing ys with
  | nil => rfl
  | cons x xs ih =>
    cases ys with
    | nil => simp at h
    | cons y ys =>
      rw [List.zipWith_cons_cons, List.flatMap_cons, List.flatMap_cons, List.flatMap_cons,
        msbFirst_xor, ih (by simpa using h), List.zipWith_append (by simp)]

/-- A bit string splits in one way into whole words and a rest shorter than a word. -/
theorem words_unique {xs ys : List (BitVec w)} {r s : List Bool}
    (h : xs.flatMap msbFirst ++ r = ys.flatMap msbFirst ++ s) (hr : r.length < w)
    (hs : s.length < w) : xs = ys ∧ r = s := by
  induction xs generalizing ys with
  | nil =>
    cases ys with
    | nil => exact ⟨rfl, by simpa using h⟩
    | cons y ys =>
      have hlen := congrArg List.length h
      simp only [List.flatMap_nil, List.nil_append, List.flatMap_cons, List.length_append,
        length_msbFirst] at hlen
      omega
  | cons x xs ih =>
    cases ys with
    | nil =>
      have hlen := congrArg List.length h
      simp only [List.flatMap_nil, List.nil_append, List.flatMap_cons, List.length_append,
        length_msbFirst] at hlen
      omega
    | cons y ys =>
      rw [List.flatMap_cons, List.flatMap_cons, List.append_assoc, List.append_assoc] at h
      obtain ⟨hx, hrest⟩ := List.append_inj h (by simp)
      obtain ⟨htail, hrs⟩ := ih hrest
      exact ⟨by rw [msbFirst_injective hx, htail], hrs⟩

end Bits
