import Mathlib.Data.BitVec
import Mathlib.Logic.Function.Iterate

/-!
# Cyclic redundancy checks in a shift register

* `shift`, one step of a register of `w` bits with feedback: injective when the feedback reaches
  the lowest bit (`shift_injective`);
* `crc`, the check of a list of words, one step function for each word: with an injective step a
  change in a single word always changes the check (`crc_ne_of_word_ne`).
-/

namespace Crc

variable {w : ℕ}

/-- Shift left by one bit, and feed back the polynomial when a one leaves the register. -/
def shift (poly x : BitVec w) : BitVec w := if x.msb then (x <<< 1) ^^^ poly else x <<< 1

/-- The lowest bit after a shift tells which bit has left the register. -/
theorem getLsbD_zero_shift {poly : BitVec w} (hpoly : poly.getLsbD 0 = true) (x : BitVec w) :
    (shift poly x).getLsbD 0 = x.msb := by
  unfold shift
  split
  · next hmsb => simp [hpoly, hmsb]
  · next hmsb => simp [hmsb]

/-- The bits that stay in the register and the bit that leaves it make up the word. -/
theorem eq_of_shiftLeft_one_eq {x y : BitVec w} (hrest : x <<< 1 = y <<< 1)
    (hmsb : x.msb = y.msb) : x = y := by
  apply BitVec.eq_of_getLsbD_eq
  intro i hi
  by_cases hlast : i + 1 = w
  · rw [BitVec.msb_eq_getLsbD_last, BitVec.msb_eq_getLsbD_last] at hmsb
    rwa [show w - 1 = i by omega] at hmsb
  · have hbit := congrArg (fun z => z.getLsbD (i + 1)) hrest
    simp only [BitVec.getLsbD_shiftLeft] at hbit
    simpa [show i + 1 < w by omega] using hbit

theorem shift_injective {poly : BitVec w} (hpoly : poly.getLsbD 0 = true) :
    Function.Injective (shift poly) := by
  intro x y h
  have hmsb : x.msb = y.msb := by
    rw [← getLsbD_zero_shift hpoly x, ← getLsbD_zero_shift hpoly y, h]
  apply eq_of_shiftLeft_one_eq _ hmsb
  unfold shift at h
  rw [← hmsb] at h
  split at h
  · exact (BitVec.xor_left_inj poly).mp h
  · exact h

/-- The check of a list of words: each is added to the register, which then takes a step. -/
def crc (step : BitVec w → BitVec w) (init : BitVec w) (words : List (BitVec w)) : BitVec w :=
  words.foldl (fun crc word => step (crc ^^^ word)) init

@[simp] theorem crc_nil (step : BitVec w → BitVec w) (init : BitVec w) : crc step init [] = init :=
  rfl

@[simp] theorem crc_cons (step : BitVec w → BitVec w) (init word : BitVec w)
    (words : List (BitVec w)) :
    crc step init (word :: words) = crc step (step (init ^^^ word)) words :=
  rfl

theorem crc_append (step : BitVec w → BitVec w) (init : BitVec w) (xs ys : List (BitVec w)) :
    crc step init (xs ++ ys) = crc step (crc step init xs) ys :=
  List.foldl_append

/-- With an injective step the check tells the initial values apart. -/
theorem crc_init_injective {step : BitVec w → BitVec w} (hstep : Function.Injective step)
    (words : List (BitVec w)) : Function.Injective fun init => crc step init words := by
  induction words with
  | nil => exact fun _ _ h => h
  | cons word words ih =>
    intro s t h
    have hsum : s ^^^ word = t ^^^ word := hstep (ih h)
    exact (BitVec.xor_left_inj word).mp hsum

/-- A change in a single word changes the check. -/
theorem crc_ne_of_word_ne {step : BitVec w → BitVec w} (hstep : Function.Injective step)
    {a b : BitVec w} (hab : a ≠ b) (init : BitVec w) (pre post : List (BitVec w)) :
    crc step init (pre ++ a :: post) ≠ crc step init (pre ++ b :: post) := by
  intro h
  rw [crc_append, crc_append, crc_cons, crc_cons] at h
  have hsum := hstep (crc_init_injective hstep post h)
  exact hab ((BitVec.xor_right_inj _).mp hsum)

end Crc
