import Mathlib.Algebra.Field.ZMod
import Mathlib.Dynamics.PeriodicPts.Lemmas
import Mathlib.RingTheory.AdjoinRoot
import NetworkingCard.Library.Bits
import NetworkingCard.Library.Crc

/-!
# Cyclic redundancy checks as division of polynomials

Bit strings are polynomials over GF(2), with the first bit as the highest coefficient.

* `bitsPolynomial` and `wordPolynomial`, with the string and word operations in terms of
  polynomials;
* one shift of the register is multiplication by `X` modulo the generator (`mk_shift`), so the
  check is a remainder (`crc_eq_modByMonic`) and words with their check are the multiples of the
  generator (`crc_eq_iff_dvd`);
* which sums of powers of `X` are no multiples: those within `w` consecutive powers
  (`not_dvd_burst`), two powers unless the period divides their distance (`dvd_pair_iff`), and an
  odd number of powers when 1 is a root of the generator (`not_dvd_odd`).
-/

namespace Crc

open Polynomial

variable {w : ℕ}

/-! ## Bit strings -/

/-- The polynomial with these coefficients, the highest first. -/
noncomputable def bitsPolynomial : List Bool → (ZMod 2)[X]
  | [] => 0
  | b :: bits => (if b then X ^ bits.length else 0) + bitsPolynomial bits

@[simp] theorem bitsPolynomial_nil : bitsPolynomial [] = 0 := rfl

theorem bitsPolynomial_cons (b : Bool) (bits : List Bool) :
    bitsPolynomial (b :: bits) = (if b then X ^ bits.length else 0) + bitsPolynomial bits := rfl

theorem bitsPolynomial_append (xs ys : List Bool) :
    bitsPolynomial (xs ++ ys) = bitsPolynomial xs * X ^ ys.length + bitsPolynomial ys := by
  induction xs with
  | nil => simp
  | cons b xs ih =>
    rw [List.cons_append, bitsPolynomial_cons, bitsPolynomial_cons, ih, List.length_append, add_mul,
      add_assoc]
    congr 1
    cases b
    · simp
    · simp [pow_add]

theorem bitsPolynomial_concat (xs : List Bool) (b : Bool) :
    bitsPolynomial (xs ++ [b]) = bitsPolynomial xs * X + (if b then 1 else 0) := by
  rw [bitsPolynomial_append, bitsPolynomial_cons]
  simp

theorem degree_bitsPolynomial_lt (bits : List Bool) :
    (bitsPolynomial bits).degree < (bits.length : WithBot ℕ) := by
  induction bits with
  | nil => simp
  | cons b bits ih =>
    have hnat : (bits.length : WithBot ℕ) < ((bits.length + 1 : ℕ) : WithBot ℕ) := by
      exact_mod_cast Nat.lt_succ_self _
    rw [bitsPolynomial_cons, List.length_cons]
    apply lt_of_le_of_lt (degree_add_le _ _)
    apply max_lt _ (ih.trans hnat)
    cases b
    · simp only [Bool.false_eq_true, if_false, degree_zero]
      exact WithBot.bot_lt_coe _
    · simp only [if_true, degree_X_pow]
      exact hnat

theorem coeff_bitsPolynomial (bits : List Bool) (i : ℕ) :
    (bitsPolynomial bits).coeff i = if bits.reverse.getD i false then 1 else 0 := by
  induction bits using List.reverseRecOn generalizing i with
  | nil => simp
  | append_singleton bits b ih =>
    rw [bitsPolynomial_concat, List.reverse_append, List.reverse_singleton, List.singleton_append]
    cases i with
    | zero => cases b <;> simp
    | succ i => cases b <;> simp [ih, coeff_one]

/-- In characteristic 2 the sum of two strings is their exclusive or. -/
theorem bitsPolynomial_zipWith_xor {xs ys : List Bool} (h : xs.length = ys.length) :
    bitsPolynomial (List.zipWith (· ^^ ·) xs ys) = bitsPolynomial xs + bitsPolynomial ys := by
  induction xs generalizing ys with
  | nil =>
    rw [List.eq_nil_of_length_eq_zero h.symm]
    simp
  | cons x xs ih =>
    cases ys with
    | nil => simp at h
    | cons y ys =>
      have hlen : xs.length = ys.length := by simpa using h
      have htail : (List.zipWith (· ^^ ·) xs ys).length = xs.length := by simp [hlen]
      rw [List.zipWith_cons_cons, bitsPolynomial_cons, bitsPolynomial_cons, bitsPolynomial_cons,
        ih hlen, htail, ← hlen]
      have hbit : (if (x ^^ y) = true then (X : (ZMod 2)[X]) ^ xs.length else 0) =
          (if x = true then X ^ xs.length else 0) + (if y = true then X ^ xs.length else 0) := by
        cases x <;> cases y <;> simp [CharTwo.add_self_eq_zero]
      rw [hbit]
      ring

/-- A string that is given by a predicate on positions. -/
theorem bitsPolynomial_range_map (n : ℕ) (f : ℕ → Bool) :
    bitsPolynomial ((List.range n).map f) = ∑ p ∈ Finset.range n with f p, X ^ (n - 1 - p) := by
  induction n with
  | zero => simp
  | succ n ih =>
    rw [List.range_succ, List.map_append, List.map_singleton, bitsPolynomial_concat, ih,
      Finset.sum_filter, Finset.sum_filter, Finset.sum_range_succ, Finset.sum_mul]
    congr 1
    · apply Finset.sum_congr rfl
      intro p hp
      have hlt := Finset.mem_range.mp hp
      rw [ite_mul, zero_mul, ← pow_succ, show n + 1 - 1 - p = n - 1 - p + 1 by omega]
    · simp

/-! ## Words -/

/-- The polynomial of a word. -/
noncomputable def wordPolynomial (x : BitVec w) : (ZMod 2)[X] := bitsPolynomial (Bits.msbFirst x)

theorem coeff_wordPolynomial (x : BitVec w) (i : ℕ) :
    (wordPolynomial x).coeff i = if x.getLsbD i then 1 else 0 := by
  rw [wordPolynomial, coeff_bitsPolynomial, Bits.getD_reverse_msbFirst]

theorem degree_wordPolynomial_lt (x : BitVec w) : (wordPolynomial x).degree < (w : WithBot ℕ) := by
  have hdegree := degree_bitsPolynomial_lt (Bits.msbFirst x)
  rwa [Bits.length_msbFirst] at hdegree

theorem wordPolynomial_injective : Function.Injective (wordPolynomial (w := w)) := by
  intro x y h
  apply BitVec.eq_of_getLsbD_eq
  intro i _
  have hcoeff := congrArg (fun p : (ZMod 2)[X] => p.coeff i) h
  simp only [coeff_wordPolynomial] at hcoeff
  cases hx : x.getLsbD i <;> cases hy : y.getLsbD i <;> simp_all

theorem wordPolynomial_zero : wordPolynomial 0#w = 0 := by
  ext i
  simp [coeff_wordPolynomial]

theorem wordPolynomial_one (hw : 0 < w) : wordPolynomial 1#w = 1 := by
  ext i
  rw [coeff_wordPolynomial, coeff_one, BitVec.getLsbD_one]
  simp [hw, eq_comm]

theorem wordPolynomial_xor (x y : BitVec w) :
    wordPolynomial (x ^^^ y) = wordPolynomial x + wordPolynomial y := by
  unfold wordPolynomial
  rw [Bits.msbFirst_xor, bitsPolynomial_zipWith_xor (by simp)]

/-- The bit that leaves the word is its highest coefficient. -/
theorem X_mul_wordPolynomial (x : BitVec w) :
    X * wordPolynomial x = wordPolynomial (x <<< 1) + if x.msb then X ^ w else 0 := by
  ext i
  cases i with
  | zero =>
    rw [mul_coeff_zero, coeff_X_zero, zero_mul, coeff_add, coeff_wordPolynomial]
    by_cases hmsb : x.msb = true
    · have hw : w ≠ 0 := by
        rintro rfl
        simp [BitVec.eq_nil x] at hmsb
      simp [hmsb, coeff_X_pow, hw.symm]
    · simp [hmsb]
  | succ i =>
    have hpower : (if x.msb = true then (X : (ZMod 2)[X]) ^ w else 0).coeff (i + 1) =
        if x.msb = true ∧ i + 1 = w then 1 else 0 := by
      cases x.msb
      · simp
      · simp [coeff_X_pow]
    rw [coeff_X_mul, coeff_add, coeff_wordPolynomial, coeff_wordPolynomial,
      BitVec.getLsbD_shiftLeft, hpower]
    rcases Nat.lt_trichotomy (i + 1) w with hlt | heq | hgt
    · simp [hlt, hlt.ne]
    · have hlast : x.msb = x.getLsbD i := by
        rw [BitVec.msb_eq_getLsbD_last, show w - 1 = i by omega]
      rw [hlast]
      simp [heq]
    · have hout : x.getLsbD i = false := BitVec.getLsbD_of_ge x i (by omega)
      simp [hout, hgt.ne']

/-! ## The register -/

/-- The generator: the feedback polynomial with its highest power, which the register leaves out. -/
noncomputable def generator (poly : BitVec w) : (ZMod 2)[X] := X ^ w + wordPolynomial poly

theorem monic_generator (poly : BitVec w) : (generator poly).Monic :=
  monic_X_pow_add (degree_wordPolynomial_lt poly)

theorem degree_generator (poly : BitVec w) : (generator poly).degree = w := by
  unfold generator
  rw [degree_add_eq_left_of_degree_lt, degree_X_pow]
  rw [degree_X_pow]
  exact degree_wordPolynomial_lt poly

/-- A word is its own remainder. -/
theorem wordPolynomial_modByMonic (poly x : BitVec w) :
    wordPolynomial x %ₘ generator poly = wordPolynomial x := by
  rw [modByMonic_eq_self_iff (monic_generator poly), degree_generator]
  exact degree_wordPolynomial_lt x

/-- A polynomial has the remainder `x` when it is `x` modulo the generator. -/
theorem modByMonic_eq_wordPolynomial_iff (poly x : BitVec w) (p : (ZMod 2)[X]) :
    p %ₘ generator poly = wordPolynomial x ↔
      AdjoinRoot.mk (generator poly) p = AdjoinRoot.mk (generator poly) (wordPolynomial x) := by
  rw [AdjoinRoot.mk_eq_mk, ← modByMonic_eq_zero_iff_dvd (monic_generator poly), sub_modByMonic,
    wordPolynomial_modByMonic, sub_eq_zero]

/-- One shift multiplies by `X`. -/
theorem mk_shift (poly x : BitVec w) :
    AdjoinRoot.mk (generator poly) (wordPolynomial (shift poly x)) =
      AdjoinRoot.mk (generator poly) (X * wordPolynomial x) := by
  rw [AdjoinRoot.mk_eq_mk, X_mul_wordPolynomial]
  unfold shift
  split
  · -- the feedback and the lost power make up the generator
    rw [wordPolynomial_xor, CharTwo.sub_eq_add]
    have hsum : wordPolynomial (x <<< 1) + wordPolynomial poly +
        (wordPolynomial (x <<< 1) + X ^ w) =
          generator poly + (wordPolynomial (x <<< 1) + wordPolynomial (x <<< 1)) := by
      unfold generator
      ring
    rw [hsum, CharTwo.add_self_eq_zero, add_zero]
  · rw [add_zero, sub_self]
    exact dvd_zero _

theorem mk_shift_iterate (poly x : BitVec w) (k : ℕ) :
    AdjoinRoot.mk (generator poly) (wordPolynomial ((shift poly)^[k] x)) =
      AdjoinRoot.mk (generator poly) (X ^ k * wordPolynomial x) := by
  induction k with
  | zero => simp
  | succ k ih =>
    rw [Function.iterate_succ_apply', mk_shift, map_mul, ih, ← map_mul, ← mul_assoc, ← pow_succ']

/-- Words are told apart modulo the generator. -/
theorem mk_wordPolynomial_inj {poly x y : BitVec w} :
    AdjoinRoot.mk (generator poly) (wordPolynomial x) =
      AdjoinRoot.mk (generator poly) (wordPolynomial y) ↔ x = y := by
  rw [← modByMonic_eq_wordPolynomial_iff, wordPolynomial_modByMonic,
    wordPolynomial_injective.eq_iff]

/-! ## The check -/

theorem mk_crc (poly init : BitVec w) (words : List (BitVec w)) :
    AdjoinRoot.mk (generator poly) (wordPolynomial (crc (shift poly)^[w] init words)) =
      AdjoinRoot.mk (generator poly) (X ^ (w * words.length) * wordPolynomial init +
        X ^ w * bitsPolynomial (words.flatMap Bits.msbFirst)) := by
  induction words generalizing init with
  | nil => simp
  | cons word words ih =>
    rw [crc_cons, ih, map_add, map_mul, mk_shift_iterate, ← map_mul, ← map_add,
      wordPolynomial_xor, List.flatMap_cons, bitsPolynomial_append, Bits.length_flatMap_msbFirst]
    have hword : bitsPolynomial (Bits.msbFirst word) = wordPolynomial word := rfl
    rw [hword, List.length_cons, Nat.mul_succ, pow_add]
    apply congrArg (AdjoinRoot.mk (generator poly))
    ring

/-- The check of a list of words is the remainder of its bits, moved up by one word. -/
theorem crc_eq_modByMonic (poly : BitVec w) (words : List (BitVec w)) :
    wordPolynomial (crc (shift poly)^[w] 0 words) =
      (bitsPolynomial (words.flatMap Bits.msbFirst) * X ^ w) %ₘ generator poly := by
  symm
  rw [modByMonic_eq_wordPolynomial_iff, mk_crc, BitVec.ofNat_eq_ofNat, wordPolynomial_zero,
    mul_zero, zero_add, mul_comm]

/-- The multiples of the generator are the lists of words that end with their check. -/
theorem crc_eq_iff_dvd (poly check : BitVec w) (words : List (BitVec w)) :
    crc (shift poly)^[w] 0 words = check ↔
      generator poly ∣ bitsPolynomial ((words ++ [check]).flatMap Bits.msbFirst) := by
  have hbits : bitsPolynomial ((words ++ [check]).flatMap Bits.msbFirst) =
      bitsPolynomial (words.flatMap Bits.msbFirst) * X ^ w - wordPolynomial check := by
    rw [List.flatMap_append, bitsPolynomial_append, List.flatMap_singleton, Bits.length_msbFirst,
      CharTwo.sub_eq_add]
    rfl
  rw [hbits, ← AdjoinRoot.mk_eq_mk, ← modByMonic_eq_wordPolynomial_iff, ← crc_eq_modByMonic,
    wordPolynomial_injective.eq_iff]

/-! ## Sums of powers -/

section Detection

variable {poly : BitVec w}

theorem coeff_zero_generator (hpoly : poly.getLsbD 0 = true) : (generator poly).coeff 0 = 1 := by
  have hw : w ≠ 0 := by
    rintro rfl
    simp [BitVec.eq_nil poly] at hpoly
  rw [generator, coeff_add, coeff_X_pow, if_neg hw.symm, coeff_wordPolynomial, if_pos hpoly,
    zero_add]

/-- Powers of `X` have no part in the generator. -/
theorem dvd_X_pow_mul_iff (hpoly : poly.getLsbD 0 = true) (k : ℕ) (p : (ZMod 2)[X]) :
    generator poly ∣ X ^ k * p ↔ generator poly ∣ p := by
  have hX : ¬(X : (ZMod 2)[X]) ∣ generator poly := by
    rw [X_dvd_iff, coeff_zero_generator hpoly]
    exact one_ne_zero
  have hcoprime : IsCoprime (generator poly) (X ^ k) :=
    ((irreducible_X.coprime_iff_not_dvd.mpr hX).pow_left).symm
  constructor
  · exact hcoprime.dvd_of_dvd_mul_left
  · exact fun h => h.mul_left (X ^ k)

/-- A sum of powers within `w` consecutive ones is no multiple. -/
theorem not_dvd_burst (hpoly : poly.getLsbD 0 = true) {S : Finset ℕ} (hne : S.Nonempty) {m : ℕ}
    (hS : ∀ i ∈ S, m ≤ i ∧ i < m + w) : ¬generator poly ∣ ∑ i ∈ S, X ^ i := by
  intro hdvd
  have hfactor : ∑ i ∈ S, (X : (ZMod 2)[X]) ^ i = X ^ m * ∑ i ∈ S, X ^ (i - m) := by
    rw [Finset.mul_sum]
    apply Finset.sum_congr rfl
    intro i hi
    rw [← pow_add, Nat.add_sub_cancel' (hS i hi).1]
  rw [hfactor, dvd_X_pow_mul_iff hpoly] at hdvd
  have hdegree : (∑ i ∈ S, (X : (ZMod 2)[X]) ^ (i - m)).degree < (generator poly).degree := by
    rw [degree_generator, ← mem_degreeLT]
    apply Submodule.sum_mem
    intro i hi
    rw [mem_degreeLT, degree_X_pow]
    have hlt := hS i hi
    exact_mod_cast (by omega : i - m < w)
  have hzero := eq_zero_of_dvd_of_degree_lt hdvd hdegree
  -- the powers are different, so none of them cancels
  obtain ⟨i, hi⟩ := hne
  have hcoeff : (∑ j ∈ S, (X : (ZMod 2)[X]) ^ (j - m)).coeff (i - m) = 1 := by
    rw [finsetSum_coeff, Finset.sum_eq_single_of_mem i hi]
    · rw [coeff_X_pow, if_pos rfl]
    · intro j hj hji
      have hlow := (hS j hj).1
      have hlow' := (hS i hi).1
      rw [coeff_X_pow, if_neg (by omega)]
  rw [hzero, coeff_zero] at hcoeff
  exact zero_ne_one hcoeff

/-- Two powers make up a multiple exactly when the register started with 1 returns to it over
their distance. -/
theorem dvd_pair_iff (hpoly : poly.getLsbD 0 = true) (i d : ℕ) :
    generator poly ∣ X ^ i + X ^ (i + d) ↔ Function.minimalPeriod (shift poly) 1#w ∣ d := by
  have hw : 0 < w := by
    apply Nat.pos_of_ne_zero
    rintro rfl
    simp [BitVec.eq_nil poly] at hpoly
  have hfactor : (X : (ZMod 2)[X]) ^ i + X ^ (i + d) = X ^ i * (X ^ d - 1) := by
    rw [pow_add, CharTwo.sub_eq_add]
    ring
  have hmk := mk_shift_iterate poly 1#w d
  rw [wordPolynomial_one hw, mul_one] at hmk
  rw [hfactor, dvd_X_pow_mul_iff hpoly, ← AdjoinRoot.mk_eq_mk, ← hmk, ← wordPolynomial_one hw,
    mk_wordPolynomial_inj, ← Function.isPeriodicPt_iff_minimalPeriod_dvd]
  rfl

/-- An odd number of powers is no multiple of a generator with the root 1. -/
theorem not_dvd_odd (hroot : (generator poly).eval 1 = 0) {S : Finset ℕ} (hodd : Odd S.card) :
    ¬generator poly ∣ ∑ i ∈ S, X ^ i := by
  intro hdvd
  have heval := eval_eq_zero_of_dvd_of_eval_eq_zero hdvd hroot
  simp only [eval_finsetSum, eval_pow, eval_X, one_pow, Finset.sum_const, nsmul_eq_mul,
    mul_one] at heval
  rw [ZMod.natCast_eq_zero_iff_even] at heval
  exact Nat.not_even_iff_odd.mpr hodd heval

end Detection

end Crc
