import Mathlib.Data.Nat.Dist
import Mathlib.Tactic.NormNum.Prime
import NetworkingCard.Library.CrcPolynomial
import NetworkingCard.PacketFormat

/-!
# What the CRC detects

The table-driven CRC is the remainder modulo `x^8 + x^2 + x + 1` (`polynomial_phComputeCrc8`), so
`ph_parse` accepts a packet with a CRC exactly when its message and FCS are a multiple of that
polynomial, and rejects an accepted packet with wrong bits exactly when the wrong bits are no
multiple (`phParse_flipBits_iff`). Of wrong bits in the message and the FCS it notices

* all within eight consecutive bits (`phParse_burst`),
* two, unless their distance is a multiple of 127 (`phParse_doubleBit_iff`),
* any odd number (`phParse_oddBits`),
* so up to three in a message of up to 14 bytes, but not every four (`phParse_distance`).
-/

namespace NetworkingCard

open Polynomial

/-! ## The CRC as a remainder -/

theorem wordPolynomial_crc8Polynomial :
    Crc.wordPolynomial crc8Polynomial = (X ^ 2 + X + 1 : (ZMod 2)[X]) := by
  have hbits : Bits.msbFirst crc8Polynomial =
      [false, false, false, false, false, true, true, true] := by decide
  rw [Crc.wordPolynomial, hbits]
  simp [Crc.bitsPolynomial_cons, add_assoc]

theorem generator_crc8Polynomial :
    Crc.generator crc8Polynomial = (X ^ 8 + X ^ 2 + X + 1 : (ZMod 2)[X]) := by
  rw [Crc.generator, wordPolynomial_crc8Polynomial]
  ring

/-- The CRC of any message is the remainder of the message, moved up by eight bits. -/
theorem polynomial_phComputeCrc8 (msg : List Byte) :
    Crc.wordPolynomial (phComputeCrc8 (listMemory msg) msg.length) =
      (Crc.bitsPolynomial (msg.flatMap Bits.msbFirst) * X ^ 8) %ₘ (X ^ 8 + X ^ 2 + X + 1) := by
  rw [phComputeCrc8_eq, range_map_listMemory msg le_rfl, List.take_length, crc8Step_eq_iterate,
    Crc.crc_eq_modByMonic, generator_crc8Polynomial]

/-! ## Wrong bits -/

/-- The bytes of a message and of the FCS behind it. -/
def messageAndFcs (buf : Memory) (length : ℕ) : List Byte :=
  (List.range (length + 1)).map fun k => buf (6 + k)

/-- Byte `k` of a message and its FCS with ones at these bit positions only. Positions count the
bits of the message and the FCS, the most significant bit of a byte first. -/
def errorByte (positions : Finset ℕ) (k : ℕ) : Byte :=
  Bits.ofMsbFirst 8 fun j => decide (8 * k + j ∈ positions)

/-- The buffer with the bits at these positions inverted. -/
def flipBits (positions : Finset ℕ) (buf : Memory) : Memory :=
  fun i => if i < 6 then buf i else buf i ^^^ errorByte positions (i - 6)

theorem flipBits_header (positions : Finset ℕ) (buf : Memory) {i : ℕ} (hi : i < 6) :
    flipBits positions buf i = buf i := if_pos hi

theorem flipBits_message (positions : Finset ℕ) (buf : Memory) (k : ℕ) :
    flipBits positions buf (6 + k) = buf (6 + k) ^^^ errorByte positions k := by
  unfold flipBits
  rw [if_neg (by omega), Nat.add_sub_cancel_left]

theorem flatMap_errorByte (positions : Finset ℕ) (n : ℕ) :
    ((List.range n).map (errorByte positions)).flatMap Bits.msbFirst =
      (List.range (8 * n)).map fun p => decide (p ∈ positions) := by
  induction n with
  | zero => rfl
  | succ n ih =>
    rw [List.range_succ, List.map_append, List.flatMap_append, ih, List.map_singleton,
      List.flatMap_singleton, errorByte, Bits.msbFirst_ofMsbFirst, Nat.mul_succ, List.range_add,
      List.map_append, List.map_map]
    rfl

/-- The wrong bits as a polynomial: a power for each position. -/
theorem bitsPolynomial_errorBytes {positions : Finset ℕ} {n : ℕ}
    (hpos : ∀ p ∈ positions, p < 8 * n) :
    Crc.bitsPolynomial (((List.range n).map (errorByte positions)).flatMap Bits.msbFirst) =
      ∑ p ∈ positions, X ^ (8 * n - 1 - p) := by
  have hfilter : ({p ∈ Finset.range (8 * n) | decide (p ∈ positions) = true}) = positions := by
    ext p
    simp only [Finset.mem_filter, Finset.mem_range, decide_eq_true_eq, and_iff_right_iff_imp]
    exact hpos p
  rw [flatMap_errorByte, Crc.bitsPolynomial_range_map, hfilter]

/-- Inverting bits adds them. -/
theorem bitsPolynomial_flipBits {positions : Finset ℕ} (buf : Memory) {length : ℕ}
    (hpos : ∀ p ∈ positions, p < 8 * (length + 1)) :
    Crc.bitsPolynomial ((messageAndFcs (flipBits positions buf) length).flatMap Bits.msbFirst) =
      Crc.bitsPolynomial ((messageAndFcs buf length).flatMap Bits.msbFirst) +
        ∑ p ∈ positions, X ^ (8 * (length + 1) - 1 - p) := by
  have hbytes : messageAndFcs (flipBits positions buf) length =
      List.zipWith (· ^^^ ·) (messageAndFcs buf length)
        ((List.range (length + 1)).map (errorByte positions)) := by
    unfold messageAndFcs
    rw [List.zipWith_map, List.zipWith_self]
    apply List.map_congr_left
    intro k _
    exact flipBits_message positions buf k
  have hlen : (messageAndFcs buf length).length =
      ((List.range (length + 1)).map (errorByte positions)).length := by
    simp [messageAndFcs]
  have hbits : ((messageAndFcs buf length).flatMap Bits.msbFirst).length =
      (((List.range (length + 1)).map (errorByte positions)).flatMap Bits.msbFirst).length := by
    rw [Bits.length_flatMap_msbFirst, Bits.length_flatMap_msbFirst, hlen]
  rw [hbytes, Bits.flatMap_zipWith_xor hlen, Crc.bitsPolynomial_zipWith_xor hbits,
    bitsPolynomial_errorBytes hpos]

/-- A packet with a CRC, in a buffer of its own size, is accepted when its message and FCS are a
multiple of the generator. -/
theorem phParse_eq_true_iff_dvd (out : PacketHeader) {buf : Memory} {size : ℕ}
    (hfits : ¬TooSmall buf size) (hsize : size = 7 + (buf 4).toNat) (hflag : buf 5 ≠ 0) :
    (phParse out buf size).1 = true ↔
      Crc.generator crc8Polynomial ∣
        Crc.bitsPolynomial ((messageAndFcs buf (buf 4).toNat).flatMap Bits.msbFirst) := by
  have hlast : size - 1 = 6 + (buf 4).toNat := by omega
  have hsplit : messageAndFcs buf (buf 4).toNat =
      (List.range (buf 4).toNat).map (fun k => buf (6 + k)) ++ [buf (6 + (buf 4).toNat)] := by
    rw [messageAndFcs, List.range_succ, List.map_append, List.map_singleton]
  rw [phParse_eq_true_iff, hlast, hsplit, ← Crc.crc_eq_iff_dvd, ← crc8Step_eq_iterate,
    ← phComputeCrc8_eq]
  constructor
  · exact fun h => h.2.2
  · exact fun h => ⟨hfits, fun h0 => absurd h0 hflag, h⟩

/-- Different positions are different powers. -/
theorem injOn_power {positions : Finset ℕ} {n : ℕ} (hpos : ∀ p ∈ positions, p < n) :
    Set.InjOn (fun p => n - 1 - p) positions := by
  intro p hp q hq h
  have hpn := hpos p hp
  have hqn := hpos q hq
  dsimp only at h
  omega

theorem sum_power {positions : Finset ℕ} {n : ℕ} (hpos : ∀ p ∈ positions, p < n) :
    ∑ p ∈ positions, (X : (ZMod 2)[X]) ^ (n - 1 - p) =
      ∑ i ∈ positions.image (fun p => n - 1 - p), X ^ i :=
  (Finset.sum_image (injOn_power hpos)).symm

/-- The register started with 1 runs through 127 states. -/
theorem minimalPeriod_shift : Function.minimalPeriod (Crc.shift crc8Polynomial) 1#8 = 127 := by
  have hprime : Fact (Nat.Prime 127) := ⟨by norm_num⟩
  rw [Function.minimalPeriod_eq_prime_iff]
  constructor
  · show (Crc.shift crc8Polynomial)^[127] 1#8 = 1#8
    decide +kernel
  · show ¬Crc.shift crc8Polynomial 1#8 = 1#8
    decide

/-- A packet with a CRC that carries 15 NUL characters. -/
def nulFrame : List Byte := [0x55, 0x01, 0xAA, 0xBB, 15, 1] ++ List.replicate 16 0

theorem phParse_nulFrame : (phParse PacketHeader.zero (listMemory nulFrame) 22).1 = true := by
  decide +kernel

/-- An accepted packet with wrong bits is accepted when these are a multiple of the generator. -/
theorem phParse_flipBits_iff {out : PacketHeader} (out' : PacketHeader) {buf : Memory} {size : ℕ}
    (hsize : size = 7 + (buf 4).toNat) (hflag : buf 5 ≠ 0)
    (haccept : (phParse out buf size).1 = true) {positions : Finset ℕ}
    (hpos : ∀ p ∈ positions, p < 8 * ((buf 4).toNat + 1)) :
    (phParse out' (flipBits positions buf) size).1 = true ↔
      Crc.generator crc8Polynomial ∣
        ∑ p ∈ positions, X ^ (8 * ((buf 4).toNat + 1) - 1 - p) := by
  have hfits : ¬TooSmall buf size := ((phParse_eq_true_iff out buf size).mp haccept).1
  have hdvd := (phParse_eq_true_iff_dvd out hfits hsize hflag).mp haccept
  have hlength : flipBits positions buf 4 = buf 4 := flipBits_header positions buf (by omega)
  have hflag' : flipBits positions buf 5 = buf 5 := flipBits_header positions buf (by omega)
  have hfits' : ¬TooSmall (flipBits positions buf) size := by
    unfold TooSmall at hfits ⊢
    rwa [hlength]
  rw [phParse_eq_true_iff_dvd out' hfits' (by rwa [hlength]) (by rwa [hflag']), hlength,
    bitsPolynomial_flipBits buf hpos]
  exact dvd_add_right hdvd

/-- Wrong bits within eight consecutive ones are noticed, wherever they are. -/
theorem phParse_burst (out out' : PacketHeader) (buf : Memory) (size : ℕ)
    (hsize : size = 7 + (buf 4).toNat) (hflag : buf 5 ≠ 0)
    (haccept : (phParse out buf size).1 = true) (positions : Finset ℕ)
    (hne : positions.Nonempty) (start : ℕ)
    (hburst : ∀ p ∈ positions, start ≤ p ∧ p < start + 8)
    (hpos : ∀ p ∈ positions, p < 8 * ((buf 4).toNat + 1)) :
    (phParse out' (flipBits positions buf) size).1 = false := by
  rw [← Bool.not_eq_true, phParse_flipBits_iff out' hsize hflag haccept hpos, sum_power hpos]
  -- the lowest power that the burst reaches, in a message that may end before the burst does
  apply Crc.not_dvd_burst rfl (hne.image _)
    (m := 8 * ((buf 4).toNat + 1) - 1 - min (start + 7) (8 * ((buf 4).toNat + 1) - 1))
  intro i hi
  obtain ⟨p, hp, rfl⟩ := Finset.mem_image.mp hi
  have hwindow := hburst p hp
  have hend := hpos p hp
  omega

/-- The last three bits of the message and the first of the FCS. -/
theorem phParse_burst_nulFrame :
    (phParse PacketHeader.zero (flipBits {117, 118, 119, 120} (listMemory nulFrame)) 22).1 =
      false :=
  phParse_burst PacketHeader.zero PacketHeader.zero (listMemory nulFrame) 22 rfl (by decide)
    phParse_nulFrame {117, 118, 119, 120} ⟨117, by decide⟩ 117 (by decide) (by decide)

/-- Two wrong bits are noticed unless their distance is a multiple of 127. -/
theorem phParse_doubleBit_iff (out out' : PacketHeader) (buf : Memory) (size : ℕ)
    (hsize : size = 7 + (buf 4).toNat) (hflag : buf 5 ≠ 0)
    (haccept : (phParse out buf size).1 = true) (p q : ℕ) (hpq : p ≠ q)
    (hp : p < 8 * ((buf 4).toNat + 1)) (hq : q < 8 * ((buf 4).toNat + 1)) :
    (phParse out' (flipBits {p, q} buf) size).1 = false ↔ ¬127 ∣ Nat.dist p q := by
  wlog hlt : p < q generalizing p q
  · have hswap := this q p hpq.symm hq hp (by omega)
    rwa [Finset.pair_comm, Nat.dist_comm] at hswap
  have hpos : ∀ r ∈ ({p, q} : Finset ℕ), r < 8 * ((buf 4).toNat + 1) := by
    intro r hr
    rcases Finset.mem_insert.mp hr with rfl | hr
    · exact hp
    · rwa [Finset.mem_singleton.mp hr]
  -- the earlier bit is the higher power
  have hpower : 8 * ((buf 4).toNat + 1) - 1 - p = 8 * ((buf 4).toNat + 1) - 1 - q + (q - p) := by
    omega
  rw [← Bool.not_eq_true, phParse_flipBits_iff out' hsize hflag haccept hpos,
    Finset.sum_pair hpq, hpower, add_comm, Crc.dvd_pair_iff rfl, minimalPeriod_shift,
    Nat.dist_eq_sub_of_le hlt.le]

/-- The first bit of the message and the last of the FCS together go unnoticed. -/
theorem phParse_doubleBit_nulFrame :
    (phParse PacketHeader.zero (flipBits {0, 127} (listMemory nulFrame)) 22).1 = true := by
  have hiff := phParse_doubleBit_iff PacketHeader.zero PacketHeader.zero (listMemory nulFrame) 22
    rfl (by decide) phParse_nulFrame 0 127 (by decide) (by decide) (by decide)
  rw [← Bool.not_eq_false]
  intro h
  exact hiff.mp h (by decide)

theorem eval_generator_crc8Polynomial : (Crc.generator crc8Polynomial).eval 1 = 0 := by
  rw [generator_crc8Polynomial]
  simp only [eval_add, eval_pow, eval_X, eval_one, one_pow]
  decide

/-- An odd number of powers. -/
theorem not_dvd_of_odd_card {n : ℕ} {positions : Finset ℕ} (hodd : Odd positions.card)
    (hpos : ∀ p ∈ positions, p < n) :
    ¬Crc.generator crc8Polynomial ∣ ∑ p ∈ positions, X ^ (n - 1 - p) := by
  rw [sum_power hpos]
  apply Crc.not_dvd_odd eval_generator_crc8Polynomial
  rwa [Finset.card_image_of_injOn (injOn_power hpos)]

/-- An odd number of wrong bits is noticed. -/
theorem phParse_oddBits (out out' : PacketHeader) (buf : Memory) (size : ℕ)
    (hsize : size = 7 + (buf 4).toNat) (hflag : buf 5 ≠ 0)
    (haccept : (phParse out buf size).1 = true) (positions : Finset ℕ)
    (hodd : Odd positions.card) (hpos : ∀ p ∈ positions, p < 8 * ((buf 4).toNat + 1)) :
    (phParse out' (flipBits positions buf) size).1 = false := by
  rw [← Bool.not_eq_true, phParse_flipBits_iff out' hsize hflag haccept hpos]
  exact not_dvd_of_odd_card hodd hpos

theorem phParse_oddBits_nulFrame :
    (phParse PacketHeader.zero (flipBits {0, 64, 127} (listMemory nulFrame)) 22).1 = false :=
  phParse_oddBits PacketHeader.zero PacketHeader.zero (listMemory nulFrame) 22 rfl (by decide)
    phParse_nulFrame {0, 64, 127} (by decide) (by decide)

/-! ## How many wrong bits it takes -/

/-- The two powers of a pair of positions. -/
theorem dvd_pair_positions_iff {n p q : ℕ} (hpq : p < q) (hq : q < n) :
    Crc.generator crc8Polynomial ∣ ∑ r ∈ ({p, q} : Finset ℕ), X ^ (n - 1 - r) ↔ 127 ∣ q - p := by
  have hpower : n - 1 - p = n - 1 - q + (q - p) := by omega
  rw [Finset.sum_pair hpq.ne, hpower, add_comm, Crc.dvd_pair_iff rfl, minimalPeriod_shift]

/-- Up to three positions within fewer than 128 bits. -/
theorem not_dvd_of_card_le {n : ℕ} (hn : n ≤ 127) {positions : Finset ℕ}
    (hne : positions.Nonempty) (hcard : positions.card ≤ 3) (hpos : ∀ p ∈ positions, p < n) :
    ¬Crc.generator crc8Polynomial ∣ ∑ p ∈ positions, X ^ (n - 1 - p) := by
  have hpositive := hne.card_pos
  by_cases htwo : positions.card = 2
  · obtain ⟨p, q, hlt, rfl⟩ : ∃ p q, p < q ∧ positions = {p, q} := by
      obtain ⟨p, q, hpq, heq⟩ := Finset.card_eq_two.mp htwo
      rcases Nat.lt_or_gt_of_ne hpq with hlt | hlt
      · exact ⟨p, q, hlt, heq⟩
      · exact ⟨q, p, hlt, heq.trans (Finset.pair_comm p q)⟩
    have hq := hpos q (by simp)
    rw [dvd_pair_positions_iff hlt hq]
    intro hdvd
    have := Nat.le_of_dvd (by omega) hdvd
    omega
  · have hodd : Odd positions.card := by
      interval_cases positions.card
      · exact ⟨0, rfl⟩
      · exact absurd rfl htwo
      · exact ⟨1, rfl⟩
    exact not_dvd_of_odd_card hodd hpos

/-- The generator itself, at the end of the message and in the FCS. -/
theorem dvd_generator_positions {n : ℕ} (hn : 9 ≤ n) :
    Crc.generator crc8Polynomial ∣
      ∑ p ∈ ({n - 9, n - 3, n - 2, n - 1} : Finset ℕ), X ^ (n - 1 - p) := by
  have hsum : ∑ p ∈ ({n - 9, n - 3, n - 2, n - 1} : Finset ℕ), (X : (ZMod 2)[X]) ^ (n - 1 - p) =
      X ^ 8 + X ^ 2 + X + 1 := by
    rw [Finset.sum_insert (by simp; omega), Finset.sum_insert (by simp; omega),
      Finset.sum_pair (by omega), show n - 1 - (n - 9) = 8 by omega,
      show n - 1 - (n - 3) = 2 by omega, show n - 1 - (n - 2) = 1 by omega, Nat.sub_self,
      pow_one, pow_zero]
    ring
  rw [hsum, generator_crc8Polynomial]

/-- **The distance of the code.** In an accepted packet with a CRC, up to three wrong bits in the
message and the FCS are noticed, wherever they are, exactly when the message is no longer than 14
bytes; and there are always four that are not noticed. -/
theorem phParse_distance (out out' : PacketHeader) (buf : Memory) (size : ℕ)
    (hsize : size = 7 + (buf 4).toNat) (hflag : buf 5 ≠ 0)
    (haccept : (phParse out buf size).1 = true) :
    ((∀ positions : Finset ℕ, positions.Nonempty → positions.card ≤ 3 →
        (∀ p ∈ positions, p < 8 * ((buf 4).toNat + 1)) →
          (phParse out' (flipBits positions buf) size).1 = false) ↔ (buf 4).toNat ≤ 14) ∧
      ∃ positions : Finset ℕ, positions.card = 4 ∧
        (∀ p ∈ positions, p < 8 * ((buf 4).toNat + 1)) ∧
          (phParse out' (flipBits positions buf) size).1 = true := by
  have hfits : ¬TooSmall buf size := ((phParse_eq_true_iff out buf size).mp haccept).1
  have hlength : 1 ≤ (buf 4).toNat := by
    unfold TooSmall at hfits
    omega
  refine ⟨⟨fun h => ?_, fun h positions hne hcard hpos => ?_⟩, ?_⟩
  · by_contra hlong
    -- the positions 0 and 127
    have hpos : ∀ p ∈ ({0, 127} : Finset ℕ), p < 8 * ((buf 4).toNat + 1) := by
      simp
      omega
    have hreject := h {0, 127} ⟨0, by simp⟩ (by decide) hpos
    rw [← Bool.not_eq_true, phParse_flipBits_iff out' hsize hflag haccept hpos,
      dvd_pair_positions_iff (by omega) (hpos 127 (by simp))] at hreject
    exact hreject (dvd_refl 127)
  · rw [← Bool.not_eq_true, phParse_flipBits_iff out' hsize hflag haccept hpos]
    exact not_dvd_of_card_le (by omega) hne hcard hpos
  · obtain ⟨n, hn⟩ : ∃ n, 8 * ((buf 4).toNat + 1) = n := ⟨_, rfl⟩
    have hpos : ∀ p ∈ ({n - 9, n - 3, n - 2, n - 1} : Finset ℕ), p < n := by
      simp
      omega
    refine ⟨{n - 9, n - 3, n - 2, n - 1}, ?_, hn ▸ hpos, ?_⟩
    · rw [Finset.card_insert_of_notMem (by simp; omega),
        Finset.card_insert_of_notMem (by simp; omega), Finset.card_pair (by omega)]
    · rw [phParse_flipBits_iff out' hsize hflag haccept (hn ▸ hpos), hn]
      exact dvd_generator_positions (by omega)

/-- The message of 15 characters is too long. -/
theorem phParse_distance_nulFrame :
    ¬∀ positions : Finset ℕ, positions.Nonempty → positions.card ≤ 3 →
      (∀ p ∈ positions, p < 8 * ((listMemory nulFrame 4).toNat + 1)) →
        (phParse PacketHeader.zero (flipBits positions (listMemory nulFrame)) 22).1 = false := by
  have hdistance := (phParse_distance PacketHeader.zero PacketHeader.zero (listMemory nulFrame) 22
    rfl (by decide) phParse_nulFrame).1
  exact fun h => absurd (hdistance.mp h) (by decide)

end NetworkingCard
