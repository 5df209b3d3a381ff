import Mathlib.Data.BitVec
import Mathlib.Data.Vector.Basic

/-!
# Bytes, memory and console output

What the C sources take from the language and its library: bytes, the bytes a pointer gives
access to, `memcpy`, `strcmp` as a test for equality, and calls of `printf`.
-/

namespace NetworkingCard

/-- An `unsigned char` or `uint8_t`, and the `char`s of the UART and the ring buffers. -/
abbrev Byte := BitVec 8

-- whether a list contains a byte is decided in the same way in all modules
instance : LawfulBEq Byte := inferInstance

/-- What a pointer gives access to: the byte at each offset. -/
abbrev Memory := ℕ → Byte

/-- A byte array, seen through a pointer to its first element. -/
def memory {n : ℕ} (bytes : Vector Byte n) : Memory := fun i => bytes[i]?.getD 0

/-- `memcpy` into an array: the bytes from `size` on keep their old values. -/
def memcpy {n : ℕ} (dst : Vector Byte n) (src : Memory) (size : ℕ) : Vector Byte n :=
  Vector.ofFn fun i => if i.val < size then src i else dst.get i

/-- The string that starts at the first of these bytes: all up to the first NUL. -/
def cString (bytes : List Byte) : List Byte := bytes.takeWhile (· ≠ 0)

/-- `!strcmp(a, b)`. -/
def strcmpEqual (a b : List Byte) : Bool := cString a = cString b

/-- An argument of `printf`: a number for `%x` or `%d`, or for `%s` the bytes from the pointer to
the end of the object it points into. -/
inductive PrintfArg
  | x (value : Byte)
  | d (value : ℕ)
  | s (object : List Byte)
deriving DecidableEq

/-- One call of `printf`. -/
structure Printf where
  format : String
  args : List PrintfArg
deriving DecidableEq

theorem memory_memcpy {n : ℕ} (dst : Vector Byte n) (src : Memory) {size i : ℕ}
    (hsize : size ≤ n) (hi : i < size) : memory (memcpy dst src size) i = src i := by
  have hn : i < n := by omega
  rw [memory, memcpy, Vector.getElem?_eq_getElem hn, Vector.getElem_ofFn, if_pos hi,
    Option.getD_some]

/-- Only the copied bytes of the source matter. -/
theorem memcpy_congr {n : ℕ} (dst : Vector Byte n) {src src' : Memory} {size : ℕ}
    (h : ∀ i < size, src i = src' i) : memcpy dst src size = memcpy dst src' size := by
  ext i hn
  rw [memcpy, memcpy, Vector.getElem_ofFn, Vector.getElem_ofFn]
  split
  · next hi => rw [h i hi]
  · rfl

/-- Behind the copied bytes nothing changes. -/
theorem memory_memcpy_of_le {n : ℕ} (dst : Vector Byte n) (src : Memory) {size i : ℕ}
    (hi : size ≤ i) : memory (memcpy dst src size) i = memory dst i := by
  unfold memory
  by_cases hn : i < n
  · rw [Vector.getElem?_eq_getElem hn, Vector.getElem?_eq_getElem hn, memcpy, Vector.getElem_ofFn,
      if_neg (show ¬i < size by omega)]
    rfl
  · rw [Vector.getElem?_eq_none (by omega), Vector.getElem?_eq_none (by omega)]

theorem memory_setIfInBounds {n : ℕ} (v : Vector Byte n) (i j : ℕ) (b : Byte) (hi : i < n) :
    memory (v.setIfInBounds i b) j = if i = j then b else memory v j := by
  unfold memory
  rw [Vector.getElem?_setIfInBounds]
  by_cases h : i = j
  · subst h
    simp [hi]
  · simp [h]

end NetworkingCard
