import NovaOs.Lib.Bytes
import NovaOs.Lib.Fips180

/-! Words as big-endian bytes, and byte strings as bit strings. -/

namespace NovaOs

variable {n : Nat} {bytes : Bytes}

open List

/-- The bytes of a word, most significant byte first. -/
def beBytes {n : Nat} (x : BitVec (8 * n)) : Bytes :=
  (List.range n).map fun i => UInt8.ofBitVec (x.extractLsb' (8 * (n - 1 - i)) 8)

@[simp] theorem beBytes_length (x : BitVec (8 * n)) : (beBytes x).length = n := by
  simp [beBytes]

/-- The bits of a byte string, the first byte's most significant bit first. -/
def bitsOf (bytes : Bytes) : List Bool := bytes.flatMap fun b => Fips180.toBits b.toBitVec

@[simp] theorem bitsOf_nil : bitsOf [] = [] := rfl

theorem bitsOf_cons {b : UInt8} :
    bitsOf (b :: bytes) = Fips180.toBits b.toBitVec ++ bitsOf bytes := flatMap_cons

theorem bitsOf_append {xs ys : Bytes} : bitsOf (xs ++ ys) = bitsOf xs ++ bitsOf ys :=
  flatMap_append

@[simp] theorem bitsOf_length : (bitsOf bytes).length = 8 * bytes.length := by
  induction bytes with
  | nil => rfl
  | cons b bytes ih =>
    rw [bitsOf_cons, length_append, Fips180.toBits_length, ih, length_cons]
    omega

/-- Dropping whole bytes drops eight bits for each. -/
theorem bitsOf_drop : (bitsOf bytes).drop (8 * n) = bitsOf (bytes.drop n) := by
  by_cases within : n ≤ bytes.length
  · -- The bytes dropped make up exactly the first `8 * n` bits.
    have split : bitsOf bytes = bitsOf (bytes.take n) ++ bitsOf (bytes.drop n) := by
      rw [← bitsOf_append, take_append_drop]
    have size : (bitsOf (bytes.take n)).length = 8 * n := by
      rw [bitsOf_length, length_take, Nat.min_eq_left within]
    rw [split, drop_left' size]
  · rw [drop_of_length_le (by rw [bitsOf_length]; omega), drop_of_length_le (by omega), bitsOf_nil]

/-- Keeping whole bytes keeps eight bits for each. -/
theorem bitsOf_take : (bitsOf bytes).take (8 * n) = bitsOf (bytes.take n) := by
  by_cases within : n ≤ bytes.length
  · have split : bitsOf bytes = bitsOf (bytes.take n) ++ bitsOf (bytes.drop n) := by
      rw [← bitsOf_append, take_append_drop]
    have size : (bitsOf (bytes.take n)).length = 8 * n := by
      rw [bitsOf_length, length_take, Nat.min_eq_left within]
    rw [split, take_left' size]
  · rw [take_of_length_le (by rw [bitsOf_length]; omega), take_of_length_le (by omega)]

/-- A byte string of zeros is a bit string of zeros. -/
theorem bitsOf_replicate_zero : bitsOf (replicate n 0) = replicate (8 * n) false := by
  have byte : Fips180.toBits (0 : UInt8).toBitVec = replicate 8 false := by decide
  induction n with
  | zero => rfl
  | succ n ih =>
    rw [replicate_succ, bitsOf_cons, ih, byte, ← replicate_add]
    congr 1
    omega

/-- The bytes of a word spell the bits of the word. -/
theorem bitsOf_beBytes (x : BitVec (8 * n)) : bitsOf (beBytes x) = Fips180.toBits x := by
  -- After the first `m` bytes, the first `8 * m` bits have been written.
  have upto : ∀ m ≤ n, bitsOf ((beBytes x).take m) = (Fips180.toBits x).take (8 * m) := by
    intro m
    induction m with
    | zero => simp
    | succ m ih =>
      intro bound
      have next : (beBytes x).take (m + 1)
          = (beBytes x).take m ++ [UInt8.ofBitVec (x.extractLsb' (8 * (n - 1 - m)) 8)] := by
        rw [take_succ_eq_append_getElem (by rw [beBytes_length]; omega)]
        simp [beBytes]
      rw [next, bitsOf_append, ih (by omega), bitsOf_cons, bitsOf_nil, append_nil]
      apply ext_getElem?
      intro i
      -- Bit `i` of the new byte is bit `8 * m + i` of the word.
      rw [getElem?_append, length_take, Fips180.toBits_length, getElem?_take,
        getElem?_take, Fips180.toBits_getElem?, Fips180.toBits_getElem?,
        UInt8.toBitVec_ofBitVec, BitVec.getMsbD_extractLsb', Nat.min_eq_left (by omega)]
      by_cases old : i < 8 * m
      · simp [old, show i < 8 * (m + 1) by omega]
      by_cases new : i < 8 * (m + 1)
      · have place : 8 * n - (8 * (n - 1 - m) + 8 - (i - 8 * m)) = i := by omega
        simp [old, new, place, show i - 8 * m < 8 by omega, show i < 8 * n by omega,
          show 8 * (n - 1 - m) + 8 ≤ 8 * n + (i - 8 * m) by omega]
      · simp [old, new, show ¬ i - 8 * m < 8 by omega]
  have all := upto n (Nat.le_refl n)
  rwa [take_of_length_le (by simp), take_of_length_le (by simp)] at all

end NovaOs
