import Mathlib.Logic.Function.Basic
import Mathlib.Data.List.Basic
import Mathlib.Tactic.SplitIfs

/-! Sets of numbers kept as one bit each in a run of words. -/

namespace NovaOs

/-- So many words, each of so many bits. -/
abbrev Bitmap (words width : Nat) := Fin words → BitVec width

namespace Bitmap

variable {words width : Nat}

/-- The bit of a number within its word. -/
def mask (width n : Nat) : BitVec width :=
  BitVec.ofNat width 1 <<< (n % width)

/-- Changes the word a number is in; there is none behind the last. -/
def modify (bits : Bitmap words width) (n : Nat) (f : BitVec width → BitVec width) :
    Bitmap words width :=
  if inside : n / width < words then
    Function.update bits ⟨n / width, inside⟩ (f (bits ⟨n / width, inside⟩))
  else bits

def set (bits : Bitmap words width) (n : Nat) : Bitmap words width :=
  bits.modify n (· ||| mask width n)

def clear (bits : Bitmap words width) (n : Nat) : Bitmap words width :=
  bits.modify n (· &&& ~~~mask width n)

def test (bits : Bitmap words width) (n : Nat) : Bool :=
  if inside : n / width < words then (bits ⟨n / width, inside⟩ &&& mask width n) != 0
  else false

theorem getLsbD_mask (positive : 0 < width) (n i : Nat) :
    (mask width n).getLsbD i = decide (n % width = i) := by
  rw [mask, ← BitVec.twoPow_eq, BitVec.getLsbD_twoPow]
  simp [Nat.mod_lt n positive]

/-- A bit is tested by masking the others away. -/
theorem and_mask_ne_zero (positive : 0 < width) (word : BitVec width) {n : Nat} :
    ((word &&& mask width n) != 0) = word.getLsbD (n % width) := by
  have nonzero : mask width n ≠ 0 := by
    intro zero
    have bit := getLsbD_mask positive n (n % width)
    simp [zero] at bit
  rw [mask, ← BitVec.twoPow_eq, BitVec.and_twoPow, BitVec.twoPow_eq, ← mask]
  split <;> simp_all

/-- Within one word, different numbers have different bits. -/
theorem same_bit {n m : Nat} (word : m / width = n / width) :
    n % width = m % width ↔ n = m := by
  constructor
  · intro bit
    rw [← Nat.div_add_mod n width, ← Nat.div_add_mod m width, word, bit]
  · intro same
    rw [same]

/-- A run of bits changed one after the other. -/
theorem test_foldl {op : Bitmap words width → Nat → Bitmap words width} {b : Bool} {m : Nat}
    (one : ∀ bits n, n < words * width → (op bits n).test m = if n = m then b else bits.test m)
    (count : Nat) (bits : Bitmap words width) {first : Nat}
    (inside : 0 < count → first + count ≤ words * width) :
    ((List.range' first count).foldl op bits).test m
      = if first ≤ m ∧ m < first + count then b else bits.test m := by
  induction count generalizing bits first with
  | zero => rw [if_neg (by omega), List.range'_zero, List.foldl_nil]
  | succ count ih =>
    rw [List.range'_succ, List.foldl_cons, ih _ (by omega), one _ _ (by omega)]
    split_ifs <;> first | rfl | omega

section

variable (positive : 0 < width) {bits : Bitmap words width} {n m : Nat}
include positive

theorem index_lt (small : n < words * width) : n / width < words :=
  (Nat.div_lt_iff_lt_mul positive).mpr small

theorem test_eq (small : n < words * width) :
    bits.test n = (bits ⟨n / width, index_lt positive small⟩).getLsbD (n % width) := by
  rw [test, dif_pos (index_lt positive small), and_mask_ne_zero positive]

/-- A change of one bit. -/
theorem test_modify {f : BitVec width → BitVec width} {b : Bool}
    (bit : ∀ word i, i < width → (f word).getLsbD i = if n % width = i then b else word.getLsbD i)
    (inside : n < words * width) (small : m < words * width) :
    (bits.modify n f).test m = if n = m then b else bits.test m := by
  rw [test_eq positive small, test_eq positive small, modify, dif_pos (index_lt positive inside)]
  by_cases word : m / width = n / width
  · simp only [word, Function.update_self, bit _ _ (Nat.mod_lt m positive), same_bit word]
  · have differ : n ≠ m := fun same => word (by rw [same])
    rw [Function.update_of_ne (by simpa using word), if_neg differ]

theorem test_set (inside : n < words * width) (small : m < words * width) :
    (bits.set n).test m = if n = m then true else bits.test m :=
  test_modify positive (fun word i _ => by
    rw [BitVec.getLsbD_or, getLsbD_mask positive, Bool.if_true_left, Bool.or_comm]) inside small

theorem test_clear (inside : n < words * width) (small : m < words * width) :
    (bits.clear n).test m = if n = m then false else bits.test m :=
  test_modify positive (fun word i small => by
    rw [BitVec.getLsbD_and, BitVec.getLsbD_not, getLsbD_mask positive, Bool.if_false_left,
      Bool.and_comm, decide_eq_true small, Bool.true_and]) inside small

end

end Bitmap

end NovaOs
