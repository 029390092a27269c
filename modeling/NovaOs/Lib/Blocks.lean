import Mathlib.Data.List.Basic
import Mathlib.Data.List.TakeDrop

/-! A sequence consumed in blocks of one width, and the elements left after the last whole block. -/

namespace NovaOs.Blocks

open List

variable {α σ : Type*} {xs : List α}

/-- Block number `i` of a sequence cut into blocks of `width` elements. -/
def block (width : Nat) (xs : List α) (i : Nat) : List α :=
  (xs.drop (width * i)).take width

/-- The state after every whole block of a sequence has been consumed, the first one first. -/
def absorb (compress : σ → List α → σ) (width : Nat) (state : σ) (xs : List α) : σ :=
  (List.range (xs.length / width)).foldl (fun s i => compress s (block width xs i)) state

/-- What is left of a sequence after its last whole block. -/
def rest (width : Nat) (xs : List α) : List α :=
  xs.drop (width * (xs.length / width))

variable (compress : σ → List α → σ) (width : Nat) (state : σ)

/-- A whole block has the full width. -/
theorem block_length (xs : List α) (i : Nat) (within : i < xs.length / width) :
    (block width xs i).length = width := by
  have := Nat.div_mul_le_self xs.length width
  have last : width * i + width ≤ xs.length := by
    calc width * i + width = (i + 1) * width := by rw [Nat.succ_mul, Nat.mul_comm]
      _ ≤ xs.length / width * width := Nat.mul_le_mul_right width within
      _ ≤ xs.length := this
  simp only [block, length_take, length_drop]
  omega

/-- Fewer elements than a block change nothing. -/
theorem absorb_short (short : xs.length < width) : absorb compress width state xs = state := by
  simp [absorb, Nat.div_eq_of_lt short]

/-- Fewer elements than a block are all left over. -/
theorem rest_short (short : xs.length < width) : rest width xs = xs := by
  simp [rest, Nat.div_eq_of_lt short]

private theorem blocks_of_drop (positive : 0 < width) (enough : width ≤ xs.length) :
    xs.length / width = (xs.drop width).length / width + 1 := by
  rw [length_drop, Nat.div_eq_sub_div positive enough]

private theorem block_of_drop (xs : List α) {i : Nat} :
    block width xs (i + 1) = block width (xs.drop width) i := by
  simp only [block, drop_drop, Nat.mul_succ, Nat.add_comm]

/-- The first block is consumed before the others. -/
theorem absorb_step (positive : 0 < width) (enough : width ≤ xs.length) :
    absorb compress width state xs
      = absorb compress width (compress state (xs.take width)) (xs.drop width) := by
  simp only [absorb, blocks_of_drop width positive enough, range_succ_eq_map,
    foldl_cons, foldl_map, block_of_drop]
  simp [block]

/-- Taking the first block away leaves the same elements over. -/
theorem rest_step (positive : 0 < width) (enough : width ≤ xs.length) :
    rest width xs = rest width (xs.drop width) := by
  simp only [rest, blocks_of_drop width positive enough, drop_drop, Nat.mul_succ, Nat.add_comm]

/-- Consuming a sequence and then more of it is consuming the two as one: the elements left over
come first in what follows. -/
theorem absorb_append (positive : 0 < width) (xs ys : List α) :
    absorb compress width state (xs ++ ys)
      = absorb compress width (absorb compress width state xs) (rest width xs ++ ys) := by
  -- The induction is on the number of elements: a whole block is taken off both sides at once.
  induction size : xs.length using Nat.strongRecOn generalizing xs state with
  | ind n ih =>
    by_cases enough : width ≤ xs.length
    · have longer : width ≤ (xs ++ ys).length := by rw [length_append]; omega
      rw [absorb_step compress width state positive longer,
        absorb_step compress width state positive enough, rest_step width positive enough,
        take_append_of_le_length enough, drop_append_of_le_length enough]
      exact ih (xs.drop width).length (by rw [length_drop]; omega) _ _ rfl
    · have short : xs.length < width := by omega
      rw [absorb_short compress width state short, rest_short width short]

/-- What is left over depends on the earlier sequence only through what that left over. -/
theorem rest_append (positive : 0 < width) (xs ys : List α) :
    rest width (xs ++ ys) = rest width (rest width xs ++ ys) := by
  induction size : xs.length using Nat.strongRecOn generalizing xs with
  | ind n ih =>
    by_cases enough : width ≤ xs.length
    · have longer : width ≤ (xs ++ ys).length := by rw [length_append]; omega
      rw [rest_step width positive longer, rest_step width positive enough,
        drop_append_of_le_length enough]
      exact ih (xs.drop width).length (by rw [length_drop]; omega) _ rfl
    · have short : xs.length < width := by omega
      rw [rest_short width short]

/-- The elements left over are as many as the remainder of the length. -/
theorem rest_length (xs : List α) : (rest width xs).length = xs.length % width := by
  have split := Nat.mod_add_div xs.length width
  rw [rest, length_drop]
  omega

/-- Fewer elements than a block may be passed over when nothing follows them. -/
theorem pass_over {waiting ys : List α} (short : waiting.length < width)
    (one : waiting = [] ∨ ys = []) :
    absorb compress width state ys = absorb compress width state (waiting ++ ys)
      ∧ waiting ++ rest width ys = rest width (waiting ++ ys) := by
  have positive : 0 < width := by omega
  have nothing : ([] : List α).length < width := positive
  rcases one with rfl | rfl
  · exact ⟨rfl, rfl⟩
  · rw [append_nil, absorb_short compress width state short, rest_short width short,
      absorb_short compress width state nothing, rest_short width nothing]
    exact ⟨rfl, append_nil waiting⟩

end NovaOs.Blocks
