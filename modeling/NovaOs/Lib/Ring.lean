import Mathlib.Data.List.Basic
import Mathlib.Data.List.TakeDrop
import Mathlib.Logic.Function.Basic

/-! Queues kept in a fixed run of cells that is used round and round. -/

namespace NovaOs

open List

/-- A queue of at most `cap` values, its front standing at `head`. -/
structure Ring (α : Type) (cap : Nat) where
  cells : Fin cap → α
  head : Nat
  len : Nat
  head_lt : head < cap
  len_le : len ≤ cap

namespace Ring

variable {α : Type} {cap : Nat} {start : Nat} {values : List α}

theorem cap_pos (ring : Ring α cap) : 0 < cap := Nat.lt_of_le_of_lt (Nat.zero_le _) ring.head_lt

/-- The cell so many places behind the front. -/
def cell (ring : Ring α cap) (i : Nat) : Fin cap :=
  ⟨(ring.head + i) % cap, Nat.mod_lt _ ring.cap_pos⟩

/-- The values queued, the oldest first. -/
def contents (ring : Ring α cap) : List α :=
  (List.range ring.len).map fun i => ring.cells (ring.cell i)

/-- A queue with nothing in it. -/
def empty (positive : 0 < cap) (filler : α) : Ring α cap where
  cells := fun _ => filler
  head := 0
  len := 0
  head_lt := positive
  len_le := Nat.zero_le _

/-- Forgets what is queued, without touching the cells. -/
def restart (ring : Ring α cap) : Ring α cap where
  cells := ring.cells
  head := 0
  len := 0
  head_lt := ring.cap_pos
  len_le := Nat.zero_le _

/-- Stores values from one cell on, wrapping round behind the last. -/
def store (cells : Fin cap → α) (positive : 0 < cap) (start : Nat) : List α → Fin cap → α
  | [] => cells
  | value :: rest =>
    store (Function.update cells ⟨start % cap, Nat.mod_lt _ positive⟩ value) positive (start + 1)
      rest

/-- Appends as many values as there is space for, and says how many those are. -/
def write (ring : Ring α cap) (values : List α) : Nat × Ring α cap :=
  let count := min (cap - ring.len) values.length
  (count,
    { ring with
      cells := store ring.cells ring.cap_pos (ring.head + ring.len) (values.take count)
      len := ring.len + count
      len_le := by have := ring.len_le; omega })

/-- Up to `width` values from `offset` places behind the front on, left where they are. -/
def peek (ring : Ring α cap) (offset width : Nat) : List α :=
  (List.range (min (ring.len - offset) width)).map fun i => ring.cells (ring.cell (offset + i))

/-- Drops values off the front. -/
def consume (ring : Ring α cap) (count : Nat) : Ring α cap where
  cells := ring.cells
  head := (ring.head + min count ring.len) % cap
  len := ring.len - min count ring.len
  head_lt := Nat.mod_lt _ ring.cap_pos
  len_le := Nat.le_trans (Nat.sub_le _ _) ring.len_le

@[simp] theorem contents_length (ring : Ring α cap) : ring.contents.length = ring.len := by
  simp [contents]

/-- Different places within one round are different cells. -/
theorem mod_ne_of_lt {i j : Nat} (before : i < j) (round : j - i < cap) :
    (start + i) % cap ≠ (start + j) % cap := by
  intro same
  -- The distance would be a multiple of the size, and it is smaller.
  have distance := Nat.sub_mod_eq_zero_of_mod_eq same.symm
  rw [show start + j - (start + i) = j - i by omega, Nat.mod_eq_of_lt round] at distance
  omega

/-- Values stored behind a cell leave it alone until they have gone all the way round. -/
theorem store_other (cells : Fin cap → α) (positive : 0 < cap) {place : Fin cap}
    (apart : ∀ i < values.length, (start + i) % cap ≠ place.val) :
    store cells positive start values place = cells place := by
  -- Each value goes to a cell of its own, one further than the last.
  induction values generalizing cells start with
  | nil => rfl
  | cons value rest ih =>
    rw [store, ih]
    · apply Function.update_of_ne
      intro same
      exact apart 0 (by simp) (by rw [same]; rfl)
    · intro i small
      rw [Nat.add_assoc, Nat.add_comm 1 i]
      exact apart (i + 1) (by simpa using small)

/-- Each value stored is in the cell it was stored in, if there are enough cells for all. -/
theorem store_at (cells : Fin cap → α) (positive : 0 < cap) (fits : values.length ≤ cap) {i : Nat}
    (small : i < values.length) :
    store cells positive start values ⟨(start + i) % cap, Nat.mod_lt _ positive⟩ = values[i] := by
  induction values generalizing cells start i with
  | nil => cases small
  | cons value rest ih =>
    rw [length_cons] at fits small
    rw [store]
    cases i with
    | zero =>
      -- The values behind the first do not come back to its cell.
      rw [store_other]
      · exact Function.update_self ..
      · intro j inRest same
        rw [Nat.add_assoc] at same
        exact mod_ne_of_lt (j := 1 + j) (by omega) (by omega) same.symm
    | succ i =>
      have place : (start + (i + 1)) % cap = (start + 1 + i) % cap := by
        rw [Nat.add_assoc, Nat.add_comm 1 i]
      simp only [place, getElem_cons_succ]
      exact ih _ (by omega) (by omega)

/-- Writing appends what there is space for. -/
theorem contents_write (ring : Ring α cap) (values : List α) :
    (ring.write values).2.contents = ring.contents ++ values.take (cap - ring.len) := by
  have room := ring.len_le
  have taken : values.take (min (cap - ring.len) values.length)
      = values.take (cap - ring.len) := by
    rw [take_eq_take_iff]
    omega
  have length : (values.take (cap - ring.len)).length = min (cap - ring.len) values.length :=
    length_take
  -- Compare the two lists place by place: old values are kept, new ones are where they were put.
  apply ext_getElem
  · rw [contents_length, length_append, contents_length, length]
    rfl
  intro i inLeft inRight
  rw [contents_length] at inLeft
  have inside : i < ring.len + min (cap - ring.len) values.length := inLeft
  simp only [contents, getElem_map, getElem_range]
  by_cases old : i < ring.len
  · rw [getElem_append_left (by simpa using old)]
    simp only [write, getElem_map, getElem_range]
    apply store_other
    intro j small
    rw [taken, length] at small
    rw [Nat.add_assoc]
    exact (mod_ne_of_lt (by omega) (by omega)).symm
  rw [getElem_append_right (by simpa using old)]
  simp only [write, taken, length_map, length_range]
  have place : (ring.head + i) % cap = (ring.head + ring.len + (i - ring.len)) % cap := by
    congr 1
    omega
  simp only [cell, place]
  exact store_at _ _ (by omega) (by omega)

/-- Looking at values behind the front copies them. -/
theorem peek_eq (ring : Ring α cap) (offset width : Nat) :
    ring.peek offset width = (ring.contents.drop offset).take width := by
  apply ext_getElem
  · simp only [peek, length_map, length_range, length_take, length_drop, contents_length]
    omega
  · intro i inLeft inRight
    simp [peek, contents]

/-- Consuming drops values off the front. -/
theorem contents_consume (ring : Ring α cap) (count : Nat) :
    (ring.consume count).contents = ring.contents.drop count := by
  apply ext_getElem
  · simp only [contents_length, length_drop, consume]
    omega
  intro i inLeft inRight
  rw [contents_length] at inLeft
  have inside : i < ring.len - min count ring.len := inLeft
  have all : min count ring.len = count := by omega
  -- The front has moved on by as many cells as were dropped.
  simp [contents, consume, cell, all, Nat.add_assoc]

end Ring

end NovaOs
