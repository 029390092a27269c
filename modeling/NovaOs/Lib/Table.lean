import Mathlib.Algebra.BigOperators.Fin
import Mathlib.Algebra.Order.BigOperators.Group.Finset
import Mathlib.Data.List.FinRange

/-! Fixed-size tables, searched and counted from the first slot on. -/

namespace NovaOs

open List

namespace Table

variable {n : Nat} {α : Type} {p : α → Bool} {table : Fin n → α} {i : Fin n}

/-- The first slot whose entry passes a test. -/
def first? (p : α → Bool) (table : Fin n → α) : Option (Fin n) :=
  (List.finRange n).find? fun i => p (table i)

/-- How many entries pass a test. -/
def count (p : α → Bool) (table : Fin n → α) : Nat :=
  (List.finRange n).countP fun i => p (table i)

/-- The weights of all entries taken together. -/
def sum (weight : α → Nat) (table : Fin n → α) : Nat :=
  ((List.finRange n).map fun i => weight (table i)).sum

theorem first?_eq_some (found : first? p table = some i) : p (table i) = true := by
  have passed := List.find?_some found
  exact passed

theorem first?_eq_none (missed : first? p table = none) (i : Fin n) : p (table i) = false := by
  have all := List.find?_eq_none.mp missed i (mem_finRange i)
  simpa using all

/-- The one entry that passes is the first. -/
theorem first?_of_unique (passes : p (table i) = true) (only : ∀ j, p (table j) = true → j = i) :
    first? p table = some i := by
  cases found : first? p table with
  | none => simp [first?_eq_none found i] at passes
  | some j => rw [only j (first?_eq_some found)]

/-- The first entry that passes stays the first where it is kept and no new one passes. -/
theorem first?_of_fewer {other : Fin n → α} (found : first? p table = some i)
    (kept : p (other i) = true) (fewer : ∀ j, p (other j) = true → p (table j) = true) :
    first? p other = some i := by
  obtain ⟨-, at_, inside, here, earlier⟩ := List.find?_eq_some_iff_getElem.mp found
  refine List.find?_eq_some_iff_getElem.mpr ⟨kept, at_, inside, here, fun j below => ?_⟩
  have missed := earlier j below
  rw [Bool.not_eq_true'] at missed ⊢
  exact Bool.eq_false_iff.mpr fun passes => absurd (fewer _ passes) (Bool.eq_false_iff.mp missed)

/-- A new entry whose key no other has leaves keys unique among the live entries. -/
theorem unique_update {ι β : Type} [DecidableEq ι] {entries : ι → α} {k : ι} {entry : α}
    (live : α → Prop) (key : α → β)
    (unique : ∀ i j, live (entries i) → live (entries j) → key (entries i) = key (entries j) →
      i = j)
    (fresh : ∀ i, i ≠ k → live (entries i) → key (entries i) ≠ key entry) (i j : ι)
    (left : live (Function.update entries k entry i))
    (right : live (Function.update entries k entry j))
    (same : key (Function.update entries k entry i) = key (Function.update entries k entry j)) :
    i = j := by
  by_cases first : i = k <;> by_cases second : j = k
  · rw [first, second]
  · rw [Function.update_of_ne second] at right same
    rw [first, Function.update_self] at same
    exact absurd same.symm (fresh j second right)
  · rw [Function.update_of_ne first] at left same
    rw [second, Function.update_self] at same
    exact absurd same (fresh i first left)
  · rw [Function.update_of_ne first] at left same
    rw [Function.update_of_ne second] at right same
    exact unique i j left right same

theorem sum_eq (weight : α → Nat) (table : Fin n → α) :
    sum weight table = ∑ i, weight (table i) := by
  rw [sum, ← ofFn_eq_map, sum_ofFn]

/-- Replacing one entry moves the sum by the difference of the two weights. -/
theorem sum_update (weight : α → Nat) (table : Fin n → α) (i : Fin n) (entry : α) :
    sum weight (Function.update table i entry) + weight (table i)
      = sum weight table + weight entry := by
  simp only [sum_eq]
  rw [← Finset.add_sum_erase _ _ (Finset.mem_univ i),
    ← Finset.add_sum_erase _ (fun j => weight (table j)) (Finset.mem_univ i)]
  -- Away from the slot the two tables agree.
  have rest : ∑ j ∈ Finset.univ.erase i, weight (Function.update table i entry j)
      = ∑ j ∈ Finset.univ.erase i, weight (table j) := by
    apply Finset.sum_congr rfl
    intro j member
    rw [Function.update_of_ne (Finset.ne_of_mem_erase member)]
  rw [rest, Function.update_self]
  omega

/-- No entry weighs more than all of them together. -/
theorem le_sum (weight : α → Nat) (table : Fin n → α) (i : Fin n) :
    weight (table i) ≤ sum weight table := by
  rw [sum_eq]
  exact Finset.single_le_sum (f := fun j => weight (table j)) (fun _ _ => Nat.zero_le _)
    (Finset.mem_univ i)

/-- Counting is adding up ones. -/
theorem count_eq_sum (p : α → Bool) (table : Fin n → α) :
    count p table = sum (fun entry => if p entry then 1 else 0) table := by
  rw [count, sum]
  induction List.finRange n with
  | nil => rfl
  | cons i rest ih =>
    rw [countP_cons, ih, map_cons, sum_cons, Nat.add_comm]

/-- Replacing one entry moves a count by at most one either way. -/
theorem count_update (p : α → Bool) (table : Fin n → α) (i : Fin n) (entry : α) :
    count p (Function.update table i entry) + (if p (table i) then 1 else 0)
      = count p table + (if p entry then 1 else 0) := by
  simp only [count_eq_sum]
  exact sum_update _ table i entry

theorem count_eq_zero : count p table = 0 ↔ ∀ i, p (table i) = false := by
  simp [count, countP_eq_zero]

/-- Where fewer entries pass, the count is no higher. -/
theorem count_mono {β : Type} {q : β → Bool} {other : Fin n → β}
    (fewer : ∀ i, p (table i) = true → q (other i) = true) : count p table ≤ count q other :=
  countP_mono_left fun i _ => fewer i

theorem count_pos (passes : p (table i) = true) : 0 < count p table := by
  rw [count, countP_pos_iff]
  exact ⟨i, mem_finRange i, passes⟩

end Table

end NovaOs
