import Mathlib.Data.List.TakeDrop

/-! Operations on slices that stop the machine when an index is out of bounds. -/

namespace NovaOs

/-- Why a computation stopped the machine. -/
inductive Panic where
  /-- An assertion failed, with the text it prints. -/
  | assertion (message : String)
  /-- A slice was indexed outside its bounds, or copied from one of another length. -/
  | bounds
  deriving DecidableEq, Repr

namespace Slice

variable {α : Type*} {xs : List α}

/-- The elements from `lo` up to `hi`. -/
def slice (xs : List α) (lo hi : Nat) : Except Panic (List α) :=
  if lo ≤ hi ∧ hi ≤ xs.length then .ok ((xs.drop lo).take (hi - lo)) else .error .bounds

/-- Overwrites the elements from `lo` up to `hi` with a slice of exactly that length. -/
def copyFromSlice (xs : List α) (lo hi : Nat) (src : List α) : Except Panic (List α) :=
  if lo ≤ hi ∧ hi ≤ xs.length ∧ src.length = hi - lo then
    .ok (xs.take lo ++ src ++ xs.drop hi)
  else .error .bounds

/-- Overwrites one element. -/
def setIndex (xs : List α) (i : Nat) (value : α) : Except Panic (List α) :=
  if i < xs.length then .ok (xs.set i value) else .error .bounds

theorem slice_ok {lo hi : Nat} (order : lo ≤ hi) (fits : hi ≤ xs.length) :
    slice xs lo hi = .ok ((xs.drop lo).take (hi - lo)) := if_pos ⟨order, fits⟩

theorem copyFromSlice_ok {src : List α} {lo hi : Nat} (order : lo ≤ hi) (fits : hi ≤ xs.length)
    (exact_ : src.length = hi - lo) :
    copyFromSlice xs lo hi src = .ok (xs.take lo ++ src ++ xs.drop hi) :=
  if_pos ⟨order, fits, exact_⟩

theorem setIndex_ok {i : Nat} (value : α) (within : i < xs.length) :
    setIndex xs i value = .ok (xs.set i value) := if_pos within

/-- A computation that went well is followed by the next. -/
@[simp] theorem ok_bind {β γ : Type} (a : β) (next : β → Except Panic γ) :
    (Except.ok a >>= next) = next a := rfl

/-- A computation followed by one that always returns does so when it returns itself. -/
theorem bind_returns_iff {β γ : Type} (x : Except Panic β) {next : β → Except Panic γ}
    (total : ∀ b, ∃ c, next b = .ok c) : (∃ c, (x >>= next) = .ok c) ↔ ∃ b, x = .ok b := by
  cases x with
  | error panic => exact ⟨nofun, nofun⟩
  | ok b => exact ⟨fun _ => ⟨b, rfl⟩, fun _ => total b⟩

/-- A loop whose every turn succeeds ends with the result of its turns. -/
theorem foldlM_ok {σ : Type*} {step : σ → α → Except Panic σ} {next : σ → α → σ} {init : σ}
    (turn : ∀ s, ∀ x ∈ xs, step s x = .ok (next s x)) :
    xs.foldlM step init = .ok (xs.foldl next init) := by
  induction xs generalizing init with
  | nil => rfl
  | cons x xs ih =>
    rw [List.foldlM_cons, turn init x List.mem_cons_self, List.foldl_cons]
    exact ih fun s y member => turn s y (List.mem_cons_of_mem x member)

end Slice

end NovaOs
