import Mathlib.Algebra.Group.Int.Defs
import Mathlib.Algebra.Group.Nat.Defs

/-! Times that are counted in words of 32 bits and start over, against the times they stand for. -/

namespace NovaOs.Ticks

/-- How far one time is behind another, as a signed word has it. -/
def diff (a b : UInt32) : Int :=
  (a - b).toInt32.toInt

/-- The distance of two times, the earlier one taken off. -/
theorem toNat_sub {earlier later : Nat} (order : earlier ≤ later)
    (near : later - earlier < 2 ^ 32) :
    (UInt32.ofNat later - UInt32.ofNat earlier).toNat = later - earlier := by
  rw [UInt32.toNat_sub, UInt32.toNat_ofNat', UInt32.toNat_ofNat']
  omega

/-- The sign of a distance is its highest bit. -/
theorem diff_toNat {a b : UInt32} :
    diff a b = if (a - b).toNat < 2 ^ 31 then ((a - b).toNat : Int)
      else (a - b).toNat - 2 ^ 32 := by
  have signed : (a - b).toInt32.toInt = (a - b).toBitVec.toInt := rfl
  have word : (a - b).toBitVec.toNat = (a - b).toNat := rfl
  rw [diff, signed, BitVec.toInt_eq_toNat_cond, word]
  split <;> split <;> omega

/-- Two times that are not too far apart are told apart by the sign of their distance. -/
theorem diff_eq {a b : Nat} (behind : b < a + 2 ^ 31) (ahead : a < b + 2 ^ 31) :
    diff (UInt32.ofNat a) (UInt32.ofNat b) = (a : Int) - b := by
  rw [diff_toNat, UInt32.toNat_sub, UInt32.toNat_ofNat', UInt32.toNat_ofNat']
  split <;> omega

end NovaOs.Ticks
