import Mathlib.Algebra.Group.Int.Defs
import Mathlib.Algebra.Group.Nat.Defs
import Mathlib.Data.List.Basic
import Mathlib.Data.List.TakeDrop

/-! Little-endian words stored inside a byte buffer. -/

namespace NovaOs

variable {off i : Nat} {value : UInt32}

/-- A byte buffer, read from its first byte on. -/
abbrev Bytes := List UInt8

/-- Byte number `i` of a 32-bit word, least significant byte first. -/
def byteOf (value : UInt32) (i : Nat) : UInt8 :=
  UInt8.ofNat (value.toNat / 256 ^ i)

/-- Overwrites four bytes from `off` with a word, least significant byte first. -/
def putU32Le (buf : Bytes) (off : Nat) (value : UInt32) : Bytes :=
  (((buf.set off (byteOf value 0)).set (off + 1) (byteOf value 1)).set
    (off + 2) (byteOf value 2)).set (off + 3) (byteOf value 3)

/-- The word whose least significant byte stands at `off`. -/
def getU32Le (buf : Bytes) (off : Nat) : UInt32 :=
  UInt32.ofNat ((buf.getD off 0).toNat + (buf.getD (off + 1) 0).toNat * 256
    + (buf.getD (off + 2) 0).toNat * 65536 + (buf.getD (off + 3) 0).toNat * 16777216)

variable {buf : Bytes}

/-- Storing a word leaves the buffer's length alone. -/
@[simp] theorem putU32Le_length : (putU32Le buf off value).length = buf.length := by
  simp [putU32Le]

/-- A byte outside the four that were stored is the byte it was. -/
theorem putU32Le_getD_other (buf : Bytes) (value : UInt32) (outside : i < off ∨ off + 4 ≤ i) :
    (putU32Le buf off value).getD i 0 = buf.getD i 0 := by
  -- None of the four overwritten positions is the one being read.
  have apart : off ≠ i ∧ off + 1 ≠ i ∧ off + 2 ≠ i ∧ off + 3 ≠ i := by omega
  obtain ⟨first, second, third, fourth⟩ := apart
  simp only [putU32Le, List.getD_eq_getElem?_getD]
  rw [List.getElem?_set_ne fourth, List.getElem?_set_ne third, List.getElem?_set_ne second,
    List.getElem?_set_ne first]

/-- Each stored byte reads back as the byte of the word it was cut from. -/
theorem putU32Le_getD (value : UInt32) (inside : i < 4) (fits : off + 4 ≤ buf.length) :
    (putU32Le buf off value).getD (off + i) 0 = byteOf value i := by
  -- Later stores land at later positions, so exactly one of the four is seen here.
  have within : off < buf.length ∧ off + 1 < buf.length ∧ off + 2 < buf.length
      ∧ off + 3 < buf.length := by omega
  have : i = 0 ∨ i = 1 ∨ i = 2 ∨ i = 3 := by omega
  rcases this with rfl | rfl | rfl | rfl <;>
    simp [putU32Le, within]

/-- Four bytes cut from a word make that word. -/
theorem getU32Le_of_bytes (bytes : ∀ i < 4, buf.getD (off + i) 0 = byteOf value i) :
    getU32Le buf off = value := by
  have first := bytes 0 (by omega)
  rw [Nat.add_zero] at first
  simp only [getU32Le, first, bytes 1 (by omega), bytes 2 (by omega), bytes 3 (by omega)]
  -- The four base-256 digits of a 32-bit number add up to the number.
  apply UInt32.toNat_inj.mp
  have bound := value.toNat_lt
  simp only [byteOf, UInt8.toNat_ofNat', UInt32.toNat_ofNat']
  omega

/-- A stored word reads back as itself. -/
theorem getU32Le_putU32Le (fits : off + 4 ≤ buf.length) :
    getU32Le (putU32Le buf off value) off = value :=
  getU32Le_of_bytes fun _ inside => putU32Le_getD value inside fits

/-- A word that does not overlap the stored one is the word it was. -/
theorem getU32Le_putU32Le_other (buf : Bytes) {other : Nat} (value : UInt32)
    (apart : other + 4 ≤ off ∨ off + 4 ≤ other) :
    getU32Le (putU32Le buf off value) other = getU32Le buf other := by
  simp only [getU32Le]
  rw [putU32Le_getD_other buf value (by omega),
    putU32Le_getD_other buf value (by omega),
    putU32Le_getD_other buf value (by omega),
    putU32Le_getD_other buf value (by omega)]

/-- Storing a word before or after a window leaves the window as it was. -/
theorem putU32Le_window (buf : Bytes) (off start width : Nat) (value : UInt32)
    (apart : start + width ≤ off ∨ off + 4 ≤ start) :
    ((putU32Le buf off value).drop start).take width = (buf.drop start).take width := by
  apply List.ext_getElem?
  intro i
  simp only [List.getElem?_take, List.getElem?_drop]
  -- Positions past the window are cut off on both sides.
  split
  · rename_i within
    simp only [putU32Le]
    rw [List.getElem?_set_ne (by omega), List.getElem?_set_ne (by omega),
      List.getElem?_set_ne (by omega), List.getElem?_set_ne (by omega)]
  · rfl

end NovaOs
