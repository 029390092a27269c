import NovaOs.Fat32.Model
import NovaOs.Journal.Descriptor

/-! Directory entries as bytes: the names in them, and entries put into a cluster. -/

namespace NovaOs.Fat

open List

/-- A name of printable ASCII characters. -/
def Printable (name : Bytes) : Prop := ∀ c ∈ name, 32 ≤ c ∧ c ≤ 126

instance (name : Bytes) : Decidable (Printable name) := List.decidableBAll _ name

@[simp] theorem padName_length (width : Nat) (text : Bytes) :
    (padName width text).length = width := by
  simp [padName]

@[simp] theorem toFat83_length {name : Bytes} : (toFat83 name).length = 11 := by
  simp [toFat83]

theorem upperCase_printable {c : UInt8} (low : 32 ≤ c) (high : c ≤ 126) :
    upperCase c ≠ 0 ∧ upperCase c ≠ 0xE5 := by
  have low' := UInt8.le_iff_toNat_le.mp low
  have high' := UInt8.le_iff_toNat_le.mp high
  -- Upper case is printable too.
  have range : 32 ≤ (upperCase c).toNat ∧ (upperCase c).toNat ≤ 126 := by
    unfold upperCase
    split
    · rename_i letter
      simp only [Bool.and_eq_true, decide_eq_true_eq, UInt8.le_iff_toNat_le] at letter
      rw [UInt8.toNat_sub_of_le _ _ low]
      simp only [UInt8.reduceToNat] at *
      omega
    · exact ⟨low', high'⟩
  constructor
  · intro zero
    rw [zero] at range
    exact absurd range (by decide)
  · intro deleted
    rw [deleted] at range
    exact absurd range (by decide)

/-- The first byte of a printable name's 8.3 form marks neither an end nor a deleted entry. -/
theorem toFat83_first {name : Bytes} (printable : Printable name) :
    (toFat83 name).getD 0 0 ≠ 0 ∧ (toFat83 name).getD 0 0 ≠ 0xE5 := by
  have first : (toFat83 name).getD 0 0 = (padName 8 (name.takeWhile (· != 46))).getD 0 0 := by
    simp [toFat83, getD_eq_getElem?_getD]
  rw [first]
  cases base : name.takeWhile (· != 46) with
  | nil => decide
  | cons c rest =>
    have member : c ∈ name := (takeWhile_sublist _).subset (base ▸ mem_cons_self)
    obtain ⟨low, high⟩ := printable c member
    simpa [padName] using upperCase_printable low high

theorem length_words (word : Nat → UInt32) {count : Nat} :
    ((range count).flatMap fun j => u32Bytes (word j)).length = 4 * count := by
  simp [u32Bytes, length_flatMap, Nat.mul_comm]

/-- Words stored one after another read back one by one. -/
theorem getU32Le_words (word : Nat → UInt32) {count j : Nat} (inside : j < count) :
    getU32Le ((range count).flatMap fun j => u32Bytes (word j)) (j * 4) = word j := by
  apply getU32Le_of_bytes
  intro i small
  induction count with
  | zero => omega
  | succ count ih =>
    rw [range_succ, flatMap_append, flatMap_cons, flatMap_nil, append_nil, getD_eq_getElem?_getD]
    by_cases last : j = count
    · rw [getElem?_append_right (by rw [length_words]; omega), length_words, last,
        show count * 4 + i - 4 * count = i by omega]
      simp [u32Bytes, small]
    · rw [getElem?_append_left (by rw [length_words]; omega), ← getD_eq_getElem?_getD]
      exact ih (by omega)

section NewEntry

variable {rawName : Bytes} {firstCluster size : UInt32}

section

variable (name : rawName.length = 11)

include name

theorem newDirent_length : (newDirent rawName firstCluster size).length = direntSize := by
  simp [newDirent, name, u16Bytes, u32Bytes, direntSize]

theorem newDirent_name : direntName (newDirent rawName firstCluster size) = rawName := by
  simp [newDirent, direntName, append_assoc, ← name]

theorem newDirent_first : (newDirent rawName firstCluster size).getD 0 0 = rawName.getD 0 0 := by
  have inside : 0 < rawName.length := by omega
  simp only [newDirent, append_assoc, getD_eq_getElem?_getD, getElem?_append_left inside]

theorem newDirent_attr : direntAttr (newDirent rawName firstCluster size) = 0 := by
  simp [newDirent, direntAttr, getD_eq_getElem?_getD, name]

theorem newDirent_inUse (named : rawName.getD 0 0 ≠ 0xE5) :
    inUse (newDirent rawName firstCluster size) = true := by
  simp only [inUse, newDirent_attr name, newDirent_first name, Bool.and_eq_true]
  exact ⟨⟨bne_iff_ne.mpr named, by decide⟩, by decide⟩

theorem newDirent_size : direntSizeField (newDirent rawName firstCluster size) = size := by
  apply getU32Le_of_bytes
  intro i inside
  have front : (rawName ++ replicate 9 (0 : UInt8) ++ u16Bytes (firstCluster >>> 16).toUInt16
      ++ replicate 4 (0 : UInt8) ++ u16Bytes (firstCluster &&& 0xFFFF).toUInt16).length
        = 28 := by
    simp [name, u16Bytes]
  rw [newDirent, getD_eq_getElem?_getD, getElem?_append_right (by omega), front,
    Nat.add_sub_cancel_left]
  simp [u32Bytes, inside]

end

/-- A 16-bit field reads back as the value whose bytes stand there. -/
theorem getU16Le_of_bytes {buf : Bytes} {off : Nat} {value : UInt16}
    (low : buf.getD off 0 = UInt8.ofNat value.toNat)
    (high : buf.getD (off + 1) 0 = UInt8.ofNat (value.toNat / 256)) :
    getU16Le buf off = value := by
  apply UInt16.toNat_inj.mp
  have bound := value.toNat_lt
  simp only [getU16Le, low, high, UInt8.toNat_ofNat', UInt16.toNat_ofNat']
  omega

/-- The two halves of a word put together again. -/
theorem join_halves {value : UInt32} :
    ((value >>> 16).toUInt16.toUInt32 <<< 16) ||| (value &&& 0xFFFF).toUInt16.toUInt32
      = value := by
  apply UInt32.toNat_inj.mp
  have bound := value.toNat_lt
  have low : (value &&& 0xFFFF).toUInt16.toUInt32.toNat = value.toNat % 65536 := by
    have mask : (0xFFFF : UInt32).toNat = 2 ^ 16 - 1 := rfl
    rw [UInt16.toNat_toUInt32, UInt32.toNat_toUInt16, UInt32.toNat_and, mask,
      Nat.and_two_pow_sub_one_eq_mod]
    omega
  have high : ((value >>> 16).toUInt16.toUInt32 <<< 16).toNat = (value.toNat / 65536) <<< 16 := by
    rw [UInt32.toNat_shiftLeft, UInt16.toNat_toUInt32, UInt32.toNat_toUInt16,
      UInt32.toNat_shiftRight]
    simp only [UInt32.reduceToNat, Nat.reduceMod, Nat.shiftRight_eq_div_pow, Nat.shiftLeft_eq]
    omega
  -- The halves have no bit in common, so joining them is adding them.
  rw [UInt32.toNat_or, low, high, ← Nat.shiftLeft_add_eq_or_of_lt (by omega), Nat.shiftLeft_eq]
  omega

theorem newDirent_cluster (name : rawName.length = 11) :
    direntCluster (newDirent rawName firstCluster size) = firstCluster := by
  have high : getU16Le (newDirent rawName firstCluster size) 20
      = (firstCluster >>> 16).toUInt16 := by
    apply getU16Le_of_bytes <;>
      simp [newDirent, getD_eq_getElem?_getD, getElem?_append, name, u16Bytes]
  have low : getU16Le (newDirent rawName firstCluster size) 26
      = (firstCluster &&& 0xFFFF).toUInt16 := by
    apply getU16Le_of_bytes <;>
      simp [newDirent, getD_eq_getElem?_getD, getElem?_append, name, u16Bytes]
  rw [direntCluster, high, low, join_halves]

end NewEntry

section Clusters

variable {buf : Bytes} {i j : Nat} {off : Nat} {bytes entry : Bytes}

theorem overwrite_length (fits : off + bytes.length ≤ buf.length) :
    (overwrite buf off bytes).length = buf.length := by
  simp only [overwrite, length_append, length_take, length_drop]
  omega

/-- An entry put in its place is the entry found there. -/
theorem direntAt_overwrite (size : entry.length = direntSize)
    (fits : i * direntSize + direntSize ≤ buf.length) :
    direntAt (overwrite buf (i * direntSize) entry) i = entry := by
  have front : (buf.take (i * direntSize)).length = i * direntSize := by
    rw [length_take]
    omega
  rw [direntAt, overwrite, append_assoc, drop_append_of_le_length (by omega),
    drop_eq_nil_of_le (by omega), nil_append, ← size, take_left']
  rfl

/-- Two entries of a cluster do not overlap. -/
theorem apart_entries (apart : j ≠ i) :
    j * direntSize + direntSize ≤ i * direntSize ∨
      i * direntSize + direntSize ≤ j * direntSize := by
  simp only [direntSize]
  omega

/-- A byte outside what was overwritten is the byte it was. -/
theorem overwrite_getElem?_other {k : Nat} (fits : off + bytes.length ≤ buf.length)
    (outside : k < off ∨ off + bytes.length ≤ k) : (overwrite buf off bytes)[k]? = buf[k]? := by
  have front : (buf.take off).length = off := by
    rw [length_take]
    omega
  rw [overwrite, append_assoc]
  rcases outside with before | behind
  · rw [getElem?_append_left (by omega), getElem?_take_of_lt before]
  · rw [getElem?_append_right (by omega), getElem?_append_right (by omega), front, getElem?_drop]
    congr 1
    omega

/-- Other entries stay as they are. -/
theorem direntAt_overwrite_other (size : entry.length = direntSize)
    (fits : i * direntSize + direntSize ≤ buf.length) (apart : j ≠ i) :
    direntAt (overwrite buf (i * direntSize) entry) j = direntAt buf j := by
  have away := apart_entries apart
  apply ext_getElem?
  intro k
  simp only [direntAt, getElem?_take, getElem?_drop]
  split
  · exact overwrite_getElem?_other (by omega) (by omega)
  · rfl

/-- Marking an entry deleted changes its first byte. -/
theorem direntAt_set {byte : UInt8} :
    direntAt (buf.set (i * direntSize) byte) i = (direntAt buf i).set 0 byte := by
  rw [direntAt, direntAt, drop_set, if_neg (Nat.lt_irrefl _), Nat.sub_self, take_set]

theorem direntAt_set_other (apart : j ≠ i) {byte : UInt8} :
    direntAt (buf.set (i * direntSize) byte) j = direntAt buf j := by
  have away := apart_entries apart
  apply ext_getElem?
  intro k
  simp only [direntAt, getElem?_take, getElem?_drop]
  split
  · exact getElem?_set_ne (by omega)
  · rfl

end Clusters

end NovaOs.Fat
