import NovaOs.Journal.Model

/-! What the journal's descriptor says when it is read back. -/

namespace NovaOs

open List

/-- A whole sector's bytes make that sector. -/
theorem Sector.ofBytes_val (buf : Bytes) (long : sectorSize ≤ buf.length) :
    (Sector.ofBytes buf).val = buf.take sectorSize := by
  simp only [Sector.ofBytes]
  exact take_append_of_le_length long

/-- Cutting a buffer into sectors and joining them gives the buffer back. -/
theorem bytesOf_sectorsOf (buf : Bytes) (count : Nat) (whole : buf.length = count * sectorSize) :
    bytesOf (sectorsOf buf count) = buf := by
  induction count generalizing buf with
  | zero =>
    have empty : buf = [] := length_eq_zero_iff.mp (by omega)
    simp [sectorsOf, bytesOf, empty]
  | succ count ih =>
    have long : sectorSize ≤ buf.length := by rw [whole, Nat.succ_mul]; omega
    have rest := ih (buf.drop sectorSize) (by rw [length_drop, whole, Nat.succ_mul]; omega)
    simp only [bytesOf, sectorsOf, flatMap_cons] at rest ⊢
    rw [rest, Sector.ofBytes_val buf long, take_append_drop]

/-- A word that lies in the first sector is read from the first sector. -/
theorem getU32Le_bytesOf_cons (sector : Sector) (rest : List Sector) (off : Nat)
    (within : off + 4 ≤ sectorSize) :
    getU32Le (bytesOf (sector :: rest)) off = getU32Le sector.val off := by
  have first : ∀ i, i < sectorSize →
      (bytesOf (sector :: rest)).getD i 0 = sector.val.getD i 0 := by
    intro i small
    simp only [bytesOf, flatMap_cons, getD_eq_getElem?_getD]
    rw [List.getElem?_append_left (by omega)]
  simp only [getU32Le]
  rw [first off (by omega), first (off + 1) (by omega), first (off + 2) (by omega),
    first (off + 3) (by omega)]

@[simp] theorem putTargets_length (desc : Bytes) (i : Nat) (lbas : List UInt32) :
    (putTargets desc i lbas).length = desc.length := by
  induction lbas generalizing desc i with
  | nil => rfl
  | cons lba rest ih => rw [putTargets, ih, putU32Le_length]

/-- Filling the table in leaves every word before it alone. -/
theorem getU32Le_putTargets_before (desc : Bytes) (i off : Nat) (lbas : List UInt32)
    (before : off + 4 ≤ offTargetLba + i * 4) :
    getU32Le (putTargets desc i lbas) off = getU32Le desc off := by
  -- Slots are filled in ascending order, so every later store lies further away.
  induction lbas generalizing desc i with
  | nil => rfl
  | cons lba rest ih =>
    rw [putTargets, ih _ _ (by omega), getU32Le_putU32Le_other _ _ (Or.inl before)]

/-- Every slot of the table reads back as the target stored in it. -/
theorem getU32Le_putTargets (desc : Bytes) (i j : Nat) (lbas : List UInt32)
    (room : offTargetLba + (i + lbas.length) * 4 ≤ desc.length) (within : j < lbas.length) :
    getU32Le (putTargets desc i lbas) (offTargetLba + (i + j) * 4) = lbas.getD j 0 := by
  induction lbas generalizing desc i j with
  | nil => simp at within
  | cons lba rest ih =>
    simp only [length_cons] at room within
    rw [putTargets]
    cases j with
    | zero =>
      -- The slot filled first is not touched by the ones that follow.
      rw [getU32Le_putTargets_before _ _ _ _ (by omega), Nat.add_zero,
        getU32Le_putU32Le (by omega)]
      rfl
    | succ j =>
      have along : i + (j + 1) = i + 1 + j := by omega
      rw [along, ih _ _ _ (by rw [putU32Le_length]; omega) (by omega)]
      rfl

variable (js : JournalState)

@[simp] theorem descriptorHeader_length : (descriptorHeader js).length = descriptorBytes := by
  simp [descriptorHeader]

@[simp] theorem descriptor_length : (descriptor js).length = descriptorBytes := by
  simp [descriptor]

/-- The descriptor as the commit point writes it. -/
def committedDescriptor : Bytes := putU32Le (descriptor js) offCommitFlag commitMagic

@[simp] theorem committedDescriptor_length :
    (committedDescriptor js).length = descriptorBytes := by
  simp [committedDescriptor]

/-- A descriptor written before the commit point carries no mark. -/
theorem descriptor_commitFlag : getU32Le (descriptor js) offCommitFlag = 0 := by
  -- The checksum is stored before the flag, and the table after it.
  rw [descriptor, getU32Le_putU32Le_other _ _ (by decide), descriptorHeader,
    getU32Le_putTargets_before _ _ _ _ (by decide), getU32Le_putU32Le_other _ _ (by decide)]
  exact getU32Le_putU32Le (by simp [descriptorBytes]; decide)

/-- The commit point's descriptor carries the mark. -/
theorem committedDescriptor_commitFlag :
    getU32Le (committedDescriptor js) offCommitFlag = commitMagic :=
  getU32Le_putU32Le (by rw [descriptor_length]; decide)

/-- Storing the mark changes no other word. -/
theorem committedDescriptor_other {off : Nat}
    (apart : off + 4 ≤ offCommitFlag ∨ offCommitFlag + 4 ≤ off) :
    getU32Le (committedDescriptor js) off = getU32Le (descriptor js) off :=
  getU32Le_putU32Le_other _ _ apart

/-- Storing the checksum changes no other word. -/
theorem descriptor_other {off : Nat}
    (apart : off + 4 ≤ offChecksum ∨ offChecksum + 4 ≤ off) :
    getU32Le (descriptor js) off = getU32Le (descriptorHeader js) off :=
  getU32Le_putU32Le_other _ _ apart

theorem committedDescriptor_magic :
    getU32Le (committedDescriptor js) offMagic = journalMagic := by
  rw [committedDescriptor_other _ (by decide), descriptor_other _ (by decide),
    descriptorHeader, getU32Le_putTargets_before _ _ _ _ (by decide)]
  -- The four fields stored after the magic all lie behind it.
  rw [getU32Le_putU32Le_other _ _ (by decide), getU32Le_putU32Le_other _ _ (by decide),
    getU32Le_putU32Le_other _ _ (by decide), getU32Le_putU32Le_other _ _ (by decide)]
  exact getU32Le_putU32Le (by simp [descriptorBytes]; decide)

theorem committedDescriptor_blockCount :
    (getU32Le (committedDescriptor js) offBlockCount).toNat = js.shadow.val.length := by
  rw [committedDescriptor_other _ (by decide), descriptor_other _ (by decide),
    descriptorHeader, getU32Le_putTargets_before _ _ _ _ (by decide)]
  rw [getU32Le_putU32Le_other _ _ (by decide), getU32Le_putU32Le_other _ _ (by decide),
    getU32Le_putU32Le (by simp [descriptorBytes]; decide)]
  -- A transaction's length fits a word many times over.
  have bounded : js.shadow.val.length ≤ 128 := js.shadow.2
  rw [UInt32.toNat_ofNat']
  exact Nat.mod_eq_of_lt (by omega)

theorem committedDescriptor_targetsAbsolute :
    (getU32Le (committedDescriptor js) offTargetsAbsolute != 0) = js.targetsAbsolute := by
  rw [committedDescriptor_other _ (by decide), descriptor_other _ (by decide),
    descriptorHeader, getU32Le_putTargets_before _ _ _ _ (by decide),
    getU32Le_putU32Le (by simp [descriptorBytes]; decide)]
  cases js.targetsAbsolute <;> decide

/-- Slot `j` names the target of the `j`-th held-back sector. -/
theorem committedDescriptor_target (j : Nat) (within : j < js.shadow.val.length) :
    getU32Le (committedDescriptor js) (offTargetLba + j * 4)
      = (js.shadow.val.map Prod.fst).getD j 0 := by
  have bounded : js.shadow.val.length ≤ 128 := js.shadow.2
  rw [committedDescriptor_other _ (Or.inr (by simp only [offCommitFlag, offTargetLba]; omega)),
    descriptor_other _ (Or.inr (by simp only [offChecksum, offTargetLba]; omega)),
    descriptorHeader]
  have slot := getU32Le_putTargets
    (putU32Le (putU32Le (putU32Le (putU32Le (putU32Le (List.replicate descriptorBytes 0)
      offMagic journalMagic) offSeq js.seq) offBlockCount
      (UInt32.ofNat js.shadow.val.length)) offCommitFlag 0) offTargetsAbsolute
      (if js.targetsAbsolute then 1 else 0)) 0 j (js.shadow.val.map Prod.fst)
    (by
      simp only [putU32Le_length, length_replicate, length_map, descriptorBytes,
        descriptorSectors, sectorSize, offTargetLba]
      omega)
    (by simpa using within)
  rwa [Nat.zero_add] at slot

/-- Neither the checksum nor the mark reaches into the target table. -/
theorem committedDescriptor_targetBytes {count : Nat} :
    targetBytes (committedDescriptor js) count = targetBytes (descriptorHeader js) count := by
  simp only [targetBytes, committedDescriptor, descriptor]
  rw [putU32Le_window _ _ _ _ _ (Or.inr (by decide)),
    putU32Le_window _ _ _ _ _ (Or.inr (by decide))]

/-- The stored checksum is the one recovery recomputes from the same table and data. -/
theorem committedDescriptor_checksum :
    getU32Le (committedDescriptor js) offChecksum
      = computeChecksum (targetBytes (committedDescriptor js) js.shadow.val.length)
          (js.shadow.val.map Prod.snd) := by
  rw [committedDescriptor_targetBytes, committedDescriptor_other _ (by decide), descriptor,
    getU32Le_putU32Le (by rw [descriptorHeader_length]; decide)]

/-- The mark lies in the first sector, so the second is written the same both times. -/
theorem committedDescriptor_secondSector :
    (committedDescriptor js).drop sectorSize = (descriptor js).drop sectorSize := by
  have window := putU32Le_window (descriptor js) offCommitFlag sectorSize sectorSize commitMagic
    (Or.inr (by decide))
  rw [take_of_length_le (by simp [descriptorBytes, descriptorSectors]; omega),
    take_of_length_le (by simp [descriptorBytes, descriptorSectors]; omega)] at window
  exact window

end NovaOs
