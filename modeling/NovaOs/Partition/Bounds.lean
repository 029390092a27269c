import NovaOs.Partition.Model

/-! Where a disk makes the reading of its partition table leave a sector's buffer. -/

namespace NovaOs.Partition

section Reads

variable {buf : Bytes} {dev after : Device} {off : Nat} {lba : UInt32} {left : Nat}

@[simp] theorem ok_bind {α β : Type} (value : α) (next : α → Except Overread β) :
    (Except.ok value >>= next) = next value := rfl

@[simp] theorem error_bind {α β : Type} {fault : Overread} (next : α → Except Overread β) :
    (Except.error fault >>= next) = .error fault := rfl

theorem byteAt_ok {i : Nat} (inside : i < buf.length) : byteAt buf i = .ok (buf.getD i 0) :=
  if_pos inside

theorem readU32_ok (inside : off + 4 ≤ buf.length) : readU32 buf off = .ok (getU32Le buf off) :=
  if_pos inside

theorem readU64_ok (inside : off + 8 ≤ buf.length) : readU64 buf off = .ok (getU64Le buf off) :=
  if_pos inside

/-- A sector that was read is the sector on the disk, and the disk is as it was. -/
theorem readOne_some (read : readOne dev lba = (some buf, after)) :
    buf = (dev.disk (dev.targetLba lba)).val ∧ after.disk = dev.disk ∧
      after.partitionOffset = dev.partitionOffset := by
  simp only [readOne, Device.blockdevReadSectors, Device.dispatchRead, Device.readSector] at read
  cases fault : dev.faults 0 with
  | true => simp [fault] at read
  | false =>
    simp only [fault, Bool.false_eq_true, if_false, Option.map_some, Prod.mk.injEq,
      Option.some.injEq] at read
    obtain ⟨rfl, rfl⟩ := read
    exact ⟨by simp [bytesOf], rfl, rfl⟩

theorem readOne_length (read : readOne dev lba = (some buf, after)) : buf.length = 512 := by
  rw [(readOne_some read).1]
  exact (dev.disk _).property

/-- On a disk without faults every sector is read. -/
theorem readOne_sound (sound : dev.faults = noFaults) :
    readOne dev lba = (some (dev.disk (dev.targetLba lba)).val, dev) := by
  rw [readOne, Device.blockdevReadSectors, Device.dispatchRead_of_noFaults sound]
  simp [bytesOf]

/-- Looking for a byte that is not zero stays inside where the whole run of bytes does. -/
theorem typeIsZero_ok (inside : off + left ≤ buf.length) :
    ∃ zero, typeIsZero buf off left = .ok zero := by
  -- The place moves along as bytes are looked at, so it stays quantified over.
  induction left generalizing off with
  | zero => exact ⟨true, rfl⟩
  | succ left ih =>
    rw [typeIsZero, byteAt_ok (by omega)]
    -- Either this byte settles it, or the rest does.
    by_cases here : buf.getD off 0 != 0
    · exact ⟨false, by simp only [ok_bind, if_pos here]; rfl⟩
    · obtain ⟨zero, rest⟩ := ih (by omega : off + 1 + left ≤ buf.length)
      exact ⟨zero, by simp only [ok_bind, if_neg here, rest]⟩

/-- It finds out whether there is one, if it comes to an answer. -/
theorem typeIsZero_value {zero : Bool} (run : typeIsZero buf off left = .ok zero) :
    zero = true ↔ ∀ k < left, buf.getD (off + k) 0 = 0 := by
  induction left generalizing off with
  | zero =>
    cases run
    simp
  | succ left ih =>
    rw [typeIsZero] at run
    by_cases inside : off < buf.length
    · rw [byteAt_ok inside, ok_bind] at run
      -- The first byte is looked at here, the others by the rest of the loop.
      have shift : (∀ k < left + 1, buf.getD (off + k) 0 = 0) ↔
          buf.getD off 0 = 0 ∧ ∀ k < left, buf.getD (off + 1 + k) 0 = 0 := by
        simp only [Nat.forall_lt_succ_left, Nat.add_zero, Nat.add_assoc, Nat.add_comm 1]
      rw [shift]
      by_cases here : buf.getD off 0 = 0
      · rw [if_neg (by rw [here]; decide)] at run
        rw [ih run]
        exact ⟨fun rest => ⟨here, rest⟩, fun both => both.2⟩
      · rw [if_pos (bne_iff_ne.mpr here)] at run
        cases run
        exact ⟨nofun, fun both => absurd both.1 here⟩
    · have outside : byteAt buf off = .error ⟨off⟩ := if_neg inside
      rw [outside, error_bind] at run
      cases run

end Reads

section Entries

variable {hdr : GptHeader} {loaded : Option (UInt32 × Bytes)}

theorem entriesPerSector_toNat :
    hdr.entriesPerSector.toNat = 512 / hdr.sizeOfPartitionEntry.toNat := by
  rw [GptHeader.entriesPerSector, UInt32.toNat_div]
  rfl

section

variable (divides : 512 % hdr.sizeOfPartitionEntry = 0)

include divides

/-- The entries of a sector fill it exactly. -/
theorem entries_fill :
    512 / hdr.sizeOfPartitionEntry.toNat * hdr.sizeOfPartitionEntry.toNat = 512 := by
  have whole : 512 % hdr.sizeOfPartitionEntry.toNat = 0 := by
    simpa using congrArg UInt32.toNat divides
  exact Nat.div_mul_cancel (Nat.dvd_of_mod_eq_zero whole)

/-- So the last entry of a sector ends with it. -/
theorem entry_reach (i : Nat) :
    i % (512 / hdr.sizeOfPartitionEntry.toNat) * hdr.sizeOfPartitionEntry.toNat
      + hdr.sizeOfPartitionEntry.toNat ≤ 512 := by
  have full := entries_fill divides
  have number : i % (512 / hdr.sizeOfPartitionEntry.toNat) + 1
      ≤ 512 / hdr.sizeOfPartitionEntry.toNat := by
    apply Nat.mod_lt
    rcases Nat.eq_zero_or_pos (512 / hdr.sizeOfPartitionEntry.toNat) with none | some
    · rw [none, Nat.zero_mul] at full
      omega
    · exact some
  have reach := Nat.mul_le_mul_right hdr.sizeOfPartitionEntry.toNat number
  rwa [full, Nat.add_one_mul] at reach

/-- The product that gives an entry's offset does not wrap. -/
theorem offsetInSector_toNat (i : UInt32) :
    (hdr.offsetInSector i).toNat
      = i.toNat % (512 / hdr.sizeOfPartitionEntry.toNat) * hdr.sizeOfPartitionEntry.toNat := by
  have reach := entry_reach divides i.toNat
  rw [GptHeader.offsetInSector, UInt32.toNat_mul, UInt32.toNat_mod, entriesPerSector_toNat,
    Nat.mod_eq_of_lt (by omega)]

/-- Entries of an accepted size lie in their sector whole. -/
theorem entry_inside (i : UInt32) :
    (hdr.offsetInSector i).toNat + hdr.sizeOfPartitionEntry.toNat ≤ 512 := by
  rw [offsetInSector_toNat divides]
  exact entry_reach divides i.toNat

end

/-- What was loaded before is a sector. -/
def Loaded (loaded : Option (UInt32 × Bytes)) : Prop :=
  ∀ idx buf, loaded = some (idx, buf) → buf.length = 512

theorem loadSector_length {dev after : Device} (before : Loaded loaded) {idx : UInt32}
    {buf : Bytes} (load : loadSector dev hdr loaded idx = (some buf, after)) :
    buf.length = 512 := by
  cases loaded with
  | none => exact readOne_length load
  | some last => ?_
  simp only [loadSector] at load
  split at load
  · exact readOne_length load
  · cases load
    exact before last.1 last.2 rfl

/-- The entries are gone through without leaving a sector, if each has the 48 bytes that are
looked at. -/
theorem gptEntries_ok (divides : 512 % hdr.sizeOfPartitionEntry = 0)
    (wide : 48 ≤ hdr.sizeOfPartitionEntry) (dev : Device) (out : PartitionTable)
    (before : Loaded loaded) (i : UInt32) (left : Nat) :
    ∃ result, gptEntries dev hdr out loaded i left = .ok result := by
  induction left generalizing dev out loaded i with
  | zero => exact ⟨_, rfl⟩
  | succ left ih =>
    rw [gptEntries]
    split
    · rcases load : loadSector dev hdr loaded (hdr.sectorIdx i) with ⟨read, next⟩
      cases read with
      | none => exact ⟨_, rfl⟩
      | some buf => ?_
      have length := loadSector_length before load
      have inside := entry_inside divides i
      have wide' : 48 ≤ hdr.sizeOfPartitionEntry.toNat := wide
      have now : Loaded (some (hdr.sectorIdx i, buf)) := by
        intro idx other same
        cases same
        exact length
      obtain ⟨zero, type⟩ := typeIsZero_ok
        (by omega : (hdr.offsetInSector i).toNat + 16 ≤ buf.length)
      -- An unused entry is passed over; of another the two addresses are read.
      cases zero with
      | true =>
        obtain ⟨result, rest⟩ := ih next out now (i + 1)
        exact ⟨result, by simp only [type, ok_bind, if_true, rest]⟩
      | false =>
        simp only [type, ok_bind, Bool.false_eq_true, if_false,
          readU64_ok (by omega : (hdr.offsetInSector i).toNat + 32 + 8 ≤ buf.length),
          readU64_ok (by omega : (hdr.offsetInSector i).toNat + 40 + 8 ≤ buf.length)]
        exact ih next _ now (i + 1)
    · exact ⟨_, rfl⟩

end Entries

/-- The header of a disk's GPT. -/
def headerOf (dev : Device) : GptHeader := gptHeaderOf (dev.disk (dev.targetLba 1)).val

/-- The entry size that a disk's GPT declares. -/
def declaredEntrySize (dev : Device) : UInt32 := (headerOf dev).sizeOfPartitionEntry

/-- A disk whose boot sector stands for a GPT. -/
def Protective (dev : Device) : Prop :=
  let boot := (dev.disk (dev.targetLba 0)).val
  boot.getD mbrSignatureOffset 0 = 0x55 ∧ boot.getD (mbrSignatureOffset + 1) 0 = 0xAA ∧
    boot.getD (mbrPartitionTableOffset + 4) 0 = gptProtectiveType

/-- A disk with a GPT that has entries. -/
def HasEntries (dev : Device) : Prop :=
  Protective dev ∧ (headerOf dev).signature = ascii "EFI PART" ∧
    (headerOf dev).numPartitionEntries ≠ 0

/-- The table is read, whatever comes of it, without leaving a buffer. -/
def InBounds (dev : Device) : Prop := ∃ result, partitionReadTable dev = .ok result

/-- Entry sizes with which no entry is read past the end of its sector: those that are turned away,
and those with room for both addresses. -/
def SafeSize (size : UInt32) : Prop := size = 0 ∨ 512 % size ≠ 0 ∨ 48 ≤ size

section Tables

variable {dev : Device} {sector0 : Bytes}

/-- The partition that an entry of a boot sector describes. -/
def mbrEntryAt (sector0 : Bytes) (entry : Nat) : Option PartitionEntry :=
  let type := sector0.getD (entry + 4) 0
  let startLba := getU32Le sector0 (entry + 8)
  let sectorCount := getU32Le sector0 (entry + 12)
  if type == 0 || sectorCount == 0 || startLba == 0 || 0xFFFFFFFF - sectorCount < startLba then
    none
  else some ⟨startLba, sectorCount, type⟩

theorem mbrEntryPlausible_ok {entry : Nat} (inside : entry + 16 ≤ sector0.length) :
    mbrEntryPlausible sector0 entry = .ok (mbrEntryAt sector0 entry) := by
  have type := byteAt_ok (by omega : entry + 4 < sector0.length)
  have start := readU32_ok (by omega : entry + 8 + 4 ≤ sector0.length)
  have count := readU32_ok (by omega : entry + 12 + 4 ≤ sector0.length)
  simp only [mbrEntryPlausible, mbrEntryAt, type, start, count, ok_bind]
  split
  · rename_i zero
    rw [if_pos (by rw [zero, Bool.true_or])]
    rfl
  rename_i nonzero
  split
  · rename_i past
    rw [if_pos (by simp [past])]
    rfl
  · rename_i fits
    rw [if_neg (by simpa [fits] using nonzero)]
    rfl

theorem mbrEntries_ok (length : sector0.length = 512) (out : PartitionTable) {i left : Nat}
    (few : i + left ≤ 4) : ∃ result, mbrEntries sector0 out i left = .ok result := by
  induction left generalizing out i with
  | zero => exact ⟨out, rfl⟩
  | succ left ih =>
    -- The last of the four entries ends where the signature starts.
    have inside : mbrPartitionTableOffset + i * mbrEntrySize + 16 ≤ sector0.length := by
      simp only [mbrPartitionTableOffset, mbrEntrySize]
      omega
    simp only [mbrEntries, mbrEntryPlausible_ok inside, ok_bind]
    cases mbrEntryAt sector0 (mbrPartitionTableOffset + i * mbrEntrySize) with
    | none => exact ih out (by omega)
    | some entry => exact ih _ (by omega)

/-- The bytes of a boot sector that are looked at first. -/
theorem byteAt_boot (length : sector0.length = 512) :
    byteAt sector0 mbrSignatureOffset = .ok (sector0.getD mbrSignatureOffset 0) ∧
      byteAt sector0 (mbrSignatureOffset + 1) = .ok (sector0.getD (mbrSignatureOffset + 1) 0) ∧
      byteAt sector0 (mbrPartitionTableOffset + 4)
        = .ok (sector0.getD (mbrPartitionTableOffset + 4) 0) :=
  ⟨byteAt_ok (by rw [length]; decide), byteAt_ok (by rw [length]; decide),
    byteAt_ok (by rw [length]; decide)⟩

theorem mbrTable_ok (length : sector0.length = 512) (out : PartitionTable) :
    ∃ result, mbrTable sector0 out dev = .ok result := by
  obtain ⟨table, entries⟩ := mbrEntries_ok length out (by omega : 0 + 4 ≤ 4)
  simp only [mbrTable, entries, ok_bind]
  split <;> exact ⟨_, rfl⟩

theorem tryParseGpt_ok (safe : (headerOf dev).signature = ascii "EFI PART" →
      (headerOf dev).numPartitionEntries ≠ 0 → SafeSize (headerOf dev).sizeOfPartitionEntry)
    (out : PartitionTable) : ∃ result, tryParseGpt dev out = .ok result := by
  rw [tryParseGpt]
  rcases read : readOne dev 1 with ⟨sector, next⟩
  cases sector with
  | none => exact ⟨_, rfl⟩
  | some buf => ?_
  have length := readOne_length read
  have header : readHeader buf = .ok (gptHeaderOf buf) := if_pos (by omega)
  obtain ⟨same, _⟩ := readOne_some read
  rw [headerOf, ← same] at safe
  simp only [header, ok_bind]
  split
  · exact ⟨_, rfl⟩
  rename_i signed
  split
  · exact ⟨_, rfl⟩
  rename_i accepted
  by_cases few : (gptHeaderOf buf).numPartitionEntries = 0
  · rw [few]
    exact ⟨_, rfl⟩
  -- The size was accepted, and so it is one with room for both addresses.
  simp only [Bool.or_eq_true, beq_iff_eq, bne_iff_ne, ne_eq, not_or, not_not] at accepted
  have wide : 48 ≤ (gptHeaderOf buf).sizeOfPartitionEntry := by
    rcases safe (by simpa using signed) few with zero | uneven | wide
    · exact absurd zero accepted.1
    · exact absurd accepted.2 uneven
    · exact wide
  have nothing : Loaded none := fun _ _ loaded => by cases loaded
  obtain ⟨result, entries⟩ := gptEntries_ok accepted.2 wide next out nothing 0
    (gptHeaderOf buf).numPartitionEntries.toNat
  rw [entries]
  exact ⟨_, rfl⟩

theorem partitionReadTable_ok (safe : HasEntries dev → SafeSize (declaredEntrySize dev)) :
    InBounds dev := by
  rw [InBounds, partitionReadTable]
  rcases read : readOne dev 0 with ⟨sector, next⟩
  cases sector with
  | none => exact ⟨_, rfl⟩
  | some sector0 => ?_
  have length := readOne_length read
  obtain ⟨rfl, disk, offset⟩ := readOne_some read
  have later : headerOf next = headerOf dev := by
    rw [headerOf, headerOf, Device.targetLba, Device.targetLba, disk, offset]
  simp only [byteAt_boot length, ok_bind]
  split
  · exact ⟨_, rfl⟩
  rename_i signed
  simp only [Bool.or_eq_true, bne_iff_ne, not_or, not_not] at signed
  split
  · rename_i protective
    -- Whatever the GPT gives, the boot sector's entries are read in bounds.
    obtain ⟨⟨found, out, last⟩, parsed⟩ := tryParseGpt_ok (by
      rw [later]
      exact fun named some_entry =>
        safe ⟨⟨signed.1, signed.2, eq_of_beq protective⟩, named, some_entry⟩) .empty
    rw [parsed, ok_bind]
    cases found with
    | true => exact ⟨_, rfl⟩
    | false => exact mbrTable_ok length out
  · exact mbrTable_ok length .empty

/-- Behind a boot sector that stands for a GPT, a read outside its sectors is one of the whole. -/
theorem partitionReadTable_error (sound : dev.faults = noFaults) (boot : Protective dev)
    {fault : Overread}
    (parsed : tryParseGpt dev .empty = .error fault) : partitionReadTable dev = .error fault := by
  have length : (dev.disk (dev.targetLba 0)).val.length = 512 := (dev.disk _).property
  rw [partitionReadTable, readOne_sound sound]
  simp only [byteAt_boot length, ok_bind, boot.1, boot.2.1, boot.2.2]
  rw [if_neg (by decide), if_pos (by decide), parsed, error_bind]

end Tables

section Following

variable {dev : Device} {hdr : GptHeader} {out : PartitionTable}

/-- A sector of the entry array, as it is on the disk. -/
def entrySector (dev : Device) (hdr : GptHeader) (sectorIdx : UInt32) : Bytes :=
  (dev.disk (dev.targetLba (hdr.entryLba sectorIdx))).val

theorem entrySector_length (idx : UInt32) : (entrySector dev hdr idx).length = 512 :=
  (dev.disk _).property

/-- What was loaded before is the sector on the disk. -/
def Current (dev : Device) (hdr : GptHeader) (loaded : Option (UInt32 × Bytes)) : Prop :=
  ∀ idx buf, loaded = some (idx, buf) → buf = entrySector dev hdr idx

theorem Current.none : Current dev hdr .none := nofun

theorem Current.some (idx : UInt32) : Current dev hdr (.some (idx, entrySector dev hdr idx)) := by
  intro _ _ same
  cases same
  rfl

/-- So the loop sees the disk, whether it reads a sector or has it already. -/
theorem loadSector_current (sound : dev.faults = noFaults)
    {loaded : Option (UInt32 × Bytes)} (current : Current dev hdr loaded) {idx : UInt32} :
    loadSector dev hdr loaded idx = (.some (entrySector dev hdr idx), dev) := by
  cases loaded with
  | none => exact readOne_sound sound
  | some last => ?_
  obtain ⟨before, buf⟩ := last
  rw [loadSector]
  split
  · exact readOne_sound sound
  · rename_i same
    simp only [bne_iff_ne, ne_eq, not_not] at same
    rw [current before buf rfl, same]

/-- Whether an entry's type is all zero. -/
def unusedAt (dev : Device) (hdr : GptHeader) (i : UInt32) : Except Overread Bool :=
  typeIsZero (entrySector dev hdr (hdr.sectorIdx i)) (hdr.offsetInSector i).toNat 16

variable {loaded : Option (UInt32 × Bytes)} {i : UInt32}

/-- An unused entry is passed over. -/
theorem gptEntries_unused (sound : dev.faults = noFaults) (current : Current dev hdr loaded)
    (room : out.partitions.length < maxPartitions) (unused : unusedAt dev hdr i = .ok true)
    {left : Nat} :
    gptEntries dev hdr out loaded i (left + 1)
      = gptEntries dev hdr out (some (hdr.sectorIdx i, entrySector dev hdr (hdr.sectorIdx i)))
          (i + 1) left := by
  rw [unusedAt] at unused
  rw [gptEntries, dif_pos room, loadSector_current sound current]
  simp only [unused, ok_bind, if_true]

/-- A used entry that ends behind its sector makes the loop read there. -/
theorem gptEntries_cut (sound : dev.faults = noFaults) (current : Current dev hdr loaded)
    (room : out.partitions.length < maxPartitions) (used : unusedAt dev hdr i = .ok false)
    (cut : 512 < (hdr.offsetInSector i).toNat + 48) (left : Nat) :
    ∃ fault, gptEntries dev hdr out loaded i (left + 1) = .error fault := by
  have length := @entrySector_length dev hdr (hdr.sectorIdx i)
  rw [unusedAt] at used
  rw [gptEntries, dif_pos room, loadSector_current sound current]
  simp only [used, ok_bind, Bool.false_eq_true, if_false]
  -- The first address may still be inside; the second is not.
  have second : ∃ fault, readU64 (entrySector dev hdr (hdr.sectorIdx i))
      ((hdr.offsetInSector i).toNat + 40) = .error fault := ⟨_, if_neg (by omega)⟩
  obtain ⟨fault, overread⟩ := second
  cases readU64 (entrySector dev hdr (hdr.sectorIdx i)) ((hdr.offsetInSector i).toNat + 32) with
  | error early => exact ⟨early, rfl⟩
  | ok start => exact ⟨fault, by simp only [overread, ok_bind, error_bind]⟩

/-- So it does behind any number of unused entries. -/
theorem gptEntries_overread (sound : dev.faults = noFaults) (current : Current dev hdr loaded)
    (room : out.partitions.length < maxPartitions) {first k : Nat} (left : Nat)
    (unused : ∀ j < k, unusedAt dev hdr (UInt32.ofNat (first + j)) = .ok true)
    (used : unusedAt dev hdr (UInt32.ofNat (first + k)) = .ok false)
    (cut : 512 < (hdr.offsetInSector (UInt32.ofNat (first + k))).toNat + 48) :
    ∃ fault, gptEntries dev hdr out loaded (UInt32.ofNat first) (k + (left + 1))
      = .error fault := by
  -- The entries are passed over one by one, each from the place the one before left.
  induction k generalizing first loaded with
  | zero =>
    rw [Nat.zero_add]
    exact gptEntries_cut sound current room used cut left
  | succ k ih =>
    have along : k + 1 + (left + 1) = (k + (left + 1)) + 1 := by omega
    have next : UInt32.ofNat first + 1 = UInt32.ofNat (first + 1) := by simp
    have here : unusedAt dev hdr (UInt32.ofNat first) = .ok true := unused 0 (by omega)
    rw [along, gptEntries_unused sound current room here, next]
    refine ih (.some _) ?_ ?_ ?_
    · intro j inside
      rw [Nat.add_assoc, Nat.add_comm 1]
      exact unused (j + 1) (by omega)
    · rwa [Nat.add_assoc, Nat.add_comm 1]
    · rwa [Nat.add_assoc, Nat.add_comm 1]

end Following

section Narrow

/-- A boot sector with nothing but the entry that stands for a GPT. -/
def protectiveMbr : Bytes :=
  List.replicate 450 0 ++ [0xEE] ++ List.replicate 59 0 ++ [0x55, 0xAA]

/-- A GPT header with an entry array in sector 2. -/
def gptHeader (entries size : UInt32) : Bytes :=
  putU32Le (putU32Le (putU32Le (ascii "EFI PART" ++ List.replicate 504 0) 72 2) 80 entries) 84 size

/-- A sector that is zero up to its last 32 bytes. -/
def lateSector : Bytes := List.replicate 480 0 ++ List.replicate 32 1

/-- A disk whose GPT declares 512 entries of a size and has that sector for an entry array. -/
def narrowDev (size : UInt32) : Device where
  disk := fun addr =>
    if addr = 0 then Sector.ofBytes protectiveMbr
    else if addr = 1 then Sector.ofBytes (gptHeader 512 size)
    else Sector.ofBytes lateSector
  activeDevice := 0
  partitionOffset := 0
  faults := noFaults
  issued := []

set_option maxRecDepth 2000

theorem lateSector_getD {i : Nat} (inside : i < 512) :
    (Sector.ofBytes lateSector).val.getD i 0 = if i < 480 then 0 else 1 := by
  have whole : (Sector.ofBytes lateSector).val = lateSector := by decide
  rw [whole, lateSector, List.getD_eq_getElem?_getD, List.getElem?_append]
  simp only [List.length_replicate, List.getElem?_replicate]
  split
  · rfl
  · rw [if_pos (by omega)]
    rfl

variable {size : UInt32}

/-- Entry sizes that are accepted without having room for both addresses. -/
theorem narrow_sizes (some_size : size ≠ 0) (divides : 512 % size = 0) (narrow : size < 48) :
    size ∈ [1, 2, 4, 8, 16, 32] := by
  have small : size.toNat < 48 := narrow
  have whole : 512 % size.toNat = 0 := by simpa using congrArg UInt32.toNat divides
  have positive : size.toNat ≠ 0 := fun zero => some_size (UInt32.toNat_inj.mp zero)
  have cases : ∀ n < 48, n ≠ 0 → 512 % n = 0 →
      UInt32.ofNat n ∈ ([1, 2, 4, 8, 16, 32] : List UInt32) := by decide
  simpa using cases size.toNat small positive whole

/-- The header of such a disk. -/
def narrowHeader (size : UInt32) : GptHeader := ⟨ascii "EFI PART", 2, 512, size⟩

@[simp] theorem narrowHeader_size : (narrowHeader size).sizeOfPartitionEntry = size := rfl

/-- An entry of the first sector is unused up to where the sector stops being zero. -/
theorem narrow_unusedAt (divides : 512 % size = 0) {j : Nat} (inside : j < 512 / size.toNat)
    (fits : j * size.toNat + 16 ≤ 512) :
    unusedAt (narrowDev size) (narrowHeader size) (UInt32.ofNat j)
        = .ok (decide (j * size.toNat + 16 ≤ 480)) ∧
      ((narrowHeader size).offsetInSector (UInt32.ofNat j)).toNat = j * size.toNat := by
  have number : (UInt32.ofNat j).toNat = j := by
    have few := Nat.div_le_self 512 size.toNat
    rw [UInt32.toNat_ofNat']
    omega
  have sector : (narrowHeader size).sectorIdx (UInt32.ofNat j) = 0 := by
    apply UInt32.toNat_inj.mp
    rw [GptHeader.sectorIdx, UInt32.toNat_div, entriesPerSector_toNat, number]
    exact Nat.div_eq_of_lt inside
  have offset : ((narrowHeader size).offsetInSector (UInt32.ofNat j)).toNat = j * size.toNat := by
    have value := @offsetInSector_toNat (narrowHeader size) divides (UInt32.ofNat j)
    rwa [number, narrowHeader_size, Nat.mod_eq_of_lt inside] at value
  have data : entrySector (narrowDev size) (narrowHeader size) 0
      = (Sector.ofBytes lateSector).val := rfl
  refine ⟨?_, offset⟩
  rw [unusedAt, sector, offset, data]
  obtain ⟨zero, run⟩ := typeIsZero_ok
    (by rw [(Sector.ofBytes lateSector).property]; exact fits :
      j * size.toNat + 16 ≤ (Sector.ofBytes lateSector).val.length)
  rw [run]
  refine congrArg Except.ok ?_
  -- The sixteen bytes are all zero exactly if the last of them is.
  rw [Bool.eq_iff_iff, typeIsZero_value run, decide_eq_true_iff]
  constructor
  · intro zeros
    have last := zeros 15 (by omega)
    rw [lateSector_getD (by omega)] at last
    split at last
    · omega
    · exact absurd last (by decide)
  · intro early k small
    rw [lateSector_getD (by omega), if_pos (by omega)]

theorem narrow_protective : Protective (narrowDev size) := by
  have boot : (narrowDev size).disk ((narrowDev size).targetLba 0) = Sector.ofBytes protectiveMbr :=
    rfl
  rw [Protective, boot]
  decide

theorem narrow_header : ∀ size ∈ ([1, 2, 4, 8, 16, 32] : List UInt32),
    gptHeaderOf (Sector.ofBytes (gptHeader 512 size)).val = narrowHeader size := by
  have each : ([1, 2, 4, 8, 16, 32] : List UInt32).all (fun size =>
      gptHeaderOf (Sector.ofBytes (gptHeader 512 size)).val == narrowHeader size) = true := by
    decide
  intro size listed
  exact eq_of_beq (List.all_eq_true.mp each size listed)

/-- On a disk with such entries the loop reads behind its buffer. -/
theorem narrow_overreads (some_size : size ≠ 0) (divides : 512 % size = 0) (narrow : size < 48) :
    ¬ InBounds (narrowDev size) := by
  have listed := narrow_sizes some_size divides narrow
  -- The first entry that starts in the last 48 bytes.
  have place : ∀ size ∈ ([1, 2, 4, 8, 16, 32] : List UInt32),
      464 < (464 / size.toNat + 1) * size.toNat ∧ (464 / size.toNat + 1) * size.toNat ≤ 480 ∧
        464 / size.toNat + 1 < 512 / size.toNat ∧ 512 / size.toNat ≤ 512 := by
    simp only [List.forall_mem_cons, List.not_mem_nil, false_imp_iff, implies_true, and_true]
    decide
  obtain ⟨late, early, number, few⟩ := place size listed
  have unused : ∀ j < 464 / size.toNat + 1,
      unusedAt (narrowDev size) (narrowHeader size) (UInt32.ofNat (0 + j)) = .ok true := by
    intro j before
    have start := Nat.mul_le_mul_right size.toNat (Nat.le_of_lt_succ before)
    have below := Nat.div_mul_le_self 464 size.toNat
    rw [Nat.zero_add, (narrow_unusedAt divides (by omega) (by omega)).1, decide_eq_true (by omega)]
  obtain ⟨type, offset⟩ := narrow_unusedAt divides number (by omega)
  rw [decide_eq_false (by omega)] at type
  have room : PartitionTable.empty.partitions.length < maxPartitions := by decide
  obtain ⟨fault, overread⟩ := gptEntries_overread rfl .none room
    (512 - (464 / size.toNat + 2)) unused (by rwa [Nat.zero_add]) (by rw [Nat.zero_add]; omega)
  have count : 464 / size.toNat + 1 + (512 - (464 / size.toNat + 2) + 1) = 512 := by omega
  rw [count] at overread
  -- Everything before the loop goes through on this disk.
  have parsed : tryParseGpt (narrowDev size) .empty = .error fault := by
    have header : readHeader ((narrowDev size).disk ((narrowDev size).targetLba 1)).val
        = .ok (narrowHeader size) := by
      rw [readHeader, if_pos (by rw [((narrowDev size).disk _).property]; decide)]
      exact congrArg Except.ok (narrow_header size listed)
    rw [tryParseGpt, readOne_sound rfl]
    simp only [header, ok_bind]
    rw [if_neg (by simp [narrowHeader]), if_neg (by simp [some_size, divides])]
    exact congrArg (· >>= _) overread
  rintro ⟨result, run⟩
  rw [partitionReadTable_error rfl narrow_protective parsed] at run
  cases run

end Narrow

/-- Whatever else a disk says, its partition table is read in bounds exactly if the entry size that
its GPT declares is turned away or has room for both addresses. A disk without such entries is read
in bounds whatever it declares. -/
theorem partition_reads_in_bounds (size : UInt32) :
    ((∀ dev, declaredEntrySize dev = size → InBounds dev) ↔ SafeSize size) ∧
      ∀ dev, ¬HasEntries dev → InBounds dev := by
  refine ⟨⟨?_, ?_⟩, fun dev none => partitionReadTable_ok fun entries => absurd entries none⟩
  · intro every
    by_contra unsafe_size
    simp only [SafeSize, not_or, not_not, UInt32.not_le] at unsafe_size
    obtain ⟨some_size, divides, narrow⟩ := unsafe_size
    refine narrow_overreads some_size divides narrow (every _ ?_)
    have header := narrow_header size (narrow_sizes some_size divides narrow)
    exact congrArg GptHeader.sizeOfPartitionEntry header
  · intro safe dev declared
    rw [← declared] at safe
    exact partitionReadTable_ok fun _ => safe

/-- With entries of 32 bytes, the last entry of a sector has its addresses behind the buffer. -/
theorem partition_reads_behind :
    declaredEntrySize (narrowDev 32) = 32 ∧ ¬ InBounds (narrowDev 32) := by
  constructor
  · exact congrArg GptHeader.sizeOfPartitionEntry (narrow_header 32 (by decide))
  · exact narrow_overreads (by decide) (by decide) (by decide)

end NovaOs.Partition
