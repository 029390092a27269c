import NovaOs.Journal.Descriptor

/-! Recovery is a redo log over the disk, and a pass leaves nothing for the next one. -/

namespace NovaOs

open List

/-- What stays the same from one boot to the next: the disk's layout and the device. -/
structure BootConfig where
  activeDevice : Int
  partitionOffset : UInt32
  journalStartLba : UInt32
  journalLenSectors : UInt32
  -- A region too small for a whole transaction is never used.
  usable : UInt32.ofNat (descriptorSectors + maxTxnBlocks) ≤ journalLenSectors

namespace BootConfig

variable (cfg : BootConfig)
variable {disk : Nat → Sector}

/-- The device right after power-on, when no transfer fails. -/
def device (disk : Nat → Sector) : Device where
  disk := disk
  activeDevice := cfg.activeDevice
  partitionOffset := cfg.partitionOffset
  faults := noFaults
  issued := []

@[simp] theorem device_disk (disk : Nat → Sector) : (cfg.device disk).disk = disk := rfl

@[simp] theorem device_issued (disk : Nat → Sector) : (cfg.device disk).issued = [] := rfl

/-- The journal right after power-on, with its region named again. -/
def journal (disk : Nat → Sector) : JournalState :=
  rustJournalConfigure .new (cfg.device disk) cfg.journalStartLba cfg.journalLenSectors

/-- The address of slot `i`'s data on the disk. -/
def dataAddr (i : Nat) : Nat :=
  (cfg.journalStartLba + UInt32.ofNat descriptorSectors + UInt32.ofNat i).toNat

/-- The sectors the journal writes for itself. -/
def InJournal (addr : Nat) : Prop :=
  addr = cfg.journalStartLba.toNat ∨ addr = cfg.journalStartLba.toNat + 1 ∨
    ∃ i < maxTxnBlocks, addr = cfg.dataAddr i

/-- Where a held-back sector belongs on the disk. -/
def home (absolute : Bool) (lba : UInt32) : Nat :=
  if absolute then lba.toNat else (lba + cfg.partitionOffset).toNat

/-- The writes that bring held-back sectors home. -/
def homeWrites (absolute : Bool) (entries : List (UInt32 × Sector)) : List (Nat × Sector) :=
  entries.map fun entry => (cfg.home absolute entry.1, entry.2)

/-- The descriptor the disk holds. -/
def diskDescriptor (disk : Nat → Sector) : Bytes :=
  bytesOf [disk cfg.journalStartLba.toNat, disk (cfg.journalStartLba.toNat + 1)]

/-- The sectors a descriptor lists, with the data the region keeps for them. -/
def diskEntries (disk : Nat → Sector) (desc : Bytes) (count : Nat) : List (UInt32 × Sector) :=
  (List.range count).map fun i =>
    (getU32Le desc (offTargetLba + i * 4), disk (cfg.dataAddr i))

/-- What the disk's journal asks recovery to redo. -/
def pending (disk : Nat → Sector) : Option (List (Nat × Sector)) :=
  let desc := cfg.diskDescriptor disk
  let blockCount := (getU32Le desc offBlockCount).toNat
  if nothingToRecover desc then none
  else
    let entries := cfg.diskEntries disk desc blockCount
    if computeChecksum (targetBytes desc blockCount) (entries.map Prod.snd)
        != getU32Le desc offChecksum then some []
    else some (cfg.homeWrites (getU32Le desc offTargetsAbsolute != 0) entries)

/-- A descriptor without the magic asks for nothing. -/
theorem pending_of_magic
    (foreign : getU32Le (disk cfg.journalStartLba.toNat).val offMagic ≠ journalMagic) :
    cfg.pending disk = none := by
  have read := getU32Le_bytesOf_cons (disk cfg.journalStartLba.toNat)
    [disk (cfg.journalStartLba.toNat + 1)] offMagic (by decide)
  simp [pending, nothingToRecover, diskDescriptor, read, foreign]

/-- A descriptor without the mark asks for nothing. -/
theorem pending_of_commitFlag
    (unmarked : getU32Le (disk cfg.journalStartLba.toNat).val offCommitFlag ≠ commitMagic) :
    cfg.pending disk = none := by
  have read := getU32Le_bytesOf_cons (disk cfg.journalStartLba.toNat)
    [disk (cfg.journalStartLba.toNat + 1)] offCommitFlag (by decide)
  simp [pending, nothingToRecover, diskDescriptor, read, unmarked]

/-- The journal region of the disk, seen as a redo log. -/
def log : RedoLog Nat Sector where
  region := cfg.InJournal
  mark := cfg.journalStartLba.toNat
  cleared := zeroSector
  pending := cfg.pending
  mark_inside := Or.inl rfl
  pending_congr := by
    intro before after same
    have first : before cfg.journalStartLba.toNat = after cfg.journalStartLba.toNat :=
      same _ (Or.inl rfl)
    have second : before (cfg.journalStartLba.toNat + 1) = after (cfg.journalStartLba.toNat + 1) :=
      same _ (Or.inr (Or.inl rfl))
    have desc : cfg.diskDescriptor before = cfg.diskDescriptor after := by
      simp only [diskDescriptor, first, second]
    simp only [pending, desc]
    -- Data is only looked at once the count is known to fit the region.
    split
    · rfl
    rename_i valid
    have entries : cfg.diskEntries before (cfg.diskDescriptor after)
          (getU32Le (cfg.diskDescriptor after) offBlockCount).toNat
        = cfg.diskEntries after (cfg.diskDescriptor after)
          (getU32Le (cfg.diskDescriptor after) offBlockCount).toNat := by
      simp only [nothingToRecover, Bool.or_eq_true, decide_eq_true_eq, not_or,
        Nat.not_lt] at valid
      apply List.map_congr_left
      intro i member
      have small : i < maxTxnBlocks :=
        Nat.lt_of_lt_of_le (List.mem_range.mp member) valid.2
      rw [same _ (Or.inr (Or.inr ⟨i, small, rfl⟩))]
    rw [entries]
  pending_cleared := by
    intro disk cleared
    apply cfg.pending_of_magic
    rw [cleared]
    decide

@[simp] theorem log_mark : cfg.log.mark = cfg.journalStartLba.toNat := rfl

@[simp] theorem log_cleared : cfg.log.cleared = zeroSector := rfl

@[simp] theorem log_pending : cfg.log.pending = cfg.pending := rfl

end BootConfig

/-- A journal whose region and device are those of a configuration. -/
structure Configured (cfg : BootConfig) (js : JournalState) (dev : Device) : Prop where
  startLba : js.journalStartLba = cfg.journalStartLba
  configured : js.configured = true
  configuredDevice : js.configuredDevice = cfg.activeDevice
  activeDevice : dev.activeDevice = cfg.activeDevice
  partitionOffset : dev.partitionOffset = cfg.partitionOffset
  sound : dev.faults = noFaults

namespace Configured

variable {cfg : BootConfig} {js : JournalState} {dev : Device}

/-- Power-on leaves a configured journal. -/
theorem boot (cfg : BootConfig) (disk : Nat → Sector) :
    Configured cfg (cfg.journal disk) (cfg.device disk) where
  startLba := rfl
  configured := decide_eq_true cfg.usable
  configuredDevice := rfl
  activeDevice := rfl
  partitionOffset := rfl
  sound := rfl

variable (conf : Configured cfg js dev)

include conf

theorem usable : js.journalRegionUsable dev = true := by
  simp [JournalState.journalRegionUsable, conf.configured, conf.activeDevice, conf.configuredDevice]

theorem wrote (writes : List (Nat × Sector)) : Configured cfg js (dev.wrote writes) :=
  { conf with }

theorem targetLba (lba : UInt32) : dev.targetLba lba = cfg.home false lba := by
  simp [Device.targetLba, BootConfig.home, conf.partitionOffset]

/-- Writing home writes each held-back sector where it belongs. -/
theorem writeHome_eq (absolute : Bool) (entries : List (UInt32 × Sector)) :
    writeHome absolute dev entries = (true, dev.wrote (cfg.homeWrites absolute entries)) := by
  induction entries generalizing dev with
  | nil => simp [writeHome, BootConfig.homeWrites]
  | cons entry rest ih =>
    obtain ⟨lba, sector⟩ := entry
    -- Either addressing mode issues one single-sector write at the home address.
    have one : (if absolute then dev.blockdevWriteSectorsAbsolute lba [sector]
        else dev.blockdevWriteSectors lba [sector])
          = (true, dev.wrote [(cfg.home absolute lba, sector)]) := by
      cases absolute with
      | true =>
        simp only [if_true, Device.blockdevWriteSectorsAbsolute,
          Device.dispatchWrite_of_noFaults conf.sound, Device.consecutive, BootConfig.home]
      | false =>
        simp only [Bool.false_eq_true, if_false, Device.blockdevWriteSectors,
          Device.dispatchWrite_of_noFaults conf.sound, Device.consecutive, conf.targetLba]
    simp only [writeHome, one, ih (conf.wrote _), Device.wrote_wrote, Bool.and_self]
    rfl

/-- Clearing the mark is one write. -/
theorem clearMark_eq :
    dev.blockdevWriteSectorsAbsolute js.journalStartLba [zeroSector]
      = (true, dev.wrote [(cfg.journalStartLba.toNat, zeroSector)]) := by
  simp only [Device.blockdevWriteSectorsAbsolute, conf.startLba,
    Device.dispatchWrite_of_noFaults conf.sound, Device.consecutive]

/-- A checkpoint with something to do writes it home and then clears the mark. -/
theorem checkpointInternal_eq (busy : js.shadow.val.length ≠ 0) :
    checkpointInternal js dev
      = (true, { js with shadow := Shadow.ofList [], targetsAbsolute := false },
          dev.wrote (cfg.homeWrites js.targetsAbsolute js.shadow.val
            ++ [(cfg.journalStartLba.toNat, zeroSector)])) := by
  have after := conf.wrote (cfg.homeWrites js.targetsAbsolute js.shadow.val)
  have work : (js.shadow.val.length != 0) = true := by simpa using busy
  simp only [checkpointInternal, conf.writeHome_eq, after.usable, work, Bool.and_self, if_true,
    after.clearMark_eq, Device.wrote_wrote]

/-- A checkpoint with nothing to do writes nothing. -/
theorem checkpointInternal_idle (idle : js.shadow.val = []) :
    checkpointInternal js dev
      = (true, { js with shadow := Shadow.ofList [], targetsAbsolute := false }, dev) := by
  simp [checkpointInternal, conf.writeHome_eq, idle, BootConfig.homeWrites]

/-- Reading the data back finds exactly what the region keeps for each slot. -/
theorem readDataBlocks_eq (desc : Bytes) (i count : Nat) :
    readDataBlocks js dev desc i count
      = (some ((List.range count).map fun k =>
          (getU32Le desc (offTargetLba + (i + k) * 4), dev.disk (cfg.dataAddr (i + k)))),
        dev) := by
  induction count generalizing i with
  | zero => simp [readDataBlocks]
  | succ count ih =>
    have addr : (dataLba js i).toNat = cfg.dataAddr i := by
      simp only [dataLba, BootConfig.dataAddr, conf.startLba]
    simp only [readDataBlocks, Device.blockdevReadSectorsAbsolute,
      Device.dispatchRead_of_noFaults conf.sound, addr, range_one, map_cons,
      map_nil, Nat.add_zero, ih]
    -- The rest of the table is counted one slot along.
    rw [range_succ_eq_map]
    simp [Function.comp_def, Nat.add_assoc, Nat.add_comm 1]

/--
A recovery pass issues the redo log's writes and nothing else.

It starts before any transaction is open, which is when boot runs it.
-/
theorem recoverInternal_eq (empty : js.shadow = Shadow.ofList [])
    (relative : js.targetsAbsolute = false) :
    ∃ result, recoverInternal js dev = (result, js, dev.wrote (cfg.log.recovery dev.disk)) := by
  have read : dev.blockdevReadSectorsAbsolute js.journalStartLba descriptorSectors
      = (some [dev.disk cfg.journalStartLba.toNat, dev.disk (cfg.journalStartLba.toNat + 1)],
        dev) := by
    simp [Device.blockdevReadSectorsAbsolute, Device.dispatchRead_of_noFaults conf.sound,
      conf.startLba, descriptorSectors, range_succ]
  have recovery : ∀ writes, cfg.pending dev.disk = some writes →
      cfg.log.recovery dev.disk = writes ++ [(cfg.journalStartLba.toNat, zeroSector)] := by
    intro writes pending
    exact RedoLog.recovery_of_pending pending
  have back : { js with shadow := Shadow.ofList [], targetsAbsolute := false } = js := by
    rw [← empty, ← relative]
  have blocks := conf.readDataBlocks_eq (cfg.diskDescriptor dev.disk) 0
    (getU32Le (cfg.diskDescriptor dev.disk) offBlockCount).toNat
  simp only [Nat.zero_add] at blocks
  simp only [recoverInternal, conf.usable, Bool.not_true, Bool.false_eq_true, if_false, read]
  have folded : bytesOf [dev.disk cfg.journalStartLba.toNat,
    dev.disk (cfg.journalStartLba.toNat + 1)] = cfg.diskDescriptor dev.disk := rfl
  simp only [folded, blocks]
  generalize listed : ((List.range
      (getU32Le (cfg.diskDescriptor dev.disk) offBlockCount).toNat).map fun i =>
    (getU32Le (cfg.diskDescriptor dev.disk) (offTargetLba + i * 4), dev.disk (cfg.dataAddr i)))
    = entries
  have known : cfg.diskEntries dev.disk (cfg.diskDescriptor dev.disk)
      (getU32Le (cfg.diskDescriptor dev.disk) offBlockCount).toNat = entries := listed
  -- The descriptor is refused, its data does not match it, or it is redone.
  by_cases refused : nothingToRecover (cfg.diskDescriptor dev.disk) = true
  · have idle : cfg.pending dev.disk = none := by
      simp only [BootConfig.pending, if_pos refused]
    have nothing : cfg.log.recovery dev.disk = [] := RedoLog.recovery_of_idle idle
    exact ⟨0, by simp only [if_pos refused, nothing, Device.wrote_nil]⟩
  simp only [if_neg refused]
  by_cases torn : (computeChecksum (targetBytes (cfg.diskDescriptor dev.disk)
      (getU32Le (cfg.diskDescriptor dev.disk) offBlockCount).toNat) (entries.map Prod.snd)
        != getU32Le (cfg.diskDescriptor dev.disk) offChecksum) = true
  · have pending : cfg.pending dev.disk = some [] := by
      simp only [BootConfig.pending, if_neg refused, known, if_pos torn]
    exact ⟨0, by simp only [if_pos torn, conf.clearMark_eq, recovery _ pending, nil_append]⟩
  have pending : cfg.pending dev.disk = some (cfg.homeWrites
      (getU32Le (cfg.diskDescriptor dev.disk) offTargetsAbsolute != 0) entries) := by
    simp only [BootConfig.pending, if_neg refused, known, if_neg torn]
  simp only [nothingToRecover, Bool.or_eq_true, beq_iff_eq, decide_eq_true_eq, not_or,
    Nat.not_lt] at refused
  have size : entries.length
      = (getU32Le (cfg.diskDescriptor dev.disk) offBlockCount).toNat := by simp [← listed]
  have whole : (Shadow.ofList entries).val = entries :=
    take_of_length_le (by rw [size]; exact refused.2)
  have loaded : Configured cfg { js with
      shadow := Shadow.ofList entries
      targetsAbsolute := getU32Le (cfg.diskDescriptor dev.disk) offTargetsAbsolute != 0 }
      dev := { conf with }
  simp only [if_neg torn]
  rw [loaded.checkpointInternal_eq (by rw [whole, size]; exact refused.1.2), recovery _ pending]
  exact ⟨(getU32Le (cfg.diskDescriptor dev.disk) offBlockCount).toNat,
    by simp only [whole, back, if_true]⟩

end Configured

end NovaOs
