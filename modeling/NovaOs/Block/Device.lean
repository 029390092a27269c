import NovaOs.Lib.Bytes
import NovaOs.Lib.RedoLog

/-! The block layer: whole sectors, the active device, and the partition offset. -/

namespace NovaOs

/-- Bytes in one sector. -/
def sectorSize : Nat := 512

/-- One sector's worth of bytes, the unit every transfer moves whole or not at all. -/
abbrev Sector := { bytes : Bytes // bytes.length = sectorSize }

/-- The first sector's worth of a buffer, filled up with zeros when the buffer is shorter. -/
def Sector.ofBytes (buf : Bytes) : Sector :=
  ⟨(buf ++ List.replicate sectorSize 0).take sectorSize, by simp⟩

/-- A sector of zeros. -/
def zeroSector : Sector := ⟨List.replicate sectorSize 0, by simp⟩

/-- A buffer cut into the sectors a transfer of `count` sectors takes from it. -/
def sectorsOf (buf : Bytes) : Nat → List Sector
  | 0 => []
  | count + 1 => Sector.ofBytes buf :: sectorsOf (buf.drop sectorSize) count

/-- The buffer that a run of sectors fills. -/
def bytesOf (sectors : List Sector) : Bytes := sectors.flatMap Subtype.val

/--
The active block device as the layers above it see it.

Transfers may fail, and which ones do is not theirs to know.
-/
structure Device where
  disk : Nat → Sector
  activeDevice : Int
  -- Added to every address that is relative to the filesystem.
  partitionOffset : UInt32
  -- The outcome of each single-sector transfer still to come, true for a failure.
  faults : Nat → Bool
  -- Every single-sector write that reached the disk, oldest first.
  issued : List (Nat × Sector)

/-- No transfer fails. -/
def noFaults : Nat → Bool := fun _ => false

namespace Device

variable {addr : Nat}

/-- One transfer's outcome is used up. -/
def tick (dev : Device) : Device := { dev with faults := fun n => dev.faults (n + 1) }

/-- Reads one sector. -/
def readSector (dev : Device) (addr : Nat) : Option Sector × Device :=
  if dev.faults 0 then (none, dev.tick) else (some (dev.disk addr), dev.tick)

/-- Writes one sector, whole or not at all. -/
def writeSector (dev : Device) (addr : Nat) (sector : Sector) : Bool × Device :=
  if dev.faults 0 then (false, dev.tick)
  else (true, { dev.tick with
    disk := Function.update dev.disk addr sector
    issued := dev.issued ++ [(addr, sector)] })

/-- Reads sectors one after another, stopping at the first failure. -/
def dispatchRead (dev : Device) (addr : Nat) : Nat → Option (List Sector) × Device
  | 0 => (some [], dev)
  | count + 1 =>
    match dev.readSector addr with
    | (none, dev) => (none, dev)
    | (some sector, dev) =>
      match dev.dispatchRead (addr + 1) count with
      | (none, dev) => (none, dev)
      | (some rest, dev) => (some (sector :: rest), dev)

/-- Writes sectors one after another, stopping at the first failure. -/
def dispatchWrite (dev : Device) (addr : Nat) : List Sector → Bool × Device
  | [] => (true, dev)
  | sector :: rest =>
    match dev.writeSector addr sector with
    | (false, dev) => (false, dev)
    | (true, dev) => dev.dispatchWrite (addr + 1) rest

/-- Where an address relative to the filesystem really lies. -/
def targetLba (dev : Device) (lba : UInt32) : Nat := (lba + dev.partitionOffset).toNat

/-- Reads sectors at an address relative to the filesystem. -/
def blockdevReadSectors (dev : Device) (lba : UInt32) (count : Nat) :
    Option (List Sector) × Device :=
  dev.dispatchRead (dev.targetLba lba) count

/-- Writes sectors at an address relative to the filesystem. -/
def blockdevWriteSectors (dev : Device) (lba : UInt32) (sectors : List Sector) : Bool × Device :=
  dev.dispatchWrite (dev.targetLba lba) sectors

/-- Reads sectors at an address counted from the start of the disk. -/
def blockdevReadSectorsAbsolute (dev : Device) (lba : UInt32) (count : Nat) :
    Option (List Sector) × Device :=
  dev.dispatchRead lba.toNat count

/-- Writes sectors at an address counted from the start of the disk. -/
def blockdevWriteSectorsAbsolute (dev : Device) (lba : UInt32) (sectors : List Sector) :
    Bool × Device :=
  dev.dispatchWrite lba.toNat sectors

/-- Selects where addresses relative to the filesystem start. -/
def blockdevSetPartitionOffset (dev : Device) (offset : UInt32) : Device :=
  { dev with partitionOffset := offset }

/-- The device after a run of writes that all reached the disk. -/
def wrote (dev : Device) (writes : List (Nat × Sector)) : Device :=
  { dev with
    disk := applyWrites writes dev.disk
    issued := dev.issued ++ writes }

variable {dev : Device}

@[simp] theorem wrote_disk (writes : List (Nat × Sector)) :
    (dev.wrote writes).disk = applyWrites writes dev.disk := rfl

@[simp] theorem wrote_faults (writes : List (Nat × Sector)) :
    (dev.wrote writes).faults = dev.faults := rfl

@[simp] theorem wrote_issued (writes : List (Nat × Sector)) :
    (dev.wrote writes).issued = dev.issued ++ writes := rfl

@[simp] theorem wrote_nil : dev.wrote [] = dev := by
  simp [wrote]

/-- Two runs of writes are one. -/
theorem wrote_wrote (first second : List (Nat × Sector)) :
    (dev.wrote first).wrote second = dev.wrote (first ++ second) := by
  simp [wrote, applyWrites_append, List.append_assoc]

variable {dev : Device}

/-- With no faults ahead, a transfer uses nothing up. -/
theorem tick_of_noFaults (sound : dev.faults = noFaults) : dev.tick = dev := by
  cases dev
  simp only at sound
  subst sound
  rfl

/-- With no faults ahead, a read returns the sector and changes nothing. -/
theorem readSector_of_noFaults (sound : dev.faults = noFaults) :
    dev.readSector addr = (some (dev.disk addr), dev) := by
  rw [readSector, tick_of_noFaults sound, sound]
  rfl

/-- With no faults ahead, a write lands. -/
theorem writeSector_of_noFaults (sound : dev.faults = noFaults) {sector : Sector} :
    dev.writeSector addr sector = (true, dev.wrote [(addr, sector)]) := by
  rw [writeSector, tick_of_noFaults sound, sound]
  rfl

/-- The single-sector writes a transfer of consecutive sectors is made of. -/
def consecutive (addr : Nat) : List Sector → List (Nat × Sector)
  | [] => []
  | sector :: rest => (addr, sector) :: consecutive (addr + 1) rest

/-- With no faults ahead, a transfer writes every one of its sectors in order. -/
theorem dispatchWrite_of_noFaults (sound : dev.faults = noFaults) {sectors : List Sector} :
    dev.dispatchWrite addr sectors = (true, dev.wrote (consecutive addr sectors)) := by
  induction sectors generalizing dev addr with
  | nil => simp [dispatchWrite, consecutive]
  | cons sector rest ih =>
    simp only [dispatchWrite, writeSector_of_noFaults sound]
    rw [ih (by simpa using sound), wrote_wrote]
    rfl

/-- With no faults ahead, a transfer reads consecutive sectors and changes nothing. -/
theorem dispatchRead_of_noFaults (sound : dev.faults = noFaults) {count : Nat} :
    dev.dispatchRead addr count
      = (some ((List.range count).map fun i => dev.disk (addr + i)), dev) := by
  induction count generalizing addr with
  | zero => simp [dispatchRead]
  | succ count ih =>
    simp only [dispatchRead, readSector_of_noFaults sound, ih]
    -- The first sector stands apart, and the rest are counted one address along.
    rw [List.range_succ_eq_map]
    simp [Nat.add_assoc, Nat.add_comm 1, Function.comp_def]

end Device

end NovaOs
