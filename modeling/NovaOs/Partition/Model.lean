import NovaOs.Block.Device
import NovaOs.Config.Text

/-! The partition tables of `kernel/fs/partition.c`. Buffers are read with a check that the code
does not make, so that a read outside a buffer shows. -/

namespace NovaOs.Partition

/-- A read that reaches a byte its buffer does not have. -/
structure Overread where
  index : Nat
  deriving DecidableEq

variable (buf : Bytes) (dev : Device)

/-- One byte of a buffer. -/
def byteAt (i : Nat) : Except Overread UInt8 :=
  if i < buf.length then .ok (buf.getD i 0) else .error ⟨i⟩

/-- A 64-bit word, least significant byte first. -/
def getU64Le (off : Nat) : UInt64 :=
  UInt64.ofNat ((getU32Le buf off).toNat + (getU32Le buf (off + 4)).toNat * 2 ^ 32)

/-- Four bytes copied out of a buffer. -/
def readU32 (off : Nat) : Except Overread UInt32 :=
  if off + 4 ≤ buf.length then .ok (getU32Le buf off) else .error ⟨max off buf.length⟩

/-- Eight bytes copied out of a buffer. -/
def readU64 (off : Nat) : Except Overread UInt64 :=
  if off + 8 ≤ buf.length then .ok (getU64Le buf off) else .error ⟨max off buf.length⟩

/-- How many partitions a table has room for. -/
def maxPartitions : Nat := 4

inductive PartitionScheme where
  | none
  | mbr
  | gpt
  deriving DecidableEq

/-- A partition as it is reported. -/
structure PartitionEntry where
  startLba : UInt32
  sectorCount : UInt32
  -- Zero for a partition of a GPT.
  mbrType : UInt8
  deriving DecidableEq

/-- What was found on a disk. -/
structure PartitionTable where
  scheme : PartitionScheme
  partitions : List PartitionEntry
  fits : partitions.length ≤ maxPartitions

namespace PartitionTable

/-- Nothing found. -/
def empty : PartitionTable := ⟨.none, [], Nat.zero_le _⟩

/-- One more partition, where there is room for it. -/
def add (out : PartitionTable) (entry : PartitionEntry)
    (room : out.partitions.length < maxPartitions) : PartitionTable where
  scheme := out.scheme
  partitions := out.partitions ++ [entry]
  fits := by
    rw [List.length_append]
    exact room

end PartitionTable

/-- Reads one sector into a buffer. -/
def readOne (lba : UInt32) : Option Bytes × Device :=
  match dev.blockdevReadSectors lba 1 with
  | (sectors, dev) => (sectors.map bytesOf, dev)

-- The places of a boot sector's partition table.
def mbrPartitionTableOffset : Nat := 446
def mbrEntrySize : Nat := 16
def mbrSignatureOffset : Nat := 510

/-- The type of the one entry that stands in a boot sector for a GPT. -/
def gptProtectiveType : UInt8 := 0xEE

/-- The partition an entry of the boot sector describes, if it can be one. -/
def mbrEntryPlausible (sector0 : Bytes) (entry : Nat) :
    Except Overread (Option PartitionEntry) := do
  let type ← byteAt sector0 (entry + 4)
  let startLba ← readU32 sector0 (entry + 8)
  let sectorCount ← readU32 sector0 (entry + 12)
  if type == 0 || sectorCount == 0 || startLba == 0 then return none
  -- The partition would go past the last address.
  else if 0xFFFFFFFF - sectorCount < startLba then return none
  else return some ⟨startLba, sectorCount, type⟩

/-- The fields of the GPT's header that are looked at. -/
structure GptHeader where
  signature : Bytes
  partitionEntryLba : UInt64
  numPartitionEntries : UInt32
  sizeOfPartitionEntry : UInt32
  deriving DecidableEq

/-- The header as it lies on the disk. -/
def gptHeaderOf : GptHeader where
  signature := buf.take 8
  partitionEntryLba := getU64Le buf 72
  numPartitionEntries := getU32Le buf 80
  sizeOfPartitionEntry := getU32Le buf 84

/-- The header copied out of a buffer, 92 bytes in all. -/
def readHeader : Except Overread GptHeader :=
  if 92 ≤ buf.length then .ok (gptHeaderOf buf) else .error ⟨buf.length⟩

namespace GptHeader

variable (hdr : GptHeader)

def entriesPerSector : UInt32 := 512 / hdr.sizeOfPartitionEntry

/-- The sector of the entry array that an entry is in. -/
def sectorIdx (i : UInt32) : UInt32 := i / hdr.entriesPerSector

/-- Where in that sector the entry starts. -/
def offsetInSector (i : UInt32) : UInt32 :=
  i % hdr.entriesPerSector * hdr.sizeOfPartitionEntry

/-- Where that sector is on the disk. -/
def entryLba (sectorIdx : UInt32) : UInt32 :=
  hdr.partitionEntryLba.toUInt32 + sectorIdx

end GptHeader

/-- Whether `left` bytes from `off` on are zero, looked at one by one up to the first that is
not. -/
def typeIsZero (buf : Bytes) (off : Nat) : Nat → Except Overread Bool
  | 0 => .ok true
  | left + 1 => do
    let byte ← byteAt buf off
    if byte != 0 then return false else typeIsZero buf (off + 1) left

/-- A sector of the entry array, read anew only when the last one read is another. -/
def loadSector (hdr : GptHeader) (loaded : Option (UInt32 × Bytes)) (sectorIdx : UInt32) :
    Option Bytes × Device :=
  match loaded with
  | some (last, buf) =>
    if sectorIdx != last then readOne dev (hdr.entryLba sectorIdx) else (some buf, dev)
  -- No entry is in the sector numbered 0xFFFFFFFF that the code starts from.
  | none => readOne dev (hdr.entryLba sectorIdx)

/-- Goes through `left` entries from `i` on, as long as the table has room. -/
def gptEntries (dev : Device) (hdr : GptHeader) (out : PartitionTable)
    (loaded : Option (UInt32 × Bytes)) (i : UInt32) :
    Nat → Except Overread (PartitionTable × Device)
  | 0 => .ok (out, dev)
  | left + 1 =>
    if room : out.partitions.length < maxPartitions then
      match loadSector dev hdr loaded (hdr.sectorIdx i) with
      | (none, dev) => .ok (out, dev)
      | (some buf, dev) => do
        let entry := (hdr.offsetInSector i).toNat
        if ← typeIsZero buf entry 16 then
          gptEntries dev hdr out (some (hdr.sectorIdx i, buf)) (i + 1) left
        else
          let startLba ← readU64 buf (entry + 32)
          let endLba ← readU64 buf (entry + 40)
          gptEntries dev hdr
            (out.add ⟨startLba.toUInt32, (endLba - startLba + 1).toUInt32, 0⟩ room)
            (some (hdr.sectorIdx i, buf)) (i + 1) left
    else .ok (out, dev)

/-- Reads a GPT; whether it has a partition, and what was found. -/
def tryParseGpt (out : PartitionTable) : Except Overread (Bool × PartitionTable × Device) :=
  match readOne dev 1 with
  | (none, dev) => .ok (false, out, dev)
  | (some headerBuf, dev) => do
    let hdr ← readHeader headerBuf
    if hdr.signature != ascii "EFI PART" then return (false, out, dev)
    else if hdr.sizeOfPartitionEntry == 0 || 512 % hdr.sizeOfPartitionEntry != 0 then
      return (false, out, dev)
    else
      let (out, dev) ← gptEntries dev hdr out none 0 hdr.numPartitionEntries.toNat
      return (decide (0 < out.partitions.length), { out with scheme := .gpt }, dev)

/-- Goes through `left` entries of the boot sector from `i` on. -/
def mbrEntries (sector0 : Bytes) (out : PartitionTable) (i : Nat) :
    Nat → Except Overread PartitionTable
  | 0 => .ok out
  | left + 1 => do
    match ← mbrEntryPlausible sector0 (mbrPartitionTableOffset + i * mbrEntrySize) with
    | none => mbrEntries sector0 out (i + 1) left
    | some entry =>
      mbrEntries sector0
        (if room : out.partitions.length < maxPartitions then out.add entry room else out)
        (i + 1) left

/-- Falls back on the boot sector's own entries. -/
def mbrTable (sector0 : Bytes) (out : PartitionTable) (dev : Device) :
    Except Overread (Bool × PartitionTable × Device) := do
  let out ← mbrEntries sector0 out 0 4
  if 0 < out.partitions.length then return (true, { out with scheme := .mbr }, dev)
  else return (false, out, dev)

/-- Reads a disk's partition table; whether it has one, and what was found. -/
def partitionReadTable : Except Overread (Bool × PartitionTable × Device) :=
  match readOne dev 0 with
  | (none, dev) => .ok (false, .empty, dev)
  | (some sector0, dev) => do
    if (← byteAt sector0 mbrSignatureOffset) != 0x55
        || (← byteAt sector0 (mbrSignatureOffset + 1)) != 0xAA then
      return (false, .empty, dev)
    else if (← byteAt sector0 (mbrPartitionTableOffset + 4)) == gptProtectiveType then
      match ← tryParseGpt dev .empty with
      | (true, out, dev) => return (true, out, dev)
      | (false, out, dev) => mbrTable sector0 out dev
    else mbrTable sector0 .empty dev

end NovaOs.Partition
