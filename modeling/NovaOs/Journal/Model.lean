import NovaOs.Block.Device

/-! The write-ahead journal of `kernel/rust/journal.rs`, one function at a time. -/

namespace NovaOs

/-- Most sectors one transaction can hold back. -/
def maxTxnBlocks : Nat := 128

/-- Sectors taken by the descriptor at the head of the journal region. -/
def descriptorSectors : Nat := 2

def descriptorBytes : Nat := descriptorSectors * sectorSize

-- Where each field of the descriptor starts.
def offMagic : Nat := 0
def offSeq : Nat := 4
def offBlockCount : Nat := 8
def offChecksum : Nat := 12
def offCommitFlag : Nat := 16
def offTargetsAbsolute : Nat := 20
def offTargetLba : Nat := 24

/-- Marks a descriptor as one, and is never what a zeroed region reads as. -/
def journalMagic : UInt32 := 0x4C524E4A

/-- Marks a descriptor as committed. -/
def commitMagic : UInt32 := 0x54494D43

/-- The 32-bit FNV-1a hash, continued over more bytes. -/
def fnv1aFold (hash : UInt32) (bytes : Bytes) : UInt32 :=
  bytes.foldl (fun hash byte => (hash ^^^ byte.toUInt32) * 0x01000193) hash

/-- The checksum of a target table and the sectors that belong to it. -/
def computeChecksum (lbaBytes : Bytes) (dataBlocks : List Sector) : UInt32 :=
  dataBlocks.foldl (fun hash block => fnv1aFold hash block.val) (fnv1aFold 0x811c9dc5 lbaBytes)

/-- The sectors a transaction holds back, in the order they were first written. -/
abbrev Shadow := { entries : List (UInt32 × Sector) // entries.length ≤ maxTxnBlocks }

/-- As many entries as the table has room for. -/
def Shadow.ofList (entries : List (UInt32 × Sector)) : Shadow :=
  ⟨entries.take maxTxnBlocks, List.length_take_le _ _⟩

/-- Everything the journal keeps in memory. -/
structure JournalState where
  configured : Bool
  -- The device the region's addresses were computed against.
  configuredDevice : Int
  journalStartLba : UInt32
  journalLenSectors : UInt32
  seq : UInt32
  -- How many transactions are open inside one another.
  depth : Nat
  targetsAbsolute : Bool
  shadow : Shadow

namespace JournalState

/-- The state at power-on. -/
def new : JournalState where
  configured := false
  configuredDevice := -1
  journalStartLba := 0
  journalLenSectors := 0
  seq := 0
  depth := 0
  targetsAbsolute := false
  shadow := Shadow.ofList []

/-- The slot that holds a sector back, if one does. -/
def findShadow (js : JournalState) (lba : UInt32) : Option Nat :=
  js.shadow.val.findIdx? fun entry => entry.1 == lba

/-- Whether the region belongs to the disk that is active now. -/
def journalRegionUsable (js : JournalState) (dev : Device) : Bool :=
  js.configured && dev.activeDevice == js.configuredDevice

end JournalState

/-- Reads sectors one at a time, preferring what the open transaction holds back. -/
def readShadowed (js : JournalState) (dev : Device) (lba : UInt32) :
    Nat → Option (List Sector) × Device
  | 0 => (some [], dev)
  | count + 1 =>
    let current : Option Sector × Device :=
      match js.findShadow lba with
      | some idx => ((js.shadow.val[idx]?).map Prod.snd, dev)
      | none =>
        match dev.blockdevReadSectors lba 1 with
        | (some [sector], dev) => (some sector, dev)
        | (_, dev) => (none, dev)
    match current with
    | (none, dev) => (none, dev)
    | (some sector, dev) =>
      match readShadowed js dev (lba + 1) count with
      | (none, dev) => (none, dev)
      | (some rest, dev) => (some (sector :: rest), dev)

variable (js : JournalState)

def readSectorsInternal (dev : Device) (lba : UInt32) (count : Nat) :
    Option (List Sector) × Device :=
  if js.depth == 0 then dev.blockdevReadSectors lba count else readShadowed js dev lba count

/-- Holds one sector back, unless the table is full. -/
def shadowSector (lba : UInt32) (sector : Sector) : Option JournalState :=
  match js.findShadow lba with
  | some idx =>
    some { js with shadow := ⟨js.shadow.val.set idx (lba, sector), by simpa using js.shadow.2⟩ }
  | none =>
    if room : js.shadow.val.length < maxTxnBlocks then
      some { js with
        shadow := ⟨js.shadow.val ++ [(lba, sector)], by simpa [Nat.succ_le_iff] using room⟩ }
    else none

/-- Holds sectors back one at a time; what was taken before a refusal stays taken. -/
def shadowSectors (js : JournalState) (lba : UInt32) : List Sector → Bool × JournalState
  | [] => (true, js)
  | sector :: rest =>
    match shadowSector js lba sector with
    | none => (false, js)
    | some js => shadowSectors js (lba + 1) rest

def writeSectorsInternal (dev : Device) (lba : UInt32) (src : List Sector) :
    Bool × JournalState × Device :=
  if js.depth == 0 then
    match dev.blockdevWriteSectors lba src with
    | (ok, dev) => (ok, js, dev)
  else
    match shadowSectors js lba src with
    | (ok, js) => (ok, js, dev)

/-- Fills the target table in, from slot `i` on. -/
def putTargets (desc : Bytes) : Nat → List UInt32 → Bytes
  | _, [] => desc
  | i, lba :: rest => putTargets (putU32Le desc (offTargetLba + i * 4) lba) (i + 1) rest

/-- The part of a descriptor that lists the targets of `count` sectors. -/
def targetBytes (desc : Bytes) (count : Nat) : Bytes := (desc.drop offTargetLba).take (count * 4)

/-- The descriptor of the open transaction before its checksum is stored. -/
def descriptorHeader : Bytes :=
  let desc := List.replicate descriptorBytes 0
  let desc := putU32Le desc offMagic journalMagic
  let desc := putU32Le desc offSeq js.seq
  let desc := putU32Le desc offBlockCount (UInt32.ofNat js.shadow.val.length)
  let desc := putU32Le desc offCommitFlag 0
  let desc := putU32Le desc offTargetsAbsolute (if js.targetsAbsolute then 1 else 0)
  putTargets desc 0 (js.shadow.val.map Prod.fst)

/-- The descriptor of the open transaction, not yet committed. -/
def descriptor : Bytes :=
  let desc := descriptorHeader js
  let checksum := computeChecksum (targetBytes desc js.shadow.val.length)
    (js.shadow.val.map Prod.snd)
  putU32Le desc offChecksum checksum

/-- Where the region keeps the data of slot `i`. -/
def dataLba (i : Nat) : UInt32 :=
  js.journalStartLba + UInt32.ofNat descriptorSectors + UInt32.ofNat i

/-- Copies the held-back sectors into the region, from slot `i` on. -/
def writeDataBlocks (js : JournalState) (dev : Device) : Nat → List Sector → Bool × Device
  | _, [] => (true, dev)
  | i, sector :: rest =>
    match dev.blockdevWriteSectorsAbsolute (dataLba js i) [sector] with
    | (false, dev) => (false, dev)
    | (true, dev) => writeDataBlocks js dev (i + 1) rest

/-- Makes the open transaction durable: descriptor, data, then the descriptor with its mark. -/
def commitDurableInternal (dev : Device) : Bool × JournalState × Device :=
  if !js.journalRegionUsable dev || js.shadow.val.length == 0 then (true, js, dev)
  else
    let desc := descriptor js
    match dev.blockdevWriteSectorsAbsolute js.journalStartLba
        (sectorsOf desc descriptorSectors) with
    | (false, dev) => (false, js, dev)
    | (true, dev) =>
      match writeDataBlocks js dev 0 (js.shadow.val.map Prod.snd) with
      | (false, dev) => (false, js, dev)
      | (true, dev) =>
        -- The commit point: the first of these two sectors carries the mark.
        let desc := putU32Le desc offCommitFlag commitMagic
        match dev.blockdevWriteSectorsAbsolute js.journalStartLba
            (sectorsOf desc descriptorSectors) with
        | (false, dev) => (false, js, dev)
        | (true, dev) => (true, { js with seq := js.seq + 1 }, dev)

/-- Writes every held-back sector home, going on after a failure. -/
def writeHome (absolute : Bool) (dev : Device) : List (UInt32 × Sector) → Bool × Device
  | [] => (true, dev)
  | (lba, sector) :: rest =>
    let (wrote, dev) :=
      if absolute then dev.blockdevWriteSectorsAbsolute lba [sector]
      else dev.blockdevWriteSectors lba [sector]
    let (ok, dev) := writeHome absolute dev rest
    (wrote && ok, dev)

/-- Writes the open transaction home and puts the journal out of force. -/
def checkpointInternal (dev : Device) : Bool × JournalState × Device :=
  let (ok, dev) := writeHome js.targetsAbsolute dev js.shadow.val
  let dev :=
    if js.journalRegionUsable dev && js.shadow.val.length != 0 then
      (dev.blockdevWriteSectorsAbsolute js.journalStartLba [zeroSector]).2
    else dev
  (ok, { js with shadow := Shadow.ofList [], targetsAbsolute := false }, dev)

/-- Reads the journalled sectors back, from slot `i` on. -/
def readDataBlocks (js : JournalState) (dev : Device) (desc : Bytes) :
    Nat → Nat → Option (List (UInt32 × Sector)) × Device
  | _, 0 => (some [], dev)
  | i, count + 1 =>
    let lba := getU32Le desc (offTargetLba + i * 4)
    match dev.blockdevReadSectorsAbsolute (dataLba js i) 1 with
    | (some [sector], dev) =>
      match readDataBlocks js dev desc (i + 1) count with
      | (none, dev) => (none, dev)
      | (some rest, dev) => (some ((lba, sector) :: rest), dev)
    | (_, dev) => (none, dev)

/-- Whether a descriptor is one that recovery has nothing to do for. -/
def nothingToRecover (desc : Bytes) : Bool :=
  let blockCount := (getU32Le desc offBlockCount).toNat
  getU32Le desc offMagic != journalMagic || getU32Le desc offCommitFlag != commitMagic
    || blockCount == 0 || decide (maxTxnBlocks < blockCount)

/-- Redoes the transaction the region describes, if it describes a committed one. -/
def recoverInternal (dev : Device) : Int × JournalState × Device :=
  if !js.journalRegionUsable dev then (0, js, dev)
  else
    match dev.blockdevReadSectorsAbsolute js.journalStartLba descriptorSectors with
    | (none, dev) => (-1, js, dev)
    | (some sectors, dev) =>
      let desc := bytesOf sectors
      let blockCount := (getU32Le desc offBlockCount).toNat
      let storedChecksum := getU32Le desc offChecksum
      let targetsAbsolute := getU32Le desc offTargetsAbsolute != 0
      if nothingToRecover desc then (0, js, dev)
      else
        match readDataBlocks js dev desc 0 blockCount with
        | (none, dev) => (-1, js, dev)
        | (some entries, dev) =>
          let recomputed := computeChecksum (targetBytes desc blockCount) (entries.map Prod.snd)
          if recomputed != storedChecksum then
            -- Data that cannot be verified is never applied.
            (0, js, (dev.blockdevWriteSectorsAbsolute js.journalStartLba [zeroSector]).2)
          else
            match checkpointInternal
                { js with shadow := Shadow.ofList entries, targetsAbsolute := targetsAbsolute }
                dev with
            | (ok, js, dev) => (if ok then blockCount else -1, js, dev)

/-- Names the region, and uses it only when it can hold a whole transaction. -/
def rustJournalConfigure (dev : Device) (journalStartLba : UInt32) (journalLenSectors : UInt32) :
    JournalState :=
  { js with
    configured := decide (UInt32.ofNat (descriptorSectors + maxTxnBlocks) ≤ journalLenSectors)
    configuredDevice := dev.activeDevice
    journalStartLba := journalStartLba
    journalLenSectors := journalLenSectors }

def rustJournalRecover (dev : Device) : Int × JournalState × Device :=
  recoverInternal js dev

def rustJournalBegin : JournalState := { js with depth := js.depth + 1 }

/-- Closes a transaction; only the outermost close commits and checkpoints. -/
def rustJournalCommit (dev : Device) : Bool × JournalState × Device :=
  if js.depth == 0 then (true, js, dev)
  else
    let js := { js with depth := js.depth - 1 }
    if 0 < js.depth then (true, js, dev)
    else
      let (durableOk, js, dev) := commitDurableInternal js dev
      let (checkpointOk, js, dev) := checkpointInternal js dev
      (durableOk && checkpointOk, js, dev)

def rustJournalReadSectors (dev : Device) (lba : UInt32) (count : Nat) :
    Option (List Sector) × Device :=
  readSectorsInternal js dev lba count

def rustJournalWriteSectors (dev : Device) (lba : UInt32) (src : List Sector) :
    Bool × JournalState × Device :=
  writeSectorsInternal js dev lba src

end NovaOs
