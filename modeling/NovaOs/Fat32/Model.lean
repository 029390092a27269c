import NovaOs.Journal.Model

/-! The FAT32 driver of `kernel/fs/fat32.c`, one function at a time. -/

namespace NovaOs.Fat

-- Attribute bits of a directory entry.
def attrVolumeId : UInt8 := 0x08
def attrLfn : UInt8 := 0x0F

/-- Every link from here on ends a chain. -/
def endOfChain : UInt32 := 0x0FFFFFF8

/-- Keeps the 28 bits of a FAT entry that are the link. -/
def linkMask : UInt32 := 0x0FFFFFFF

/-- Largest cluster the driver has a buffer for. -/
def maxClusterSectors : Nat := 64

/-- Bytes in one directory entry. -/
def direntSize : Nat := 32

variable (buf entry : Bytes)

/-- A 16-bit field, least significant byte first. -/
def getU16Le (off : Nat) : UInt16 :=
  UInt16.ofNat ((buf.getD off 0).toNat + (buf.getD (off + 1) 0).toNat * 256)

/-- The two bytes of a 16-bit field. -/
def u16Bytes (value : UInt16) : Bytes := [UInt8.ofNat value.toNat, UInt8.ofNat (value.toNat / 256)]

/-- The four bytes of a 32-bit field. -/
def u32Bytes (value : UInt32) : Bytes := (List.range 4).map (byteOf value)

-- The fields of a directory entry that the driver looks at.
def direntName : Bytes := entry.take 11
def direntAttr : UInt8 := entry.getD 11 0
def direntSizeField : UInt32 := getU32Le entry 28

/-- The first cluster, kept in two halves. -/
def direntCluster : UInt32 :=
  ((getU16Le entry 20).toUInt32 <<< 16) ||| (getU16Le entry 26).toUInt32

/-- The entry of a file just written, every field not given being zero. -/
def newDirent (rawName : Bytes) (firstCluster size : UInt32) : Bytes :=
  rawName ++ List.replicate 9 (0 : UInt8) ++ u16Bytes (firstCluster >>> 16).toUInt16
    ++ List.replicate 4 (0 : UInt8) ++ u16Bytes (firstCluster &&& 0xFFFF).toUInt16 ++ u32Bytes size

/-- What mounting learns from the boot sector. -/
structure Layout where
  sectorsPerCluster : UInt8
  fatStartLba : UInt32
  dataStartLba : UInt32
  rootCluster : UInt32
  numFats : UInt8
  -- Sectors in one copy of the FAT.
  fatSize32 : UInt32
  deriving DecidableEq

namespace Layout

variable (layout : Layout)

def clusterToLba (cluster : UInt32) : UInt32 :=
  layout.dataStartLba + (cluster - 2) * layout.sectorsPerCluster.toUInt32

/-- Bytes in one cluster. -/
def clusterBytes : Nat := layout.sectorsPerCluster.toNat * sectorSize

def entriesPerCluster : Nat := layout.clusterBytes / direntSize

/-- How far into a copy of the FAT a cluster's entry stands, in sectors. -/
def sectorInFat (cluster : UInt32) : UInt32 := cluster * 4 / UInt32.ofNat sectorSize

/-- Where in that sector it stands. -/
def entOffset (cluster : UInt32) : Nat := (cluster * 4 % UInt32.ofNat sectorSize).toNat

/-- The sector of one copy of the FAT that holds a cluster's entry. -/
def fatSector (copy : Nat) (cluster : UInt32) : UInt32 :=
  layout.fatStartLba + UInt32.ofNat copy * layout.fatSize32 + sectorInFat cluster

/-- How many entries the search for a free cluster goes through. -/
def totalEntries : UInt32 := layout.fatSize32 * UInt32.ofNat sectorSize / 4

end Layout

/-- The driver's variables, with the journal and the device below them. -/
structure Fs where
  mounted : Bool
  partitionOffset : UInt32
  layout : Layout
  nextFreeClusterHint : UInt32
  js : JournalState
  dev : Device

namespace Fs

variable (fs : Fs)

/-- Reads sectors through the journal. -/
def readSectors (lba : UInt32) (count : Nat) : Option Bytes × Fs :=
  match rustJournalReadSectors fs.js fs.dev lba count with
  | (sectors, dev) => (sectors.map bytesOf, { fs with dev := dev })

/-- Writes sectors through the journal. -/
def writeSectors (lba : UInt32) (count : Nat) (buf : Bytes) : Bool × Fs :=
  match rustJournalWriteSectors fs.js fs.dev lba (sectorsOf buf count) with
  | (ok, js, dev) => (ok, { fs with js := js, dev := dev })

def readCluster (cluster : UInt32) : Option Bytes × Fs :=
  fs.readSectors (fs.layout.clusterToLba cluster) fs.layout.sectorsPerCluster.toNat

def writeCluster (cluster : UInt32) (buf : Bytes) : Bool × Fs :=
  fs.writeSectors (fs.layout.clusterToLba cluster) fs.layout.sectorsPerCluster.toNat buf

/-- The link of a cluster, an unreadable one counting as the last. -/
def fatNextCluster (cluster : UInt32) : UInt32 × Fs :=
  match fs.readSectors (fs.layout.fatSector 0 cluster) 1 with
  | (none, fs) => (endOfChain, fs)
  | (some buf, fs) => (getU32Le buf (Layout.entOffset cluster) &&& linkMask, fs)

/-- A FAT sector with one link replaced, the top four bits of the entry kept. -/
def setLink (buf : Bytes) (off : Nat) (value : UInt32) : Bytes :=
  putU32Le buf off ((getU32Le buf off &&& 0xF0000000) ||| (value &&& linkMask))

/-- Replaces a link in the copies of the FAT from `copy` on. -/
def setCopies (fs : Fs) (cluster value : UInt32) (copy : Nat) : Nat → Bool × Fs
  | 0 => (true, fs)
  | left + 1 =>
    match fs.readSectors (fs.layout.fatSector copy cluster) 1 with
    | (none, fs) => (false, fs)
    | (some buf, fs) =>
      match fs.writeSectors (fs.layout.fatSector copy cluster) 1
          (setLink buf (Layout.entOffset cluster) value) with
      | (false, fs) => (false, fs)
      | (true, fs) => fs.setCopies cluster value (copy + 1) left

def fatSetNextCluster (cluster value : UInt32) : Bool × Fs :=
  fs.setCopies cluster value 0 fs.layout.numFats.toNat

/-- How one pass of the search for a free cluster ends. -/
inductive Scan where
  | unreadable
  | none
  | free (cluster : UInt32)
  deriving DecidableEq

/-- The FAT sector holding an entry, read anew only when the last one read is another. -/
def cachedSector (cached : Option (UInt32 × Bytes)) (lba : UInt32) : Option Bytes × Fs :=
  match cached with
  | some (at', buf) => if at' == lba then (some buf, fs) else fs.readSectors lba 1
  | none => fs.readSectors lba 1

/-- One pass over `left` entries from `cluster` on. -/
def scanFree (fs : Fs) (cached : Option (UInt32 × Bytes)) (cluster : UInt32) :
    Nat → Scan × Fs
  | 0 => (.none, fs)
  | left + 1 =>
    match fs.cachedSector cached (fs.layout.fatSector 0 cluster) with
    | (none, fs) => (.unreadable, fs)
    | (some buf, fs) =>
      if getU32Le buf (Layout.entOffset cluster) &&& linkMask == 0 then
        (.free cluster, { fs with nextFreeClusterHint := cluster + 1 })
      else fs.scanFree (some (fs.layout.fatSector 0 cluster, buf)) (cluster + 1) left

/-- Looks for a free cluster from the hint to the end and then from the start to the hint. -/
def findFreeCluster : UInt32 × Fs :=
  let total := fs.layout.totalEntries
  let hint := fs.nextFreeClusterHint
  let start := if hint < 2 || total ≤ hint then 2 else hint
  match fs.scanFree none start (total.toNat - start.toNat) with
  | (.unreadable, fs) => (0, fs)
  | (.free cluster, fs) => (cluster, fs)
  | (.none, fs) =>
    match fs.scanFree none 2 (start.toNat - 2) with
    | (.free cluster, fs) => (cluster, fs)
    | (_, fs) => (0, fs)

/-- Takes `left` more clusters and hangs each behind the one before. -/
def allocClusters (fs : Fs) (first prev : UInt32) : Nat → UInt32 × Fs
  | 0 => (first, fs)
  | left + 1 =>
    match fs.findFreeCluster with
    | (cluster, fs) =>
      if cluster == 0 then (0, fs)
      else
        match fs.fatSetNextCluster cluster endOfChain with
        | (false, fs) => (0, fs)
        | (true, fs) =>
          if first == 0 then fs.allocClusters cluster cluster left
          -- Whether this link was written is not looked at.
          else (fs.fatSetNextCluster prev cluster).2.allocClusters first cluster left

def allocClusterChain (count : Nat) : UInt32 × Fs :=
  if count == 0 then (0, fs) else fs.allocClusters 0 0 count

/-- Follows a chain and frees it; nothing while the loop has not ended within the fuel. -/
def freeClusters : Nat → Fs → UInt32 → Option Fs
  | 0, _, _ => none
  | fuel + 1, fs, cluster =>
    if 2 ≤ cluster && cluster < endOfChain then
      match fs.fatNextCluster cluster with
      -- Whether the entry was written is not looked at.
      | (next, fs) => freeClusters fuel (fs.fatSetNextCluster cluster 0).2 next
    else some fs

def freeClusterChain (fuel : Nat) (fs : Fs) (cluster : UInt32) : Option Fs :=
  let fs :=
    if 2 ≤ cluster && cluster < fs.nextFreeClusterHint then
      { fs with nextFreeClusterHint := cluster }
    else fs
  freeClusters fuel fs cluster

end Fs

/-- An ASCII letter in upper case. -/
def upperCase (c : UInt8) : UInt8 := if 97 ≤ c && c ≤ 122 then c - 32 else c

/-- Upper-case characters, cut or filled up with blanks to a width. -/
def padName (width : Nat) (text : Bytes) : Bytes :=
  ((text.take width).map upperCase ++ List.replicate width 32).take width

/-- The eight characters and the three after the first dot that stand for a name on disk. -/
def toFat83 (input : Bytes) : Bytes :=
  padName 8 (input.takeWhile (· != 46)) ++ padName 3 ((input.dropWhile (· != 46)).drop 1)

/-- Reads the boot sector and mounts the volume if it is one the driver can handle. -/
def fat32Init (fs : Fs) (present : Bool) : Bool × Fs :=
  let fs :=
    { fs with
      dev := fs.dev.blockdevSetPartitionOffset fs.partitionOffset
      mounted := false }
  if !present then (false, fs)
  else
    match fs.readSectors 0 1 with
    | (none, fs) => (false, fs)
    | (some boot, fs) =>
      let sectorsPerCluster := boot.getD 13 0
      let numFats := boot.getD 16 0
      let fatSize32 := getU32Le boot 36
      if getU16Le boot 11 != UInt16.ofNat sectorSize || getU16Le boot 22 != 0
          || fatSize32 == 0 || getU16Le boot 17 != 0 then (false, fs)
      else if sectorsPerCluster == 0 || decide (maxClusterSectors < sectorsPerCluster.toNat) then
        (false, fs)
      else
        let fatStartLba := (getU16Le boot 14).toUInt32
        let layout : Layout :=
          { sectorsPerCluster := sectorsPerCluster
            fatStartLba := fatStartLba
            dataStartLba := fatStartLba + numFats.toUInt32 * fatSize32
            rootCluster := getU32Le boot 44
            numFats := numFats
            fatSize32 := fatSize32 }
        (true, { fs with layout := layout, nextFreeClusterHint := 2, mounted := true })

/-- Entry number `i` of a directory cluster. -/
def direntAt (i : Nat) : Bytes := (buf.drop (i * direntSize)).take direntSize

/-- What looking at one directory entry decides. -/
inductive Visit (α : Type) where
  | skip
  | stop
  | found (result : α)
  deriving DecidableEq

/-- How going through the directory ends. -/
inductive Walk (α : Type) where
  | found (result : α)
  | ended
  -- Every entry of every cluster was skipped; the last cluster is named.
  | full (last : UInt32)
  | unreadable
  deriving DecidableEq

variable {α : Type}

/-- Looks at the entries of one cluster from entry `i` on. -/
def visitDirents (visit : Nat → Bytes → Visit α) (buf : Bytes) (i : Nat) : Nat → Visit α
  | 0 => .skip
  | left + 1 =>
    match visit i (direntAt buf i) with
    | .skip => visitDirents visit buf (i + 1) left
    | decided => decided

/-- Goes through a directory cluster by cluster, the loop three functions of the driver share. -/
def walkChain (visit : UInt32 → Nat → Bytes → Visit α) :
    Nat → Fs → UInt32 → UInt32 → Option (Walk α × Fs)
  | 0, _, _, _ => none
  | fuel + 1, fs, cluster, last =>
    if cluster < endOfChain then
      match fs.readCluster cluster with
      | (none, fs) => some (.unreadable, fs)
      | (some buf, fs) =>
        match visitDirents (visit cluster) buf 0 fs.layout.entriesPerCluster with
        | .found result => some (.found result, fs)
        | .stop => some (.ended, fs)
        | .skip =>
          match fs.fatNextCluster cluster with
          | (next, fs) => walkChain visit fuel fs next cluster
    else some (.full last, fs)

/-- Entries that are neither deleted nor part of a long name nor a label. -/
def inUse : Bool :=
  entry.getD 0 0 != 0xE5 && direntAttr entry != attrLfn
    && direntAttr entry &&& attrVolumeId == 0

/-- Looks for a name, and stops where the directory ends. -/
def visitName (wantName : Bytes) (result : UInt32 → Nat → Bytes → α) (cluster : UInt32) (i : Nat)
    (entry : Bytes) : Visit α :=
  if entry.getD 0 0 == 0 then .stop
  else if inUse entry && direntName entry == wantName then .found (result cluster i entry)
  else .skip

/-- The directory entry of a name. -/
def walkRoot (fuel : Nat) (fs : Fs) (wantName : Bytes) : Option (Option Bytes × Fs) :=
  match walkChain (visitName wantName fun _ _ entry => entry) fuel fs fs.layout.rootCluster
      fs.layout.rootCluster with
  | none => none
  | some (.found entry, fs) => some (some entry, fs)
  | some (_, fs) => some (none, fs)

/-- The cluster a name's entry is in, and its place there. -/
def findExistingEntryLocation (fuel : Nat) (fs : Fs) (wantName : Bytes) :
    Option (Option (UInt32 × Nat) × Fs) :=
  match walkChain (visitName wantName fun cluster i _ => (cluster, i)) fuel fs
      fs.layout.rootCluster fs.layout.rootCluster with
  | none => none
  | some (.found loc, fs) => some (some loc, fs)
  | some (_, fs) => some (none, fs)

/-- An 8.3 name as it is shown: blanks left out, and a dot only before an extension. -/
def fromFat83 (raw : Bytes) : Bytes :=
  (raw.take 8).filter (· != 32)
    ++ if raw.getD 8 0 != 32 then 46 :: (((raw.drop 8).take 3).filter (· != 32)) else []

/-- Looks for an entry that may be overwritten. -/
def visitFree (cluster : UInt32) (i : Nat) (entry : Bytes) : Visit (UInt32 × Nat) :=
  if entry.getD 0 0 == 0 || entry.getD 0 0 == 0xE5 then .found (cluster, i) else .skip

/-- Puts a new cluster of zeros at the end of the directory. -/
def extendDirectory (fs : Fs) (lastCluster : UInt32) : Option (UInt32 × Nat) × Fs :=
  match fs.allocClusterChain 1 with
  | (newCluster, fs) =>
    if newCluster == 0 then (none, fs)
    else
      match fs.writeCluster newCluster (List.replicate fs.layout.clusterBytes 0) with
      | (false, fs) => (none, fs)
      | (true, fs) =>
        match fs.fatSetNextCluster lastCluster newCluster with
        | (false, fs) => (none, fs)
        | (true, fs) => (some (newCluster, 0), fs)

/-- A place for a new entry, in a new cluster when the directory is full. -/
def findFreeSlot (fuel : Nat) (fs : Fs) : Option (Option (UInt32 × Nat) × Fs) :=
  match walkChain visitFree fuel fs fs.layout.rootCluster fs.layout.rootCluster with
  | none => none
  | some (.found loc, fs) => some (some loc, fs)
  | some (.full last, fs) => some (extendDirectory fs last)
  | some (_, fs) => some (none, fs)

/-- Copies file bytes along a chain into the caller's buffer. -/
def readChain : Nat → Fs → UInt32 → Nat → Bytes → Option (Bytes × Fs)
  | 0, _, _, _, _ => none
  | fuel + 1, fs, cluster, remaining, out =>
    if 0 < remaining && cluster < endOfChain then
      match fs.readCluster cluster with
      | (none, fs) => some (out, fs)
      | (some buf, fs) =>
        let chunk := min remaining fs.layout.clusterBytes
        match fs.fatNextCluster cluster with
        | (next, fs) => readChain fuel fs next (remaining - chunk) (out ++ buf.take chunk)
    else some (out, fs)

/-- A 32-bit count returned as a C `int`. -/
def asInt (count : UInt32) : Int :=
  if count.toNat < 2 ^ 31 then count.toNat else count.toNat - 2 ^ 32

/-- Reads a file: the result, and the bytes put in the caller's buffer of `bufSize` bytes. -/
def fat32ReadFile (fuel : Nat) (fs : Fs) (filename : Bytes) (bufSize : UInt32) :
    Option (Int × Bytes × Fs) :=
  let fs := { fs with dev := fs.dev.blockdevSetPartitionOffset fs.partitionOffset }
  if !fs.mounted then some (-1, [], fs)
  else
    match walkRoot fuel fs (toFat83 filename) with
    | none => none
    | some (none, fs) => some (-1, [], fs)
    | some (some entry, fs) =>
      let remaining := min (direntSizeField entry).toNat bufSize.toNat
      match readChain fuel fs (direntCluster entry) remaining [] with
      | none => none
      | some (out, fs) => some (asInt (UInt32.ofNat out.length), out, fs)

/-- Follows a chain past clusters that are not read, at most to its end. -/
def skipChain (fs : Fs) (cluster : UInt32) : Nat → UInt32 × Fs
  | 0 => (cluster, fs)
  | skip + 1 =>
    if cluster < endOfChain then
      match fs.fatNextCluster cluster with
      | (next, fs) => skipChain fs next skip
    else (cluster, fs)

/-- Copies file bytes along a chain, from inside its first cluster on. -/
def rangeChain : Nat → Fs → UInt32 → Nat → Nat → Bytes → Option (Bytes × Fs)
  | 0, _, _, _, _, _ => none
  | fuel + 1, fs, cluster, inCluster, remaining, out =>
    if 0 < remaining && cluster < endOfChain then
      match fs.readCluster cluster with
      | (none, fs) => some (out, fs)
      | (some buf, fs) =>
        let avail := fs.layout.clusterBytes - inCluster
        let chunk := min remaining avail
        match fs.fatNextCluster cluster with
        | (next, fs) =>
          rangeChain fuel fs next 0 (remaining - chunk) (out ++ (buf.drop inCluster).take chunk)
    else some (out, fs)

/-- Reads at most `len` bytes of a file from an offset on: the result, and the bytes copied. -/
def fat32ReadFileRange (fuel : Nat) (fs : Fs) (filename : Bytes) (offset len : UInt32) :
    Option (Int × Bytes × Fs) :=
  let fs := { fs with dev := fs.dev.blockdevSetPartitionOffset fs.partitionOffset }
  if !fs.mounted then some (-1, [], fs)
  else
    match walkRoot fuel fs (toFat83 filename) with
    | none => none
    | some (none, fs) => some (-1, [], fs)
    | some (some entry, fs) =>
      let fileSize := direntSizeField entry
      if fileSize ≤ offset || len == 0 then some (0, [], fs)
      else
        let remaining := min (fileSize - offset).toNat len.toNat
        match skipChain fs (direntCluster entry) (offset.toNat / fs.layout.clusterBytes) with
        | (cluster, fs) =>
          -- A chain shorter than the size in the entry ends the data.
          if endOfChain ≤ cluster then some (0, [], fs)
          else
            match rangeChain fuel fs cluster (offset.toNat % fs.layout.clusterBytes)
                remaining [] with
            | none => none
            | some (out, fs) => some (asInt (UInt32.ofNat out.length), out, fs)

/-- Writes file bytes along a chain, filling the last cluster up with zeros. -/
def writeChain : Nat → Fs → UInt32 → Bytes → Option (Bool × Fs)
  | 0, _, _, _ => none
  | fuel + 1, fs, cluster, src =>
    if cluster < endOfChain then
      let chunk := src.take fs.layout.clusterBytes
      let buf := chunk ++ List.replicate (fs.layout.clusterBytes - chunk.length) 0
      match fs.writeCluster cluster buf with
      | (false, fs) => some (false, fs)
      | (true, fs) =>
        match fs.fatNextCluster cluster with
        | (next, fs) => writeChain fuel fs next (src.drop fs.layout.clusterBytes)
    else some (true, fs)

/-- A cluster buffer with bytes copied over it from `off` on. -/
def overwrite (off : Nat) (bytes : Bytes) : Bytes :=
  buf.take off ++ bytes ++ buf.drop (off + bytes.length)

/-- Claims a directory entry and fills it in. -/
def enterFile (fuel : Nat) (fs : Fs) (rawName : Bytes) (firstCluster size : UInt32) :
    Option (Bool × Fs) :=
  match findFreeSlot fuel fs with
  | none => none
  | some (none, fs) => some (false, fs)
  | some (some (dirCluster, i), fs) =>
    match fs.readCluster dirCluster with
    | (none, fs) => some (false, fs)
    | (some buf, fs) =>
      some (fs.writeCluster dirCluster
        (overwrite buf (i * direntSize) (newDirent rawName firstCluster size)))

/-- How many clusters a file of a size takes; an empty one takes a cluster too. -/
def clustersNeeded (layout : Layout) (size : UInt32) : Nat :=
  if size == 0 then 1
  else ((size + UInt32.ofNat layout.clusterBytes - 1) / UInt32.ofNat layout.clusterBytes).toNat

/-- What a write does inside its transaction. -/
def writeBody (fuel : Nat) (fs : Fs) (rawName : Bytes) (data : Bytes) : Option (Bool × Fs) :=
  let size := UInt32.ofNat data.length
  match fs.allocClusterChain (clustersNeeded fs.layout size) with
  | (firstCluster, fs) =>
    if firstCluster == 0 then some (false, fs)
    else
      match writeChain fuel fs firstCluster data with
      | none => none
      | some (false, fs) => (fs.freeClusterChain fuel firstCluster).map fun fs => (false, fs)
      | some (true, fs) =>
        match enterFile fuel fs rawName firstCluster size with
        | none => none
        | some (false, fs) => (fs.freeClusterChain fuel firstCluster).map fun fs => (false, fs)
        | some (true, fs) => some (true, fs)

/-- Opens a transaction. -/
def Fs.journalBegin (fs : Fs) : Fs := { fs with js := rustJournalBegin fs.js }

/-- Closes the transaction; the operation succeeds if it did and its commit did. -/
def Fs.journalCommit (fs : Fs) (result : Bool) : Bool × Fs :=
  match rustJournalCommit fs.js fs.dev with
  | (committed, js, dev) => (committed && result, { fs with js := js, dev := dev })

/-- Creates a file; a name that is already there is never overwritten. -/
def fat32WriteFile (fuel : Nat) (fs : Fs) (filename data : Bytes) : Option (Bool × Fs) :=
  let fs := { fs with dev := fs.dev.blockdevSetPartitionOffset fs.partitionOffset }
  if !fs.mounted then some (false, fs)
  else
    match findExistingEntryLocation fuel fs (toFat83 filename) with
    | none => none
    | some (some _, fs) => some (false, fs)
    | some (none, fs) =>
      match writeBody fuel fs.journalBegin (toFat83 filename) data with
      | none => none
      | some (result, fs) => some (fs.journalCommit result)

/-- What a delete does inside its transaction. -/
def deleteBody (fuel : Nat) (fs : Fs) (dirCluster : UInt32) (i : Nat) : Option (Bool × Fs) :=
  match fs.readCluster dirCluster with
  | (none, fs) => some (false, fs)
  | (some buf, fs) =>
    let firstCluster := direntCluster (direntAt buf i)
    match fs.writeCluster dirCluster (buf.set (i * direntSize) 0xE5) with
    | (false, fs) => some (false, fs)
    | (true, fs) => (fs.freeClusterChain fuel firstCluster).map fun fs => (true, fs)

/-- Deletes a file. -/
def fat32DeleteFile (fuel : Nat) (fs : Fs) (filename : Bytes) : Option (Bool × Fs) :=
  let fs := { fs with dev := fs.dev.blockdevSetPartitionOffset fs.partitionOffset }
  if !fs.mounted then some (false, fs)
  else
    match findExistingEntryLocation fuel fs (toFat83 filename) with
    | none => none
    | some (none, fs) => some (false, fs)
    | some (some (dirCluster, i), fs) =>
      match deleteBody fuel fs.journalBegin dirCluster i with
      | none => none
      | some (result, fs) => some (fs.journalCommit result)

end NovaOs.Fat
