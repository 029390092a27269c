import NovaOs.Config.Text
import NovaOs.Lib.Bytes

/-!
The boot slot configuration of the update mechanism (`kernel/rust/atomic_update.rs`): a packed
record with a checksum. The record is 136 bytes long, of which 128 are saved to disk and loaded
again.
-/

namespace NovaOs.Update

variable {n off : Nat} {buf tail : Bytes}

def novaBootSlotA : UInt8 := 0

def novaBootSlotB : UInt8 := 1

def novaSlotStateNormal : UInt8 := 0

def novaSlotStateTesting : UInt8 := 1

def novaSlotStateRolledBack : UInt8 := 2

def defaultMaxBootAttempts : UInt8 := 3

/-- The two running sums of an Adler-32 checksum after one more byte. -/
def adlerStep (sums : UInt32 × UInt32) (byte : UInt8) : UInt32 × UInt32 :=
  let a := (sums.1 + byte.toUInt32) % 65521
  (a, (sums.2 + a) % 65521)

def adler32 (data : Bytes) : UInt32 :=
  let (a, b) := data.foldl adlerStep (1, 0)
  (b <<< 16) ||| a

/-- The persistent record. -/
@[ext] structure BootSlotConfig where
  magic : Vector UInt8 8
  structVersion : UInt32
  activeSlot : UInt8
  fallbackSlot : UInt8
  slotState : UInt8
  /-- Remaining attempts before the automatic rollback. -/
  bootAttempts : UInt8
  slotAVersion : Vector UInt8 16
  slotBVersion : Vector UInt8 16
  slotASha256 : Vector UInt8 32
  slotBSha256 : Vector UInt8 32
  reserved : Vector UInt8 20
  checksum : UInt32
  deriving DecidableEq, Repr

/-- The bytes of a word, least significant first. -/
def u32Bytes (value : UInt32) : Bytes :=
  [byteOf value 0, byteOf value 1, byteOf value 2, byteOf value 3]

/-- The bytes of a buffer from an offset on, as many as a field has. -/
def field (n : Nat) (buf : Bytes) (off : Nat) : Vector UInt8 n :=
  Vector.ofFn fun i => buf.getD (off + i) 0

def bootslotMagic : Vector UInt8 8 := field 8 (ascii "NOVABOOT") 0

namespace BootSlotConfig

variable (cfg : BootSlotConfig)

/-- The packed record as it lies in memory. -/
def toBytes : Bytes :=
  cfg.magic.toList ++ (u32Bytes cfg.structVersion
    ++ ([cfg.activeSlot, cfg.fallbackSlot, cfg.slotState, cfg.bootAttempts]
    ++ (cfg.slotAVersion.toList ++ (cfg.slotBVersion.toList ++ (cfg.slotASha256.toList
    ++ (cfg.slotBSha256.toList ++ (cfg.reserved.toList ++ u32Bytes cfg.checksum)))))))

/-- The first 124 bytes, which the checksum is taken over. -/
def raw : Bytes := cfg.toBytes.take 124

/-- The record that lies at the start of a buffer. -/
def ofBytes (buf : Bytes) : BootSlotConfig where
  magic := field 8 buf 0
  structVersion := getU32Le buf 8
  activeSlot := buf.getD 12 0
  fallbackSlot := buf.getD 13 0
  slotState := buf.getD 14 0
  bootAttempts := buf.getD 15 0
  slotAVersion := field 16 buf 16
  slotBVersion := field 16 buf 32
  slotASha256 := field 32 buf 48
  slotBSha256 := field 32 buf 80
  reserved := field 20 buf 112
  checksum := getU32Le buf 132

def updateChecksum : BootSlotConfig := { cfg with checksum := adler32 cfg.raw }

def isValid : Bool :=
  cfg.magic == bootslotMagic && cfg.structVersion == 1 && adler32 cfg.raw == cfg.checksum

/-- A configuration for a machine that has none: slot A is active, and its own fallback. -/
def defaultNew : BootSlotConfig :=
  updateChecksum {
    magic := bootslotMagic
    structVersion := 1
    activeSlot := novaBootSlotA
    fallbackSlot := novaBootSlotA
    slotState := novaSlotStateNormal
    bootAttempts := defaultMaxBootAttempts
    slotAVersion := field 16 (ascii "0.88.0") 0
    slotBVersion := field 16 (ascii "empty") 0
    slotASha256 := Vector.replicate 32 0
    slotBSha256 := Vector.replicate 32 0
    reserved := Vector.replicate 20 0
    checksum := 0 }

/-- What is saved of a record: its first 128 bytes. -/
def saved : Bytes := cfg.toBytes.take 128

/-- Loads a record from a file. The buffer of 128 bytes is read as a whole record, the end of which
is whatever lies in memory after the buffer. -/
def load (file : Bytes) (beyond : Vector UInt8 8) : Option BootSlotConfig :=
  let buf := file.take 128
  if buf.length = 128 then
    let loaded := ofBytes (buf ++ beyond.toList)
    if loaded.isValid then some loaded else none
  else none

end BootSlotConfig

variable (cfg : BootSlotConfig)

/-- What decides which kernel runs. -/
structure Control where
  active : UInt8
  fallback : UInt8
  state : UInt8
  attempts : UInt8
  deriving DecidableEq, Repr

def BootSlotConfig.control : Control :=
  ⟨cfg.activeSlot, cfg.fallbackSlot, cfg.slotState, cfg.bootAttempts⟩

/-- The record has the magic bytes and the version of the format. -/
def BootSlotConfig.Sound : Prop :=
  cfg.magic = bootslotMagic ∧ cfg.structVersion = 1

namespace BootSlotConfig

variable (cfg : BootSlotConfig) (beyond : Vector UInt8 8)

end BootSlotConfig

end NovaOs.Update
