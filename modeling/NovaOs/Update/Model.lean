import NovaOs.Packages.Signing
import NovaOs.Update.Config

/-!
The A/B update mechanism (`kernel/rust/atomic_update.rs`): packages verified and applied to the slot
that is not active, a hook at every boot, confirmation and rollback. Operations on the disk succeed.
-/

namespace NovaOs.Update

open Slice Sha256 Pkg

def novaUpdateOk : Int := 0

def novaUpdateErrBadHeader : Int := -2

def novaUpdateErrBadSig : Int := -3

def novaUpdateErrFault : Int := -7

/-- What a verified package holds. -/
structure UpdatePackage where
  payloadSize : UInt32
  version : Vector UInt8 16
  payloadSha256 : Vector UInt8 32
  payload : Bytes

/-- Parses and verifies a package; the inner error is the code that is reported. -/
def verifyUpdatePackage (pkg : Bytes) : Except Panic (Except Int UpdatePackage) :=
  if pkg.length < 128 then return .error novaUpdateErrBadHeader
  else if pkg.take 4 ≠ ascii "NVPK" ∧ pkg.take 4 ≠ ascii "NVUP" then
    return .error novaUpdateErrBadHeader
  else
    let payloadSize := getU32Le pkg 92
    -- The sum is taken in the 32 bits of a `usize`.
    if (128 + payloadSize).toNat ≠ pkg.length then return .error novaUpdateErrBadHeader
    else do
      let payload ← slice pkg 128 (128 + payloadSize).toNat
      let headerZeroed := pkg.take 96 ++ List.replicate 32 0
      let expectedSig ← computeSignature headerZeroed payload
      let actualSig ← slice pkg 96 128
      if constantTimeEq expectedSig actualSig then
        let version := field 16 (((pkg.drop 20).take 8).takeWhile (· != 0)) 0
        let hasher ← Sha256Streaming.new.update payload
        let payloadSha256 := field 32 (← hasher.finalize) 0
        return .ok { payloadSize, version, payloadSha256, payload }
      else
        return .error novaUpdateErrBadSig

/-- The files the mechanism keeps: its configuration and the kernels of the two slots. -/
structure Files where
  bootslot : Option Bytes
  slotA : Option Bytes
  slotB : Option Bytes

/-- The kernel in a slot. -/
def Files.kernel (files : Files) (slot : UInt8) : Option Bytes :=
  if slot = novaBootSlotB then files.slotB else files.slotA

/-- The state that a running kernel has in memory. -/
structure OsUpdateState where
  config : BootSlotConfig
  initialized : Bool
  lastError : Int

/-- A fresh state, as every boot starts with it. -/
def OsUpdateState.new : OsUpdateState where
  config := {
    magic := Vector.replicate 8 0
    structVersion := 0
    activeSlot := 0
    fallbackSlot := 0
    slotState := 0
    bootAttempts := 0
    slotAVersion := Vector.replicate 16 0
    slotBVersion := Vector.replicate 16 0
    slotASha256 := Vector.replicate 32 0
    slotBSha256 := Vector.replicate 32 0
    reserved := Vector.replicate 20 0
    checksum := 0 }
  initialized := false
  lastError := 0

/-- Disk and memory. -/
structure Machine where
  files : Files
  state : OsUpdateState

namespace Machine

variable (m : Machine)

/-- The configuration on disk, if there is one that passes the check. -/
def onDisk (beyond : Vector UInt8 8) : Option BootSlotConfig :=
  m.files.bootslot.bind (BootSlotConfig.load · beyond)

def ensureConfigLoaded (beyond : Vector UInt8 8) : Machine :=
  if m.state.initialized then m
  else
    match m.onDisk beyond with
    | some loaded => { m with state := { m.state with config := loaded, initialized := true } }
    | none =>
      let cfg := BootSlotConfig.defaultNew.updateChecksum
      { files := { m.files with bootslot := some cfg.saved }
        state := { m.state with config := cfg, initialized := true } }

def saveConfigLocked : Machine :=
  let cfg := m.state.config.updateChecksum
  { files := { m.files with bootslot := some cfg.saved }
    state := { m.state with config := cfg } }

/-- Puts a configuration in place of the one in memory. -/
def setConfig (cfg : BootSlotConfig) : Machine :=
  { m with state := { m.state with config := cfg } }

def setError (code : Int) : Machine :=
  { m with state := { m.state with lastError := code } }

/-- The slot opposite to the active one. -/
def target (current : UInt8) : UInt8 :=
  if current = novaBootSlotA then novaBootSlotB else novaBootSlotA

def bootHook (beyond : Vector UInt8 8) : Machine :=
  let m := m.ensureConfigLoaded beyond
  let cfg := m.state.config
  if cfg.slotState = novaSlotStateTesting then
    if 1 < cfg.bootAttempts then
      (m.setConfig { cfg with bootAttempts := cfg.bootAttempts - 1 }).saveConfigLocked
    else
      (m.setConfig { cfg with
        activeSlot := cfg.fallbackSlot
        slotState := novaSlotStateRolledBack
        bootAttempts := defaultMaxBootAttempts }).saveConfigLocked
  else m

/-- A boot: memory starts afresh, and the hook runs. -/
def boot (beyond : Vector UInt8 8) : Machine :=
  { m with state := .new }.bootHook beyond

def confirmHealthy (beyond : Vector UInt8 8) : Machine × Int :=
  let m := m.ensureConfigLoaded beyond
  let cfg := m.state.config
  if cfg.slotState = novaSlotStateTesting then
    ((m.setConfig { cfg with
      slotState := novaSlotStateNormal
      bootAttempts := defaultMaxBootAttempts }).saveConfigLocked, novaUpdateOk)
  else (m, novaUpdateOk)

/-- The kernel of a package goes into the slot that is not active, which then becomes the active
one, to be tested. -/
def install (package : UpdatePackage) : Machine :=
  let cfg := m.state.config
  let currentSlot := cfg.activeSlot
  let targetSlot := target currentSlot
  let files :=
    if targetSlot = novaBootSlotB then { m.files with slotB := some package.payload }
    else { m.files with slotA := some package.payload }
  let cfg := { cfg with
    fallbackSlot := currentSlot
    activeSlot := targetSlot
    slotState := novaSlotStateTesting
    bootAttempts := defaultMaxBootAttempts }
  let cfg :=
    if targetSlot = novaBootSlotB then
      { cfg with slotBVersion := package.version, slotBSha256 := package.payloadSha256 }
    else { cfg with slotAVersion := package.version, slotASha256 := package.payloadSha256 }
  { m with files }.setConfig cfg |>.saveConfigLocked

def applyPackage (pkg : Bytes) (beyond : Vector UInt8 8) : Except Panic (Machine × Int) :=
  if pkg.length < 128 then return (m, novaUpdateErrFault)
  else do
    match ← verifyUpdatePackage pkg with
    | .error code => return (m.setError code, code)
    | .ok package =>
      return (((m.ensureConfigLoaded beyond).install package).setError novaUpdateOk, novaUpdateOk)

def rollback (beyond : Vector UInt8 8) : Machine × Int :=
  let m := m.ensureConfigLoaded beyond
  let cfg := m.state.config
  ((m.setConfig { cfg with
    activeSlot := cfg.fallbackSlot
    slotState := novaSlotStateRolledBack
    bootAttempts := defaultMaxBootAttempts }).saveConfigLocked.setError novaUpdateOk, novaUpdateOk)

end Machine

end NovaOs.Update
