import NovaOs.Lib.Bitmap
import Mathlib.Data.Finset.Basic
import Mathlib.Data.Finset.Lattice.Lemmas

/-! The allocator of physical frames of `kernel/arch/x86/mm/pmm.c`. -/

namespace NovaOs.Memory

def pmmFrameSize : Nat := 4096
def maxTrackedFrames : Nat := 256 * 1024
def bitmapWords : Nat := maxTrackedFrames / 32

/-- All that the kernel maps one to one. -/
def pagingIdentityMapBytes : Nat := 64 * 1024 * 1024

/-- One bit for every frame, set while it is in use. -/
structure Pmm where
  bitmap : Bitmap bitmapWords 32
  totalFrames : Nat

/-- Where the kernel itself was loaded. The linker script rounds the end up to a whole page. -/
structure Image where
  kernelStart : UInt32
  kernelEnd : UInt32
  aligned : kernelEnd.toNat % pmmFrameSize = 0

/-- A region of memory as the boot loader reports it. -/
structure MmapEntry where
  addr : UInt64
  len : UInt64
  kind : UInt32

def multibootInfoMemory : UInt32 := 0x00000001
def multibootInfoMemMap : UInt32 := 0x00000040
def multibootMemoryAvailable : UInt32 := 1

structure MultibootInfo where
  flags : UInt32
  memUpper : UInt32
  mmap : List MmapEntry

namespace Pmm

variable (pmm : Pmm)

def reserveRange (physStart physEnd : UInt32) : Pmm :=
  let first := physStart.toNat / pmmFrameSize
  let last := (physEnd + 4095).toNat / pmmFrameSize
  { pmm with
    bitmap := (List.range' first (min last maxTrackedFrames - first)).foldl Bitmap.set pmm.bitmap }

def freeRange (physStart physEnd : UInt32) : Pmm :=
  let first := physStart.toNat / pmmFrameSize
  let last := physEnd.toNat / pmmFrameSize
  (List.range' first (min last maxTrackedFrames - first)).foldl
    (fun pmm f => { bitmap := pmm.bitmap.clear f, totalFrames := max (f + 1) pmm.totalFrames }) pmm

/-- One past the highest frame that is ever handed out. -/
def allocatableFrames : Nat :=
  min pmm.totalFrames (pagingIdentityMapBytes / pmmFrameSize)

/-- Frees the memory of one entry of the map, as far as it can be addressed. -/
def freeEntry (entry : MmapEntry) : Pmm :=
  if entry.kind = multibootMemoryAvailable then
    let start := entry.addr.toUInt32
    let end64 := entry.addr + entry.len
    pmm.freeRange start (if 0xFFFFFFFF < end64 then 0xFFFFFFFF else end64.toUInt32)
  else pmm

/-- Everything is in use until the boot loader says otherwise. -/
def pmmInit (mbi : Option MultibootInfo) (magicValid : Bool) (image : Image) : Pmm :=
  let pessimistic : Pmm := { bitmap := fun _ => 0xFFFFFFFF#32, totalFrames := 0 }
  let freed :=
    match mbi with
    | none => pessimistic
    | some mbi =>
      if !magicValid then pessimistic
      else if mbi.flags &&& multibootInfoMemMap ≠ 0 then mbi.mmap.foldl freeEntry pessimistic
      else if mbi.flags &&& multibootInfoMemory ≠ 0 then
        pessimistic.freeRange 0x100000 (0x100000 + mbi.memUpper * 1024)
      else pessimistic
  (freed.reserveRange 0 0x100000).reserveRange image.kernelStart image.kernelEnd

/-- The first free frame, or `0` for none. -/
def pmmAllocFrame : UInt32 × Pmm :=
  match (List.range pmm.allocatableFrames).find? fun f => !pmm.bitmap.test f with
  | none => (0, pmm)
  | some f => (UInt32.ofNat (f * pmmFrameSize), { pmm with bitmap := pmm.bitmap.set f })

/-- The scan for free frames in a row: so many are left to look at, `f` is the next of them, and the
last `runLen` in front of it were free, from `runStart` on. -/
def runLoop (pmm : Pmm) (count : Nat) : (left f runStart runLen : Nat) → Option Nat
  | 0, _, _, _ => none
  | left + 1, f, runStart, runLen =>
    if pmm.bitmap.test f then runLoop pmm count left (f + 1) runStart 0
    else
      let runStart := if runLen = 0 then f else runStart
      if runLen + 1 = count then some runStart
      else runLoop pmm count left (f + 1) runStart (runLen + 1)

def pmmAllocContiguous (count : UInt32) : UInt32 × Pmm :=
  if count = 0 then (0, pmm)
  else
    match runLoop pmm count.toNat pmm.allocatableFrames 0 0 0 with
    | none => (0, pmm)
    | some runStart =>
      (UInt32.ofNat (runStart * pmmFrameSize),
        { pmm with bitmap := (List.range' runStart count.toNat).foldl Bitmap.set pmm.bitmap })

def pmmFreeFrame (physAddr : UInt32) : Pmm :=
  let frame := physAddr.toNat / pmmFrameSize
  if frame < maxTrackedFrames then { pmm with bitmap := pmm.bitmap.clear frame } else pmm

end Pmm

/-- A call, by whoever makes it. -/
inductive Call where
  | allocFrame
  | allocContiguous (count : UInt32)
  | freeFrame (physAddr : UInt32)

/-- The allocator, with the frames that were handed out and not given back. -/
structure Ledger where
  pmm : Pmm
  held : Finset Nat

/-- The frames of a successful answer. -/
def framesOf (answer : UInt32) (count : Nat) : Finset Nat :=
  if answer = 0 then ∅
  else (List.range' (answer.toNat / pmmFrameSize) count).toFinset

namespace Ledger

def step (ledger : Ledger) : Call → Ledger
  | .allocFrame =>
    let (answer, pmm) := ledger.pmm.pmmAllocFrame
    { pmm := pmm, held := ledger.held ∪ framesOf answer 1 }
  | .allocContiguous count =>
    let (answer, pmm) := ledger.pmm.pmmAllocContiguous count
    { pmm := pmm, held := ledger.held ∪ framesOf answer count.toNat }
  | .freeFrame physAddr =>
    { pmm := ledger.pmm.pmmFreeFrame physAddr
      held := ledger.held.erase (physAddr.toNat / pmmFrameSize) }

/-- Only a frame that is held is given back. -/
def Allowed (ledger : Ledger) : Call → Prop
  | .freeFrame physAddr => physAddr.toNat / pmmFrameSize ∈ ledger.held
  | _ => True

/-- The states after such calls. -/
inductive Reached (start : Ledger) : Ledger → Prop where
  | boot : Reached start start
  | call {ledger : Ledger} (before : Reached start ledger) (call : Call)
      (allowed : ledger.Allowed call) : Reached start (ledger.step call)

end Ledger

end NovaOs.Memory
