import Mathlib.Algebra.Group.Nat.Defs
import NovaOs.Memory.Exclusive

/-! What the memory map of the boot loader makes of the frames. -/

namespace NovaOs.Memory

open List

namespace MmapEntry

variable (entry : MmapEntry)

/-- Where the kernel takes a region to begin. -/
def start : UInt32 :=
  entry.addr.toUInt32

/-- Where the kernel takes a region to end. -/
def clampedEnd : UInt32 :=
  if 0xFFFFFFFF < entry.addr + entry.len then 0xFFFFFFFF else (entry.addr + entry.len).toUInt32

/-- The frames that are free because of a region. -/
def Frees (f : Nat) : Prop :=
  entry.kind = multibootMemoryAvailable ∧
    entry.start.toNat / pmmFrameSize ≤ f ∧ f < entry.clampedEnd.toNat / pmmFrameSize

/-- A byte of memory that a region says is available. -/
def Holds (byte : Nat) : Prop :=
  entry.kind = multibootMemoryAvailable ∧
    entry.addr.toNat ≤ byte ∧ byte < entry.addr.toNat + entry.len.toNat

/-- A region that the kernel reads as it was meant: it begins at a page below 4 GB, or no frame is
freed on its account. -/
def Plain : Prop :=
  (∀ f < maxTrackedFrames, ¬ entry.Frees f) ∨
    entry.addr.toNat < 2 ^ 32 ∧ entry.addr.toNat % pmmFrameSize = 0

end MmapEntry

/-- Every byte of a frame is available, be it in several regions. -/
def Backed (mmap : List MmapEntry) (f : Nat) : Prop :=
  ∀ byte, f * pmmFrameSize ≤ byte → byte < f * pmmFrameSize + pmmFrameSize →
    ∃ entry ∈ mmap, entry.Holds byte

namespace Pmm

variable {f : Nat} {pmm : Pmm}

theorem bitmap_freeRange (pmm : Pmm) (physStart physEnd : UInt32) :
    (pmm.freeRange physStart physEnd).bitmap
      = (List.range' (physStart.toNat / pmmFrameSize)
          (min (physEnd.toNat / pmmFrameSize) maxTrackedFrames
            - physStart.toNat / pmmFrameSize)).foldl Bitmap.clear pmm.bitmap := by
  unfold freeRange
  dsimp only
  -- The highest frame is kept alongside and does not bear on the bits.
  generalize List.range' _ _ = frames
  induction frames generalizing pmm with
  | nil => rfl
  | cons f rest ih => exact ih _

theorem test_freeRange {physStart physEnd : UInt32} (small : f < maxTrackedFrames) :
    (pmm.freeRange physStart physEnd).bitmap.test f
      = (!decide (physStart.toNat / pmmFrameSize ≤ f ∧ f < physEnd.toNat / pmmFrameSize)
          && pmm.bitmap.test f) := by
  rw [bitmap_freeRange, ← Bool.if_false_left, Bitmap.test_foldl
    (fun _ _ inside => Bitmap.test_clear (by decide) inside (by rwa [tracked_eq]))
    _ _ (by rw [tracked_eq]; omega)]
  exact if_congr (by omega) rfl rfl

/-- One region after the other, a frame stays free once it is. -/
theorem test_freeEntries {mmap : List MmapEntry} (small : f < maxTrackedFrames) :
    (mmap.foldl freeEntry pmm).bitmap.test f = false ↔
      pmm.bitmap.test f = false ∨ ∃ entry ∈ mmap, entry.Frees f := by
  induction mmap generalizing pmm with
  | nil => simp
  | cons entry rest ih =>
    rw [foldl_cons, ih]
    have here : (pmm.freeEntry entry).bitmap.test f = false ↔
        pmm.bitmap.test f = false ∨ entry.Frees f := by
      unfold freeEntry MmapEntry.Frees
      split
      · rename_i available
        rw [test_freeRange small]
        simp only [Bool.and_eq_false_iff, Bool.not_eq_false', decide_eq_true_eq, available,
          true_and]
        exact Or.comm
      · rename_i taken
        simp [taken]
    rw [here]
    rw [exists_mem_cons_iff, or_assoc]

/-- With a memory map, a frame is free exactly if a region frees it and it is not reserved. -/
theorem pmmInit_free {mbi : MultibootInfo} {image : Image}
    (given : mbi.flags &&& multibootInfoMemMap ≠ 0) (small : f < maxTrackedFrames) :
    (pmmInit (some mbi) true image).bitmap.test f = false ↔
      ¬(image.kernelStart.toNat / pmmFrameSize ≤ f ∧
          f < (image.kernelEnd + 4095).toNat / pmmFrameSize) ∧
        256 ≤ f ∧ ∃ entry ∈ mbi.mmap, entry.Frees f := by
  have megabyte : (0x100000 + 4095 : UInt32).toNat / pmmFrameSize = 256 := by decide
  -- To begin with every frame is in use.
  have used : (⟨fun _ => 0xFFFFFFFF#32, 0⟩ : Pmm).bitmap.test f = true := by
    rw [← tracked_eq] at small
    have ones : 0xFFFFFFFF#32 = BitVec.allOnes 32 := by decide
    rw [Bitmap.test_eq (by decide) small, ones, BitVec.getLsbD_allOnes]
    simp [Nat.mod_lt]
  simp only [pmmInit, Bool.not_true, Bool.false_eq_true, if_false, given, ne_eq, not_false_eq_true,
    if_true]
  rw [test_reserveRange small, test_reserveRange small, megabyte]
  simp only [Bool.or_eq_false_iff, decide_eq_false_iff_not]
  rw [test_freeEntries small, used]
  simp

end Pmm

namespace MmapEntry

variable {entry : MmapEntry}

theorem clampedEnd_le (entry : MmapEntry) :
    entry.clampedEnd.toNat ≤ (entry.addr + entry.len).toNat := by
  unfold clampedEnd
  split
  · rename_i beyond
    exact Nat.le_of_lt (UInt64.lt_iff_toNat_lt.mp beyond)
  · rw [UInt64.toNat_toUInt32]
    exact Nat.mod_le ..

/-- What is freed on account of a plain region is part of it. -/
theorem Plain.holds (plain : entry.Plain) {f : Nat} (small : f < maxTrackedFrames)
    (frees : entry.Frees f) {byte : Nat} (from_ : f * pmmFrameSize ≤ byte)
    (below : byte < f * pmmFrameSize + pmmFrameSize) : entry.Holds byte := by
  rcases plain with none | ⟨low, aligned⟩
  · exact absurd frees (none f small)
  obtain ⟨available, first, last⟩ := frees
  have start : entry.start.toNat = entry.addr.toNat := by
    rw [MmapEntry.start, UInt64.toNat_toUInt32, Nat.mod_eq_of_lt low]
  have end_ := entry.clampedEnd_le
  rw [start] at first
  rw [UInt64.toNat_add] at end_
  have wide := entry.len.toNat_lt
  simp only [pmmFrameSize] at *
  -- If the end had wrapped around it would lie before the beginning, and nothing be freed.
  exact ⟨available, by omega, by omega⟩

/-- A region that is not plain frees a frame of which it does not hold the first byte. -/
theorem plain_iff (available : entry.kind = multibootMemoryAvailable) :
    entry.Plain ↔ ∀ f < maxTrackedFrames, entry.Frees f → ∀ byte, f * pmmFrameSize ≤ byte →
      byte < f * pmmFrameSize + pmmFrameSize → entry.Holds byte := by
  constructor
  · intro plain f small frees byte from_ below
    exact plain.holds small frees from_ below
  intro holds
  by_cases none : ∀ f < maxTrackedFrames, ¬ entry.Frees f
  · exact .inl none
  push Not at none
  obtain ⟨f, small, -, first, last⟩ := none
  -- The first frame that is freed begins where the region seems to begin, or earlier.
  have begins : entry.Frees (entry.start.toNat / pmmFrameSize) :=
    ⟨available, Nat.le_refl _, by omega⟩
  have held := holds _ (by omega) begins _ (Nat.le_refl _) (by simp [pmmFrameSize])
  have low : entry.start.toNat = entry.addr.toNat % 2 ^ 32 := UInt64.toNat_toUInt32 _
  obtain ⟨-, reached, -⟩ := held
  refine .inr ⟨?_, ?_⟩
  all_goals
    simp only [pmmFrameSize] at *
    omega

end MmapEntry

/-- With any memory map whose available regions are plain, what is free after the boot is memory
that the boot loader said was available, outside the first megabyte and the kernel. -/
theorem only_real_memory_free (mbi : MultibootInfo) (image : Image)
    (given : mbi.flags &&& multibootInfoMemMap ≠ 0)
    (plain : ∀ entry ∈ mbi.mmap, entry.kind = multibootMemoryAvailable → entry.Plain)
    (f : Nat) (tracked : f < maxTrackedFrames)
    (free : (Pmm.pmmInit (some mbi) true image).bitmap.test f = false) :
    Backed mbi.mmap f ∧ image.Outside f := by
  refine ⟨fun byte from_ below => ?_, Pmm.pmmInit_outside tracked free⟩
  obtain ⟨-, -, entry, member, frees⟩ := (Pmm.pmmInit_free given tracked).mp free
  exact ⟨entry, member, (plain entry member frees.1).holds tracked frees from_ below⟩

/-- A kernel of two megabytes at the first. -/
def sampleImage : Image where
  kernelStart := 0x100000
  kernelEnd := 0x300000
  aligned := by decide

/-- A machine with one region of memory. -/
def sampleMap (addr len : UInt64) : MultibootInfo where
  flags := multibootInfoMemMap
  memUpper := 0
  mmap := [{ addr := addr, len := len, kind := multibootMemoryAvailable }]

theorem only_real_memory_free_small :
    Backed (sampleMap 0x100000 0x400000).mmap 0x300 ∧ sampleImage.Outside 0x300 := by
  refine only_real_memory_free (sampleMap 0x100000 0x400000) sampleImage (by decide)
    (fun entry member _ => ?_) 0x300 (by decide) ?_
  · obtain rfl := mem_singleton.mp member
    exact .inr ⟨by decide, by decide⟩
  · rw [Pmm.pmmInit_free (by decide) (by decide)]
    exact ⟨by decide, by decide, _, mem_singleton_self _, rfl, by decide, by decide⟩

/-- Memory above 4 GB makes frames free that are far below it, and a region that begins in the
middle of a page makes the whole page free. -/
theorem unreal_memory_free :
    ((Pmm.pmmInit (some (sampleMap 0x100000000 0x40000000)) true sampleImage).bitmap.test 0x500
        = false ∧ ¬ Backed (sampleMap 0x100000000 0x40000000).mmap 0x500) ∧
    (Pmm.pmmInit (some (sampleMap 0x400800 0x100000)) true sampleImage).bitmap.test 0x400 = false ∧
      ¬ Backed (sampleMap 0x400800 0x100000).mmap 0x400 := by
  refine ⟨⟨?_, fun backed => ?_⟩, ?_, fun backed => ?_⟩
  · rw [Pmm.pmmInit_free (by decide) (by decide)]
    exact ⟨by decide, by decide, _, mem_singleton_self _, rfl, by decide, by decide⟩
  · obtain ⟨entry, member, -, reached, -⟩ := backed 0x500000 (by decide) (by decide)
    obtain rfl := mem_singleton.mp member
    exact absurd reached (by decide)
  · rw [Pmm.pmmInit_free (by decide) (by decide)]
    exact ⟨by decide, by decide, _, mem_singleton_self _, rfl, by decide, by decide⟩
  · obtain ⟨entry, member, -, reached, -⟩ := backed 0x400000 (by decide) (by decide)
    obtain rfl := mem_singleton.mp member
    exact absurd reached (by decide)

end NovaOs.Memory
