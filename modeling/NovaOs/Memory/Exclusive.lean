import NovaOs.Memory.Frames

/-! No frame has two holders, and none is refused while there is one to be had. -/

namespace NovaOs.Memory

theorem tracked_eq : bitmapWords * 32 = maxTrackedFrames := by decide

/-- A frame that shares memory with neither the first megabyte nor the kernel. -/
def Image.Outside (image : Image) (f : Nat) : Prop :=
  0x100000 ≤ f * pmmFrameSize ∧
    (f * pmmFrameSize + pmmFrameSize ≤ image.kernelStart.toNat ∨
      image.kernelEnd.toNat ≤ f * pmmFrameSize)

namespace Pmm

variable {pmm : Pmm} {count f runStart runLen : Nat}

theorem allocatable_le (pmm : Pmm) : pmm.allocatableFrames ≤ 16384 := by
  have cap : pagingIdentityMapBytes / pmmFrameSize = 16384 := by decide
  rw [allocatableFrames, cap]
  exact Nat.min_le_right ..

/-- So many free frames in a row, at least one, that may all be handed out. -/
structure FreeRun (pmm : Pmm) (start count : Nat) : Prop where
  some : 0 < count
  below : start + count ≤ pmm.allocatableFrames
  free : ∀ i < count, pmm.bitmap.test (start + i) = false

/-- What the scan knows when it comes to `f`: the run in front of it goes back as far as it can, and
no run of the length wanted has gone by. -/
structure Scanned (pmm : Pmm) (count f runStart runLen : Nat) : Prop where
  short : runLen < count
  starts : runLen ≠ 0 → runStart + runLen = f
  within : runLen ≤ f
  free : ∀ i < runLen, pmm.bitmap.test (f - runLen + i) = false
  stopped : runLen < f → pmm.bitmap.test (f - runLen - 1) = true
  missed : ∀ start, start + count ≤ f → ∃ i < count, pmm.bitmap.test (start + i) = true

/-- A frame in use ends the run. -/
theorem Scanned.restart (scanned : pmm.Scanned count f runStart runLen)
    (used : pmm.bitmap.test f = true) : pmm.Scanned count (f + 1) runStart 0  where
  short := Nat.lt_of_le_of_lt (Nat.zero_le _) scanned.short
  starts absurd := (absurd rfl).elim
  within := Nat.zero_le _
  free i small := absurd small (Nat.not_lt_zero i)
  stopped _ := used
  missed start fits := by
    by_cases earlier : start + count ≤ f
    · exact scanned.missed start earlier
    · have short := scanned.short
      refine ⟨count - 1, by omega, ?_⟩
      rw [show start + (count - 1) = f by omega]
      exact used

/-- A free frame makes the run longer. -/
theorem Scanned.extend (scanned : pmm.Scanned count f runStart runLen)
    (unused : pmm.bitmap.test f = false) (more : runLen + 1 ≠ count) :
    pmm.Scanned count (f + 1) (if runLen = 0 then f else runStart) (runLen + 1) where
  short := by have := scanned.short; omega
  starts _ := by
    have starts := scanned.starts
    split <;> omega
  within := Nat.succ_le_succ scanned.within
  free i small := by
    have within := scanned.within
    by_cases last : i = runLen
    · rw [last, show f + 1 - (runLen + 1) + runLen = f by omega]
      exact unused
    · rw [show f + 1 - (runLen + 1) + i = f - runLen + i by omega]
      exact scanned.free i (by omega)
  stopped before := by
    rw [show f + 1 - (runLen + 1) - 1 = f - runLen - 1 by omega]
    exact scanned.stopped (by omega)
  missed start fits := by
    by_cases earlier : start + count ≤ f
    · exact scanned.missed start earlier
    -- A run that ends here is longer than the one in front, so it has the frame that ended that.
    have short := scanned.short
    have within := scanned.within
    refine ⟨f - runLen - 1 - start, by omega, ?_⟩
    rw [show start + (f - runLen - 1 - start) = f - runLen - 1 by omega]
    exact scanned.stopped (by omega)

/-- The answer of a scan is a run, or there is none. -/
def Answers (pmm : Pmm) (count : Nat) : Option Nat → Prop
  | some start => pmm.FreeRun start count
  | none => ¬∃ start, pmm.FreeRun start count

theorem runLoop_answers {left : Nat} (scanned : pmm.Scanned count f runStart runLen)
    (limit : f + left = pmm.allocatableFrames) :
    pmm.Answers count (runLoop pmm count left f runStart runLen) := by
  induction left generalizing f runStart runLen with
  | zero =>
    rintro ⟨start, run⟩
    obtain ⟨i, small, used⟩ := scanned.missed start (by have := run.below; omega)
    simp [run.free i small] at used
  | succ left ih =>
    rw [runLoop]
    cases bit : pmm.bitmap.test f with
    | true =>
      rw [if_pos rfl]
      exact ih (scanned.restart bit) (by omega)
    | false => ?_
    simp only [Bool.false_eq_true, if_false]
    by_cases full : runLen + 1 = count
    · -- The run that starts in front of this frame is long enough with it.
      rw [if_pos full]
      have starts := scanned.starts
      have within := scanned.within
      have start : (if runLen = 0 then f else runStart) = f - runLen := by split <;> omega
      refine ⟨by omega, by omega, fun i small => ?_⟩
      rw [start]
      by_cases last : i = runLen
      · rw [last, Nat.sub_add_cancel within]
        exact bit
      · exact scanned.free i (by omega)
    · rw [if_neg full]
      exact ih (scanned.extend bit full) (by omega)

/-- The address of a run: the first frame is in use for good, so it is not `0`. -/
theorem FreeRun.address {start : Nat} (run : pmm.FreeRun start count)
    (zero : pmm.bitmap.test 0 = true) :
    (UInt32.ofNat (start * pmmFrameSize)).toNat = start * pmmFrameSize ∧
      UInt32.ofNat (start * pmmFrameSize) ≠ 0 := by
  have cap := pmm.allocatable_le
  have below := run.below
  have some := run.some
  have address : (UInt32.ofNat (start * pmmFrameSize)).toNat = start * pmmFrameSize := by
    rw [UInt32.toNat_ofNat', Nat.mod_eq_of_lt]
    simp only [pmmFrameSize]
    omega
  refine ⟨address, fun none => ?_⟩
  rw [none] at address
  simp only [pmmFrameSize, UInt32.toNat_zero] at address
  obtain rfl : start = 0 := by omega
  simp [run.free 0 some] at zero

/-- The allocator with so many more frames in use. -/
def take (pmm : Pmm) (start count : Nat) : Pmm :=
  { pmm with bitmap := (List.range' start count).foldl Bitmap.set pmm.bitmap }

/-- What a request for one frame does. -/
theorem allocFrame_cases (pmm : Pmm) :
    (pmm.pmmAllocFrame = (0, pmm) ∧ ¬∃ start, pmm.FreeRun start 1) ∨
      ∃ start, pmm.FreeRun start 1 ∧
        pmm.pmmAllocFrame = (UInt32.ofNat (start * pmmFrameSize), pmm.take start 1) := by
  unfold pmmAllocFrame
  split
  · rename_i none
    left
    refine ⟨rfl, ?_⟩
    rintro ⟨start, run⟩
    have used := List.find?_range_eq_none.mp none start (by have := run.below; omega)
    have unused := run.free 0 run.some
    rw [Nat.add_zero] at unused
    simp [unused] at used
  rename_i f found
  right
  obtain ⟨unused, small, -⟩ := List.find?_range_eq_some.mp found
  refine ⟨f, ⟨Nat.one_pos, List.mem_range.mp small, fun i first => ?_⟩, rfl⟩
  obtain rfl : i = 0 := by omega
  simpa using unused

/-- What a request for frames in a row does. -/
theorem allocContiguous_cases (pmm : Pmm) (count : UInt32) :
    (pmm.pmmAllocContiguous count = (0, pmm) ∧ ¬∃ start, pmm.FreeRun start count.toNat) ∨
      ∃ start, pmm.FreeRun start count.toNat ∧ pmm.pmmAllocContiguous count
        = (UInt32.ofNat (start * pmmFrameSize), pmm.take start count.toNat) := by
  unfold pmmAllocContiguous
  split
  · rename_i zero
    left
    refine ⟨rfl, ?_⟩
    rintro ⟨start, run⟩
    simpa [zero] using run.some
  rename_i nonzero
  have positive : 0 < count.toNat := by
    rcases Nat.eq_zero_or_pos count.toNat with zero | positive
    · exact absurd (UInt32.toNat_inj.mp zero) nonzero
    · exact positive
  have scanned : pmm.Scanned count.toNat 0 0 0 :=
    { short := positive
      starts := fun absurd => (absurd rfl).elim
      within := Nat.le_refl _
      free := fun i small => absurd small (Nat.not_lt_zero i)
      stopped := fun absurd => (Nat.lt_irrefl _ absurd).elim
      missed := fun start fits => by omega }
  have answers := runLoop_answers scanned (Nat.zero_add _)
  cases found : pmm.runLoop count.toNat pmm.allocatableFrames 0 0 0 with
  | none =>
    rw [found] at answers
    exact .inl ⟨rfl, answers⟩
  | some start =>
    rw [found] at answers
    exact .inr ⟨start, answers, rfl⟩

/-! ## What is reserved at boot -/

theorem test_reserveRange {physStart physEnd : UInt32} (small : f < maxTrackedFrames) :
    (pmm.reserveRange physStart physEnd).bitmap.test f
      = (decide (physStart.toNat / pmmFrameSize ≤ f ∧
          f < (physEnd + 4095).toNat / pmmFrameSize) || pmm.bitmap.test f) := by
  rw [reserveRange, ← Bool.if_true_left, Bitmap.test_foldl
    (fun _ _ inside => Bitmap.test_set (by decide) inside (by rwa [tracked_eq]))
    _ _ (by rw [tracked_eq]; omega)]
  exact if_congr (by omega) rfl rfl

/-- Whatever the boot loader has said, what is free after the boot is outside. -/
theorem pmmInit_outside {mbi : Option MultibootInfo} {magicValid : Bool} {image : Image}
    (small : f < maxTrackedFrames) (unused : (pmmInit mbi magicValid image).bitmap.test f = false) :
    image.Outside f := by
  simp only [pmmInit] at unused
  rw [test_reserveRange small, test_reserveRange small] at unused
  simp only [Bool.or_eq_false_iff, decide_eq_false_iff_not] at unused
  obtain ⟨kernel, low, -⟩ := unused
  -- The end of the kernel is a whole number of pages, so that adding to it does not wrap.
  have whole := image.aligned
  have bound := image.kernelEnd.toNat_lt
  have rounded : (image.kernelEnd + 4095).toNat = image.kernelEnd.toNat + 4095 := by
    rw [UInt32.toNat_add, Nat.mod_eq_of_lt]
    · rfl
    · simp only [pmmFrameSize] at whole
      simp only [UInt32.reduceToNat]
      omega
  rw [rounded] at kernel
  simp only [Image.Outside, pmmFrameSize] at *
  have megabyte : (0x100000 + 4095 : UInt32).toNat / 4096 = 256 := by decide
  rw [megabyte] at low
  simp only [UInt32.toNat_zero] at low
  omega

end Pmm

namespace Ledger

variable {ledger : Ledger}

/-- What is in use is what was in use at boot and what is held, and nothing is both. -/
structure Kept (boot : Pmm) (ledger : Ledger) : Prop where
  total : ledger.pmm.totalFrames = boot.totalFrames
  bits : ∀ f < maxTrackedFrames,
    ledger.pmm.bitmap.test f = (boot.bitmap.test f || decide (f ∈ ledger.held))
  fresh : ∀ f ∈ ledger.held, f < boot.allocatableFrames ∧ boot.bitmap.test f = false

theorem Kept.boot (boot : Pmm) : Kept boot ⟨boot, ∅⟩ where
  total := rfl
  bits _ _ := by simp
  fresh _ held := by simp at held

theorem Kept.allocatable {boot : Pmm} (kept : ledger.Kept boot) :
    ledger.pmm.allocatableFrames = boot.allocatableFrames := by
  rw [Pmm.allocatableFrames, kept.total, Pmm.allocatableFrames]

/-- A frame to be had: the allocator manages it, it was free at boot, and nobody has it. -/
def Available (ledger : Ledger) (boot : Pmm) (f : Nat) : Prop :=
  f < boot.allocatableFrames ∧ boot.bitmap.test f = false ∧ f ∉ ledger.held

/-- The frames that are free in the bitmap are the ones to be had. -/
theorem Kept.freeRun_iff {boot : Pmm} (kept : ledger.Kept boot) (start count : Nat) :
    ledger.pmm.FreeRun start count ↔
      0 < count ∧ ∀ i < count, ledger.Available boot (start + i) := by
  have cap := boot.allocatable_le
  have bits : ∀ f < boot.allocatableFrames,
      ledger.pmm.bitmap.test f = false ↔ boot.bitmap.test f = false ∧ f ∉ ledger.held := by
    intro f small
    have tracked : f < maxTrackedFrames := by
      simp only [maxTrackedFrames]
      omega
    rw [kept.bits f tracked, Bool.or_eq_false_iff, decide_eq_false_iff_not]
  constructor
  · intro run
    have below := run.below
    rw [kept.allocatable] at below
    refine ⟨run.some, fun i small => ⟨by omega, ?_⟩⟩
    exact (bits _ (by omega)).mp (run.free i small)
  · rintro ⟨some, available⟩
    -- The last frame of the run shows that all are below the limit.
    have last := (available (count - 1) (by omega)).1
    refine ⟨some, by rw [kept.allocatable]; omega, fun i small => ?_⟩
    exact (bits _ (available i small).1).mpr (available i small).2

/-- Handing out a run makes it held. -/
theorem Kept.grant {boot : Pmm} (kept : ledger.Kept boot) (zero : boot.bitmap.test 0 = true)
    {start count : Nat} (run : ledger.pmm.FreeRun start count) :
    Kept boot
      { pmm := ledger.pmm.take start count
        held := ledger.held ∪ framesOf (UInt32.ofNat (start * pmmFrameSize)) count } := by
  have used : ledger.pmm.bitmap.test 0 = true := by
    rw [kept.bits 0 (by decide), zero, Bool.true_or]
  obtain ⟨address, nonzero⟩ := run.address used
  have frames : ∀ f, f ∈ framesOf (UInt32.ofNat (start * pmmFrameSize)) count ↔
      start ≤ f ∧ f < start + count := by
    intro f
    rw [framesOf, if_neg nonzero, address, Nat.mul_div_cancel _ (by decide)]
    simp [List.mem_range'_1]
  refine ⟨kept.total, fun f small => ?_, fun f held => ?_⟩
  · have below := run.below
    have cap := ledger.pmm.allocatable_le
    rw [Pmm.take, Bitmap.test_foldl
      (fun _ _ inside => Bitmap.test_set (by decide) inside (by rwa [tracked_eq]))
      _ _ (by rw [tracked_eq, maxTrackedFrames]; omega), Bool.if_true_left, kept.bits f small]
    simp only [Finset.mem_union, frames, Bool.decide_or]
    rw [Bool.or_left_comm, Bool.or_comm (decide (f ∈ ledger.held))]
  · rcases Finset.mem_union.mp held with old | new
    · exact kept.fresh f old
    · obtain ⟨behind, before⟩ := (frames f).mp new
      have available := ((kept.freeRun_iff start count).mp run).2 (f - start) (by omega)
      rw [Nat.add_sub_cancel' behind] at available
      exact ⟨available.1, available.2.1⟩

theorem Kept.step {boot : Pmm} (kept : ledger.Kept boot) (zero : boot.bitmap.test 0 = true)
    {call : Call} (allowed : ledger.Allowed call) : (ledger.step call).Kept boot := by
  cases call with
  | allocFrame =>
    rw [Ledger.step]
    rcases ledger.pmm.allocFrame_cases with ⟨refused, -⟩ | ⟨start, run, granted⟩
    · rw [refused]
      simp only [framesOf, if_true, Finset.union_empty]
      exact kept
    · rw [granted]
      exact kept.grant zero run
  | allocContiguous count =>
    rw [Ledger.step]
    rcases ledger.pmm.allocContiguous_cases count with ⟨refused, -⟩ | ⟨start, run, granted⟩
    · rw [refused]
      simp only [framesOf, if_true, Finset.union_empty]
      exact kept
    · rw [granted]
      exact kept.grant zero run
  | freeFrame physAddr => ?_
  -- What is given back was held, so it was free at boot and is free again.
  obtain ⟨below, unused⟩ := kept.fresh _ allowed
  have cap := boot.allocatable_le
  have tracked : physAddr.toNat / pmmFrameSize < maxTrackedFrames := by
    simp only [maxTrackedFrames]
    omega
  rw [Ledger.step, Pmm.pmmFreeFrame, if_pos tracked]
  refine ⟨kept.total, fun f small => ?_, fun f held => ?_⟩
  · rw [Bitmap.test_clear (by decide) (by rw [tracked_eq]; exact tracked)
      (by rw [tracked_eq]; exact small), kept.bits f small]
    by_cases same : physAddr.toNat / pmmFrameSize = f
    · simp [← same, unused]
    · simp [same, Ne.symm same]
  · exact kept.fresh f (Finset.mem_of_mem_erase held)

theorem Reached.kept {boot : Pmm} (zero : boot.bitmap.test 0 = true)
    (reached : Reached ⟨boot, ∅⟩ ledger) : ledger.Kept boot := by
  induction reached with
  | boot => exact .boot boot
  | call _ _ allowed ih => exact ih.step zero allowed

/-- What a request for frames may answer: the address of so many of them in a row, each to be had
and none reserved; or `0`, if and only if there are not so many to be had in a row. -/
def Serves (ledger : Ledger) (boot : Pmm) (image : Image) (count : Nat) (answer : UInt32) : Prop :=
  (answer ≠ 0 → ∃ f, answer.toNat = f * pmmFrameSize ∧
    ∀ i < count, ledger.Available boot (f + i) ∧ image.Outside (f + i)) ∧
  (answer = 0 ↔ ¬∃ f, 0 < count ∧ ∀ i < count, ledger.Available boot (f + i))

theorem Kept.serves {boot : Pmm} (kept : ledger.Kept boot) (zero : boot.bitmap.test 0 = true)
    {image : Image}
    (outside : ∀ f < maxTrackedFrames, boot.bitmap.test f = false → image.Outside f) {count : Nat}
    {result : UInt32 × Pmm}
    (cases : result = (0, ledger.pmm) ∧ (¬∃ start, ledger.pmm.FreeRun start count) ∨
      ∃ start, ledger.pmm.FreeRun start count ∧
        result = (UInt32.ofNat (start * pmmFrameSize), ledger.pmm.take start count)) :
    ledger.Serves boot image count result.1 := by
  have cap := boot.allocatable_le
  have used : ledger.pmm.bitmap.test 0 = true := by
    rw [kept.bits 0 (by decide), zero, Bool.true_or]
  simp only [kept.freeRun_iff] at cases
  rcases cases with ⟨refused, none⟩ | ⟨start, ⟨some, available⟩, granted⟩
  · rw [refused]
    exact ⟨fun nonzero => absurd rfl nonzero, iff_of_true rfl none⟩
  obtain ⟨address, nonzero⟩ :=
    ((kept.freeRun_iff start count).mpr ⟨some, available⟩).address used
  rw [granted]
  refine ⟨fun _ => ⟨start, address, fun i small => ⟨available i small, ?_⟩⟩, ?_⟩
  · obtain ⟨below, free, -⟩ := available i small
    exact outside _ (by simp only [maxTrackedFrames]; omega) free
  · exact iff_of_false nonzero (not_not_intro ⟨start, some, available⟩)

end Ledger

/-- After any calls that give back only what is held, a request is answered with frames that nobody
has, that the allocator manages and that are not reserved, in a row; it is refused only if there are
none. -/
theorem frames_exclusive (mbi : Option MultibootInfo) (magicValid : Bool) (image : Image)
    (ledger : Ledger)
    (reached : Ledger.Reached ⟨Pmm.pmmInit mbi magicValid image, ∅⟩ ledger) :
    ledger.Serves (Pmm.pmmInit mbi magicValid image) image 1 ledger.pmm.pmmAllocFrame.1 ∧
      ∀ count : UInt32, ledger.Serves (Pmm.pmmInit mbi magicValid image) image count.toNat
        (ledger.pmm.pmmAllocContiguous count).1 := by
  have outside : ∀ f < maxTrackedFrames,
      (Pmm.pmmInit mbi magicValid image).bitmap.test f = false → image.Outside f :=
    fun f small unused => Pmm.pmmInit_outside small unused
  have zero : (Pmm.pmmInit mbi magicValid image).bitmap.test 0 = true := by
    by_contra unused
    have low := (outside 0 (by decide) (by simpa using unused)).1
    omega
  have kept := reached.kept zero
  exact ⟨kept.serves zero outside ledger.pmm.allocFrame_cases,
    fun count => kept.serves zero outside (ledger.pmm.allocContiguous_cases count)⟩

/-- A machine with 128 KB above the first megabyte, half of it taken by the kernel. -/
def smallMachine : Pmm :=
  Pmm.pmmInit (some { flags := 0x40, memUpper := 0, mmap := [⟨0x100000, 0x20000, 1⟩] }) true
    ⟨0x100000, 0x110000, by decide⟩

set_option maxRecDepth 2000 in
theorem frames_exclusive_small :
    Ledger.Available ⟨smallMachine, ∅⟩ smallMachine 0x110 ∧
      (∃ f, smallMachine.pmmAllocFrame.1.toNat = f * pmmFrameSize ∧
        Ledger.Available ⟨smallMachine, ∅⟩ smallMachine f) := by
  have available : Ledger.Available ⟨smallMachine, ∅⟩ smallMachine 0x110 :=
    ⟨by decide, by decide, Finset.notMem_empty _⟩
  obtain ⟨served, refused⟩ := (frames_exclusive _ true ⟨0x100000, 0x110000, by decide⟩
    ⟨smallMachine, ∅⟩ .boot).1
  have nonzero : smallMachine.pmmAllocFrame.1 ≠ 0 := by
    intro zero
    refine refused.mp zero ⟨0x110, Nat.one_pos, fun i first => ?_⟩
    obtain rfl : i = 0 := by omega
    exact available
  obtain ⟨f, address, free⟩ := served nonzero
  exact ⟨available, f, address, (free 0 Nat.one_pos).1⟩

end NovaOs.Memory
