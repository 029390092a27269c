import NovaOs.Journal.Errors

/-!
A transaction as its caller sees it, whatever the nesting and whichever transfers fail: reads find
the latest writes, the disk waits for the outermost commit, and that commit applies the writes in
their order.
-/

namespace NovaOs

open JournalState

/-- Journals met between any two calls, made on any devices and with any outcomes. -/
inductive Called : JournalState → Prop where
  | new : Called JournalState.new
  | configure {js : JournalState} (earlier : Called js) (dev : Device) (start len : UInt32) :
      Called (rustJournalConfigure js dev start len)
  | recover {js : JournalState} (earlier : Called js) (dev : Device) :
      Called (rustJournalRecover js dev).2.1
  | begin {js : JournalState} (earlier : Called js) : Called (rustJournalBegin js)
  | write {js : JournalState} (earlier : Called js) (dev : Device) (lba : UInt32)
      (src : List Sector) : Called (rustJournalWriteSectors js dev lba src).2.1
  | commit {js : JournalState} (earlier : Called js) (dev : Device) :
      Called (rustJournalCommit js dev).2.1

/-- Consecutive sectors with their addresses. -/
def addressed (lba : UInt32) : List Sector → List (UInt32 × Sector)
  | [] => []
  | sector :: rest => (lba, sector) :: addressed (lba + 1) rest

/-- What one transaction comes to by successful calls, with its single-sector writes in order. -/
inductive Inside (start : JournalState) (disk : Device) :
    JournalState → Device → List (UInt32 × Sector) → Prop where
  | opened : Inside start disk (rustJournalBegin start) disk []
  | nested {js : JournalState} {dev : Device} {writes : List (UInt32 × Sector)}
      (earlier : Inside start disk js dev writes) :
      Inside start disk (rustJournalBegin js) dev writes
  -- A commit that is not the outermost one.
  | unnested {js : JournalState} {dev : Device} {writes : List (UInt32 × Sector)}
      (earlier : Inside start disk js dev writes) (inner : 1 < js.depth) :
      Inside start disk (rustJournalCommit js dev).2.1 (rustJournalCommit js dev).2.2 writes
  | read {js : JournalState} {dev after : Device} {writes : List (UInt32 × Sector)}
      {lba : UInt32} {count : Nat} {sectors : List Sector}
      (earlier : Inside start disk js dev writes)
      (got : rustJournalReadSectors js dev lba count = (some sectors, after)) :
      Inside start disk js after writes
  | wrote {js next : JournalState} {dev after : Device} {writes : List (UInt32 × Sector)}
      {lba : UInt32} {src : List Sector} (earlier : Inside start disk js dev writes)
      (took : rustJournalWriteSectors js dev lba src = (true, next, after)) :
      Inside start disk next after (writes ++ addressed lba src)

section Between

variable {js : JournalState} {dev : Device}

/-- Between transactions nothing is held back, and addresses count from the partition. -/
structure Resting (js : JournalState) : Prop where
  relative : js.targetsAbsolute = false
  closed : js.depth = 0 → js.shadow.val = []

theorem shadowSectors_same (js : JournalState) (lba : UInt32) (sectors : List Sector) :
    ∃ shadow : Shadow, (shadowSectors js lba sectors).2 = { js with shadow } := by
  induction sectors generalizing js lba with
  | nil => exact ⟨js.shadow, rfl⟩
  | cons sector rest ih =>
    rw [shadowSectors]
    cases took : shadowSector js lba sector with
    | none => exact ⟨js.shadow, rfl⟩
    | some next =>
      obtain ⟨shadow, rfl⟩ := (Holding.shadowSector took).same
      exact ih _ (lba + 1)

/-- A checkpoint leaves nothing held back. -/
theorem checkpoint_rests :
    (checkpointInternal js dev).2.1.targetsAbsolute = false
      ∧ (checkpointInternal js dev).2.1.shadow.val = [] := ⟨rfl, rfl⟩

/-- A pass of recovery leaves the journal alone or leaves it with nothing held back. -/
theorem recover_same (dev : Device) :
    (recoverInternal js dev).2.1 = js
      ∨ (recoverInternal js dev).2.1.targetsAbsolute = false
        ∧ (recoverInternal js dev).2.1.shadow.val = [] := by
  rw [recoverInternal]
  cases js.journalRegionUsable dev with
  | false => exact .inl rfl
  | true => ?_
  simp only [Bool.not_true, Bool.false_eq_true, if_false]
  obtain ⟨result, mid⟩ := dev.blockdevReadSectorsAbsolute js.journalStartLba descriptorSectors
  cases result with
  | none => exact .inl rfl
  | some sectors => ?_
  dsimp only
  generalize bytesOf sectors = desc
  generalize (getU32Le desc offBlockCount).toNat = count
  cases nothingToRecover desc with
  | true => exact .inl rfl
  | false => ?_
  simp only [Bool.false_eq_true, if_false]
  obtain ⟨result, last⟩ := readDataBlocks js mid desc 0 count
  cases result with
  | none => exact .inl rfl
  | some entries =>
    dsimp only
    split
    · exact .inl rfl
    · exact .inr (checkpoint_rests)

theorem Called.resting (called : Called js) : Resting js := by
  induction called with
  | new => exact ⟨rfl, fun _ => rfl⟩
  | configure earlier dev start len ih => exact ⟨ih.relative, ih.closed⟩
  | recover earlier dev ih =>
    rcases recover_same dev with same | ⟨relative, empty⟩
    · rw [rustJournalRecover, same]
      exact ih
    · exact ⟨relative, fun _ => empty⟩
  | begin earlier ih => exact ⟨ih.relative, fun shut => absurd shut (Nat.succ_ne_zero _)⟩
  | @write js earlier dev lba src ih =>
    rw [rustJournalWriteSectors, writeSectorsInternal]
    split
    · exact ih
    rename_i inside
    obtain ⟨shadow, same⟩ := shadowSectors_same js lba src
    generalize shadowSectors js lba src = outcome at same
    obtain ⟨ok, next⟩ := outcome
    cases same
    refine ⟨ih.relative, fun shut => ?_⟩
    have zero : js.depth = 0 := shut
    simp [zero] at inside
  | @commit js earlier dev ih =>
    rw [rustJournalCommit]
    split
    · exact ih
    dsimp only
    split
    · rename_i deeper
      exact ⟨ih.relative, fun shut => absurd shut (Nat.ne_of_gt deeper)⟩
    · exact ⟨rfl, fun _ => rfl⟩

end Between

section Reading

variable {js : JournalState} {dev : Device} {lba : UInt32} {sectors : List Sector}

/-- Transfers that write nothing change nothing that is seen. -/
theorem viewOf_after {mid : Device} {used : Nat} (gone : dev.After used [] mid) :
    viewOf js mid = viewOf js dev := by
  funext lba
  rw [viewOf, viewOf, gone.targetLba, gone.disk, applyWrites_nil]

/-- A read inside a transaction that succeeds returns what is seen, and leaves the disk alone. -/
theorem readShadowed_some {after : Device} {count : Nat}
    (got : readShadowed js dev lba count = (some sectors, after)) :
    sectors = viewRun (viewOf js dev) lba count ∧ ∃ used, dev.After used [] after := by
  induction count generalizing dev lba sectors with
  | zero =>
    cases got
    exact ⟨rfl, 0, .refl _⟩
  | succ count ih =>
    -- Behind the first sector, the rest is read from a device with the same disk.
    have behind : ∀ {mid : Device} {used : Nat} {rest : List Sector}, dev.After used [] mid →
        readShadowed js mid (lba + 1) count = (some rest, after) →
        viewOf js dev lba :: rest = viewRun (viewOf js dev) lba (count + 1)
          ∧ ∃ used, dev.After used [] after := by
      intro mid used rest gone tail
      obtain ⟨rfl, more, gone'⟩ := ih tail
      rw [viewRun_succ, viewOf_after gone]
      exact ⟨rfl, _, gone.trans gone'⟩
    rw [readShadowed] at got
    cases slot : js.findShadow lba with
    | some idx =>
      simp only [slot, findShadow_some dev slot] at got
      cases tail : readShadowed js dev (lba + 1) count with
      | mk result last =>
        cases result with
        | none => simp [tail] at got
        | some rest =>
          simp only [tail, Prod.mk.injEq, Option.some.injEq] at got
          obtain ⟨rfl, rfl⟩ := got
          exact behind (.refl dev) tail
    | none =>
      simp only [slot, Device.blockdevReadSectors] at got
      rcases first : dev.dispatchRead (dev.targetLba lba) 1 with ⟨result, mid⟩
      cases result with
      | none => simp [first] at got
      | some read => ?_
      obtain ⟨rfl, gone⟩ := Device.dispatchRead_some first
      simp only [first, List.range_one, List.map_cons, List.map_nil, Nat.add_zero,
        ← findShadow_none slot] at got
      rcases tail : readShadowed js mid (lba + 1) count with ⟨result, last⟩
      cases result with
      | none => simp [tail] at got
      | some rest =>
        simp only [tail, Prod.mk.injEq, Option.some.injEq] at got
        obtain ⟨rfl, rfl⟩ := got
        exact behind gone tail

/-- Replaced sectors are the ones written last. -/
theorem overlay_eq_lastWrite (view : UInt32 → Sector) {other : UInt32} :
    overlay view lba sectors other
      = (lastWrite (addressed lba sectors) other).getD (view other) := by
  induction sectors generalizing view lba with
  | nil => rfl
  | cons sector rest ih =>
    rw [overlay, ih, addressed, lastWrite]
    cases later : lastWrite (addressed (lba + 1) rest) other with
    | some last => rfl
    | none =>
      by_cases here : lba = other
      · simp [here]
      · simp [here, Function.update_of_ne (Ne.symm here)]

end Reading

section Committing

variable {js after : JournalState} {dev last : Device} {addr : Nat}

/-- The durable half of a commit writes nothing outside the journal's own sectors. -/
theorem madeDurable_after (js : JournalState) (dev : Device) :
    ∃ used writes seq, dev.After used writes (madeDurable js dev).2
      ∧ (∀ write ∈ writes, js.journalRegionUsable dev = true ∧ (regionOf js dev).InJournal write.1)
      ∧ (madeDurable js dev).1 = { js with depth := 0, seq := seq } := by
  cases usable : js.journalRegionUsable dev with
  | true =>
    have att : Attached (regionOf js dev) { js with depth := 0 } dev :=
      { startLba := rfl
        configured := by simp_all [journalRegionUsable]
        configuredDevice := by simp_all [journalRegionUsable, regionOf]
        activeDevice := rfl
        partitionOffset := rfl }
    obtain ⟨used, writes, seq, gone, inside, state⟩ := att.commitDurable_after
    exact ⟨used, writes, seq, gone, fun write member => ⟨rfl, inside write member⟩, state⟩
  | false =>
    have same : madeDurable js dev = ({ js with depth := 0 }, dev) := by
      have unusable : journalRegionUsable { js with depth := 0 } dev = false := usable
      simp [madeDurable, commitDurableInternal, unusable]
    rw [same]
    exact ⟨0, [], js.seq, .refl dev, by simp, rfl⟩

/-- After the writes home, a checkpoint touches the journal's mark at most. -/
theorem checkpoint_disk
    (apart : js.journalRegionUsable dev = true → js.journalStartLba.toNat ≠ addr) :
    (checkpointInternal js dev).2.2.disk addr
      = (writeHome js.targetsAbsolute dev js.shadow.val).2.disk addr := by
  obtain ⟨landed, -, gone, -⟩ :=
    @writeHome_after (regionOf js dev) dev rfl js.targetsAbsolute js.shadow.val
  generalize result : writeHome js.targetsAbsolute dev js.shadow.val = outcome at gone
  obtain ⟨ok, mid⟩ := outcome
  have usable : js.journalRegionUsable mid = js.journalRegionUsable dev := by
    rw [journalRegionUsable, journalRegionUsable, gone.activeDevice]
  simp only [checkpointInternal, result, usable]
  split
  · rename_i busy
    have other := apart ((Bool.and_eq_true _ _).mp busy).1
    obtain ⟨last, one, gone'⟩ := mid.dispatchWrite_singleton js.journalStartLba.toNat zeroSector
    rw [Device.blockdevWriteSectorsAbsolute, one, gone'.disk]
    cases mid.faults 0 with
    | true => rfl
    | false => exact Function.update_of_ne other.symm _ _
  · rfl

/-- An outermost commit that succeeds has brought every sector home, and has written nothing else
outside the journal's own sectors. -/
theorem commit_true (outermost : js.depth = 1)
    (done : rustJournalCommit js dev = (true, after, last))
    (apart : js.journalRegionUsable dev = true → ¬ (regionOf js dev).InJournal addr) :
    last.disk addr = applyWrites
      ((regionOf js dev).homeWrites js.targetsAbsolute js.shadow.val) dev.disk addr := by
  obtain ⟨used, writes, seq, gone, inside, state⟩ := madeDurable_after js dev
  have success : (checkpointInternal (madeDurable js dev).1 (madeDurable js dev).2).1 = true := by
    simp only [rustJournalCommit_outermost outermost, Prod.mk.injEq, Bool.and_eq_true] at done
    exact done.1.2
  have device : last = (checkpointInternal (madeDurable js dev).1 (madeDurable js dev).2).2.2 := by
    rw [← commit_disk outermost, done]
  generalize madeDurable js dev = durable at gone state success device
  obtain ⟨durable, mid⟩ := durable
  cases state
  obtain ⟨landed, -, home, all, fine⟩ := @writeHome_after (regionOf js dev) mid
    gone.partitionOffset js.targetsAbsolute js.shadow.val
  have whole := all (fine success)
  have usable : journalRegionUsable { js with depth := 0, seq := seq } mid
      = js.journalRegionUsable dev := by
    rw [journalRegionUsable, journalRegionUsable, gone.activeDevice]
  rw [device, checkpoint_disk, home.disk, whole]
  · -- What the durable half wrote is not seen at this address.
    apply applyWrites_congr
    right
    rw [gone.disk]
    apply applyWrites_other
    rintro write member rfl
    exact apart (inside write member).1 (inside write member).2
  · rw [usable]
    intro inUse same
    exact apart inUse (.inl same.symm)

end Committing

section Run

variable {start js : JournalState} {disk dev : Device} {writes : List (UInt32 × Sector)}

/-- Inside a transaction: what is seen are the writes so far over the disk as it was. -/
structure Overlaid (disk : Device) (js : JournalState) (dev : Device)
    (writes : List (UInt32 × Sector)) : Prop where
  opened : 0 < js.depth
  relative : js.targetsAbsolute = false
  distinct : js.held.Nodup
  device : ∃ used, disk.After used [] dev
  seen : ∀ lba, viewOf js dev lba
    = (lastWrite writes lba).getD (disk.disk (disk.targetLba lba))

theorem Overlaid.sameDisk (state : Overlaid disk js dev writes) : dev.disk = disk.disk := by
  obtain ⟨used, gone⟩ := state.device
  exact gone.disk

/-- Every call inside the transaction keeps the writes overlaid. -/
theorem Inside.overlaid (resting : Resting start) (closed : start.depth = 0)
    (inside : Inside start disk js dev writes) : Overlaid disk js dev writes := by
  induction inside with
  | opened =>
    have empty := resting.closed closed
    refine ⟨Nat.succ_pos _, resting.relative, ?_, ⟨0, .refl disk⟩, fun lba => ?_⟩
    · simp [held, rustJournalBegin, empty]
    · exact viewOf_of_empty (show (rustJournalBegin start).shadow.val = [] from empty) lba
  | nested earlier ih =>
    exact ⟨Nat.succ_pos _, ih.relative, ih.distinct, ih.device, ih.seen⟩
  | @unnested js dev writes earlier inner ih =>
    have open_ : (js.depth == 0) = false := by simpa using Nat.ne_of_gt ih.opened
    have deeper : 0 < js.depth - 1 := by omega
    simp only [rustJournalCommit, open_, Bool.false_eq_true, if_false, deeper, if_true]
    exact ⟨deeper, ih.relative, ih.distinct, ih.device, ih.seen⟩
  | @read js dev after writes lba count sectors earlier got ih =>
    have open_ : (js.depth == 0) = false := by simpa using Nat.ne_of_gt ih.opened
    rw [rustJournalReadSectors, readSectorsInternal, open_] at got
    obtain ⟨-, more, gone⟩ := readShadowed_some got
    obtain ⟨used, gone'⟩ := ih.device
    refine ⟨ih.opened, ih.relative, ih.distinct, ⟨_, gone'.trans gone⟩, fun lba => ?_⟩
    rw [viewOf_after gone]
    exact ih.seen lba
  | @wrote js next dev after writes lba src earlier took ih =>
    have open_ : (js.depth == 0) = false := by simpa using Nat.ne_of_gt ih.opened
    rw [rustJournalWriteSectors, writeSectorsInternal, open_] at took
    simp only [Bool.false_eq_true, if_false] at took
    generalize held : shadowSectors js lba src = outcome at took
    obtain ⟨ok, next⟩ := outcome
    cases took
    obtain ⟨holding, seen, -, -⟩ := shadowSectors_true dev held
    obtain ⟨shadow, same⟩ := holding.same
    refine ⟨?_, ?_, holding.distinct ih.distinct, ih.device, fun other => ?_⟩
    · rw [same]
      exact ih.opened
    · rw [same]
      exact ih.relative
    · rw [seen, overlay_eq_lastWrite, ih.seen, lastWrite_append]
      cases lastWrite (addressed lba src) other with
      | none | some sector => rfl

/-- Bringing the held sectors home is applying the writes in their order. -/
theorem Overlaid.home (state : Overlaid disk js dev writes) (addr : Nat) :
    applyWrites ((regionOf js dev).homeWrites js.targetsAbsolute js.shadow.val) dev.disk addr
      = applyWrites (writes.map fun write => (disk.targetLba write.1, write.2)) disk.disk addr := by
  obtain ⟨used, gone⟩ := state.device
  have target : ∀ lba, dev.targetLba lba = disk.targetLba lba := gone.targetLba
  rw [state.relative]
  by_cases aimed : ∃ lba, disk.targetLba lba = addr
  · obtain ⟨lba, rfl⟩ := aimed
    have injective : Function.Injective disk.targetLba := home_injective (regionOf js disk) false
    rw [applyWrites_eq_lastWrite (List.map _ _), lastWrite_map injective, ← state.seen lba,
      ← target lba]
    exact applyWrites_home state.distinct dev.disk rfl
  -- No address of a transaction leads there.
  rw [applyWrites_other, applyWrites_other, state.sameDisk]
  · rintro write member rfl
    obtain ⟨entry, -, rfl⟩ := List.mem_map.mp member
    exact aimed ⟨entry.1, rfl⟩
  · rintro write member rfl
    obtain ⟨entry, -, rfl⟩ := List.mem_map.mp member
    exact aimed ⟨entry.1, (target entry.1).symm⟩

/-- Inside a transaction the disk stays as it was, and a read that succeeds returns for each sector
what was written to it last, or else what the disk holds. An outermost commit that succeeds leaves
the disk, outside the journal's own sectors, as the writes in their order leave it. -/
theorem transaction_read_your_writes (called : Called start) (closed : start.depth = 0)
    (inside : Inside start disk js dev writes) :
    dev.disk = disk.disk
    ∧ (∀ lba count sectors after, rustJournalReadSectors js dev lba count = (some sectors, after) →
      sectors = (List.range count).map fun i =>
        (lastWrite writes (lba + UInt32.ofNat i)).getD
          (disk.disk (disk.targetLba (lba + UInt32.ofNat i))))
    ∧ (js.depth = 1 → ∀ after last, rustJournalCommit js dev = (true, after, last) →
      ∀ addr, (js.journalRegionUsable dev = true → ¬ (regionOf js dev).InJournal addr) →
        last.disk addr
          = applyWrites (writes.map fun write => (disk.targetLba write.1, write.2)) disk.disk
            addr) := by
  have state := inside.overlaid called.resting closed
  refine ⟨state.sameDisk, ?_, ?_⟩
  · intro lba count sectors after got
    have open_ : (js.depth == 0) = false := by simpa using Nat.ne_of_gt state.opened
    rw [rustJournalReadSectors, readSectorsInternal, open_] at got
    rw [(readShadowed_some got).1, viewRun]
    simp only [state.seen]
  · intro outermost after last done addr apart
    rw [commit_true outermost done apart]
    exact state.home addr

end Run

/-- A journal configured at sector 100000 of a blank disk. -/
def configuredJournal : JournalState := rustJournalConfigure .new blankDevice 100000 2048

/-- A transaction of it with one sector written. -/
def oneWritten : Bool × JournalState × Device :=
  rustJournalWriteSectors (rustJournalBegin configuredJournal) blankDevice 5 [onesSector]

set_option maxRecDepth 2000

theorem transaction_read_your_writes_one :
    (rustJournalCommit oneWritten.2.1 oneWritten.2.2).2.2.disk 5
      = applyWrites [(5, onesSector)] blankDevice.disk 5 := by
  have took : rustJournalWriteSectors (rustJournalBegin configuredJournal) blankDevice 5
        [onesSector]
      = (true, oneWritten.2.1, oneWritten.2.2) := Prod.ext (by decide) rfl
  have success : (rustJournalCommit oneWritten.2.1 oneWritten.2.2).1 = true := by decide
  have done : rustJournalCommit oneWritten.2.1 oneWritten.2.2
      = (true, (rustJournalCommit oneWritten.2.1 oneWritten.2.2).2) :=
    Prod.ext success rfl
  have apart : ¬ (regionOf oneWritten.2.1 oneWritten.2.2).InJournal 5 := by
    unfold BootConfig.InJournal
    decide
  exact (transaction_read_your_writes (.configure .new blankDevice 100000 2048) rfl
    (.wrote .opened took)).2.2 (by decide) _ _ done 5 fun _ => apart

/-- The commit of one sector leaves a copy of it among the journal's own sectors. -/
theorem journal_sector_changed :
    oneWritten.1 = true ∧ (rustJournalCommit oneWritten.2.1 oneWritten.2.2).1 = true
    ∧ (rustJournalCommit oneWritten.2.1 oneWritten.2.2).2.2.disk 100002 = onesSector
    ∧ applyWrites [(5, onesSector)] blankDevice.disk 100002 = zeroSector := by
  decide

end NovaOs
