import NovaOs.Block.Faults
import NovaOs.Journal.Refusal

/-!
Writes that fail while a durable transaction is brought home, in a commit or in a recovery: what is
on the disk afterwards, and whether a later recovery completes the transaction.
-/

namespace NovaOs

open BootConfig List

/-- A journal whose region and device are those of a configuration, whatever fails. -/
structure Attached (cfg : BootConfig) (js : JournalState) (dev : Device) : Prop where
  startLba : js.journalStartLba = cfg.journalStartLba
  configured : js.configured = true
  configuredDevice : js.configuredDevice = cfg.activeDevice
  activeDevice : dev.activeDevice = cfg.activeDevice
  partitionOffset : dev.partitionOffset = cfg.partitionOffset

/-- Whenever one of so many writes fails, the one behind them fails too. -/
def Spares (faults : Nat → Bool) (count : Nat) : Prop :=
  (∃ i < count, faults i = true) → faults count = true

/-- A write that succeeds behind so many has none among them that failed. -/
theorem Spares.none_failed {faults : Nat → Bool} {count : Nat} (spares : Spares faults count)
    (last : faults count = false) {i : Nat} (small : i < count) : faults i = false := by
  cases failed : faults i with
  | false => rfl
  | true =>
    rw [spares ⟨i, small, failed⟩] at last
    cases last

/-- Each held-back sector is written home in its turn, or its turn fails. -/
theorem writeHome_after {cfg : BootConfig} {dev : Device}
    (offset : dev.partitionOffset = cfg.partitionOffset) (absolute : Bool)
    (entries : List (UInt32 × Sector)) :
    ∃ landed, landed ⊆ cfg.homeWrites absolute entries
      ∧ dev.After entries.length landed (writeHome absolute dev entries).2
      ∧ ((∀ i < entries.length, dev.faults i = false) → landed = cfg.homeWrites absolute entries)
      ∧ ((writeHome absolute dev entries).1 = true →
        ∀ i < entries.length, dev.faults i = false) := by
  induction entries generalizing dev with
  | nil =>
    exact ⟨[], Subset.refl _, .refl dev, fun _ => rfl,
      fun _ i small => absurd small (Nat.not_lt_zero i)⟩
  | cons entry rest ih =>
    obtain ⟨lba, sector⟩ := entry
    obtain ⟨mid, one, gone⟩ := dev.dispatchWrite_singleton (cfg.home absolute lba) sector
    -- Either addressing mode issues one single-sector write at the home address.
    have home : (if absolute then dev.blockdevWriteSectorsAbsolute lba [sector]
        else dev.blockdevWriteSectors lba [sector]) = (!dev.faults 0, mid) := by
      rw [← one]
      cases absolute with
      | true => rfl
      | false => ?_
      have target : dev.targetLba lba = cfg.home false lba := by
        rw [Device.targetLba, offset]
        rfl
      rw [← target]
      rfl
    obtain ⟨landed, subset, gone', all, fine⟩ := ih (gone.partitionOffset.trans offset)
    refine ⟨(if dev.faults 0 then [] else [(cfg.home absolute lba, sector)]) ++ landed, ?_, ?_, ?_,
      ?_⟩
    · rw [homeWrites, map_cons]
      apply append_subset.mpr
      refine ⟨?_, subset_cons_of_subset _ subset⟩
      split
      · exact nil_subset _
      · exact fun write member => mem_singleton.mp member ▸ mem_cons_self
    · simp only [writeHome, home]
      rw [length_cons, Nat.add_comm]
      exact gone.trans gone'
    · intro fine
      have first : dev.faults 0 = false := fine 0 (Nat.zero_lt_succ _)
      rw [first, all fun i small => ?_]
      · rfl
      · rw [gone.faults, Nat.add_comm]
        exact fine (i + 1) (Nat.succ_lt_succ small)
    · -- Success means that the first turn went well and all the later ones did.
      intro success i small
      simp only [writeHome, home, Bool.and_eq_true, Bool.not_eq_true'] at success
      cases i with
      | zero => exact success.1
      | succ i =>
        rw [Nat.add_comm, ← gone.faults]
        exact fine success.2 i (Nat.lt_of_succ_lt_succ small)

namespace Attached

variable {cfg : BootConfig} {js : JournalState} {dev next : Device} {writes : List (Nat × Sector)}

variable (att : Attached cfg js dev)

include att

theorem usable : js.journalRegionUsable dev = true := by
  simp [JournalState.journalRegionUsable, att.configured, att.activeDevice, att.configuredDevice]

theorem after {used : Nat} (gone : dev.After used writes next) : Attached cfg js next :=
  { att with
    activeDevice := gone.activeDevice.trans att.activeDevice
    partitionOffset := gone.partitionOffset.trans att.partitionOffset }

/-- A checkpoint with something to do brings some sectors home, and then tries to clear the mark. -/
theorem checkpoint_after (busy : js.shadow.val.length ≠ 0) :
    ∃ landed, landed ⊆ cfg.homeWrites js.targetsAbsolute js.shadow.val
      ∧ (checkpointInternal js dev).2.2.disk = applyWrites (landed
          ++ if dev.faults js.shadow.val.length then []
            else [(cfg.journalStartLba.toNat, zeroSector)])
          dev.disk
      ∧ ((∀ i < js.shadow.val.length, dev.faults i = false) →
        landed = cfg.homeWrites js.targetsAbsolute js.shadow.val) := by
  obtain ⟨landed, subset, gone, all, -⟩ :=
    writeHome_after att.partitionOffset js.targetsAbsolute js.shadow.val
  refine ⟨landed, subset, ?_, all⟩
  generalize result : writeHome js.targetsAbsolute dev js.shadow.val = outcome at gone
  obtain ⟨ok, mid⟩ := outcome
  obtain ⟨last, one, gone'⟩ := mid.dispatchWrite_singleton cfg.journalStartLba.toNat zeroSector
  have work : (js.shadow.val.length != 0) = true := by simpa using busy
  have fault : mid.faults 0 = dev.faults js.shadow.val.length := gone.faults 0
  simp only [checkpointInternal, result, (att.after gone).usable, work, Bool.and_self, if_true,
    Device.blockdevWriteSectorsAbsolute, att.startLba, one]
  rw [(gone.trans gone').disk, fault]

/-- Data is copied into the region as far as it goes. -/
theorem writeDataBlocks_after (i : Nat) (sectors : List Sector) :
    ∃ used count, dev.After used ((dataWrites cfg i sectors).take count)
      (writeDataBlocks js dev i sectors).2 := by
  induction sectors generalizing dev i with
  | nil => exact ⟨0, 0, .refl dev⟩
  | cons sector rest ih =>
    have addr : (dataLba js i).toNat = cfg.dataAddr i := by
      simp only [dataLba, dataAddr, att.startLba]
    obtain ⟨mid, one, gone⟩ := dev.dispatchWrite_singleton (cfg.dataAddr i) sector
    simp only [writeDataBlocks, Device.blockdevWriteSectorsAbsolute, addr, one]
    cases fault : dev.faults 0 with
    | true =>
      rw [fault] at gone
      exact ⟨1, 0, gone⟩
    | false =>
      rw [fault] at gone
      obtain ⟨used, count, gone'⟩ := ih (att.after gone) (i + 1)
      exact ⟨1 + used, count + 1, gone.trans gone'⟩

/-- Up to the mark and its second sector, a commit writes into its own region only. -/
theorem commitDurable_after :
    ∃ used writes seq, dev.After used writes (commitDurableInternal js dev).2.2
      ∧ (∀ write ∈ writes, cfg.InJournal write.1)
      ∧ (commitDurableInternal js dev).2.1 = { js with seq := seq } := by
  have header : ∀ (d : Device) (desc : Bytes), Attached cfg js d →
      ∃ used writes, d.After used writes
          (d.blockdevWriteSectorsAbsolute js.journalStartLba (sectorsOf desc descriptorSectors)).2
        ∧ ∀ write ∈ writes, cfg.InJournal write.1 := by
    intro d desc _
    obtain ⟨used, count, gone, -⟩ :=
      d.dispatchWrite_after js.journalStartLba.toNat (sectorsOf desc descriptorSectors)
    refine ⟨used, _, gone, fun write member => ?_⟩
    have inside := mem_of_mem_take member
    rw [att.startLba] at inside
    rcases mem_cons.mp inside with rfl | inside
    · exact .inl rfl
    · rw [mem_singleton.mp inside]
      exact .inr (.inl rfl)
  unfold commitDurableInternal
  split
  · exact ⟨0, [], js.seq, .refl dev, by simp, rfl⟩
  dsimp only
  obtain ⟨used₁, writes₁, gone₁, inside₁⟩ := header dev (descriptor js) att
  generalize dev.blockdevWriteSectorsAbsolute js.journalStartLba
    (sectorsOf (descriptor js) descriptorSectors) = first at gone₁
  obtain ⟨ok₁, dev₁⟩ := first
  cases ok₁ with
  | false => exact ⟨used₁, writes₁, js.seq, gone₁, inside₁, rfl⟩
  | true => ?_
  have att₁ := att.after gone₁
  obtain ⟨used₂, count, gone₂⟩ := att₁.writeDataBlocks_after 0 (js.shadow.val.map Prod.snd)
  have inside₂ : ∀ write ∈ (dataWrites cfg 0 (js.shadow.val.map Prod.snd)).take count,
      cfg.InJournal write.1 := fun write member =>
    prepareWrites_inside (mem_append_right _ (mem_of_mem_take member))
  generalize dataBlocks : writeDataBlocks js dev₁ 0 (js.shadow.val.map Prod.snd) = second at gone₂
  obtain ⟨ok₂, dev₂⟩ := second
  have both := gone₁.trans gone₂
  have inside : ∀ write ∈ writes₁ ++ (dataWrites cfg 0 (js.shadow.val.map Prod.snd)).take count,
      cfg.InJournal write.1 := fun write member =>
    (mem_append.mp member).elim (inside₁ write) (inside₂ write)
  cases ok₂ with
  | false =>
    simp only [dataBlocks]
    exact ⟨_, _, js.seq, both, inside, rfl⟩
  | true => ?_
  simp only [dataBlocks]
  obtain ⟨used₃, writes₃, gone₃, inside₃⟩ :=
    header dev₂ (putU32Le (descriptor js) offCommitFlag commitMagic) (att.after both)
  generalize dev₂.blockdevWriteSectorsAbsolute js.journalStartLba (sectorsOf
    (putU32Le (descriptor js) offCommitFlag commitMagic) descriptorSectors) = third at gone₃
  obtain ⟨ok₃, dev₃⟩ := third
  have all : ∀ write ∈ (writes₁ ++ (dataWrites cfg 0 (js.shadow.val.map Prod.snd)).take count)
      ++ writes₃, cfg.InJournal write.1 := fun write member =>
    (mem_append.mp member).elim (inside write) (inside₃ write)
  cases ok₃ with
  | false => exact ⟨_, _, js.seq, both.trans gone₃, all, rfl⟩
  | true => exact ⟨_, _, js.seq + 1, both.trans gone₃, all, rfl⟩

/-- Reading the data back changes nothing, and finds what the region keeps if it succeeds. -/
theorem readDataBlocks_after (desc : Bytes) (i count : Nat) :
    ∃ used, dev.After used [] (readDataBlocks js dev desc i count).2
      ∧ ∀ entries, (readDataBlocks js dev desc i count).1 = some entries → used = count
        ∧ entries = (range count).map fun k =>
          (getU32Le desc (offTargetLba + (i + k) * 4), dev.disk (cfg.dataAddr (i + k))) := by
  induction count generalizing dev i with
  | zero =>
    refine ⟨0, .refl dev, fun entries found => ?_⟩
    cases found
    exact ⟨rfl, rfl⟩
  | succ count ih =>
    have addr : (dataLba js i).toNat = cfg.dataAddr i := by
      simp only [dataLba, dataAddr, att.startLba]
    obtain ⟨used, still⟩ := dev.dispatchRead_after (cfg.dataAddr i) 1
    simp only [readDataBlocks, Device.blockdevReadSectorsAbsolute, addr]
    rcases first : dev.dispatchRead (cfg.dataAddr i) 1 with ⟨result, mid⟩
    rw [first] at still
    cases result with
    | none => exact ⟨used, still, fun entries found => by cases found⟩
    | some sectors => ?_
    obtain ⟨rfl, gone⟩ := Device.dispatchRead_some first
    simp only [range_one, map_cons, map_nil, Nat.add_zero]
    obtain ⟨more, gone', found⟩ := ih (att.after gone) (i + 1)
    rcases tail : readDataBlocks js mid desc (i + 1) count with ⟨rest, last⟩
    rw [tail] at gone' found
    have both : dev.After (1 + more) [] last := gone.trans gone'
    cases rest with
    | none => exact ⟨1 + more, both, fun entries found => by cases found⟩
    | some rest => ?_
    obtain ⟨rfl, rfl⟩ := found rest rfl
    refine ⟨1 + more, both, fun entries same => ?_⟩
    cases same
    refine ⟨Nat.add_comm 1 more, ?_⟩
    rw [range_succ_eq_map]
    simp [gone.disk, Function.comp_def, Nat.add_assoc, Nat.add_comm 1]

/-- A pass does nothing, or it has read a descriptor in force with its data and acts on them. -/
theorem recover_cases {desc : Bytes} {count : Nat} (onDisk : cfg.diskDescriptor dev.disk = desc)
    (counted : (getU32Le desc offBlockCount).toNat = count) :
    (recoverInternal js dev).2.2.disk = dev.disk ∨
      nothingToRecover desc = false ∧ ∃ mid, dev.After (descriptorSectors + count) [] mid
        ∧ (recoverInternal js dev).2.2
          = if computeChecksum (targetBytes desc count)
            ((cfg.diskEntries dev.disk desc count).map Prod.snd)
              != getU32Le desc offChecksum then
            (mid.blockdevWriteSectorsAbsolute js.journalStartLba [zeroSector]).2
          else (checkpointInternal { js with
            shadow := Shadow.ofList (cfg.diskEntries dev.disk desc count)
            targetsAbsolute := getU32Le desc offTargetsAbsolute != 0 } mid).2.2 := by
  obtain ⟨used, still⟩ := dev.dispatchRead_after cfg.journalStartLba.toNat descriptorSectors
  simp only [recoverInternal, att.usable, Bool.not_true, Bool.false_eq_true, if_false,
    Device.blockdevReadSectorsAbsolute, att.startLba]
  rcases read : dev.dispatchRead cfg.journalStartLba.toNat descriptorSectors with ⟨result, first⟩
  rw [read] at still
  cases result with
  | none => exact .inl still.disk
  | some sectors => ?_
  obtain ⟨same, gone⟩ := Device.dispatchRead_some read
  have bytes : bytesOf sectors = desc := by
    rw [← onDisk, same]
    rfl
  simp only [bytes, counted]
  cases valid : nothingToRecover desc with
  | true => exact .inl still.disk
  | false => ?_
  obtain ⟨more, gone', found⟩ := (att.after gone).readDataBlocks_after desc 0 count
  simp only [Bool.false_eq_true, if_false]
  rcases blocks : readDataBlocks js first desc 0 count with ⟨result, mid⟩
  rw [blocks] at gone' found
  cases result with
  | none => exact .inl (gone.trans gone').disk
  | some entries => ?_
  obtain ⟨rfl, listed⟩ := found entries rfl
  have entries_eq : entries = cfg.diskEntries dev.disk desc more := by
    rw [listed, gone.disk]
    simp only [Nat.zero_add]
    rfl
  refine .inr ⟨trivial, mid, gone.trans gone', ?_⟩
  rw [← entries_eq]
  dsimp only
  split
  · rfl
  · rfl

/-- A pass over a journal that asks for nothing leaves the disk alone. -/
theorem recover_idle (idle : cfg.pending dev.disk = none) :
    (recoverInternal js dev).2.2.disk = dev.disk := by
  rcases att.recover_cases rfl rfl with same | ⟨valid, -⟩
  · exact same
  -- A descriptor in force asks for something.
  simp only [pending, valid, Bool.false_eq_true, if_false] at idle
  split at idle
  · cases idle
  · cases idle

/-- A pass over a durable transaction brings some of its sectors home. It may clear the mark then;
if failures spare no mark, it does so only with all of them home. -/
theorem recover_after (armed : cfg.pending dev.disk = some writes) (some_ : writes ≠ []) :
    ∃ landed, landed ⊆ writes ∧ ((recoverInternal js dev).2.2.disk = applyWrites landed dev.disk
      ∨ (recoverInternal js dev).2.2.disk
          = applyWrites (landed ++ [(cfg.journalStartLba.toNat, zeroSector)]) dev.disk
        ∧ (Spares (fun i => dev.faults (descriptorSectors + writes.length + i)) writes.length →
          landed = writes)) := by
  generalize onDisk : cfg.diskDescriptor dev.disk = desc
  generalize counted : (getU32Le desc offBlockCount).toNat = count
  rcases att.recover_cases onDisk counted with same | ⟨valid, mid, gone, done⟩
  · exact ⟨[], nil_subset _, .inl same⟩
  simp only [pending, onDisk, counted, valid, Bool.false_eq_true, if_false] at armed
  split at armed
  · cases armed
    exact absurd rfl some_
  rename_i sound
  rw [if_neg sound] at done
  have size : (cfg.diskEntries dev.disk desc count).length = count := by
    simp [diskEntries]
  simp only [nothingToRecover, Bool.or_eq_false_iff, beq_eq_false_iff_ne, decide_eq_false_iff_not,
    Nat.not_lt, counted] at valid
  have whole : (Shadow.ofList (cfg.diskEntries dev.disk desc count)).val
      = cfg.diskEntries dev.disk desc count :=
    take_of_length_le (by rw [size]; exact valid.2)
  have length : writes.length = count := by
    rw [← Option.some.inj armed, homeWrites, length_map, size]
  have loaded : Attached cfg { js with
      shadow := Shadow.ofList (cfg.diskEntries dev.disk desc count)
      targetsAbsolute := getU32Le desc offTargetsAbsolute != 0 } mid := { att.after gone with }
  obtain ⟨landed, subset, disk, all⟩ := loaded.checkpoint_after (by
    rw [whole, size]
    exact valid.1.2)
  simp only [whole, size] at subset disk all
  rw [Option.some.inj armed] at subset all
  rw [gone.disk, applyWrites_nil, ← done] at disk
  refine ⟨landed, subset, ?_⟩
  cases last : mid.faults count with
  | true =>
    rw [last, if_pos rfl, append_nil] at disk
    exact .inl disk
  | false => ?_
  rw [last, if_neg Bool.false_ne_true] at disk
  refine .inr ⟨disk, fun spares => all fun i small => ?_⟩
  -- The mark was cleared, so that no write in front of it failed.
  rw [gone.faults, ← length] at last ⊢
  exact spares.none_failed last (by omega)

end Attached

/-- Disks reached by recovery passes, one after each boot, in which writes may fail. -/
inductive Passes (cfg : BootConfig) (count : Nat) (start : Nat → Sector) :
    (Nat → Sector) → Prop where
  | none : Passes cfg count start start
  | pass {disk : Nat → Sector} (earlier : Passes cfg count start disk) (faults : Nat → Bool)
      (spares : Spares (fun i => faults (descriptorSectors + count + i)) count) :
      Passes cfg count start
        (rustJournalRecover (cfg.journal disk) { cfg.device disk with faults }).2.2.disk

section Survival

variable {cfg : BootConfig} {js : JournalState} {dev : Device}

theorem Attached.boot (cfg : BootConfig) (disk : Nat → Sector) (faults : Nat → Bool) :
    Attached cfg (cfg.journal disk) { cfg.device disk with faults } where
  startLba := rfl
  configured := decide_eq_true cfg.usable
  configuredDevice := rfl
  activeDevice := rfl
  partitionOffset := rfl

/-- Passes in which failures spare no mark keep the goal within reach. -/
theorem Passes.redoing {writes : List (Nat × Sector)} {goal start disk : Nat → Sector}
    (outside : ∀ write ∈ writes, ¬ cfg.InJournal write.1) (some_ : writes ≠ [])
    (redoing : cfg.log.Redoing writes goal start) (passes : Passes cfg writes.length start disk) :
    cfg.log.Redoing writes goal disk := by
  induction passes with
  | none => exact redoing
  | @pass disk earlier faults spares ih =>
    have att := Attached.boot cfg disk faults
    rcases ih with ⟨armed, reach⟩ | ⟨idle, reached⟩
    · obtain ⟨landed, subset, partly | ⟨cleared, all⟩⟩ := att.recover_after armed some_
      · rw [rustJournalRecover, partly]
        exact .part outside armed reach subset
      · rw [rustJournalRecover, cleared, all spares]
        exact .whole reach
    · rw [rustJournalRecover, att.recover_idle idle]
      exact .inr ⟨idle, reached⟩

/-- The journal and the device after the durable half of the outermost commit. -/
def madeDurable (js : JournalState) (dev : Device) : JournalState × Device :=
  (commitDurableInternal { js with depth := 0 } dev).2

/-- The outermost commit brings a durable transaction home. -/
theorem commit_disk (outermost : js.depth = 1) :
    (rustJournalCommit js dev).2.2
      = (checkpointInternal (madeDurable js dev).1 (madeDurable js dev).2).2.2 := by
  rw [rustJournalCommit_outermost outermost]
  rfl

/-- What the commit of a durable transaction leaves on the disk: some sectors home, and the mark
cleared unless that write failed. -/
theorem Attached.commit_after (att : Attached cfg js dev) (outermost : js.depth = 1)
    (busy : js.shadow.val ≠ []) :
    (∀ addr, ¬ cfg.InJournal addr → (madeDurable js dev).2.disk addr = dev.disk addr)
    ∧ ∃ landed, landed ⊆ cfg.homeWrites js.targetsAbsolute js.shadow.val
      ∧ (rustJournalCommit js dev).2.2.disk = applyWrites (landed
          ++ if (madeDurable js dev).2.faults js.shadow.val.length then []
            else [(cfg.journalStartLba.toNat, zeroSector)]) (madeDurable js dev).2.disk
      ∧ ((∀ i < js.shadow.val.length, (madeDurable js dev).2.faults i = false) →
        landed = cfg.homeWrites js.targetsAbsolute js.shadow.val) := by
  have closed : Attached cfg { js with depth := 0 } dev := { att with }
  obtain ⟨used, writes, seq, gone, inside, state⟩ := closed.commitDurable_after
  have later : Attached cfg { js with depth := 0, seq := seq } (madeDurable js dev).2 :=
    { closed.after gone with }
  obtain ⟨landed, subset, disk, all⟩ :=
    later.checkpoint_after (by simpa using busy)
  refine ⟨fun addr apart => ?_, landed, subset, ?_, all⟩
  · have unchanged : ∀ write ∈ writes, write.1 ≠ addr := by
      rintro write member rfl
      exact apart (inside write member)
    exact (congrFun gone.disk addr).trans (applyWrites_other unchanged dev.disk)
  · rw [commit_disk outermost,
      show (madeDurable js dev).1 = { js with depth := 0, seq := seq } from state]
    exact disk

/-- Of a durable transaction the journal is cleared only with every sector home exactly if a failure
on the way home spares no mark; and if that is so in the commit and in every recovery after it, a
recovery without failures completes the transaction. -/
theorem durable_commit_survives (att : Attached cfg js dev) (outermost : js.depth = 1)
    (busy : js.shadow.val ≠ [])
    (outside : ∀ entry ∈ js.shadow.val, ¬ cfg.InJournal (cfg.home js.targetsAbsolute entry.1))
    (durable : cfg.pending (madeDurable js dev).2.disk
      = some (cfg.homeWrites js.targetsAbsolute js.shadow.val)) :
    ((cfg.pending (rustJournalCommit js dev).2.2.disk = none →
        ∀ i < js.shadow.val.length, (madeDurable js dev).2.faults i = false)
      ↔ Spares (madeDurable js dev).2.faults js.shadow.val.length)
    ∧ (Spares (madeDurable js dev).2.faults js.shadow.val.length →
      ∀ disk, Passes cfg js.shadow.val.length (rustJournalCommit js dev).2.2.disk disk →
        ∀ addr, ¬ cfg.InJournal addr →
          (rustJournalRecover (cfg.journal disk) (cfg.device disk)).2.2.disk addr
            = applyWrites (cfg.homeWrites js.targetsAbsolute js.shadow.val) dev.disk addr) := by
  obtain ⟨same, landed, subset, disk, all⟩ := att.commit_after outermost busy
  generalize homes_eq : cfg.homeWrites js.targetsAbsolute js.shadow.val = homes at *
  have length : homes.length = js.shadow.val.length := by
    rw [← homes_eq, homeWrites, length_map]
  have apart : ∀ write ∈ homes, ¬ cfg.log.region write.1 := by
    rw [← homes_eq]
    intro write member
    obtain ⟨entry, inside, rfl⟩ := mem_map.mp member
    exact outside entry inside
  have reach : ∀ addr, ¬ cfg.log.region addr → applyWrites homes (madeDurable js dev).2.disk addr
      = applyWrites homes dev.disk addr :=
    fun addr beyond => applyWrites_congr (.inr (same addr beyond))
  constructor
  · constructor
    · -- A mark that is cleared in spite of a failure would clear the journal too early.
      rintro early ⟨i, small, failed⟩
      cases last : (madeDurable js dev).2.faults js.shadow.val.length with
      | true => rfl
      | false => ?_
      rw [last, if_neg Bool.false_ne_true] at disk
      have cleared : cfg.pending (rustJournalCommit js dev).2.2.disk = none := by
        rw [disk, applyWrites_append]
        exact cfg.log.pending_cleared (by simp [applyWrites_cons])
      rw [early cleared i small] at failed
      cases failed
    · intro spares cleared i small
      cases last : (madeDurable js dev).2.faults js.shadow.val.length with
      | false => exact spares.none_failed last small
      | true => ?_
      rw [last, if_pos rfl, append_nil] at disk
      have still : cfg.log.pending (applyWrites landed (madeDurable js dev).2.disk)
          = some homes := by
        rw [RedoLog.pending_applyWrites fun write member => apart write (subset member)]
        exact durable
      rw [← disk, cfg.log_pending, cleared] at still
      cases still
  · intro spares final passes addr beyond
    have redoing : cfg.log.Redoing homes (applyWrites homes dev.disk)
        (rustJournalCommit js dev).2.2.disk := by
      rw [disk]
      cases last : (madeDurable js dev).2.faults js.shadow.val.length with
      | true =>
        rw [if_pos rfl, append_nil]
        exact .part apart durable reach subset
      | false =>
        rw [if_neg Bool.false_ne_true, all fun i small => spares.none_failed last small]
        exact .whole reach
    rw [← length] at passes
    have reached := passes.redoing apart (by
      intro none
      rw [none] at length
      exact busy (eq_nil_of_length_eq_zero length.symm)) redoing
    obtain ⟨result, pass⟩ := (Configured.boot cfg final).recoverInternal_eq rfl rfl
    rw [rustJournalRecover, pass, Device.wrote_disk]
    exact reached.recovered beyond

end Survival

/-- A transaction that holds one sector back. -/
def oneSectorHeld : JournalState :=
  { sampleConfig.journal blankDevice.disk with
    depth := 1
    shadow := Shadow.ofList [(5, onesSector)] }

/-- A blank disk on which the given transfers fail. -/
def failingAt (transfers : List Nat) : Device :=
  { sampleConfig.device blankDevice.disk with faults := fun i => transfers.contains i }

theorem oneSectorHeld_attached (transfers : List Nat) :
    Attached sampleConfig oneSectorHeld (failingAt transfers) where
  startLba := rfl
  configured := rfl
  configuredDevice := rfl
  activeDevice := rfl
  partitionOffset := rfl

set_option maxRecDepth 10000

theorem sample_outside : ¬ sampleConfig.InJournal 2053 := by
  unfold InJournal
  decide

/-- The write home of a durable sector fails and the mark is cleared all the same: no later recovery
brings the sector home. -/
theorem durable_commit_lost :
    sampleConfig.pending (madeDurable oneSectorHeld (failingAt [5])).2.disk
        = some [(2053, onesSector)]
    ∧ sampleConfig.pending (rustJournalCommit oneSectorHeld (failingAt [5])).2.2.disk = none
    ∧ (rustJournalRecover
        (sampleConfig.journal (rustJournalCommit oneSectorHeld (failingAt [5])).2.2.disk)
        (sampleConfig.device
          (rustJournalCommit oneSectorHeld (failingAt [5])).2.2.disk)).2.2.disk 2053
      = zeroSector := by
  decide

/-- If the write of the mark fails as well, the next recovery brings the sector home. -/
theorem durable_commit_survives_both :
    (rustJournalRecover
        (sampleConfig.journal (rustJournalCommit oneSectorHeld (failingAt [5, 6])).2.2.disk)
        (sampleConfig.device
          (rustJournalCommit oneSectorHeld (failingAt [5, 6])).2.2.disk)).2.2.disk 2053
      = applyWrites (sampleConfig.homeWrites oneSectorHeld.targetsAbsolute oneSectorHeld.shadow.val)
          (failingAt [5, 6]).disk 2053 := by
  have durable : sampleConfig.pending (madeDurable oneSectorHeld (failingAt [5, 6])).2.disk
      = some (sampleConfig.homeWrites oneSectorHeld.targetsAbsolute oneSectorHeld.shadow.val) := by
    decide
  have spares : Spares (madeDurable oneSectorHeld (failingAt [5, 6])).2.faults
      oneSectorHeld.shadow.val.length := by
    intro _
    decide
  have outside : ∀ entry ∈ oneSectorHeld.shadow.val,
      ¬ sampleConfig.InJournal (sampleConfig.home oneSectorHeld.targetsAbsolute entry.1) := by
    intro entry member
    rw [mem_singleton.mp member]
    exact sample_outside
  exact (durable_commit_survives (oneSectorHeld_attached [5, 6]) rfl (by decide) outside durable).2
    spares _ .none 2053 sample_outside

end NovaOs
