import NovaOs.Journal.Commit
import Mathlib.Data.List.Nodup

/-! A commit survives power loss whole or not at all, whatever recovery goes through. -/

namespace NovaOs

open BootConfig List

/-- The states the journal goes through between boot and power loss. -/
inductive Running (cfg : BootConfig) : JournalState → Device → Prop where
  -- Boot names the region and recovers before anything else touches the disk.
  | boot (disk : Nat → Sector) :
      Running cfg (rustJournalRecover (cfg.journal disk) (cfg.device disk)).2.1
        (rustJournalRecover (cfg.journal disk) (cfg.device disk)).2.2
  | begin {js : JournalState} {dev : Device} (earlier : Running cfg js dev) :
      Running cfg (rustJournalBegin js) dev
  -- The self-test opens a transaction whose targets are counted from the start of the disk.
  | beginAbsolute {js : JournalState} {dev : Device} (earlier : Running cfg js dev)
      (empty : js.shadow.val = []) :
      Running cfg { js with depth := 1, targetsAbsolute := true } dev
  -- Outside a transaction writes go straight to the disk, and nobody aims them at the journal.
  | write {js : JournalState} {dev : Device} (earlier : Running cfg js dev) (lba : UInt32)
      (src : List Sector)
      (beyond : js.depth = 0 → ∀ i < src.length, ¬ cfg.InJournal (dev.targetLba lba + i)) :
      Running cfg (rustJournalWriteSectors js dev lba src).2.1
        (rustJournalWriteSectors js dev lba src).2.2
  | commit {js : JournalState} {dev : Device} (earlier : Running cfg js dev) :
      Running cfg (rustJournalCommit js dev).2.1 (rustJournalCommit js dev).2.2

/-- What holds between any two calls into a running journal. -/
structure Settled (cfg : BootConfig) (js : JournalState) (dev : Device) : Prop
    extends Configured cfg js dev where
  -- A sector is held back once, however often it is written.
  distinct : (js.shadow.val.map Prod.fst).Nodup
  closed : js.depth = 0 → js.shadow.val = []
  -- The region on disk asks for nothing until the next mark.
  idle : cfg.pending dev.disk = none

variable {cfg : BootConfig} {js : JournalState} {dev : Device}

/-- Boot ends with a journal that asks for nothing. -/
theorem Settled.boot (cfg : BootConfig) (disk : Nat → Sector) :
    Settled cfg (rustJournalRecover (cfg.journal disk) (cfg.device disk)).2.1
      (rustJournalRecover (cfg.journal disk) (cfg.device disk)).2.2 := by
  have fresh := Configured.boot cfg disk
  obtain ⟨result, pass⟩ := fresh.recoverInternal_eq rfl rfl
  rw [rustJournalRecover, pass]
  exact { fresh.wrote _ with
    distinct := nodup_nil
    closed := fun _ => rfl
    idle := by
      rw [Device.wrote_disk, device_disk, ← log_pending]
      exact cfg.log.pending_recovered disk }

/-- Boot leaves the journal as it named it, and a disk that asks for nothing as it is. -/
theorem Running.booted (cfg : BootConfig) (disk : Nat → Sector)
    (idle : cfg.pending disk = none) :
    ∃ dev, Running cfg (cfg.journal disk) dev ∧ dev.disk = disk := by
  obtain ⟨result, pass⟩ := (Configured.boot cfg disk).recoverInternal_eq rfl rfl
  have run : Running cfg _ _ := .boot disk
  rw [rustJournalRecover, pass, RedoLog.recovery_of_idle idle] at run
  exact ⟨_, run, rfl⟩

/-- The addresses an open transaction holds sectors back for. -/
def JournalState.held (js : JournalState) : List UInt32 := js.shadow.val.map Prod.fst

/-- The addresses held after one more sector was. -/
theorem held_shadowSector {after : JournalState} {lba : UInt32} {sector : Sector}
    (took : shadowSector js lba sector = some after) :
    after.held = if lba ∈ js.held then js.held else js.held ++ [lba] := by
  unfold shadowSector at took
  cases slot : js.findShadow lba with
  | some idx =>
    simp only [slot, Option.some.injEq] at took
    obtain ⟨within, same, _⟩ := findIdx?_eq_some_iff_getElem.mp slot
    have inside : idx < (js.shadow.val.map Prod.fst).length := by simpa using within
    have target : (js.shadow.val.map Prod.fst)[idx] = lba := by simpa using same
    have member : lba ∈ js.held := target ▸ getElem_mem inside
    rw [if_pos member, ← took, JournalState.held, map_set]
    simp only [← target, set_getElem_self inside]
    rfl
  | none =>
    simp only [slot] at took
    have fresh : lba ∉ js.held := by
      intro member
      obtain ⟨entry, inside, same⟩ := mem_map.mp member
      have miss := findIdx?_eq_none_iff.mp slot entry inside
      simp [same] at miss
    split at took
    · cases took
      rw [if_neg fresh]
      simp [JournalState.held]
    · cases took

/-- Holding a sector back changes the table only, and keeps its targets distinct. -/
theorem shadowSector_distinct {after : JournalState} {lba : UInt32} {sector : Sector}
    (distinct : (js.shadow.val.map Prod.fst).Nodup)
    (took : shadowSector js lba sector = some after) :
    ∃ shadow : Shadow, after = { js with shadow := shadow } ∧
      (shadow.val.map Prod.fst).Nodup := by
  have grown := held_shadowSector took
  obtain ⟨shadow, rfl⟩ : ∃ shadow : Shadow, after = { js with shadow := shadow } := by
    unfold shadowSector at took
    repeat' split at took
    all_goals cases took
    all_goals exact ⟨_, rfl⟩
  refine ⟨shadow, rfl, ?_⟩
  rw [JournalState.held] at grown
  rw [grown]
  split
  · exact distinct
  · rename_i fresh
    exact concat_eq_append ▸ Nodup.concat fresh distinct

/-- So does holding any number of sectors back, even when the table fills up on the way. -/
theorem shadowSectors_distinct (distinct : (js.shadow.val.map Prod.fst).Nodup) (lba : UInt32)
    (src : List Sector) :
    ∃ shadow : Shadow, (shadowSectors js lba src).2 = { js with shadow := shadow } ∧
      (shadow.val.map Prod.fst).Nodup := by
  induction src generalizing js lba with
  | nil => exact ⟨js.shadow, rfl, distinct⟩
  | cons sector rest ih =>
    rw [shadowSectors]
    cases took : shadowSector js lba sector with
    | none => exact ⟨js.shadow, rfl, distinct⟩
    | some after =>
      obtain ⟨first, rfl, distinctFirst⟩ := shadowSector_distinct distinct took
      exact ih distinctFirst (lba + 1)

namespace Settled

/-- The addresses a direct transfer goes to. -/
theorem mem_consecutive {addr : Nat} {sectors : List Sector} {write : Nat × Sector}
    (member : write ∈ Device.consecutive addr sectors) :
    ∃ i < sectors.length, write.1 = addr + i := by
  induction sectors generalizing addr with
  | nil => simp [Device.consecutive] at member
  | cons sector rest ih =>
    rcases mem_cons.mp member with rfl | member
    · exact ⟨0, by simp, rfl⟩
    · obtain ⟨i, small, named⟩ := ih member
      exact ⟨i + 1, by simpa using small, by omega⟩

/-- Writing keeps a journal settled, held back or not. -/
theorem write (settled : Settled cfg js dev) (lba : UInt32) (src : List Sector)
    (beyond : js.depth = 0 → ∀ i < src.length, ¬ cfg.InJournal (dev.targetLba lba + i)) :
    Settled cfg (rustJournalWriteSectors js dev lba src).2.1
      (rustJournalWriteSectors js dev lba src).2.2 := by
  rw [rustJournalWriteSectors, writeSectorsInternal]
  by_cases shut : js.depth = 0
  · simp only [shut, beq_self_eq_true, if_true, Device.blockdevWriteSectors,
      Device.dispatchWrite_of_noFaults settled.sound]
    refine { settled.wrote _ with
      distinct := settled.distinct
      closed := settled.closed
      idle := ?_ }
    -- A direct write stays out of the region, so the region still asks for nothing.
    rw [Device.wrote_disk, ← log_pending, RedoLog.pending_applyWrites, log_pending, settled.idle]
    intro write member
    obtain ⟨i, small, named⟩ := mem_consecutive member
    rw [named]
    exact beyond shut i small
  · have inside : (js.depth == 0) = false := by simpa using shut
    simp only [inside, Bool.false_eq_true, if_false]
    obtain ⟨shadow, held, distinct⟩ := shadowSectors_distinct settled.distinct lba src
    rw [held]
    exact { settled with
      distinct := distinct
      closed := fun opened => absurd opened shut }

/-- A commit either only closes a level, or is the outermost one and issues a log commit. -/
theorem commit_cases (settled : Settled cfg js dev) :
    (∃ depth shadow absolute, rustJournalCommit js dev
        = (true, { js with depth := depth, shadow := shadow, targetsAbsolute := absolute }, dev) ∧
      (shadow = js.shadow ∧ 0 < depth ∨ shadow.val = [] ∧ depth = 0)) ∨
    (js.depth = 1 ∧ js.shadow.val.length ≠ 0) := by
  by_cases shut : js.depth = 0
  · left
    have unchanged : rustJournalCommit js dev = (true, { js with depth := 0 }, dev) := by
      simp only [rustJournalCommit, shut, beq_self_eq_true, if_true]
      rw [← shut]
    exact ⟨0, js.shadow, js.targetsAbsolute, unchanged, Or.inr ⟨settled.closed shut, rfl⟩⟩
  by_cases outermost : js.depth = 1
  · by_cases busy : js.shadow.val.length = 0
    · left
      exact ⟨0, Shadow.ofList [], false,
        settled.rustJournalCommit_idle outermost (length_eq_zero_iff.mp busy),
        Or.inr ⟨rfl, rfl⟩⟩
    · exact .inr ⟨outermost, busy⟩
  · left
    have deeper : 0 < js.depth - 1 := by omega
    exact ⟨js.depth - 1, js.shadow, js.targetsAbsolute, by simp [rustJournalCommit, shut, deeper],
      Or.inl ⟨rfl, deeper⟩⟩

/-- A commit leaves a journal that asks for nothing. -/
theorem commit (settled : Settled cfg js dev) :
    Settled cfg (rustJournalCommit js dev).2.1 (rustJournalCommit js dev).2.2 := by
  rcases settled.commit_cases with ⟨depth, shadow, absolute, closed, table⟩ | ⟨outermost, busy⟩
  · rw [closed]
    rcases table with ⟨rfl, deeper⟩ | ⟨empty, rfl⟩
    · exact { settled with closed := fun shut => absurd shut (Nat.ne_of_gt deeper) }
    · exact { settled with
        distinct := by simp [empty]
        closed := fun _ => empty }
  rw [settled.rustJournalCommit_eq outermost busy]
  exact { settled.wrote _ with
    distinct := nodup_nil
    closed := fun _ => rfl
    idle := by
      rw [Device.wrote_disk, ← log_pending]
      exact cfg.log.pending_commitWrites }

end Settled

/-- Every state of a run is settled. -/
theorem Running.settled (running : Running cfg js dev) : Settled cfg js dev := by
  induction running with
  | boot disk => exact Settled.boot cfg disk
  | begin earlier ih =>
    exact { ih with closed := fun shut => absurd shut (Nat.succ_ne_zero _) }
  | beginAbsolute earlier empty ih =>
    exact { ih with closed := fun shut => absurd shut Nat.one_ne_zero }
  | write earlier lba src beyond ih => exact ih.write lba src beyond
  | commit earlier ih => exact ih.commit

/-- Any sectors not yet held back can be held back, as long as the table has room. -/
theorem Running.holding (running : Running cfg js dev) (opened : js.depth ≠ 0)
    (entries : List (UInt32 × Sector))
    (distinct : ((js.shadow.val ++ entries).map Prod.fst).Nodup)
    (room : (js.shadow.val ++ entries).length ≤ maxTxnBlocks) :
    Running cfg { js with shadow := ⟨js.shadow.val ++ entries, room⟩ } dev := by
  induction entries generalizing js with
  | nil => simpa using running
  | cons entry rest ih =>
    obtain ⟨lba, sector⟩ := entry
    have grown := running.write lba [sector] (fun shut => absurd shut opened)
    -- The target is new to the table, so the sector takes the next slot.
    have fresh : js.findShadow lba = none := by
      rw [JournalState.findShadow, findIdx?_eq_none_iff]
      intro held member
      have apart := (nodup_append.mp (by simpa using distinct)).2.2 held.1
        (mem_map_of_mem member) lba (by simp)
      simpa using apart
    have space : js.shadow.val.length < maxTxnBlocks := by
      simp only [length_append, length_cons] at room
      omega
    have shut : (js.depth == 0) = false := by simpa using opened
    simp only [rustJournalWriteSectors, writeSectorsInternal, shut, Bool.false_eq_true, if_false,
      shadowSectors, shadowSector, fresh, dif_pos space] at grown
    have onward := ih grown opened (by simpa using distinct) (by simpa using room)
    simpa using onward

/-- The single-sector writes a commit issues, oldest first. -/
def commitIssued (js : JournalState) (dev : Device) : List (Nat × Sector) :=
  (rustJournalCommit js dev).2.2.issued.drop dev.issued.length

/-- The device after a boot has recovered a disk, with the writes that took. -/
def recoveryPass (cfg : BootConfig) (disk : Nat → Sector) : Device :=
  (rustJournalRecover (cfg.journal disk) (cfg.device disk)).2.2

/-- Disks left by any number of boots that lost power somewhere in recovery. -/
inductive PowerLost (cfg : BootConfig) (start : Nat → Sector) : (Nat → Sector) → Prop where
  | never : PowerLost cfg start start
  | recovering {disk : Nat → Sector} (earlier : PowerLost cfg start disk) (count : Nat) :
      PowerLost cfg start (applyWrites ((recoveryPass cfg disk).issued.take count) disk)

/-- The sector that carries the commit mark is among these writes. -/
def MarkWritten (cfg : BootConfig) (writes : List (Nat × Sector)) : Prop :=
  ∃ write ∈ writes, write.1 = cfg.journalStartLba.toNat ∧
    getU32Le write.2.val offCommitFlag = commitMagic

/-- A boot's recovery is one pass of the redo log. -/
theorem recoveryPass_eq (cfg : BootConfig) (disk : Nat → Sector) :
    (recoveryPass cfg disk).issued = cfg.log.recovery disk ∧
      (recoveryPass cfg disk).disk = cfg.log.recovered disk := by
  obtain ⟨result, pass⟩ := (Configured.boot cfg disk).recoverInternal_eq rfl rfl
  rw [recoveryPass, rustJournalRecover, pass]
  constructor
  · rw [Device.wrote_issued, device_issued, nil_append, device_disk]
  · rw [Device.wrote_disk, device_disk, RedoLog.recovered]

/-- Whatever is on a disk, once it has been recovered the next boot writes nothing. -/
theorem recovered_once (cfg : BootConfig) (disk : Nat → Sector) :
    (recoveryPass cfg (recoveryPass cfg disk).disk).issued = [] := by
  rw [(recoveryPass_eq cfg _).1, (recoveryPass_eq cfg disk).2]
  exact RedoLog.recovery_of_idle (cfg.log.pending_recovered disk)

/-- Boots that lose power are interrupted passes of the redo log. -/
theorem PowerLost.interrupted {start disk : Nat → Sector} (lost : PowerLost cfg start disk) :
    cfg.log.Interrupted start disk := by
  induction lost with
  | never => exact .refl
  | recovering earlier count ih =>
    rw [(recoveryPass_eq cfg _).1]
    exact .again count ih

/-- Before its mark a commit writes no sector that carries one. -/
theorem not_markWritten_prepareWrites (count : Nat) :
    ¬ MarkWritten cfg ((prepareWrites cfg js).take count) := by
  intro marked
  obtain ⟨write, member, atMark, flag⟩ := marked
  have member := mem_of_mem_take member
  simp only [prepareWrites, descriptorWrites, mem_append, mem_cons, not_mem_nil, or_false] at member
  rcases member with (rfl | rfl) | member
  · rw [getU32Le_ofBytes (descriptor_length js) (by decide), descriptor_commitFlag] at flag
    exact absurd flag (by decide)
  · simp at atMark
  · obtain ⟨j, _, high, named⟩ := dataWrites_mem cfg member
    have bounded := js.shadow.2
    simp only [length_map] at high
    exact (dataAddr_ne cfg (by omega)).1 (named.symm.trans atMark)

/-- The mark is among the first writes of a commit once they reach past its preparation. -/
theorem markWritten_commitWrites {writes : List (Nat × Sector)} {count : Nat} :
    MarkWritten cfg ((cfg.log.commitWrites (prepareWrites cfg js) (markSector js)
        (settleWrites cfg js) writes).take count)
      ↔ (prepareWrites cfg js).length < count := by
  constructor
  · intro marked
    by_contra early
    rw [RedoLog.commitWrites, take_append_of_le_length (by omega)] at marked
    exact not_markWritten_prepareWrites count marked
  · intro late
    obtain ⟨rest, rfl⟩ : ∃ rest, count = (prepareWrites cfg js).length + (rest + 1) :=
      ⟨count - (prepareWrites cfg js).length - 1, by omega⟩
    refine ⟨(cfg.journalStartLba.toNat, markSector js), ?_, rfl, ?_⟩
    · rw [RedoLog.commitWrites, take_length_add_append, take_succ_cons]
      simp
    · rw [markSector, getU32Le_ofBytes (committedDescriptor_length js) (by decide)]
      exact committedDescriptor_commitFlag js

/-- Different targets have different homes. -/
theorem home_injective (cfg : BootConfig) (absolute : Bool) :
    Function.Injective (cfg.home absolute) := by
  intro first second same
  cases absolute with
  | true => exact UInt32.toNat_inj.mp same
  | false => exact (UInt32.add_left_inj _).mp (UInt32.toNat_inj.mp same)

/-- Writing a transaction home puts every held-back sector in its place. -/
theorem applyWrites_homeWrites (settled : Settled cfg js dev) {entry : UInt32 × Sector}
    (member : entry ∈ js.shadow.val) (disk : Nat → Sector) :
    applyWrites (cfg.homeWrites js.targetsAbsolute js.shadow.val) disk
      (cfg.home js.targetsAbsolute entry.1) = entry.2 := by
  have homes : ((cfg.homeWrites js.targetsAbsolute js.shadow.val).map Prod.fst)
      = (js.shadow.val.map Prod.fst).map (cfg.home js.targetsAbsolute) := by
    simp [homeWrites, Function.comp_def]
  apply applyWrites_mem
  · rw [homes]
    exact settled.distinct.map (home_injective cfg _)
  · exact mem_map_of_mem member

/-- The outermost commit issues what a redo-log commit writes. -/
theorem Settled.commitIssued_eq (settled : Settled cfg js dev) (outermost : js.depth = 1)
    (busy : js.shadow.val.length ≠ 0) :
    commitIssued js dev = cfg.log.commitWrites (prepareWrites cfg js) (markSector js)
      (settleWrites cfg js) (cfg.homeWrites js.targetsAbsolute js.shadow.val) := by
  rw [commitIssued, settled.rustJournalCommit_eq outermost busy, Device.wrote_issued, drop_left]

/--
However much of a commit reaches the disk, and however often recovery is cut off after it, a
recovery that completes leaves every target new when the mark was written and old when not.
-/
theorem commit_crash_atomic (running : Running cfg js dev)
    (outside : ∀ entry ∈ js.shadow.val,
      ¬ cfg.InJournal (cfg.home js.targetsAbsolute entry.1))
    (count : Nat) {lost : Nat → Sector}
    (crashes : PowerLost cfg (applyWrites ((commitIssued js dev).take count) dev.disk) lost) :
    (MarkWritten cfg ((commitIssued js dev).take count) →
      ∀ entry ∈ js.shadow.val,
        (recoveryPass cfg lost).disk (cfg.home js.targetsAbsolute entry.1) = entry.2) ∧
    (¬ MarkWritten cfg ((commitIssued js dev).take count) →
      ∀ entry ∈ js.shadow.val,
        (recoveryPass cfg lost).disk (cfg.home js.targetsAbsolute entry.1)
          = dev.disk (cfg.home js.targetsAbsolute entry.1)) := by
  have settled := running.settled
  have run := crashes.interrupted
  rw [(recoveryPass_eq cfg lost).2]
  rcases settled.commit_cases with ⟨depth, shadow, absolute, closed, _⟩ | ⟨outermost, busy⟩
  · -- Nothing is written, so nothing was ever marked and recovery finds an idle log.
    have silent : commitIssued js dev = [] := by simp [commitIssued, closed]
    rw [silent, take_nil] at run ⊢
    constructor
    · intro marked
      simp [MarkWritten] at marked
    · intro _ entry member
      have still := RedoLog.interrupted_of_idle settled.idle run
      subst still
      rw [RedoLog.recovered, RedoLog.recovery_of_idle settled.idle]
      rfl
  · have homesOutside : ∀ write ∈ cfg.homeWrites js.targetsAbsolute js.shadow.val,
        ¬ cfg.log.region write.1 := by
      intro write member
      obtain ⟨entry, held, rfl⟩ := mem_map.mp member
      exact outside entry held
    rw [settled.commitIssued_eq outermost busy] at run ⊢
    rw [markWritten_commitWrites]
    constructor
    · intro late entry member
      rw [RedoLog.crash_after_mark (fun _ => prepareWrites_inside)
        (fun _ => settleWrites_inside) (pending_markWrites busy dev.disk) homesOutside late run
        (outside entry member)]
      exact applyWrites_homeWrites settled member dev.disk
    · intro early entry member
      exact RedoLog.crash_before_mark (fun _ => prepareWrites_inside)
        (pending_prepareWrites settled.idle) (Nat.not_lt.mp early) run (outside entry member)

/-- A journal behind a partition, as the disk image tool lays it out. -/
def sampleConfig : BootConfig where
  activeDevice := 0
  partitionOffset := 2048
  journalStartLba := 100000
  journalLenSectors := 2048
  usable := by decide

/-- A sector that repeats one byte. -/
def repeated (byte : UInt8) : Sector := ⟨replicate sectorSize byte, by simp⟩

/-- Two sectors held back for a disk of zeros. Power is lost right after the mark, and again after
the first write of the recovery; the next recovery completes. -/
theorem commit_crash_atomic_two :
    ∃ js dev, Running sampleConfig js dev ∧ dev.disk = (fun _ => zeroSector) ∧
      js.shadow.val = [(7, repeated 1), (9, repeated 2)] ∧
      let crashed := applyWrites ((commitIssued js dev).take 5) dev.disk
      let again := applyWrites ((recoveryPass sampleConfig crashed).issued.take 1) crashed
      ∀ entry ∈ js.shadow.val, (recoveryPass sampleConfig again).disk
        (sampleConfig.home js.targetsAbsolute entry.1) = entry.2 := by
  obtain ⟨dev, booted, zeros⟩ := Running.booted sampleConfig (fun _ => zeroSector) (by decide)
  have held := booted.begin.holding (Nat.succ_ne_zero _) [(7, repeated 1), (9, repeated 2)]
    (by decide) (by decide)
  refine ⟨_, dev, held, zeros, rfl, (commit_crash_atomic held ?_ 5 (.recovering .never 1)).1 ?_⟩
  · -- Both sectors lie well before the journal.
    have behind : ∀ i < maxTxnBlocks, 100000 ≤ sampleConfig.dataAddr i := by decide
    have before : ∀ entry ∈ [((7 : UInt32), repeated 1), (9, repeated 2)],
        sampleConfig.home false entry.1 < 100000 := by decide
    rintro entry member (first | second | ⟨i, small, slot⟩)
    · exact absurd (before entry member) (first ▸ by decide)
    · exact absurd (before entry member) (second ▸ by decide)
    · exact absurd (before entry member) (slot ▸ Nat.not_lt.mpr (behind i small))
  · rw [held.settled.commitIssued_eq rfl (Nat.succ_ne_zero _), markWritten_commitWrites]
    decide

end NovaOs
