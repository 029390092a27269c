import NovaOs.Journal.Recovery

/-! A commit issues exactly the writes of a redo-log commit, and arms the log as one. -/

namespace NovaOs

open BootConfig List

variable {disk : Nat → Sector} {write : Nat × Sector}

/-- The two sectors a descriptor is written as. -/
def descriptorWrites (cfg : BootConfig) (desc : Bytes) : List (Nat × Sector) :=
  [(cfg.journalStartLba.toNat, Sector.ofBytes desc),
    (cfg.journalStartLba.toNat + 1, Sector.ofBytes (desc.drop sectorSize))]

/-- The writes that copy held-back sectors into the region, from slot `i` on. -/
def dataWrites (cfg : BootConfig) : Nat → List Sector → List (Nat × Sector)
  | _, [] => []
  | i, sector :: rest => (cfg.dataAddr i, sector) :: dataWrites cfg (i + 1) rest

/-- Everything a commit writes before its mark. -/
def prepareWrites (cfg : BootConfig) (js : JournalState) : List (Nat × Sector) :=
  descriptorWrites cfg (descriptor js) ++ dataWrites cfg 0 (js.shadow.val.map Prod.snd)

/-- The sector that carries the mark. -/
def markSector (js : JournalState) : Sector := Sector.ofBytes (committedDescriptor js)

/-- The second sector of the committed descriptor, which follows the mark. -/
def settleWrites (cfg : BootConfig) (js : JournalState) : List (Nat × Sector) :=
  [(cfg.journalStartLba.toNat + 1, Sector.ofBytes ((committedDescriptor js).drop sectorSize))]

/-- Closing the outermost transaction makes it durable, and then brings it home. -/
theorem rustJournalCommit_outermost {js : JournalState} (outermost : js.depth = 1) {dev : Device} :
    rustJournalCommit js dev =
      let durable := commitDurableInternal { js with depth := 0 } dev
      let home := checkpointInternal durable.2.1 durable.2.2
      (durable.1 && home.1, home.2) := by
  have open_ : (js.depth == 0) = false := by simp [outermost]
  have last : js.depth - 1 = 0 := by omega
  simp only [rustJournalCommit, open_, Bool.false_eq_true, if_false, last, Nat.lt_irrefl]

namespace Configured

variable {cfg : BootConfig} {js : JournalState} {dev : Device}

variable (conf : Configured cfg js dev)

include conf

/-- Writing a descriptor is two single-sector writes. -/
theorem writeDescriptor_eq (desc : Bytes) :
    dev.blockdevWriteSectorsAbsolute js.journalStartLba (sectorsOf desc descriptorSectors)
      = (true, dev.wrote (descriptorWrites cfg desc)) := by
  rw [Device.blockdevWriteSectorsAbsolute, Device.dispatchWrite_of_noFaults conf.sound,
    conf.startLba]
  rfl

/-- Copying the data writes one sector for each slot. -/
theorem writeDataBlocks_eq (i : Nat) (sectors : List Sector) :
    writeDataBlocks js dev i sectors = (true, dev.wrote (dataWrites cfg i sectors)) := by
  induction sectors generalizing dev i with
  | nil => simp [writeDataBlocks, dataWrites]
  | cons sector rest ih =>
    have addr : (dataLba js i).toNat = cfg.dataAddr i := by
      simp only [dataLba, dataAddr, conf.startLba]
    simp only [writeDataBlocks, Device.blockdevWriteSectorsAbsolute,
      Device.dispatchWrite_of_noFaults conf.sound, Device.consecutive, addr]
    rw [ih (conf.wrote _), Device.wrote_wrote]
    rfl

/-- The durable half of a commit: fill the region, then set the mark. -/
theorem commitDurableInternal_eq (busy : js.shadow.val.length ≠ 0) :
    commitDurableInternal js dev
      = (true, { js with seq := js.seq + 1 },
          dev.wrote (prepareWrites cfg js
            ++ (cfg.journalStartLba.toNat, markSector js) :: settleWrites cfg js)) := by
  have work : (js.shadow.val.length == 0) = false := by simpa using busy
  simp only [commitDurableInternal, conf.usable, work, Bool.not_true, Bool.or_self,
    Bool.false_eq_true, if_false, conf.writeDescriptor_eq, (conf.wrote _).writeDataBlocks_eq,
    (conf.wrote _).writeDescriptor_eq, Device.wrote_wrote]
  simp only [prepareWrites, append_assoc]
  rfl

/-- The outermost commit writes what a redo-log commit writes. -/
theorem rustJournalCommit_eq (outermost : js.depth = 1) (busy : js.shadow.val.length ≠ 0) :
    rustJournalCommit js dev
      = (true, { js with
            depth := 0, seq := js.seq + 1, shadow := Shadow.ofList [], targetsAbsolute := false },
          dev.wrote (cfg.log.commitWrites (prepareWrites cfg js) (markSector js)
            (settleWrites cfg js) (cfg.homeWrites js.targetsAbsolute js.shadow.val))) := by
  -- Closing the transaction only lowers the depth, which nothing written depends on.
  have closed : Configured cfg { js with depth := 0 } dev := { conf with }
  have durable : commitDurableInternal { js with depth := 0 } dev
      = (true, { js with depth := 0, seq := js.seq + 1 },
          dev.wrote (prepareWrites cfg js
            ++ (cfg.journalStartLba.toNat, markSector js) :: settleWrites cfg js)) :=
    closed.commitDurableInternal_eq busy
  have later : Configured cfg { js with depth := 0, seq := js.seq + 1 }
      (dev.wrote (prepareWrites cfg js
        ++ (cfg.journalStartLba.toNat, markSector js) :: settleWrites cfg js)) :=
    { conf.wrote _ with }
  have home := later.checkpointInternal_eq busy
  simp only [rustJournalCommit_outermost outermost, durable, home, Device.wrote_wrote,
    RedoLog.commitWrites, log_mark, log_cleared, append_assoc, cons_append, Bool.and_self]

/-- An outermost commit with nothing held back writes nothing. -/
theorem rustJournalCommit_idle (outermost : js.depth = 1) (idle : js.shadow.val = []) :
    rustJournalCommit js dev
      = (true, { js with depth := 0, shadow := Shadow.ofList [], targetsAbsolute := false },
          dev) := by
  have closed : Configured cfg { js with depth := 0 } dev := { conf with }
  have durable : commitDurableInternal { js with depth := 0 } dev
      = (true, { js with depth := 0 }, dev) := by
    simp [commitDurableInternal, idle]
  simp only [rustJournalCommit_outermost outermost, durable, closed.checkpointInternal_idle idle,
    Bool.and_self]

end Configured

section Addresses

variable (cfg : BootConfig)
variable {sectors : List Sector}

/-- A data slot is neither of the two descriptor sectors. -/
theorem dataAddr_ne {i : Nat} (small : i < maxTxnBlocks) :
    cfg.dataAddr i ≠ cfg.journalStartLba.toNat
      ∧ cfg.dataAddr i ≠ cfg.journalStartLba.toNat + 1 := by
  simp only [maxTxnBlocks] at small
  simp only [dataAddr, UInt32.toNat_add, UInt32.toNat_ofNat', descriptorSectors]
  omega

/-- Different slots keep their data in different sectors. -/
theorem dataAddr_inj {i j : Nat} (smallI : i < maxTxnBlocks) (smallJ : j < maxTxnBlocks)
    (same : cfg.dataAddr i = cfg.dataAddr j) : i = j := by
  simp only [maxTxnBlocks] at smallI smallJ
  simp only [dataAddr, UInt32.toNat_add, UInt32.toNat_ofNat', descriptorSectors]
    at same
  omega

/-- Each data write goes to a slot of the region. -/
theorem dataWrites_mem {i : Nat} (member : write ∈ dataWrites cfg i sectors) :
    ∃ j, i ≤ j ∧ j < i + sectors.length ∧ write.1 = cfg.dataAddr j := by
  induction sectors generalizing i with
  | nil => simp [dataWrites] at member
  | cons sector rest ih =>
    rcases mem_cons.mp member with rfl | member
    · exact ⟨i, Nat.le_refl i, by simp, rfl⟩
    · obtain ⟨j, low, high, named⟩ := ih member
      exact ⟨j, by omega, by simp only [length_cons]; omega, named⟩

/-- After the data writes, each slot holds the sector meant for it. -/
theorem applyWrites_dataWrites {i j : Nat} {sector : Sector}
    (room : i + sectors.length ≤ maxTxnBlocks) (found : sectors[j]? = some sector)
    (disk : Nat → Sector) :
    applyWrites (dataWrites cfg i sectors) disk (cfg.dataAddr (i + j)) = sector := by
  induction sectors generalizing i j disk with
  | nil => simp at found
  | cons first rest ih =>
    simp only [length_cons] at room
    rw [dataWrites, applyWrites_cons]
    cases j with
    | zero =>
      simp only [getElem?_cons_zero, Option.some.injEq] at found
      subst found
      -- The slots written later all lie behind this one.
      rw [applyWrites_other _ _]
      · simp
      · intro write member same
        obtain ⟨k, low, high, named⟩ := dataWrites_mem cfg member
        have equal := dataAddr_inj cfg (by omega) (by omega) (named.symm.trans same)
        omega
    | succ j =>
      have along : i + (j + 1) = i + 1 + j := by omega
      rw [along]
      exact ih (by omega) (by simpa using found) _

end Addresses

variable {cfg : BootConfig} {js : JournalState}

theorem prepareWrites_inside (member : write ∈ prepareWrites cfg js) : cfg.InJournal write.1 := by
  simp only [prepareWrites, descriptorWrites, mem_append, mem_cons, not_mem_nil, or_false] at member
  rcases member with (rfl | rfl) | member
  · exact .inl rfl
  · exact .inr (Or.inl rfl)
  · obtain ⟨j, _, high, named⟩ := dataWrites_mem cfg member
    have bounded := js.shadow.2
    simp only [length_map] at high
    exact .inr (Or.inr ⟨j, by omega, named⟩)

theorem settleWrites_inside (member : write ∈ settleWrites cfg js) : cfg.InJournal write.1 := by
  simp only [settleWrites, mem_singleton] at member
  subst member
  exact .inr (Or.inl rfl)

/-- Data writes leave the descriptor's two sectors alone. -/
theorem applyWrites_dataWrites_descriptor {sectors : List Sector}
    (room : sectors.length ≤ maxTxnBlocks) (disk : Nat → Sector) {addr : Nat}
    (header : addr = cfg.journalStartLba.toNat ∨ addr = cfg.journalStartLba.toNat + 1)
    {count : Nat} :
    applyWrites ((dataWrites cfg 0 sectors).take count) disk addr = disk addr := by
  apply applyWrites_other
  intro write member same
  obtain ⟨j, _, high, named⟩ := dataWrites_mem cfg (mem_of_mem_take member)
  have apart := dataAddr_ne cfg (i := j) (by omega)
  rcases header with rfl | rfl
  · exact apart.1 (named.symm.trans same)
  · exact apart.2 (named.symm.trans same)

/-- A word in the first sector of a descriptor is read from that sector. -/
theorem getU32Le_ofBytes {desc : Bytes} {off : Nat} (size : desc.length = descriptorBytes)
    (within : off + 4 ≤ sectorSize) :
    getU32Le (Sector.ofBytes desc).val off = getU32Le desc off := by
  have whole := bytesOf_sectorsOf desc descriptorSectors size
  rw [← getU32Le_bytesOf_cons _ (sectorsOf (desc.drop sectorSize) 1) off within]
  exact congrArg (getU32Le · off) whole

/-- Until the mark is set, an idle journal stays idle. -/
theorem pending_prepareWrites (idle : cfg.pending disk = none) (count : Nat) :
    cfg.pending (applyWrites ((prepareWrites cfg js).take count) disk) = none := by
  cases count with
  | zero => simpa using idle
  | succ count => ?_
  -- The very first write already puts a descriptor without a mark in place.
  apply cfg.pending_of_commitFlag
  have first : applyWrites ((prepareWrites cfg js).take (count + 1)) disk
      cfg.journalStartLba.toNat = Sector.ofBytes (descriptor js) := by
    simp only [prepareWrites, descriptorWrites, cons_append, nil_append,
      take_succ_cons, applyWrites_cons]
    cases count with
    | zero => simp
    | succ count =>
      simp only [take_succ_cons, applyWrites_cons]
      rw [applyWrites_dataWrites_descriptor (by simpa using js.shadow.2) _ (Or.inl rfl)]
      simp
  rw [first, getU32Le_ofBytes (descriptor_length js) (by decide), descriptor_commitFlag]
  decide

/-- The table and the data of a committed descriptor are the sectors held back. -/
theorem diskEntries_committed
    (data : ∀ i sector, (js.shadow.val.map Prod.snd)[i]? = some sector →
      disk (cfg.dataAddr i) = sector) :
    cfg.diskEntries disk (committedDescriptor js) js.shadow.val.length = js.shadow.val := by
  apply ext_getElem
  · simp [diskEntries]
  · intro i _ within
    have target := committedDescriptor_target js i within
    have kept := data i js.shadow.val[i].2 (by simp [within])
    simp only [diskEntries, getElem_map, getElem_range, target, kept]
    simp [within]

/-- A disk that holds the committed descriptor and its data asks for the transaction. -/
theorem pending_committed (busy : js.shadow.val.length ≠ 0)
    (first : disk cfg.journalStartLba.toNat = markSector js)
    (second : disk (cfg.journalStartLba.toNat + 1)
      = Sector.ofBytes ((committedDescriptor js).drop sectorSize))
    (data : ∀ i sector, (js.shadow.val.map Prod.snd)[i]? = some sector →
      disk (cfg.dataAddr i) = sector) :
    cfg.pending disk = some (cfg.homeWrites js.targetsAbsolute js.shadow.val) := by
  have desc : cfg.diskDescriptor disk = committedDescriptor js := by
    rw [diskDescriptor, first, second]
    exact bytesOf_sectorsOf _ descriptorSectors (committedDescriptor_length js)
  have bounded := js.shadow.2
  -- No reason to refuse the descriptor applies.
  have valid : nothingToRecover (committedDescriptor js) = false := by
    simp [nothingToRecover, committedDescriptor_magic, committedDescriptor_commitFlag,
      committedDescriptor_blockCount, busy, bounded]
  simp only [pending, desc, valid, committedDescriptor_blockCount,
    diskEntries_committed data, committedDescriptor_checksum, bne_self_eq_false,
    committedDescriptor_targetsAbsolute, Bool.false_eq_true, if_false]

/-- From the mark on, however much of the second sector follows, the log is in force. -/
theorem pending_markWrites (busy : js.shadow.val.length ≠ 0) (disk : Nat → Sector)
    (count : Nat) :
    cfg.pending (applyWrites (prepareWrites cfg js
        ++ (cfg.journalStartLba.toNat, markSector js) :: (settleWrites cfg js).take count) disk)
      = some (cfg.homeWrites js.targetsAbsolute js.shadow.val) := by
  have room : (js.shadow.val.map Prod.snd).length ≤ maxTxnBlocks := by simpa using js.shadow.2
  have tail : ∀ write ∈ (settleWrites cfg js).take count,
      write = (cfg.journalStartLba.toNat + 1,
        Sector.ofBytes ((descriptor js).drop sectorSize)) := by
    intro write member
    have whole := mem_of_mem_take member
    simp only [settleWrites, mem_singleton, committedDescriptor_secondSector] at whole
    exact whole
  rw [applyWrites_append, applyWrites_cons, prepareWrites, applyWrites_append]
  apply pending_committed busy
  · -- Nothing after the mark goes to the mark's own sector.
    apply applyWrites_stable (by simp)
    intro write member same
    rw [tail write member] at same
    simp at same
  · rw [committedDescriptor_secondSector]
    apply applyWrites_stable
    · rw [Function.update_of_ne (by simp)]
      apply applyWrites_stable
      · simp [descriptorWrites, applyWrites_cons]
      · -- The data lies behind the descriptor.
        intro write member same
        obtain ⟨j, _, high, named⟩ := dataWrites_mem cfg member
        exact absurd (named.symm.trans same) (dataAddr_ne cfg (by omega)).2
    · intro write member _
      rw [tail write member]
  · intro i sector found
    have small : i < maxTxnBlocks := by
      have within := (List.getElem?_eq_some_iff.mp found).1
      omega
    apply applyWrites_stable
    · rw [Function.update_of_ne (dataAddr_ne cfg small).1]
      simpa only [Nat.zero_add] using
        applyWrites_dataWrites cfg (i := 0) (by simpa using room) found _
    · intro write member same
      rw [tail write member] at same
      exact absurd same.symm (dataAddr_ne cfg small).2

end NovaOs
