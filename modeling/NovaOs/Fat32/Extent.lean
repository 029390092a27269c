import NovaOs.Fat32.Edits
import NovaOs.Fat32.Refinement

/-! Where the sectors lie that writes and deletes put on the disk. -/

namespace NovaOs.Fat

open List

/-- The number of sectors a boot sector says its volume has. -/
def declaredSectors (boot : Bytes) : Nat :=
  if getU16Le boot 19 = 0 then (getU32Le boot 32).toNat else (getU16Le boot 19).toNat

/-- An address of the journal's own region. -/
def JournalOwned (fs : Fs) (addr : Nat) : Prop :=
  fs.js.journalRegionUsable fs.dev = true ∧ (regionOf fs.js fs.dev).InJournal addr

/-- A sector of the volume, counted from the partition's start, below a number of sectors. -/
def InsideVolume (g : Geometry) (total addr : Nat) : Prop :=
  ∃ lba < total, addr = g.partitionOffset.toNat + lba

section Holding

variable {g : Geometry} {fs after : Fs}

/-- Every sector held back is one of the volume's. -/
def HoldsInside (g : Geometry) (fs : Fs) : Prop := ∀ lba ∈ fs.js.held, lba.toNat < g.sectors

/-- No edit holds back a sector outside the volume. -/
theorem HoldsInside.edit (inside : HoldsInside g fs) (busy : Busy g fs) (edit : Edit g fs after) :
    HoldsInside g after := by
  cases edit with
  | hint hint => exact inside
  | data valid buf =>
    rename_i cluster
    intro lba member
    by_cases outside : ∀ i < g.spc, lba ≠ g.layout.clusterToLba cluster + UInt32.ofNat i
    · exact inside lba
        (((writeCluster_fills busy cluster buf).others lba outside).2.mp member)
    · simp only [not_forall, not_not] at outside
      obtain ⟨i, small, rfl⟩ := outside
      exact Geometry.sector_lt valid small
  | link within value =>
    intro lba member
    rcases mem_append.mp ((fatSetNextCluster_any busy within value).held member) with
      old | new
    · exact inside lba old
    obtain ⟨k, small, rfl⟩ := mem_map.mp new
    have below := Geometry.fatSector_lt within
      (by simpa using mem_range.mp small : 0 + k < g.layout.numFats.toNat)
    simp only [Geometry.sectors]
    omega

end Holding

section Calls

variable {g : Geometry} {fs after : Fs} {total : Nat}

/-- A call writes to the journal's region and to the volume, and leaves the region where it is. -/
theorem Call.writes (ready : Ready g fs.entered) (idle : fs.js.depth = 0)
    (tidied : Tidied g fs.entered) (fits : g.sectors ≤ total) (call : Call fs after) :
    (∀ addr, JournalOwned after addr ↔ JournalOwned fs.entered addr) ∧
      ∃ writes, after.dev.issued = fs.entered.dev.issued ++ writes ∧
        ∀ write ∈ writes, JournalOwned fs.entered write.1 ∨ InsideVolume g total write.1 := by
  rcases call.edits ready idle tidied with rfl | ⟨done, result, edits, rfl⟩
  · exact ⟨fun _ => Iff.rfl, [], (append_nil _).symm, fun _ member => by cases member⟩
  obtain ⟨busy, opened, _⟩ := journalBegin_spec ready idle
  have nothing : fs.entered.journalBegin.js.held = [] := congrArg (List.map _) (ready.closed idle)
  have start : HoldsInside g fs.entered.journalBegin := by
    intro lba member
    rw [nothing] at member
    cases member
  obtain ⟨within, inside⟩ := edits.keeps busy start
    fun busy inside edit => inside.edit busy edit
  have readyDone := (within.busy busy).ready
  obtain ⟨writes, closed, commit, _, ⟨seq, journal⟩, device, _, addresses⟩ :=
    journalCommit_writes readyDone (within.depth.trans opened) result
  -- Neither the edits nor the commit move the journal.
  obtain ⟨shadow, held⟩ := within.holding.same
  have region : ∀ addr, JournalOwned done addr ↔ JournalOwned fs.entered addr := by
    intro addr
    rw [JournalOwned, held, within.dev]
    exact Iff.rfl
  rw [commit]
  refine ⟨fun addr => ?_, writes, ?_, ?_⟩
  · rw [← region addr, JournalOwned, journal, device]
    exact Iff.rfl
  · rw [device, within.dev, Device.wrote_issued]
    rfl
  · intro write member
    rcases addresses write member with own | ⟨lba, inTable, address⟩
    · exact .inl ((region write.1).mp own)
    have low := inside lba inTable
    refine .inr ⟨lba.toNat, Nat.lt_of_lt_of_le low fits, ?_⟩
    have addressable := g.addressable
    rw [address, Device.targetLba, readyDone.dev_offset, UInt32.toNat_add]
    simp only [Geometry.sectors, Geometry.spc] at low
    omega

/--
On a volume whose geometry lies within its declared size, calls that find well-formed chains write
to that many sectors from the partition's start, and to the journal's own region.
-/
theorem fat32_writes_inside (ready : Ready g fs.entered) (idle : fs.js.depth = 0)
    (fits : g.sectors ≤ declaredSectors (fs.view 0).val) (calls : Calls g fs after) :
    ∃ writes, after.dev.issued = fs.dev.issued ++ writes ∧
      ∀ write ∈ writes, JournalOwned fs.entered write.1 ∨
        InsideVolume g (declaredSectors (fs.view 0).val) write.1 := by
  generalize declaredSectors (fs.view 0).val = total at fits ⊢
  have kept := calls.keeps (P := fun now =>
    (∀ addr, JournalOwned now addr ↔ JournalOwned fs.entered addr) ∧
      ∃ writes, now.dev.issued = fs.dev.issued ++ writes ∧
        ∀ write ∈ writes, JournalOwned fs.entered write.1 ∨ InsideVolume g total write.1)
    ready idle ⟨fun _ => Iff.rfl, [], (append_nil _).symm, fun _ member => by cases member⟩ ?_
  · exact kept.2.2.2
  intro now after ready idle tidied so_far call
  obtain ⟨same, writes, issued, addresses⟩ := so_far
  obtain ⟨sameLater, more, issuedLater, addressesLater⟩ := call.writes ready idle tidied fits
  refine ⟨fun addr => (sameLater addr).trans (same addr), writes ++ more, ?_, ?_⟩
  · rw [issuedLater, issued, append_assoc]
  · intro write member
    rcases mem_append.mp member with old | new
    · exact addresses write old
    · exact (addressesLater write new).imp (same write.1).mp id

end Calls

section Short

/-- A boot sector for clusters of one sector and one FAT sector, with the root in cluster 2. -/
def shortBoot (total : UInt32) : Sector :=
  Sector.ofBytes (putU32Le (putU32Le (putU32Le
    (List.replicate 11 0 ++ u16Bytes 512 ++ [1] ++ u16Bytes 1 ++ [1] ++ List.replicate 495 0)
    32 total) 36 1) 44 2)

/-- A disk with that boot sector, a FAT of free entries and an empty root, not mounted yet. -/
def shortFs (total : UInt32) : Fs :=
  { sampleFs with
    mounted := false
    dev := { sampleFs.dev with
      disk := fun addr =>
        if addr = 0 then shortBoot total else sampleFs.dev.disk addr } }

/-- A volume of three sectors is mounted, and a file's data goes to the fourth. -/
theorem fat32_writes_outside :
    declaredSectors (shortBoot 3).val = 3 ∧ (fat32Init (shortFs 3) true).1 = true ∧
      (fat32WriteFile 128 (fat32Init (shortFs 3) true).2 (ascii "a") [7]).map
          (fun outcome => (outcome.1, outcome.2.dev.issued.map Prod.fst))
        = some (true, [1, 3, 2]) := by
  decide

/-- A volume that declares all its clusters, mounted. -/
def wholeFs : Fs := { shortFs 128 with mounted := true }

theorem wholeFs_ready : Ready sampleGeometry wholeFs :=
  .unjournaled rfl rfl rfl rfl rfl rfl

set_option maxRecDepth 2000

/-- There the same write stays inside. -/
theorem fat32_writes_inside_whole :
    ∃ after, Calls sampleGeometry wholeFs after ∧
      ∃ writes, after.dev.issued = wholeFs.dev.issued ++ writes ∧
        ∀ write ∈ writes, JournalOwned wholeFs.entered write.1 ∨
          InsideVolume sampleGeometry (declaredSectors (wholeFs.view 0).val) write.1 := by
  have ran : (fat32WriteFile 128 wholeFs (ascii "a") [7]).map Prod.fst = some true := by
    decide
  obtain ⟨⟨ok, after⟩, run, rfl⟩ := Option.map_eq_some_iff.mp ran
  have root : sampleGeometry.Valid 2 := by decide
  have last : Ends ((wholeFs.vol sampleGeometry).fat 2) := by decide
  have blank : (wholeFs.vol sampleGeometry).data 2 = List.replicate 512 0 := by decide
  have holds := Holds.blank root last blank fun c low high _ => ⟨low, high⟩
  have entered := wholeFs_ready.entered
  have calls : Calls sampleGeometry wholeFs after :=
    .tail (.refl _) ⟨_, _, by rw [entered]; exact holds.toChained⟩ (.write run)
  refine ⟨after, calls, fat32_writes_inside ?_ rfl (by decide) calls⟩
  rw [entered]
  exact wholeFs_ready

end Short

end NovaOs.Fat
