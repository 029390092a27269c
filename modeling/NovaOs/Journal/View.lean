import NovaOs.Journal.CrashAtomic

/-! What the layer above the journal reads and writes, wherever the sectors really are. -/

namespace NovaOs

open JournalState List

/-- The sector held back for an address. -/
def JournalState.heldAt (js : JournalState) (lba : UInt32) : Option Sector :=
  (js.shadow.val.find? fun entry => entry.1 == lba).map Prod.snd

/-- A sector as a reader sees it: the one held back, or else the one on disk. -/
def viewOf (js : JournalState) (dev : Device) (lba : UInt32) : Sector :=
  (js.heldAt lba).getD (dev.disk (dev.targetLba lba))

/-- A view with consecutive sectors replaced. -/
def overlay (view : UInt32 → Sector) (lba : UInt32) : List Sector → UInt32 → Sector
  | [] => view
  | sector :: rest => overlay (Function.update view lba sector) (lba + 1) rest

/-- The sectors a reader sees from an address on. -/
def viewRun (view : UInt32 → Sector) (lba : UInt32) (count : Nat) : List Sector :=
  (List.range count).map fun i => view (lba + UInt32.ofNat i)

section Overlay

variable {view : UInt32 → Sector} {lba : UInt32} {sectors : List Sector} {other : UInt32}
  {count : Nat}

theorem ofNat_succ {i : Nat} : lba + UInt32.ofNat (i + 1) = lba + 1 + UInt32.ofNat i := by
  apply UInt32.toNat_inj.mp
  simp only [UInt32.toNat_add, UInt32.toNat_ofNat', UInt32.toNat_one]
  omega

/-- Short distances lead to different addresses. -/
theorem offset_ne_self {i : Nat} (positive : 0 < i) (small : i < 2 ^ 32) :
    lba + UInt32.ofNat i ≠ lba := by
  intro same
  have digits := congrArg UInt32.toNat same
  simp only [UInt32.toNat_add, UInt32.toNat_ofNat'] at digits
  omega

theorem viewRun_succ :
    viewRun view lba (count + 1) = view lba :: viewRun view (lba + 1) count := by
  rw [viewRun, range_succ_eq_map]
  simp only [map_cons, map_map, Function.comp_def, Nat.succ_eq_add_one, ofNat_succ, viewRun]
  simp

@[simp] theorem viewRun_length : (viewRun view lba count).length = count := by
  simp [viewRun]

/-- Sectors away from the replaced ones are seen as before. -/
theorem overlay_other (away : ∀ i < sectors.length, other ≠ lba + UInt32.ofNat i) :
    overlay view lba sectors other = view other := by
  induction sectors generalizing view lba with
  | nil => rfl
  | cons sector rest ih =>
    have first : other ≠ lba := by simpa using away 0 (by simp)
    rw [overlay, ih, Function.update_of_ne first]
    intro i small
    rw [← ofNat_succ]
    exact away (i + 1) (by simpa using small)

/-- Replaced sectors are seen as what replaced them. -/
theorem viewRun_overlay (short : sectors.length ≤ 2 ^ 32) :
    viewRun (overlay view lba sectors) lba sectors.length = sectors := by
  induction sectors generalizing view lba with
  | nil => rfl
  | cons sector rest ih =>
    simp only [length_cons] at short
    rw [length_cons, viewRun_succ, overlay, ih (by omega), overlay_other]
    · simp
    -- The run is too short to come round to its first address.
    · intro i small same
      rw [← ofNat_succ] at same
      exact offset_ne_self (by omega) (by omega) same.symm

end Overlay

section Reading

variable {js : JournalState} {dev : Device} {lba : UInt32} {count : Nat}

/-- A transaction that holds nothing back leaves the disk to be seen. -/
theorem viewOf_of_empty (empty : js.shadow.val = []) (lba : UInt32) :
    viewOf js dev lba = dev.disk (dev.targetLba lba) := by
  simp [viewOf, heldAt, empty]

theorem heldAt_isSome : (js.heldAt lba).isSome ↔ lba ∈ js.held := by
  simp [heldAt, held]

/-- The slot found for an address holds the sector that is seen there. -/
theorem findShadow_some (dev : Device) {idx : Nat} (slot : js.findShadow lba = some idx) :
    (js.shadow.val[idx]?).map Prod.snd = some (viewOf js dev lba) := by
  have seen : js.shadow.val.find? (fun entry => entry.1 == lba) = js.shadow.val[idx]? := by
    obtain ⟨within, same, earlier⟩ := findIdx?_eq_some_iff_getElem.mp slot
    rw [getElem?_eq_getElem within]
    exact find?_eq_some_iff_getElem.mpr ⟨same, idx, within, rfl, by simpa using earlier⟩
  have inside := (findIdx?_eq_some_iff_getElem.mp slot).1
  simp [viewOf, heldAt, seen, getElem?_eq_getElem inside]

theorem findShadow_none (slot : js.findShadow lba = none) :
    viewOf js dev lba = dev.disk (dev.targetLba lba) := by
  have missing : js.shadow.val.find? (fun entry => entry.1 == lba) = none := by
    rw [find?_eq_none]
    intro entry member
    simpa using findIdx?_eq_none_iff.mp slot entry member
  simp [viewOf, heldAt, missing]

/-- Inside a transaction, reading sector by sector returns what is seen. -/
theorem readShadowed_eq (sound : dev.faults = noFaults) :
    readShadowed js dev lba count = (some (viewRun (viewOf js dev) lba count), dev) := by
  induction count generalizing lba with
  | zero => rfl
  | succ count ih =>
    rw [readShadowed, viewRun_succ]
    cases slot : js.findShadow lba with
    | some idx => simp only [findShadow_some dev slot, ih]
    | none =>
      have direct : dev.blockdevReadSectors lba 1 = (some [viewOf js dev lba], dev) := by
        rw [Device.blockdevReadSectors, Device.dispatchRead_of_noFaults sound, findShadow_none slot]
        simp
      simp only [direct, ih]

/-- Reading returns what is seen, in a transaction or outside one. -/
theorem rustJournalReadSectors_eq (sound : dev.faults = noFaults)
    (closed : js.depth = 0 → js.shadow.val = [])
    (fits : lba.toNat + dev.partitionOffset.toNat + count ≤ 2 ^ 32) :
    rustJournalReadSectors js dev lba count
      = (some (viewRun (viewOf js dev) lba count), dev) := by
  rw [rustJournalReadSectors, readSectorsInternal]
  by_cases shut : js.depth = 0
  · rw [if_pos (by simp [shut]), Device.blockdevReadSectors, Device.dispatchRead_of_noFaults sound]
    congr 2
    apply map_congr_left
    intro i member
    have small := mem_range.mp member
    rw [viewOf_of_empty (closed shut)]
    -- Addresses that do not wrap around are consecutive on the disk too.
    have address : dev.targetLba lba + i = dev.targetLba (lba + UInt32.ofNat i) := by
      simp only [Device.targetLba, UInt32.toNat_add, UInt32.toNat_ofNat']
      omega
    rw [address]
  · rw [if_neg (by simpa using shut), readShadowed_eq sound]

end Reading

section Writing

variable {js : JournalState} {dev : Device} {after : JournalState} {lba : UInt32}
  {sectors : List Sector} {other : UInt32}

/-- What holding sectors back leaves: only the table changes, and nothing is forgotten. -/
structure Holding (js after : JournalState) : Prop where
  same : ∃ shadow : Shadow, after = { js with shadow := shadow }
  distinct : js.held.Nodup → after.held.Nodup
  kept : js.held ⊆ after.held

theorem Holding.refl (js : JournalState) : Holding js js where
  same := ⟨js.shadow, rfl⟩
  distinct := id
  kept := Subset.refl _

theorem Holding.trans {first second third : JournalState} (earlier : Holding first second)
    (later : Holding second third) : Holding first third where
  same := by
    obtain ⟨shadow, rfl⟩ := earlier.same
    obtain ⟨shadow', rfl⟩ := later.same
    exact ⟨shadow', rfl⟩
  distinct := fun start => later.distinct (earlier.distinct start)
  kept := Subset.trans earlier.kept later.kept

/-- Replacing the first entry for an address changes what is found there and nowhere else. -/
theorem find_set_first {entries : List (UInt32 × Sector)} {idx : Nat} {sector : Sector}
    (slot : entries.findIdx? (fun entry => entry.1 == lba) = some idx) :
    ((entries.set idx (lba, sector)).find? fun entry => entry.1 == other).map Prod.snd
      = if other = lba then some sector
        else (entries.find? fun entry => entry.1 == other).map Prod.snd := by
  induction entries generalizing idx with
  | nil => simp at slot
  | cons entry rest ih =>
    rw [findIdx?_cons] at slot
    by_cases here : entry.1 = lba
    · -- The first entry is the one replaced.
      have start : idx = 0 := by simpa [here, eq_comm] using slot
      subst start
      by_cases same : other = lba
      · simp [same]
      · have away : ¬ lba = other := fun h => same h.symm
        simp [same, away, here]
    simp only [beq_eq_false_iff_ne.mpr here, Bool.false_eq_true, if_false,
      Option.map_eq_some_iff] at slot
    obtain ⟨later, found, rfl⟩ := slot
    by_cases same : entry.1 = other
    · have away : ¬ other = lba := fun h => here (same.trans h)
      simp [same, away]
    · simp [set_cons_succ, beq_eq_false_iff_ne.mpr same, ih found]

/-- A sector just held back is the one held for its address, and no other address is concerned. -/
theorem heldAt_shadowSector {sector : Sector} (took : shadowSector js lba sector = some after) :
    after.heldAt other = if other = lba then some sector else js.heldAt other := by
  unfold shadowSector at took
  cases slot : js.findShadow lba with
  | some idx =>
    simp only [slot, Option.some.injEq] at took
    rw [← took]
    exact find_set_first slot
  | none => ?_
  simp only [slot] at took
  have missing : js.shadow.val.find? (fun entry => entry.1 == lba) = none := by
    rw [find?_eq_none]
    intro entry member
    simpa using findIdx?_eq_none_iff.mp slot entry member
  split at took
  · cases took
    by_cases same : other = lba
    · simp [heldAt, same, missing]
    · have away : ¬ lba = other := fun h => same h.symm
      simp [heldAt, same, away]
  · cases took

/-- A sector just held back is the one seen, and every other one is seen as before. -/
theorem viewOf_shadowSector {sector : Sector} (took : shadowSector js lba sector = some after) :
    viewOf after dev = Function.update (viewOf js dev) lba sector := by
  funext other
  by_cases same : other = lba
  · simp [viewOf, heldAt_shadowSector took, same]
  · simp [viewOf, heldAt_shadowSector took, same]

theorem Holding.shadowSector {sector : Sector} (took : shadowSector js lba sector = some after) :
    Holding js after where
  same := by
    unfold NovaOs.shadowSector at took
    split at took
    · cases took
      exact ⟨_, rfl⟩
    · split at took
      · cases took
        exact ⟨_, rfl⟩
      · cases took
  distinct := by
    intro start
    obtain ⟨shadow, rfl, kept⟩ := shadowSector_distinct start took
    exact kept
  kept := by
    rw [held_shadowSector took]
    split
    · exact Subset.refl _
    · exact subset_append_left _ _

/-- A sector is refused only when it is not held yet and the table is full. -/
theorem shadowSector_none {sector : Sector} (refused : shadowSector js lba sector = none) :
    lba ∉ js.held ∧ maxTxnBlocks ≤ js.held.length := by
  unfold NovaOs.shadowSector at refused
  cases slot : js.findShadow lba with
  | some idx => simp [slot] at refused
  | none => ?_
  simp only [slot] at refused
  constructor
  · intro member
    obtain ⟨entry, inside, same⟩ := mem_map.mp member
    have miss := findIdx?_eq_none_iff.mp slot entry inside
    simp [same] at miss
  · split at refused
    · cases refused
    · rename_i full
      simpa [held] using full

/-- Sectors that the table has room for are all held back. -/
theorem shadowSectors_room (room : js.held.length + sectors.length ≤ maxTxnBlocks) :
    (shadowSectors js lba sectors).1 = true := by
  induction sectors generalizing js lba with
  | nil => rfl
  | cons sector rest ih =>
    rw [length_cons] at room
    rw [shadowSectors]
    cases first : shadowSector js lba sector with
    | none =>
      have full := (shadowSector_none first).2
      omega
    | some next => ?_
    apply ih
    rw [held_shadowSector first]
    split
    · omega
    · rw [length_append, length_singleton]
      omega

/-- Sectors all held back are all seen, and hold every one of their addresses. -/
theorem shadowSectors_true (dev : Device) (took : shadowSectors js lba sectors = (true, after)) :
    Holding js after ∧ viewOf after dev = overlay (viewOf js dev) lba sectors ∧
      (∀ i < sectors.length, lba + UInt32.ofNat i ∈ after.held) ∧
      after.held.length ≤ js.held.length + sectors.length := by
  induction sectors generalizing js lba with
  | nil =>
    cases took
    exact ⟨.refl _, rfl, by simp, by simp⟩
  | cons sector rest ih =>
    rw [shadowSectors] at took
    cases first : shadowSector js lba sector with
    | none => simp [first] at took
    | some next => ?_
    simp only [first] at took
    obtain ⟨holding, seen, members, size⟩ := ih took
    have one := Holding.shadowSector first
    have grown := held_shadowSector first
    refine ⟨one.trans holding, ?_, ?_, ?_⟩
    · rw [seen, viewOf_shadowSector first]
      rfl
    · intro i small
      cases i with
      | zero =>
        have mine : lba ∈ next.held := by
          rw [grown]
          split
          · assumption
          · simp
        simpa using holding.kept mine
      | succ i =>
        rw [ofNat_succ]
        exact members i (by simpa using small)
    · have step : next.held.length ≤ js.held.length + 1 := by
        rw [grown]
        split <;> simp
      simp only [length_cons]
      omega

end Writing

section Committing

variable {js : JournalState} {dev : Device} {write : Nat × Sector}

/-- The configuration whose journal region a journal uses on a device. -/
def regionOf (js : JournalState) (dev : Device) : BootConfig where
  activeDevice := dev.activeDevice
  partitionOffset := dev.partitionOffset
  journalStartLba := js.journalStartLba
  journalLenSectors := UInt32.ofNat (descriptorSectors + maxTxnBlocks)
  usable := Nat.le_refl _

/-- A sector of the filesystem that the journal does not use for itself. -/
def Clear (js : JournalState) (dev : Device) (lba : UInt32) : Prop :=
  js.journalRegionUsable dev = true → ¬ (regionOf js dev).InJournal (dev.targetLba lba)

/-- Writing home brings the sectors held back to the disk, and nothing else. -/
theorem applyWrites_home (distinct : js.held.Nodup) (disk : Nat → Sector) {lba : UInt32}
    (same : disk (dev.targetLba lba) = dev.disk (dev.targetLba lba)) :
    applyWrites ((regionOf js dev).homeWrites false js.shadow.val) disk (dev.targetLba lba)
      = viewOf js dev lba := by
  have homes : ((regionOf js dev).homeWrites false js.shadow.val).map Prod.fst
      = js.held.map ((regionOf js dev).home false) := by
    simp [BootConfig.homeWrites, held, Function.comp_def]
  cases found : js.shadow.val.find? fun entry => entry.1 == lba with
  | some entry =>
    have key : entry.1 = lba := by simpa using find?_some found
    have member : (dev.targetLba lba, entry.2)
        ∈ (regionOf js dev).homeWrites false js.shadow.val :=
      mem_map.mpr ⟨entry, mem_of_find?_eq_some found, by rw [key]; rfl⟩
    rw [applyWrites_mem _ member]
    · simp [viewOf, heldAt, found]
    · rw [homes]
      exact distinct.map (home_injective _ _)
  | none =>
    rw [applyWrites_other _ _, same]
    · simp [viewOf, heldAt, found]
    -- An address written home belongs to a sector that is held back.
    · intro write member addressed
      obtain ⟨entry, inside, rfl⟩ := mem_map.mp member
      have key : entry.1 = lba := home_injective (regionOf js dev) false addressed
      have miss := find?_eq_none.mp found entry inside
      simp [key] at miss

theorem homeWrites_addresses (member : write ∈ (regionOf js dev).homeWrites false js.shadow.val) :
    ∃ lba ∈ js.held, write.1 = dev.targetLba lba := by
  obtain ⟨entry, inside, rfl⟩ := mem_map.mp member
  exact ⟨entry.1, mem_map.mpr ⟨entry, inside, rfl⟩, rfl⟩

/-- A commit writes to its region, and to the homes of the sectors held back. -/
theorem commitWrites_addresses
    (member : write ∈ (regionOf js dev).log.commitWrites (prepareWrites (regionOf js dev) js)
      (markSector js) (settleWrites (regionOf js dev) js)
      ((regionOf js dev).homeWrites false js.shadow.val)) :
    (regionOf js dev).InJournal write.1 ∨ ∃ lba ∈ js.held, write.1 = dev.targetLba lba := by
  simp only [RedoLog.commitWrites, mem_append, mem_cons, not_mem_nil, or_false] at member
  rcases member with member | rfl | member | member | rfl
  · exact .inl (prepareWrites_inside member)
  · exact .inl (Or.inl rfl)
  · exact .inl (settleWrites_inside member)
  · exact .inr (homeWrites_addresses member)
  · exact .inl (Or.inl rfl)

/-- The outermost commit succeeds, and everything outside the journal is seen as before; it writes
to the journal, and to the homes of the sectors held back. -/
theorem rustJournalCommit_view (sound : dev.faults = noFaults) (outermost : js.depth = 1)
    (relative : js.targetsAbsolute = false) (distinct : js.held.Nodup) :
    ∃ seq writes,
      rustJournalCommit js dev
        = (true, { js with
              depth := 0, seq := seq, shadow := Shadow.ofList [], targetsAbsolute := false },
            dev.wrote writes) ∧
      (∀ lba, Clear js dev lba →
        (dev.wrote writes).disk (dev.targetLba lba) = viewOf js dev lba) ∧
      ∀ write ∈ writes, js.journalRegionUsable dev = true ∧ (regionOf js dev).InJournal write.1 ∨
        ∃ lba ∈ js.held, write.1 = dev.targetLba lba := by
  by_cases usable : js.journalRegionUsable dev = true
  · have conf : Configured (regionOf js dev) js dev :=
      { startLba := rfl
        configured := by simp_all [journalRegionUsable]
        configuredDevice := by simp_all [journalRegionUsable, regionOf]
        activeDevice := rfl
        partitionOffset := rfl
        sound := sound }
    by_cases busy : js.shadow.val.length = 0
    · have empty := eq_nil_of_length_eq_zero busy
      refine ⟨js.seq, [], ?_, ?_, fun _ member => by cases member⟩
      · rw [conf.rustJournalCommit_idle outermost empty, Device.wrote_nil]
      · intro lba _
        rw [Device.wrote_nil, viewOf_of_empty empty]
    refine ⟨_, _, conf.rustJournalCommit_eq outermost busy, ?_, ?_⟩
    · intro lba clear
      have outside := clear usable
      have apart : ∀ write : Nat × Sector, (regionOf js dev).InJournal write.1 →
          write.1 ≠ dev.targetLba lba := by
        rintro write inside same
        exact outside (same ▸ inside)
      -- Before and after the writes home, the commit writes inside the journal only.
      rw [Device.wrote_disk, RedoLog.commitWrites, ← singleton_append, ← append_assoc,
        ← append_assoc, ← append_assoc, applyWrites_append _ [_], applyWrites_other,
        applyWrites_append _ (BootConfig.homeWrites _ _ _), relative]
      · apply applyWrites_home distinct
        apply applyWrites_other
        intro write member
        apply apart
        rw [append_assoc] at member
        rcases mem_append.mp member with member | member
        · exact prepareWrites_inside member
        rcases mem_append.mp member with member | member
        · cases mem_singleton.mp member
          exact .inl rfl
        · exact settleWrites_inside member
      · intro write member
        cases mem_singleton.mp member
        exact apart _ (Or.inl rfl)
    · intro write member
      rw [relative] at member
      exact (commitWrites_addresses member).imp (fun inside => ⟨usable, inside⟩) id
  · -- Without a region the transaction goes straight home.
    have off : js.journalRegionUsable dev = false := by simpa using usable
    have conf : Configured (regionOf js dev)
        { js with configured := true, configuredDevice := dev.activeDevice } dev :=
      { startLba := rfl
        configured := rfl
        configuredDevice := rfl
        activeDevice := rfl
        partitionOffset := rfl
        sound := sound }
    refine ⟨js.seq, (regionOf js dev).homeWrites false js.shadow.val, ?_, ?_,
      fun write member => .inr (homeWrites_addresses member)⟩
    · have durable : commitDurableInternal { js with depth := 0 } dev
          = (true, { js with depth := 0 }, dev) := by
        have unusable : journalRegionUsable { js with depth := 0 } dev = false := off
        simp [commitDurableInternal, unusable]
      have home : checkpointInternal { js with depth := 0 } dev
          = (true, { js with depth := 0, shadow := Shadow.ofList [], targetsAbsolute := false },
              dev.wrote ((regionOf js dev).homeWrites false js.shadow.val)) := by
        have unusable : journalRegionUsable { js with depth := 0 }
            (dev.wrote ((regionOf js dev).homeWrites js.targetsAbsolute js.shadow.val))
              = false := off
        rw [checkpointInternal, conf.writeHome_eq]
        simp only [unusable, Bool.false_and, Bool.false_eq_true, if_false]
        rw [relative]
      simp only [rustJournalCommit_outermost outermost, durable, home, Bool.and_self]
    · intro lba _
      exact applyWrites_home distinct _ rfl

end Committing

end NovaOs
