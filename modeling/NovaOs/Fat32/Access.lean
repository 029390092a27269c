import NovaOs.Fat32.Layout

/-! What the driver's reads return and what its writes change, seen as a volume. -/

namespace NovaOs.Fat

open List

/-- The sectors the driver sees through the journal. -/
def Fs.view (fs : Fs) : UInt32 → Sector := viewOf fs.js fs.dev

/-- The volume the driver sees. -/
def Fs.vol (fs : Fs) (g : Geometry) : Vol := volOf g fs.view

/-- The driver with its volume mounted, on a device and a journal that serve it. -/
structure Ready (g : Geometry) (fs : Fs) : Prop where
  layout : fs.layout = g.layout
  mounted : fs.mounted = true
  offset : fs.partitionOffset = g.partitionOffset
  dev_offset : fs.dev.partitionOffset = g.partitionOffset
  sound : fs.dev.faults = noFaults
  relative : fs.js.targetsAbsolute = false
  distinct : fs.js.held.Nodup
  closed : fs.js.depth = 0 → fs.js.shadow.val = []
  -- The journal keeps its own sectors outside the volume.
  clear : ∀ lba : UInt32, lba.toNat < g.sectors → Clear fs.js fs.dev lba

/-- A driver whose journal has not been set up. -/
theorem Ready.unjournaled {g : Geometry} {fs : Fs} (layout : fs.layout = g.layout)
    (mounted : fs.mounted = true) (offset : fs.partitionOffset = g.partitionOffset)
    (dev_offset : fs.dev.partitionOffset = g.partitionOffset) (sound : fs.dev.faults = noFaults)
    (new : fs.js = .new) : Ready g fs where
  layout := layout
  mounted := mounted
  offset := offset
  dev_offset := dev_offset
  sound := sound
  relative := by rw [new]; rfl
  distinct := by rw [new]; exact nodup_nil
  closed := by rw [new]; exact fun _ => rfl
  clear := by rw [new]; exact fun _ _ usable => absurd usable Bool.false_ne_true

/-- The driver in the middle of a transaction. -/
structure Busy (g : Geometry) (fs : Fs) : Prop extends ready : Ready g fs where
  opened : fs.js.depth ≠ 0

/-- What any part of an operation leaves alone while its transaction is open. -/
structure Within (fs after : Fs) : Prop where
  layout : after.layout = fs.layout
  mounted : after.mounted = fs.mounted
  offset : after.partitionOffset = fs.partitionOffset
  dev : after.dev = fs.dev
  holding : Holding fs.js after.js

namespace Within

variable {g : Geometry} {fs after : Fs}

theorem refl (fs : Fs) : Within fs fs := ⟨rfl, rfl, rfl, rfl, .refl _⟩

theorem trans {later : Fs} (first : Within fs after) (second : Within after later) :
    Within fs later where
  layout := second.layout.trans first.layout
  mounted := second.mounted.trans first.mounted
  offset := second.offset.trans first.offset
  dev := second.dev.trans first.dev
  holding := first.holding.trans second.holding

theorem depth (within : Within fs after) : after.js.depth = fs.js.depth := by
  obtain ⟨shadow, same⟩ := within.holding.same
  rw [same]

theorem busy (within : Within fs after) (busy : Busy g fs) : Busy g after := by
  have depth := within.depth
  obtain ⟨shadow, same⟩ := within.holding.same
  exact {
    layout := within.layout.trans busy.layout
    mounted := within.mounted.trans busy.mounted
    offset := within.offset.trans busy.offset
    dev_offset := by rw [within.dev, busy.dev_offset]
    sound := by rw [within.dev, busy.sound]
    relative := by rw [same]; exact busy.relative
    distinct := within.holding.distinct busy.distinct
    closed := fun shut => absurd (depth ▸ shut) busy.opened
    clear := by
      intro lba inside
      have before := busy.clear lba inside
      rw [within.dev, same]
      exact before
    opened := by rw [depth]; exact busy.opened }

end Within

section Reading

variable {g : Geometry} {fs : Fs} {cluster : UInt32}

theorem readSectors_eq (ready : Ready g fs) {lba : UInt32} {count : Nat}
    (inside : lba.toNat + count ≤ g.sectors) :
    fs.readSectors lba count = (some (bytesOf (viewRun fs.view lba count)), fs) := by
  have fits : lba.toNat + fs.dev.partitionOffset.toNat + count ≤ 2 ^ 32 := by
    have addressable := g.addressable
    rw [ready.dev_offset]
    simp only [Geometry.sectors, Geometry.spc] at inside
    omega
  rw [Fs.readSectors, rustJournalReadSectors_eq ready.sound ready.closed fits]
  rfl

/-- Reading a cluster returns its data. -/
theorem readCluster_eq (ready : Ready g fs) (valid : g.Valid cluster) :
    fs.readCluster cluster = (some ((fs.vol g).data cluster), fs) := by
  have positive := g.cluster_size.1
  have inside : (g.layout.clusterToLba cluster).toNat + g.layout.sectorsPerCluster.toNat
      ≤ g.sectors := by
    have last := Geometry.sector_lt valid (i := g.spc - 1) (by simp only [Geometry.spc]; omega)
    rw [Geometry.clusterToLba_add valid (by simp only [Geometry.spc]; omega)] at last
    rw [Geometry.clusterToLba_toNat valid]
    simp only [Geometry.spc] at last ⊢
    omega
  rw [Fs.readCluster, ready.layout, readSectors_eq ready inside, Fs.vol, volOf_data valid]
  rfl

theorem readFatSector_eq (ready : Ready g fs) {copy : Nat} (inside : cluster.toNat < g.entries)
    (member : copy < g.layout.numFats.toNat) :
    fs.readSectors (g.layout.fatSector copy cluster) 1
      = (some (fs.view (g.layout.fatSector copy cluster)).val, fs) := by
  have below := Geometry.fatSector_lt inside member
  rw [readSectors_eq ready (by simp only [Geometry.sectors]; omega)]
  simp [viewRun, bytesOf]

/-- Looking up a link returns it. -/
theorem fatNextCluster_eq (ready : Ready g fs) (inside : cluster.toNat < g.entries) :
    fs.fatNextCluster cluster = ((fs.vol g).fat cluster, fs) := by
  rw [Fs.fatNextCluster, ready.layout, readFatSector_eq ready inside g.copies, Fs.vol,
    volOf_fat inside]

end Reading

section Writing

variable {g : Geometry} {fs after : Fs} {cluster : UInt32}

/-- Sectors written in a transaction are seen at once, and all of them are held. -/
theorem writeSectors_true (opened : fs.js.depth ≠ 0) {lba : UInt32} {count : Nat} {buf : Bytes}
    (wrote : fs.writeSectors lba count buf = (true, after)) :
    Within fs after ∧ after.view = overlay fs.view lba (sectorsOf buf count) ∧
      (∀ i < count, lba + UInt32.ofNat i ∈ after.js.held) ∧
      after.js.held.length ≤ fs.js.held.length + count := by
  have held : (fs.js.depth == 0) = false := by simpa using opened
  rcases taken : shadowSectors fs.js lba (sectorsOf buf count) with ⟨ok, js⟩
  simp only [Fs.writeSectors, rustJournalWriteSectors, writeSectorsInternal, held, taken,
    Bool.false_eq_true, if_false, Prod.mk.injEq] at wrote
  obtain ⟨rfl, rfl⟩ := wrote
  obtain ⟨holding, seen, members, size⟩ := shadowSectors_true fs.dev taken
  rw [sectorsOf_length] at members size
  exact ⟨⟨rfl, rfl, rfl, rfl, holding⟩, seen, members, size⟩

/-- One sector is either held, or refused because the table is full. -/
theorem writeSector_cases (opened : fs.js.depth ≠ 0) (lba : UInt32) (buf : Bytes) :
    (∃ after, fs.writeSectors lba 1 buf = (true, after) ∧ Within fs after ∧
      after.view = Function.update fs.view lba (Sector.ofBytes buf) ∧
      after.js.held = if lba ∈ fs.js.held then fs.js.held else fs.js.held ++ [lba]) ∨
    (fs.writeSectors lba 1 buf = (false, fs) ∧ lba ∉ fs.js.held ∧
      maxTxnBlocks ≤ fs.js.held.length) := by
  have held : (fs.js.depth == 0) = false := by simpa using opened
  cases taken : shadowSector fs.js lba (Sector.ofBytes buf) with
  | some js =>
    left
    refine ⟨{ fs with js := js }, ?_, ⟨rfl, rfl, rfl, rfl, .shadowSector taken⟩,
      viewOf_shadowSector taken, held_shadowSector taken⟩
    simp only [Fs.writeSectors, rustJournalWriteSectors, writeSectorsInternal, held,
      Bool.false_eq_true, if_false, sectorsOf, shadowSectors, taken]
  | none =>
    right
    refine ⟨?_, shadowSector_none taken⟩
    simp only [Fs.writeSectors, rustJournalWriteSectors, writeSectorsInternal, held,
      Bool.false_eq_true, if_false, sectorsOf, shadowSectors, taken]

/-- Writing a cluster replaces its data. -/
theorem writeCluster_true (busy : Busy g fs) (valid : g.Valid cluster) {buf : Bytes}
    (size : buf.length = g.spc * sectorSize) (wrote : fs.writeCluster cluster buf = (true, after)) :
    Within fs after ∧ after.vol g = (fs.vol g).setData cluster buf ∧
      (∀ i < g.spc, g.layout.clusterToLba cluster + UInt32.ofNat i ∈ after.js.held) ∧
      after.js.held.length ≤ fs.js.held.length + g.spc := by
  rw [Fs.writeCluster, busy.layout] at wrote
  obtain ⟨within, seen, held⟩ := writeSectors_true busy.opened wrote
  refine ⟨within, ?_, held⟩
  rw [Fs.vol, seen]
  exact volOf_overlay valid size

/-- Writing a cluster succeeds while the table has room for its sectors. -/
theorem writeCluster_room (busy : Busy g fs) (cluster : UInt32)
    (buf : Bytes) (room : fs.js.held.length + g.spc ≤ maxTxnBlocks) :
    ∃ after, fs.writeCluster cluster buf = (true, after) := by
  have held : (fs.js.depth == 0) = false := by simpa using busy.opened
  have took : (shadowSectors fs.js (g.layout.clusterToLba cluster) (sectorsOf buf g.spc)).1
      = true := shadowSectors_room (by rw [sectorsOf_length]; exact room)
  refine ⟨_, Prod.ext ?_ rfl⟩
  simp only [Fs.writeCluster, busy.layout, Fs.writeSectors, rustJournalWriteSectors,
    writeSectorsInternal, held, Bool.false_eq_true, if_false]
  exact took

/-- Every copy's sector for a cluster's entry is held. -/
def HeldEntry (g : Geometry) (fs : Fs) (cluster : UInt32) : Prop :=
  ∀ copy < g.layout.numFats.toNat, g.layout.fatSector copy cluster ∈ fs.js.held

theorem HeldEntry.mono (held : HeldEntry g fs cluster) (within : Within fs after) :
    HeldEntry g after cluster :=
  fun copy member => within.holding.kept (held copy member)

/-- What replacing a link in the copies from `copy` on did, however far it got. -/
structure SetCopies (g : Geometry) (fs after : Fs) (cluster value : UInt32) (copy left : Nat)
    (ok : Bool) : Prop where
  within : Within fs after
  -- Only the first copy is ever read, and it is either as before or done.
  vol : after.vol g = fs.vol g ∨
    copy = 0 ∧ after.vol g = (fs.vol g).setFat cluster (value &&& linkMask)
  first : copy = 0 → 0 < left →
    ok = true ∨ g.layout.fatSector 0 cluster ∈ fs.js.held ∨ fs.js.held.length < maxTxnBlocks →
    after.vol g = (fs.vol g).setFat cluster (value &&& linkMask) ∧
      g.layout.fatSector 0 cluster ∈ after.js.held
  done : ok = true → ∀ k < left, g.layout.fatSector (copy + k) cluster ∈ after.js.held
  refused : ok = false →
    (∃ k < left, g.layout.fatSector (copy + k) cluster ∉ fs.js.held) ∧
      maxTxnBlocks ≤ after.js.held.length
  held : after.js.held
    ⊆ fs.js.held ++ (List.range left).map fun k => g.layout.fatSector (copy + k) cluster

theorem setCopies_spec (busy : Busy g fs) (inside : cluster.toNat < g.entries) (value : UInt32)
    (copy left : Nat) (bound : copy + left ≤ g.layout.numFats.toNat) :
    ∃ ok after, fs.setCopies cluster value copy left = (ok, after) ∧
      SetCopies g fs after cluster value copy left ok := by
  induction left generalizing fs copy with
  | zero =>
    exact ⟨true, fs, rfl, .refl fs, .inl rfl, by simp, by simp, by simp, by simp⟩
  | succ left ih =>
    have member : copy < g.layout.numFats.toNat := by omega
    simp only [Fs.setCopies, busy.layout, readFatSector_eq busy.ready inside member]
    rcases writeSector_cases busy.opened (g.layout.fatSector copy cluster)
        (Fs.setLink (fs.view (g.layout.fatSector copy cluster)).val (Layout.entOffset cluster)
          value) with ⟨next, wrote, within, seen, grown⟩ | ⟨refused, missing, full⟩
    · -- This copy is done; the induction answers for the others.
      have changed : next.vol g
          = if copy = 0 then (fs.vol g).setFat cluster (value &&& linkMask) else fs.vol g := by
        rw [Fs.vol, seen, volOf_setLink inside member]
        rfl
      have mine : g.layout.fatSector copy cluster ∈ next.js.held := by
        rw [grown]
        split
        · assumption
        · simp
      obtain ⟨ok, after, run, rest⟩ := ih (within.busy busy)
        (copy + 1) (by omega)
      have final : after.vol g
          = if copy = 0 then (fs.vol g).setFat cluster (value &&& linkMask) else fs.vol g := by
        rcases rest.vol with same | ⟨impossible, _⟩
        · rw [same, changed]
        · omega
      refine ⟨ok, after, by rw [wrote]; exact run, within.trans rest.within, ?_, ?_, ?_, ?_, ?_⟩
      · by_cases zero : copy = 0
        · exact .inr ⟨zero, by rw [final, if_pos zero]⟩
        · exact .inl (by rw [final, if_neg zero])
      · rintro rfl _ _
        exact ⟨by rw [final, if_pos rfl], rest.within.holding.kept mine⟩
      · intro success k small
        cases k with
        | zero => exact rest.within.holding.kept mine
        | succ k =>
          have later := rest.done success k (by omega)
          rwa [Nat.add_assoc, Nat.add_comm 1 k] at later
      · intro failure
        obtain ⟨⟨k, small, missing⟩, full⟩ := rest.refused failure
        refine ⟨⟨k + 1, by omega, ?_⟩, full⟩
        rw [Nat.add_assoc, Nat.add_comm 1 k] at missing
        exact fun old => missing (within.holding.kept old)
      · intro lba old
        rcases mem_append.mp (rest.held old) with old | new
        · rw [grown] at old
          split at old
          · exact mem_append_left _ old
          · rcases mem_append.mp old with old | same
            · exact mem_append_left _ old
            · refine mem_append_right _ (mem_map.mpr ⟨0, by simp, ?_⟩)
              simpa using (mem_singleton.mp same).symm
        · obtain ⟨k, small, rfl⟩ := mem_map.mp new
          refine mem_append_right _ (mem_map.mpr ⟨k + 1, ?_, ?_⟩)
          · simpa using small
          · rw [Nat.add_assoc, Nat.add_comm 1 k]
    · refine ⟨false, fs, by rw [refused], .refl fs, .inl rfl, ?_, by simp, ?_, ?_⟩
      · -- The table was full and did not have this sector.
        rintro rfl _ (impossible | old | room)
        · cases impossible
        · exact absurd old missing
        · omega
      · intro _
        exact ⟨⟨0, by omega, by simpa using missing⟩, full⟩
      · exact subset_append_left _ _

/-- Setting a link, however far it gets, changes that link or nothing. -/
theorem fatSetNextCluster_any (busy : Busy g fs) (inside : cluster.toNat < g.entries)
    (value : UInt32) :
    SetCopies g fs (fs.fatSetNextCluster cluster value).2 cluster value 0 g.layout.numFats.toNat
      (fs.fatSetNextCluster cluster value).1 := by
  obtain ⟨ok, after, run, spec⟩ :=
    setCopies_spec busy inside value 0 g.layout.numFats.toNat (by omega)
  rw [Fs.fatSetNextCluster, busy.layout, run]
  exact spec

/-- Setting a link successfully sets it, and holds all its copies. -/
theorem fatSetNextCluster_true (busy : Busy g fs) (inside : cluster.toNat < g.entries)
    {value : UInt32} (set : fs.fatSetNextCluster cluster value = (true, after)) :
    Within fs after ∧ after.vol g = (fs.vol g).setFat cluster (value &&& linkMask) ∧
      HeldEntry g after cluster := by
  have spec := fatSetNextCluster_any busy inside value
  rw [set] at spec
  have done : HeldEntry g after cluster := by
    intro copy member
    simpa using spec.done rfl copy member
  exact ⟨spec.within, (spec.first rfl g.copies (.inl rfl)).1, done⟩

/-- Where every copy is held already, setting a link succeeds. -/
theorem fatSetNextCluster_of_held (busy : Busy g fs) (inside : cluster.toNat < g.entries)
    (value : UInt32) (held : HeldEntry g fs cluster) :
    (fs.fatSetNextCluster cluster value).1 = true := by
  have spec := fatSetNextCluster_any busy inside value
  by_contra failure
  obtain ⟨⟨k, small, missing⟩, _⟩ := spec.refused (by simpa using failure)
  exact missing (by simpa using held k small)

end Writing

end NovaOs.Fat
