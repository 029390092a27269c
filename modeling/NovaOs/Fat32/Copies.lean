import NovaOs.Fat32.Edits
import NovaOs.Fat32.Refinement

/-! The copies of the FAT through whole transactions, refused writes included. -/

namespace NovaOs.Fat

open List

/-- Every sector of the FAT is the same in all copies. -/
def InStep (g : Geometry) (fs : Fs) : Prop :=
  ∀ cluster : UInt32, cluster.toNat < g.entries → ∀ copy < g.layout.numFats.toNat,
    fs.view (g.layout.fatSector copy cluster) = fs.view (g.layout.fatSector 0 cluster)

/-- A table filled by copies at a time and by clusters at a time never ends between two copies. -/
structure Even (g : Geometry) : Prop where
  table : g.layout.numFats.toNat ∣ maxTxnBlocks
  cluster : g.layout.numFats.toNat ∣ g.spc

section Links

variable {g : Geometry} {fs after : Fs} {cluster : UInt32} {left : Nat} {value : UInt32}

/-- With room for every copy, no copy is refused. -/
theorem setCopies_room (busy : Busy g fs) (inside : cluster.toNat < g.entries) (value : UInt32)
    (copy : Nat) (bound : copy + left ≤ g.layout.numFats.toNat)
    (room : fs.js.held.length + left ≤ maxTxnBlocks) :
    (fs.setCopies cluster value copy left).1 = true := by
  induction left generalizing fs copy with
  | zero => rfl
  | succ left ih =>
    simp only [Fs.setCopies, busy.layout,
      readFatSector_eq busy.ready inside (by omega : copy < g.layout.numFats.toNat)]
    rcases writeSector_cases busy.opened (g.layout.fatSector copy cluster)
        (Fs.setLink (fs.view (g.layout.fatSector copy cluster)).val (Layout.entOffset cluster)
          value) with ⟨next, wrote, within, _, grown⟩ | ⟨_, _, full⟩
    · have more : next.js.held.length ≤ fs.js.held.length + 1 := by
        rw [grown]
        split <;> simp
      rw [wrote]
      exact ih (within.busy busy) (copy + 1) (by omega) (by omega)
    · omega

/-- Links set in all the copies asked for are set in those sectors, and nowhere else. -/
theorem setCopies_view (busy : Busy g fs) (inside : cluster.toNat < g.entries) {copy : Nat}
    (bound : copy + left ≤ g.layout.numFats.toNat)
    (set : fs.setCopies cluster value copy left = (true, after)) :
    (∀ k < left, after.view (g.layout.fatSector (copy + k) cluster)
        = Sector.ofBytes (Fs.setLink (fs.view (g.layout.fatSector (copy + k) cluster)).val
            (Layout.entOffset cluster) value)) ∧
      ∀ lba, (∀ k < left, lba ≠ g.layout.fatSector (copy + k) cluster) →
        after.view lba = fs.view lba := by
  induction left generalizing fs copy with
  | zero =>
    cases set
    exact ⟨fun k small => absurd small (Nat.not_lt_zero k), fun _ _ => rfl⟩
  | succ left ih =>
    have member : copy < g.layout.numFats.toNat := by omega
    simp only [Fs.setCopies, busy.layout, readFatSector_eq busy.ready inside member] at set
    rcases writeSector_cases busy.opened (g.layout.fatSector copy cluster)
        (Fs.setLink (fs.view (g.layout.fatSector copy cluster)).val (Layout.entOffset cluster)
          value) with ⟨next, wrote, within, seen, _⟩ | ⟨refused, _⟩
    · rw [wrote] at set
      obtain ⟨done, others⟩ :=
        ih (within.busy busy) (by omega) set
      -- No later copy has the sector this one has.
      have later : ∀ k < left, g.layout.fatSector copy cluster
          ≠ g.layout.fatSector (copy + 1 + k) cluster := by
        intro k small same
        have copies := (Geometry.fatSector_inj inside inside member (by omega) same).1
        omega
      constructor
      · intro k small
        cases k with
        | zero =>
          rw [Nat.add_zero, others _ later, seen, Function.update_self]
        | succ k =>
          have this := done k (by omega)
          have apart := (later k (by omega)).symm
          rw [Nat.add_assoc, Nat.add_comm 1 k] at this apart
          rw [this, seen, Function.update_of_ne apart]
      · intro lba outside
        have first := outside 0 (by omega)
        rw [others lba, seen, Function.update_of_ne (by simpa using first)]
        intro k small same
        apply outside (k + 1) (by omega)
        rw [same, Nat.add_assoc, Nat.add_comm 1 k]
    · rw [refused] at set
      cases set

/-- Setting a link in all copies keeps the copies in step. -/
theorem InStep.link (inStep : InStep g fs) (busy : Busy g fs) (inside : cluster.toNat < g.entries)
    (set : fs.fatSetNextCluster cluster value = (true, after)) : InStep g after := by
  rw [Fs.fatSetNextCluster, busy.layout] at set
  obtain ⟨done, others⟩ := setCopies_view busy inside (by omega) set
  simp only [Nat.zero_add] at done others
  intro other within copy member
  by_cases group : cluster.toNat / 128 = other.toNat / 128
  · -- The sector is one of those written, in this copy and in the first.
    have same : ∀ copy, g.layout.fatSector copy other = g.layout.fatSector copy cluster := by
      intro copy
      exact fatSector_congr within inside group.symm copy
    rw [same copy, same 0, done copy member, done 0 g.copies, inStep cluster inside copy member]
  have apart : ∀ copy < g.layout.numFats.toNat, ∀ k < g.layout.numFats.toNat,
      g.layout.fatSector copy other ≠ g.layout.fatSector k cluster := by
    intro copy member k small same
    exact group (Geometry.fatSector_inj within inside member small same).2.symm
  rw [others _ (apart copy member), others _ (apart 0 g.copies), inStep other within copy member]

end Links

/-- Copies in step, with the table so filled that they cannot get out of step. -/
structure Paired (g : Geometry) (fs : Fs) : Prop where
  inStep : InStep g fs
  together : ∀ cluster : UInt32, cluster.toNat < g.entries →
    ∀ copy < g.layout.numFats.toNat, ∀ other < g.layout.numFats.toNat,
      g.layout.fatSector copy cluster ∈ fs.js.held → g.layout.fatSector other cluster ∈ fs.js.held
  filling : fs.js.held.length = maxTxnBlocks ∨
    g.layout.numFats.toNat ∣ fs.js.held.length ∧ ∀ cluster, g.Valid cluster →
      ∀ i < g.spc, ∀ j < g.spc, g.layout.clusterToLba cluster + UInt32.ofNat i ∈ fs.js.held →
        g.layout.clusterToLba cluster + UInt32.ofNat j ∈ fs.js.held

namespace Paired

variable {g : Geometry} {fs after : Fs} {cluster : UInt32}

/-- A transaction starts with nothing held. -/
theorem start (inStep : InStep g fs) (empty : fs.js.held = []) : Paired g fs where
  inStep := inStep
  together := by
    intro _ _ _ _ _ _ held
    rw [empty] at held
    cases held
  filling := by
    right
    rw [empty]
    exact ⟨Nat.dvd_zero _, fun _ _ _ _ _ _ held => by cases held⟩

/-- Adding sectors that are not held, all of them and nothing else, makes the table longer by as
many. -/
theorem length_grown {before later added : List UInt32} (once : before.Nodup)
    (distinct : added.Nodup) (onceLater : later.Nodup) (apart : ∀ lba ∈ added, lba ∉ before)
    (same : ∀ lba, lba ∈ later ↔ lba ∈ before ∨ lba ∈ added) :
    later.length = before.length + added.length := by
  have both : (before ++ added).Nodup :=
    nodup_append.mpr ⟨once, distinct, fun a inBefore b inAdded equal =>
      apart b inAdded (equal ▸ inBefore)⟩
  have all : later.Perm (before ++ added) :=
    (perm_ext_iff_of_nodup onceLater both).mpr fun lba => by
      rw [mem_append]
      exact same lba
  rw [all.length_eq, length_append]

/-- A write to a cluster does not touch the FAT, and fills the table by a cluster or not at all. -/
theorem data (paired : Paired g fs) (even : Even g) (busy : Busy g fs) (valid : g.Valid cluster)
    (buf : Bytes) : Paired g (fs.writeCluster cluster buf).2 := by
  have fills := writeCluster_fills busy cluster buf
  have within := (writeCluster_any busy valid buf).1
  have distinct := (within.busy busy).distinct
  have linkSector : ∀ other : UInt32, other.toNat < g.entries →
      ∀ copy < g.layout.numFats.toNat, ∀ i < g.spc, g.layout.fatSector copy other
        ≠ g.layout.clusterToLba cluster + UInt32.ofNat i :=
    fun other inside copy member i small =>
      Geometry.fatSector_ne_sector inside member valid small
  generalize (fs.writeCluster cluster buf).2 = after at fills within distinct ⊢
  generalize (fs.writeCluster cluster buf).1 = ok at fills
  refine ⟨?_, ?_, ?_⟩
  · intro other inside copy member
    rw [(fills.others _ (linkSector other inside copy member)).1,
      (fills.others _ (linkSector other inside 0 g.copies)).1,
      paired.inStep other inside copy member]
  · intro other inside copy member copy' member' held
    rw [(fills.others _ (linkSector other inside copy member)).2] at held
    rw [(fills.others _ (linkSector other inside copy' member')).2]
    exact paired.together other inside copy member copy' member' held
  · by_cases full : fs.js.held.length = maxTxnBlocks
    · -- A full table stays full.
      left
      have more := held_length_mono busy.distinct within.holding.kept
      exact Nat.le_antisymm (held_length_le after.js) (by omega)
    obtain ⟨divides, whole⟩ := paired.filling.resolve_left full
    cases ok with
    | false => exact .inl (fills.full rfl)
    | true => ?_
    right
    have taken := fills.taken rfl
    have sectors : ∀ lba, lba ∈ after.js.held ↔ lba ∈ fs.js.held ∨
        lba ∈ (range g.spc).map fun i =>
          g.layout.clusterToLba cluster + UInt32.ofNat i := by
      intro lba
      by_cases outside : ∀ i < g.spc, lba ≠ g.layout.clusterToLba cluster + UInt32.ofNat i
      · rw [(fills.others lba outside).2]
        constructor
        · exact .inl
        · rintro (held | new)
          · exact held
          · obtain ⟨i, small, rfl⟩ := mem_map.mp new
            exact absurd rfl (outside i (mem_range.mp small))
      · simp only [not_forall, not_not] at outside
        obtain ⟨i, small, rfl⟩ := outside
        exact ⟨fun _ => .inr (mem_map.mpr ⟨i, mem_range.mpr small, rfl⟩),
          fun _ => taken i small⟩
    constructor
    · by_cases some_held : ∃ i < g.spc,
          g.layout.clusterToLba cluster + UInt32.ofNat i ∈ fs.js.held
      · -- The cluster was held as a whole.
        obtain ⟨i, small, held⟩ := some_held
        have inside : after.js.held ⊆ fs.js.held := by
          intro lba member
          rcases (sectors lba).mp member with old | new
          · exact old
          · obtain ⟨j, smallJ, rfl⟩ := mem_map.mp new
            exact whole cluster valid i small j (mem_range.mp smallJ) held
        have less := held_length_mono distinct inside
        have more := held_length_mono busy.distinct within.holding.kept
        rwa [Nat.le_antisymm less more]
      · have apart : ∀ lba ∈ (range g.spc).map fun i =>
            g.layout.clusterToLba cluster + UInt32.ofNat i, lba ∉ fs.js.held := by
          intro lba new held
          obtain ⟨i, small, rfl⟩ := mem_map.mp new
          exact some_held ⟨i, mem_range.mp small, held⟩
        rw [length_grown busy.distinct (Geometry.sectors_nodup valid) distinct apart sectors,
          length_map, length_range]
        exact Nat.dvd_add divides even.cluster
    · intro other validOther i small j smallJ held
      by_cases same : other = cluster
      · exact same ▸ taken j smallJ
      have apart : ∀ k < g.spc, ∀ i < g.spc, g.layout.clusterToLba other + UInt32.ofNat k
          ≠ g.layout.clusterToLba cluster + UInt32.ofNat i := fun k inside i small =>
        Geometry.sector_ne validOther valid same inside small
      rw [(fills.others _ (apart i small)).2] at held
      rw [(fills.others _ (apart j smallJ)).2]
      exact whole other validOther i small j smallJ held

/-- The sectors of an entry's copies, as a list without repetition. -/
theorem copies_nodup (inside : cluster.toNat < g.entries) :
    ((range g.layout.numFats.toNat).map fun k => g.layout.fatSector k cluster).Nodup := by
  refine nodup_range.map_on ?_
  intro i memberI j memberJ same
  exact (Geometry.fatSector_inj inside inside (mem_range.mp memberI)
    (mem_range.mp memberJ) same).1

/-- A link is set in all copies or in none. -/
theorem link (paired : Paired g fs) (even : Even g) (busy : Busy g fs)
    (inside : cluster.toNat < g.entries) (value : UInt32) :
    Paired g (fs.fatSetNextCluster cluster value).2 := by
  have spec := fatSetNextCluster_any busy inside value
  by_cases held : g.layout.fatSector 0 cluster ∈ fs.js.held
  · -- All copies are held, so that none is refused and the table stays as it is.
    have entry : HeldEntry g fs cluster := fun copy member =>
      paired.together cluster inside 0 g.copies copy member held
    have set := fatSetNextCluster_of_held busy inside value entry
    have distinct := (spec.within.busy busy).distinct
    have same : ∀ lba, lba ∈ (fs.fatSetNextCluster cluster value).2.js.held ↔
        lba ∈ fs.js.held := by
      intro lba
      refine ⟨fun member => ?_, fun member => spec.within.holding.kept member⟩
      rcases mem_append.mp (spec.held member) with old | new
      · exact old
      · obtain ⟨k, small, rfl⟩ := mem_map.mp new
        simpa using entry k (mem_range.mp small)
    have length : (fs.fatSetNextCluster cluster value).2.js.held.length = fs.js.held.length :=
      Nat.le_antisymm (held_length_mono distinct fun lba => (same lba).mp)
        (held_length_mono busy.distinct fun lba => (same lba).mpr)
    refine ⟨paired.inStep.link busy inside (Prod.ext set rfl), ?_, ?_⟩
    · intro other within copy member copy' member'
      rw [same, same]
      exact paired.together other within copy member copy' member'
    · rw [length]
      refine paired.filling.imp id fun ⟨divides, whole⟩ => ⟨divides, ?_⟩
      intro other valid i small j smallJ
      rw [same, same]
      exact whole other valid i small j smallJ
  · by_cases full : fs.js.held.length = maxTxnBlocks
    · rw [fatSetNextCluster_full busy inside value held (Nat.le_of_eq full.symm)]
      exact paired
    -- There is room for one copy, and therefore for all.
    obtain ⟨divides, whole⟩ := paired.filling.resolve_left full
    have room : fs.js.held.length + g.layout.numFats.toNat ≤ maxTxnBlocks := by
      have below := held_length_le fs.js
      obtain ⟨a, lengthA⟩ := divides
      obtain ⟨b, tableB⟩ := even.table
      have fewer : a < b := by
        by_contra many
        have := Nat.mul_le_mul_left g.layout.numFats.toNat (Nat.le_of_not_lt many)
        omega
      have step := Nat.mul_le_mul_left g.layout.numFats.toNat (Nat.succ_le_of_lt fewer)
      rw [Nat.mul_succ] at step
      omega
    have set : (fs.fatSetNextCluster cluster value).1 = true := by
      rw [Fs.fatSetNextCluster, busy.layout]
      exact setCopies_room busy inside value 0 (by omega) room
    have distinct := (spec.within.busy busy).distinct
    have done := spec.done set
    simp only [Nat.zero_add] at done
    have apart : ∀ lba ∈ (range g.layout.numFats.toNat).map fun k =>
        g.layout.fatSector k cluster, lba ∉ fs.js.held := by
      intro lba new old
      obtain ⟨k, small, rfl⟩ := mem_map.mp new
      exact held (paired.together cluster inside k (mem_range.mp small) 0 g.copies old)
    have members : ∀ lba, lba ∈ (fs.fatSetNextCluster cluster value).2.js.held ↔
        lba ∈ fs.js.held ∨ lba ∈ (range g.layout.numFats.toNat).map fun k =>
          g.layout.fatSector k cluster := by
      intro lba
      constructor
      · intro member
        simpa only [Nat.zero_add, mem_append] using spec.held member
      · rintro (old | new)
        · exact spec.within.holding.kept old
        · obtain ⟨k, small, rfl⟩ := mem_map.mp new
          exact done k (mem_range.mp small)
    have dataSector : ∀ other, g.Valid other → ∀ i < g.spc,
        (g.layout.clusterToLba other + UInt32.ofNat i
            ∈ (fs.fatSetNextCluster cluster value).2.js.held ↔
          g.layout.clusterToLba other + UInt32.ofNat i ∈ fs.js.held) := by
      intro other valid i small
      rw [members]
      refine ⟨fun member => member.resolve_right fun new => ?_, .inl⟩
      obtain ⟨k, smallK, same⟩ := mem_map.mp new
      exact Geometry.fatSector_ne_sector inside (mem_range.mp smallK) valid small same
    refine ⟨paired.inStep.link busy inside (Prod.ext set rfl), ?_, ?_⟩
    · intro other within copy member copy' member' old
      by_cases group : fatIndex other = fatIndex cluster
      · rw [fatSector_congr within inside group]
        exact done copy' member'
      have outside : ∀ copy < g.layout.numFats.toNat,
          (g.layout.fatSector copy other ∈ (fs.fatSetNextCluster cluster value).2.js.held ↔
            g.layout.fatSector copy other ∈ fs.js.held) := by
        intro copy member
        rw [members]
        refine ⟨fun either => either.resolve_right fun new => ?_, .inl⟩
        obtain ⟨k, small, same⟩ := mem_map.mp new
        exact group (Geometry.fatSector_inj inside within (mem_range.mp small) member
          same).2.symm
      rw [outside copy member] at old
      rw [outside copy' member']
      exact paired.together other within copy member copy' member' old
    · right
      rw [length_grown busy.distinct (copies_nodup inside) distinct apart members,
        length_map, length_range]
      refine ⟨Nat.dvd_add divides (Nat.dvd_refl _), ?_⟩
      intro other valid i small j smallJ
      rw [dataSector other valid i small, dataSector other valid j smallJ]
      exact whole other valid i small j smallJ

/-- No edit gets the copies out of step. -/
theorem edit (paired : Paired g fs) (even : Even g) (busy : Busy g fs) (edit : Edit g fs after) :
    Paired g after := by
  cases edit with
  | hint hint => exact ⟨paired.inStep, paired.together, paired.filling⟩
  | data valid buf => exact paired.data even busy valid buf
  | link inside value => exact paired.link even busy inside value

end Paired

section Calls

variable {g : Geometry} {fs after : Fs}

/-- A call that finds the copies in step leaves them in step, whatever it reports. -/
theorem InStep.call (even : Even g) (ready : Ready g fs.entered) (idle : fs.js.depth = 0)
    (tidied : Tidied g fs.entered) (inStep : InStep g fs.entered) (call : Call fs after) :
    InStep g after := by
  rcases call.edits ready idle tidied with rfl | ⟨done, result, edits, rfl⟩
  · exact inStep
  obtain ⟨busy, opened, _⟩ := journalBegin_spec ready idle
  have nothing : fs.entered.journalBegin.js.held = [] := congrArg (map _) (ready.closed idle)
  obtain ⟨within, paired⟩ := edits.keeps busy (Paired.start inStep nothing)
    fun busy paired edit => paired.edit even busy edit
  have seen := journalCommit_view (within.busy busy).ready (within.depth.trans opened) result
  -- All copies lie inside the volume, where the commit changes nothing that is seen.
  intro cluster inside copy member
  have below : ∀ copy < g.layout.numFats.toNat,
      (g.layout.fatSector copy cluster).toNat < g.sectors := by
    intro copy member
    have low := Geometry.fatSector_lt inside member
    simp only [Geometry.sectors]
    omega
  rw [seen _ (below copy member), seen _ (below 0 g.copies)]
  exact paired.inStep cluster inside copy member

/--
Where clusters and the table hold a multiple of as many sectors as there are copies, the copies
of the FAT stay in step through any calls that find well-formed chains.
-/
theorem fat_copies_in_step (even : Even g) (ready : Ready g fs.entered) (idle : fs.js.depth = 0)
    (inStep : InStep g fs.entered) (calls : Calls g fs after) : InStep g after.entered :=
  (calls.keeps ready idle inStep fun ready idle tidied inStep call =>
    inStep.call even ready idle tidied call).2.2

end Calls

section Many

/-- A volume with one more copy of its FAT than a transaction has room for. -/
def manyFs : Fs where
  mounted := true
  partitionOffset := 0
  layout :=
    { sectorsPerCluster := 1
      fatStartLba := 1
      dataStartLba := 130
      rootCluster := 2
      numFats := 129
      fatSize32 := 1 }
  nextFreeClusterHint := 2
  js := .new
  dev :=
    { disk := fun addr =>
        if 1 ≤ addr ∧ addr < 130 then
          Sector.ofBytes (putU32Le (List.replicate 512 0) 8 endOfChain)
        else zeroSector
      activeDevice := 0
      partitionOffset := 0
      faults := noFaults
      issued := [] }

/-- A write fails between two copies, and commits the link in the copies before. -/
theorem fat_copies_out_of_step :
    manyFs.view (manyFs.layout.fatSector 0 3) = manyFs.view (manyFs.layout.fatSector 128 3) ∧
      (fat32WriteFile 100 manyFs (ascii "a") [1]).map (fun outcome => (outcome.1,
          getU32Le (outcome.2.view (manyFs.layout.fatSector 0 3)).val (Layout.entOffset 3),
          getU32Le (outcome.2.view (manyFs.layout.fatSector 128 3)).val (Layout.entOffset 3)))
        = some (false, endOfChain, 0) := by
  decide +kernel

/-- A volume of two-sector clusters with two copies of one FAT sector. -/
def pairGeometry : Geometry where
  layout :=
    { sectorsPerCluster := 2
      fatStartLba := 1
      dataStartLba := 3
      rootCluster := 2
      numFats := 2
      fatSize32 := 1 }
  partitionOffset := 0
  limit := 128
  limit_low := sampleGeometry.limit_low
  cluster_size := by decide
  copies := by decide
  data_start := by decide
  entries_small := by decide
  limit_entries := by decide
  limit_small := sampleGeometry.limit_small
  addressable := by decide

/-- That volume with nothing on it but an empty root directory, without a journal. -/
def pairFs : Fs where
  mounted := true
  partitionOffset := 0
  layout := pairGeometry.layout
  nextFreeClusterHint := 2
  js := .new
  dev :=
    { disk := fun addr =>
        if addr = 1 ∨ addr = 2 then
          Sector.ofBytes (putU32Le (List.replicate 512 0) 8 endOfChain)
        else zeroSector
      activeDevice := 0
      partitionOffset := 0
      faults := noFaults
      issued := [] }

theorem pairFs_ready : Ready pairGeometry pairFs :=
  .unjournaled rfl rfl rfl rfl rfl rfl

theorem pairFs_inStep : InStep pairGeometry pairFs := by
  intro cluster inside copy member
  have addresses : ∀ copy < 2,
      (pairGeometry.layout.fatSector copy cluster).toNat = 1 + copy := by
    intro copy small
    have group : cluster.toNat / 128 = 0 := Nat.div_eq_of_lt inside
    rw [Geometry.fatSector_toNat inside small, group]
    show 1 + copy * 1 + 0 = 1 + copy
    omega
  have table : ∀ lba : UInt32, lba.toNat = 1 ∨ lba.toNat = 2 → pairFs.view lba
      = Sector.ofBytes (putU32Le (replicate 512 0) 8 endOfChain) := by
    intro lba here
    have home : pairFs.dev.targetLba lba = lba.toNat := by
      rw [Device.targetLba, show pairFs.dev.partitionOffset = 0 from rfl, UInt32.add_zero]
    rw [Fs.view, viewOf_of_empty rfl, home]
    exact if_pos here
  have small : copy < 2 := member
  rw [table _ (by rw [addresses copy small]; omega),
    table _ (by rw [addresses 0 (by omega)]; omega)]

/-- A write on that volume leaves its two copies in step. -/
theorem fat_copies_in_step_pair :
    ∃ after, Calls pairGeometry pairFs after ∧ InStep pairGeometry after.entered := by
  have ran : (fat32WriteFile 128 pairFs (ascii "hi.txt") [104, 105]).map Prod.fst
      = some true := by decide
  obtain ⟨⟨ok, after⟩, run, rfl⟩ := Option.map_eq_some_iff.mp ran
  have root : pairGeometry.Valid 2 := by decide
  have last : Ends ((pairFs.vol pairGeometry).fat 2) := by decide
  have blank : (pairFs.vol pairGeometry).data 2 = replicate 1024 0 := by decide +kernel
  have holds := Holds.blank root last blank fun c low high _ => ⟨low, high⟩
  have entered := pairFs_ready.entered
  have calls : Calls pairGeometry pairFs after :=
    .tail (.refl _) ⟨_, _, by rw [entered]; exact holds.toChained⟩ (.write run)
  refine ⟨after, calls, fat_copies_in_step ⟨by decide, by decide⟩ ?_ rfl ?_ calls⟩
  · rw [entered]
    exact pairFs_ready
  · rw [entered]
    exact pairFs_inStep

end Many

end NovaOs.Fat
