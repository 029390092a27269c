import NovaOs.Fat32.Model
import NovaOs.Journal.View

/-! Where the FAT and the clusters of a volume lie, and what one write changes of them. -/

namespace NovaOs.Fat

open Function List

/-- A volume's layout, with what keeps its FAT and its clusters apart. -/
structure Geometry where
  layout : Layout
  partitionOffset : UInt32
  -- Clusters from here on are not the volume's, whatever the FAT has entries for.
  limit : Nat
  limit_low : 2 ≤ limit
  cluster_size : 1 ≤ layout.sectorsPerCluster.toNat ∧
    layout.sectorsPerCluster.toNat ≤ maxClusterSectors
  copies : 1 ≤ layout.numFats.toNat
  data_start : layout.dataStartLba.toNat
    = layout.fatStartLba.toNat + layout.numFats.toNat * layout.fatSize32.toNat
  entries_small : layout.fatSize32.toNat * 128 ≤ 2 ^ 28
  limit_entries : limit ≤ layout.fatSize32.toNat * 128
  -- No cluster has a number that a link could not tell from a bad or an ending one.
  limit_small : limit ≤ 0x0FFFFFF7
  -- The whole volume has addresses of 32 bits.
  addressable : partitionOffset.toNat + layout.dataStartLba.toNat
    + (limit - 2) * layout.sectorsPerCluster.toNat ≤ 2 ^ 32

namespace Geometry

variable (g : Geometry)
variable {cluster other : UInt32} {copy i : Nat}

/-- Sectors in one cluster. -/
def spc : Nat := g.layout.sectorsPerCluster.toNat

/-- How many clusters the FAT has entries for. -/
def entries : Nat := g.layout.fatSize32.toNat * 128

/-- Sectors of the volume, the reserved ones and the FAT included. -/
def sectors : Nat := g.layout.dataStartLba.toNat + (g.limit - 2) * g.spc

/-- The clusters that can hold data. -/
def Valid (cluster : UInt32) : Prop := 2 ≤ cluster.toNat ∧ cluster.toNat < g.limit

instance (cluster : UInt32) : Decidable (g.Valid cluster) :=
  inferInstanceAs (Decidable (_ ∧ _))

variable {g}

theorem Valid.entry (valid : g.Valid cluster) : cluster.toNat < g.entries :=
  Nat.lt_of_lt_of_le valid.2 g.limit_entries

theorem Valid.lt_endOfChain (valid : g.Valid cluster) : cluster < endOfChain := by
  have small := g.limit_small
  have below := valid.2
  apply UInt32.lt_iff_toNat_lt.mpr
  have eoc : endOfChain.toNat = 0x0FFFFFF8 := rfl
  omega

theorem Valid.ne_zero (valid : g.Valid cluster) : cluster ≠ 0 := by
  rintro rfl
  exact absurd valid.1 (by decide)

/-- A block of some width ends where a later one begins, or before. -/
theorem block_ends {i n : Nat} (width : Nat) (before : i < n) : i * width + width ≤ n * width :=
  Nat.add_one_mul i width ▸ Nat.mul_le_mul_right width before

theorem sector_within (inside : cluster.toNat < g.entries) :
    cluster.toNat / 128 < g.layout.fatSize32.toNat := by
  simp only [entries] at inside
  omega

theorem sectorInFat_toNat (inside : cluster.toNat < g.entries) :
    (Layout.sectorInFat cluster).toNat = cluster.toNat / 128 := by
  have small := g.entries_small
  simp only [entries] at inside
  simp only [Layout.sectorInFat, sectorSize, UInt32.toNat_div, UInt32.toNat_mul,
    UInt32.toNat_ofNat', UInt32.reduceToNat, Nat.reducePow, Nat.reduceMod]
  omega

theorem entOffset_eq : Layout.entOffset cluster = cluster.toNat % 128 * 4 := by
  simp only [Layout.entOffset, sectorSize, UInt32.toNat_mod, UInt32.toNat_mul,
    UInt32.toNat_ofNat', UInt32.reduceToNat, Nat.reducePow, Nat.reduceMod]
  omega

/-- The address of an entry's sector in one copy of the FAT. -/
theorem fatSector_toNat (inside : cluster.toNat < g.entries)
    (member : copy < g.layout.numFats.toNat) :
    (g.layout.fatSector copy cluster).toNat
      = g.layout.fatStartLba.toNat + copy * g.layout.fatSize32.toNat + cluster.toNat / 128 := by
  have start := g.data_start
  have bound := g.layout.dataStartLba.toNat_lt
  have copies := g.layout.numFats.toNat_lt
  have room := block_ends g.layout.fatSize32.toNat member
  have within := sector_within inside
  have count : (UInt32.ofNat copy).toNat = copy := by
    simp only [UInt32.toNat_ofNat']
    omega
  simp only [Layout.fatSector, UInt32.toNat_add, UInt32.toNat_mul, count, sectorInFat_toNat inside]
  rw [Nat.mod_eq_of_lt (a := copy * _) (by omega)]
  omega

/-- A cluster's first sector comes after the FAT. -/
theorem clusterToLba_toNat (valid : g.Valid cluster) :
    (g.layout.clusterToLba cluster).toNat
      = g.layout.dataStartLba.toNat + (cluster.toNat - 2) * g.spc := by
  obtain ⟨low, high⟩ := valid
  have room := block_ends g.spc (show cluster.toNat - 2 < g.limit - 2 by omega)
  have fits := g.addressable
  have size := g.cluster_size
  simp only [spc] at room ⊢
  have index : (cluster - 2).toNat = cluster.toNat - 2 :=
    UInt32.toNat_sub_of_le _ _ (UInt32.le_iff_toNat_le.mpr low)
  have width : (UInt8.toUInt32 g.layout.sectorsPerCluster).toNat
      = g.layout.sectorsPerCluster.toNat := UInt8.toNat_toUInt32 _
  simp only [Layout.clusterToLba, UInt32.toNat_add, UInt32.toNat_mul, index, width]
  rw [Nat.mod_eq_of_lt (a := (cluster.toNat - 2) * _) (by omega)]
  omega

/-- The sectors of a cluster, one by one. -/
theorem clusterToLba_add (valid : g.Valid cluster) (small : i < g.spc) :
    (g.layout.clusterToLba cluster + UInt32.ofNat i).toNat
      = g.layout.dataStartLba.toNat + (cluster.toNat - 2) * g.spc + i := by
  have start := clusterToLba_toNat valid
  have room := block_ends g.spc (Nat.sub_lt_sub_right valid.1 valid.2)
  have fits := g.addressable
  simp only [spc] at room start small ⊢
  simp only [UInt32.toNat_add, UInt32.toNat_ofNat', start]
  rw [Nat.mod_eq_of_lt (a := i) (by omega)]
  exact Nat.mod_eq_of_lt (by omega)

/-- The sectors of a cluster, as a list without repetition. -/
theorem sectors_nodup (valid : g.Valid cluster) :
    ((List.range g.spc).map fun i => g.layout.clusterToLba cluster + UInt32.ofNat i).Nodup := by
  refine nodup_range.map_on ?_
  intro i memberI j memberJ same
  have address := congrArg UInt32.toNat same
  rw [clusterToLba_add valid (mem_range.mp memberI),
    clusterToLba_add valid (mem_range.mp memberJ)] at address
  omega

theorem sector_lt (valid : g.Valid cluster) (small : i < g.spc) :
    (g.layout.clusterToLba cluster + UInt32.ofNat i).toNat < g.sectors := by
  rw [clusterToLba_add valid small]
  have room := block_ends g.spc (Nat.sub_lt_sub_right valid.1 valid.2)
  simp only [sectors]
  omega

theorem fatSector_lt (inside : cluster.toNat < g.entries) (member : copy < g.layout.numFats.toNat) :
    (g.layout.fatSector copy cluster).toNat < g.layout.dataStartLba.toNat := by
  rw [fatSector_toNat inside member, g.data_start]
  have room := block_ends g.layout.fatSize32.toNat member
  have within := sector_within inside
  omega

/-- The FAT and the clusters have no sector in common. -/
theorem fatSector_ne_sector (inside : cluster.toNat < g.entries)
    (member : copy < g.layout.numFats.toNat) (valid : g.Valid other) (small : i < g.spc) :
    g.layout.fatSector copy cluster ≠ g.layout.clusterToLba other + UInt32.ofNat i := by
  intro same
  have below := fatSector_lt inside member
  rw [same, clusterToLba_add valid small] at below
  omega

/-- Two clusters have no sector in common. -/
theorem sector_ne {j : Nat} (valid : g.Valid cluster) (valid' : g.Valid other)
    (apart : cluster ≠ other) (small : i < g.spc) (small' : j < g.spc) :
    g.layout.clusterToLba cluster + UInt32.ofNat i
      ≠ g.layout.clusterToLba other + UInt32.ofNat j := by
  intro same
  have addresses := congrArg UInt32.toNat same
  rw [clusterToLba_add valid small, clusterToLba_add valid' small'] at addresses
  have numbers : cluster.toNat ≠ other.toNat := fun h => apart (UInt32.toNat_inj.mp h)
  -- The one with the smaller number ends before the other starts.
  rcases Nat.lt_or_gt_of_ne numbers with lower | lower
  · have room := block_ends g.spc (Nat.sub_lt_sub_right valid.1 lower)
    omega
  · have room := block_ends g.spc (Nat.sub_lt_sub_right valid'.1 lower)
    omega

/-- Two sectors of the FAT are one only if they are the same sector of the same copy. -/
theorem fatSector_inj {copy' : Nat} (inside : cluster.toNat < g.entries)
    (inside' : other.toNat < g.entries) (member : copy < g.layout.numFats.toNat)
    (member' : copy' < g.layout.numFats.toNat)
    (same : g.layout.fatSector copy cluster = g.layout.fatSector copy' other) :
    copy = copy' ∧ cluster.toNat / 128 = other.toNat / 128 := by
  have addresses := congrArg UInt32.toNat same
  rw [fatSector_toNat inside member, fatSector_toNat inside' member'] at addresses
  have within := sector_within inside
  have within' := sector_within inside'
  rcases Nat.lt_trichotomy copy copy' with lower | rfl | lower
  · have room := block_ends g.layout.fatSize32.toNat lower
    omega
  · exact ⟨rfl, by omega⟩
  · have room := block_ends g.layout.fatSize32.toNat lower
    omega

end Geometry

/-- A volume as its FAT and its clusters: the links of the first copy, and the data. -/
@[ext]
structure Vol where
  fat : UInt32 → UInt32
  data : UInt32 → Bytes

namespace Vol

variable {cluster value : UInt32} {buf : Bytes}

def setFat (v : Vol) (cluster value : UInt32) : Vol :=
  { v with fat := Function.update v.fat cluster value }

def setData (v : Vol) (cluster : UInt32) (buf : Bytes) : Vol :=
  { v with data := Function.update v.data cluster buf }

variable {v : Vol}

@[simp] theorem setFat_data : (v.setFat cluster value).data = v.data := rfl

@[simp] theorem setFat_fat : (v.setFat cluster value).fat = update v.fat cluster value := rfl

@[simp] theorem setData_fat : (v.setData cluster buf).fat = v.fat := rfl

@[simp] theorem setData_data : (v.setData cluster buf).data = update v.data cluster buf := rfl

end Vol

/-- The volume a reader of the sectors sees; what has no entry or no sectors reads as nothing. -/
def volOf (g : Geometry) (view : UInt32 → Sector) : Vol where
  fat cluster :=
    if cluster.toNat < g.entries then
      getU32Le (view (g.layout.fatSector 0 cluster)).val (Layout.entOffset cluster) &&& linkMask
    else 0
  data cluster :=
    if g.Valid cluster then bytesOf (viewRun view (g.layout.clusterToLba cluster) g.spc) else []

section Effects

variable {g : Geometry} {view : UInt32 → Sector} {cluster : UInt32} {value : UInt32} {buf : Bytes}

theorem volOf_fat (inside : cluster.toNat < g.entries) :
    (volOf g view).fat cluster
      = getU32Le (view (g.layout.fatSector 0 cluster)).val (Layout.entOffset cluster)
        &&& linkMask := if_pos inside

theorem volOf_data (valid : g.Valid cluster) :
    (volOf g view).data cluster
      = bytesOf (viewRun view (g.layout.clusterToLba cluster) g.spc) := if_pos valid

/-- Of two masks that share no bit, each hides what the other lets through. -/
theorem and_of_apart {high low : UInt32} (apart : high &&& low = 0) {old : UInt32} :
    ((old &&& high) ||| (value &&& low)) &&& low = value &&& low := by
  apply UInt32.toBitVec_inj.mp
  have masks : high.toBitVec &&& low.toBitVec = 0#32 := congrArg UInt32.toBitVec apart
  simp only [UInt32.toBitVec_and, UInt32.toBitVec_or]
  apply BitVec.eq_of_getLsbD_eq
  intro i _
  have bit := congrArg (BitVec.getLsbD · i) masks
  simp only [BitVec.getLsbD_and, BitVec.getLsbD_or, BitVec.getLsbD_zero] at bit ⊢
  cases upper : high.toBitVec.getLsbD i with
  | false => simp
  | true =>
    have lower : low.toBitVec.getLsbD i = false := by simpa only [upper, Bool.true_and] using bit
    simp only [lower, Bool.and_false]

/-- A full sector's bytes make that sector. -/
theorem ofBytes_val (size : buf.length = sectorSize) : (Sector.ofBytes buf).val = buf := by
  simp [Sector.ofBytes, ← size]

theorem setLink_length {off : Nat} : (Fs.setLink buf off value).length = buf.length := by
  simp [Fs.setLink]

/-- A link just stored is the link read, and every other link of the sector is as before. -/
theorem getLink_setLink {sector : Sector} {other : UInt32} :
    getU32Le (Sector.ofBytes (Fs.setLink sector.val (Layout.entOffset cluster) value)).val
        (Layout.entOffset other) &&& linkMask
      = if cluster.toNat % 128 = other.toNat % 128 then value &&& linkMask
        else getU32Le sector.val (Layout.entOffset other) &&& linkMask := by
  have size : sector.val.length = 512 := sector.2
  rw [ofBytes_val ((setLink_length).trans sector.2), Fs.setLink]
  simp only [Geometry.entOffset_eq]
  split
  · rename_i same
    rw [← same, getU32Le_putU32Le (by omega), and_of_apart (by decide)]
  · rename_i apart
    rw [getU32Le_putU32Le_other _ _ (by omega)]

/-- Replacing a link in a copy of the FAT changes one entry if it is the first copy. -/
theorem volOf_setLink {copy : Nat} (inside : cluster.toNat < g.entries)
    (member : copy < g.layout.numFats.toNat) :
    volOf g (update view (g.layout.fatSector copy cluster)
        (Sector.ofBytes (Fs.setLink (view (g.layout.fatSector copy cluster)).val
          (Layout.entOffset cluster) value)))
      = if copy = 0 then (volOf g view).setFat cluster (value &&& linkMask) else volOf g view := by
  have first : 0 < g.layout.numFats.toNat := g.copies
  have data : ∀ sector, (volOf g (update view (g.layout.fatSector copy cluster)
      sector)).data = (volOf g view).data := by
    intro sector
    funext other
    by_cases valid : g.Valid other
    · rw [volOf_data valid, volOf_data valid, viewRun, viewRun]
      congr 1
      apply map_congr_left
      intro i small
      exact update_of_ne
        (Geometry.fatSector_ne_sector inside member valid (mem_range.mp small)).symm _ _
    · simp only [volOf, if_neg valid]
  have links : (volOf g (update view (g.layout.fatSector copy cluster)
        (Sector.ofBytes (Fs.setLink (view (g.layout.fatSector copy cluster)).val
          (Layout.entOffset cluster) value)))).fat
      = if copy = 0 then update (volOf g view).fat cluster (value &&& linkMask)
        else (volOf g view).fat := by
    funext other
    by_cases within : other.toNat < g.entries
    · rw [volOf_fat within]
      by_cases same : g.layout.fatSector 0 other = g.layout.fatSector copy cluster
      · -- The sector written is the one the entry is in.
        obtain ⟨rfl, group⟩ := Geometry.fatSector_inj within inside first member same
        rw [same, update_self, getLink_setLink, if_pos rfl]
        by_cases this : other = cluster
        · rw [this, if_pos rfl, update_self]
        · have numbers : cluster.toNat % 128 ≠ other.toNat % 128 := by
            intro rest
            exact this (UInt32.toNat_inj.mp (by omega))
          rw [if_neg numbers, update_of_ne this, volOf_fat within, same]
      · rw [update_of_ne same, ← volOf_fat within]
        split
        · rename_i zero
          have this : other ≠ cluster := by
            rintro rfl
            exact same (by rw [zero])
          rw [update_of_ne this]
        · rfl
    · have this : other ≠ cluster := by
        rintro rfl
        exact within inside
      split
      · rw [update_of_ne this]
        simp only [volOf, if_neg within]
      · simp only [volOf, if_neg within]
  apply Vol.ext
  · rw [links]
    split <;> rfl
  · rw [data]
    split <;> rfl

theorem sectorsOf_length (buf : Bytes) (count : Nat) : (sectorsOf buf count).length = count := by
  induction count generalizing buf with
  | zero => rfl
  | succ count ih => simp [sectorsOf, ih]

/-- Writing a cluster changes its data and nothing else. -/
theorem volOf_overlay (valid : g.Valid cluster) (size : buf.length = g.spc * sectorSize) :
    volOf g (overlay view (g.layout.clusterToLba cluster) (sectorsOf buf g.spc))
      = (volOf g view).setData cluster buf := by
  have count := sectorsOf_length buf g.spc
  have short : (sectorsOf buf g.spc).length ≤ 2 ^ 32 := by
    have := g.cluster_size.2
    simp only [maxClusterSectors] at this
    rw [count, Geometry.spc]
    omega
  apply Vol.ext
  · funext other
    by_cases within : other.toNat < g.entries
    · rw [Vol.setData_fat, volOf_fat within, volOf_fat within, overlay_other]
      intro i small
      rw [count] at small
      exact Geometry.fatSector_ne_sector within g.copies valid small
    · simp only [volOf, Vol.setData, if_neg within]
  · funext other
    by_cases same : other = cluster
    · subst same
      rw [Vol.setData_data, update_self, volOf_data valid]
      have run : viewRun (overlay view (g.layout.clusterToLba other) (sectorsOf buf g.spc))
          (g.layout.clusterToLba other) _ = _ := viewRun_overlay short
      rw [count] at run
      rw [run, bytesOf_sectorsOf _ _ size]
    rw [Vol.setData_data, update_of_ne same]
    by_cases valid' : g.Valid other
    · rw [volOf_data valid', volOf_data valid']
      congr 1
      refine map_congr_left fun j member => overlay_other fun i small => ?_
      rw [count] at small
      exact Geometry.sector_ne valid' valid same (mem_range.mp member) small
    · simp only [volOf, if_neg valid']

end Effects

end NovaOs.Fat
