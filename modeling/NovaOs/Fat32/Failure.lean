import NovaOs.Fat32.Edits
import NovaOs.Fat32.Refinement

/-! What a write that reports failure leaves on the volume. -/

namespace NovaOs.Fat

section Failing

variable {g : Geometry} {fs after : Fs} {root : List UInt32} {chain : Loc → List UInt32}
  {fuel : Nat} {name data : Bytes}

/-- The files of a volume that is spared are there as they were. -/
theorem Spares.file {v next : Vol} (spares : Spares g v root next)
    (chained : Chained g v root chain) {loc : Loc} (place : loc ∈ locs g root)
    (live : v.Live loc) :
    next.Live loc ∧ next.entry loc = v.entry loc ∧ Owned g next (v.entry loc) (chain loc) ∧
      ∀ c ∈ chain loc, next.data c = v.data c := by
  have entry := spares.live loc place live
  have apart := chained.apart_root loc place live
  refine ⟨by rwa [Vol.Live, entry], entry, ?_, fun c member => ?_⟩
  · exact Chained.owned_congr (chained.owned loc place live) fun c member =>
      spares.fat c (chained.chain_used place live member) (apart c member)
  · exact spares.data c (chained.chain_used place live member) (apart c member)

/-- A volume of two clusters: the directory's and one more. -/
def tinyGeometry : Geometry where
  layout := sampleGeometry.layout
  partitionOffset := 0
  limit := 4
  limit_low := by decide
  cluster_size := by decide
  copies := by decide
  data_start := by decide
  entries_small := by decide
  limit_entries := by decide
  limit_small := by decide
  addressable := by decide

/-- That volume with an empty directory, its other cluster free or lost. -/
def tinyFs (free : Bool) : Fs :=
  { sampleFs with
    dev := { sampleFs.dev with
      disk := fun addr =>
        if addr ≠ 1 then zeroSector
        else if free then Sector.ofBytes (putU32Le (List.replicate 512 0xFF) 12 0)
        else ⟨List.replicate 512 0xFF, List.length_replicate⟩ } }

theorem tinyFs_ready : Ready tinyGeometry (tinyFs false) :=
  .unjournaled rfl rfl rfl rfl rfl rfl

/-- Lost, the other cluster leaves none free. -/
theorem tinyFs_full {cluster : UInt32} (inside : cluster.toNat < 128) :
    ((tinyFs false).vol tinyGeometry).fat cluster ≠ 0 := by
  have places : ∀ n < 128, tinyGeometry.layout.fatSector 0 (UInt32.ofNat n) = 1 ∧
      Layout.entOffset (UInt32.ofNat n) + 3 < 512 := by decide
  have place := places cluster.toNat inside
  rw [UInt32.ofNat_toNat] at place
  have byte : ∀ i < 512, (List.replicate 512 (0xFF : UInt8)).getD i 0 = 0xFF := by
    intro i small
    rw [List.getD_eq_getElem?_getD, List.getElem?_replicate_of_lt small]
    rfl
  have link : getU32Le (List.replicate 512 0xFF) (Layout.entOffset cluster) = 0xFFFFFFFF := by
    rw [getU32Le, byte _ (by omega), byte _ (by omega), byte _ (by omega), byte _ (by omega)]
    rfl
  rw [Fs.vol, volOf_fat inside, place.1]
  exact fun zero => absurd (link ▸ zero) (by decide)

end Failing

/-- The search answers for the volume exactly when the FAT has no free entry to spare: one of the
volume's clusters is free, or no entry past its last cluster is. -/
theorem findFreeCluster_complete {g : Geometry} {fs : Fs} (ready : Ready g fs) :
    ((fs.findFreeCluster.1 ≠ 0 ∧ (fs.vol g).fat fs.findFreeCluster.1 = 0) ↔
        ∃ cluster, g.Valid cluster ∧ (fs.vol g).fat cluster = 0) ↔
      (∃ cluster, g.Valid cluster ∧ (fs.vol g).fat cluster = 0) ∨
        ∀ cluster : UInt32, g.limit ≤ cluster.toNat → cluster.toNat < g.entries →
          (fs.vol g).fat cluster ≠ 0 := by
  obtain ⟨cluster, hint, search, free, dry⟩ := findFreeCluster_spec ready
  rw [search]
  by_cases none : cluster = 0
  · -- Zero comes back when no entry of the FAT is free, the volume's among them.
    have taken : ¬ ∃ cluster, g.Valid cluster ∧ (fs.vol g).fat cluster = 0 := by
      rintro ⟨other, valid, zero⟩
      exact dry none other valid.1 valid.entry zero
    exact iff_of_true (iff_of_false (fun found => found.1 none) taken)
      (.inr fun other past high => dry none other (Nat.le_trans g.limit_low past) high)
  obtain ⟨low, high, zero⟩ := free none
  constructor
  · exact fun answers => .inl (answers.mp ⟨none, zero⟩)
  · rintro (inside | spare)
    · exact iff_of_true ⟨none, zero⟩ inside
    · refine iff_of_true ⟨none, zero⟩ ⟨cluster, ⟨low, ?_⟩, zero⟩
      by_contra past
      exact spare cluster (Nat.le_of_not_lt past) high zero

/-- On a full volume whose FAT has no free entry past its end the search finds nothing. -/
theorem findFreeCluster_complete_full :
    ((tinyFs false).findFreeCluster.1 ≠ 0 ∧
        ((tinyFs false).vol tinyGeometry).fat (tinyFs false).findFreeCluster.1 = 0) ↔
      ∃ cluster, tinyGeometry.Valid cluster ∧
        ((tinyFs false).vol tinyGeometry).fat cluster = 0 :=
  (findFreeCluster_complete tinyFs_ready).mpr (.inr fun _ _ high => tinyFs_full high)

/-- The same disk as a volume of the directory's cluster alone: the entry past it is spare. -/
def spareGeometry : Geometry :=
  { tinyGeometry with
    limit := 3
    limit_low := by decide
    limit_entries := by decide
    limit_small := by decide
    addressable := by decide }

/-- A spare entry that is free is taken for a cluster of the full volume. -/
theorem spare_entry_taken :
    Ready spareGeometry (tinyFs true) ∧
      (¬ ∃ cluster, spareGeometry.Valid cluster ∧
        ((tinyFs true).vol spareGeometry).fat cluster = 0) ∧
      (tinyFs true).findFreeCluster.1 = 3 ∧ ((tinyFs true).vol spareGeometry).fat 3 = 0 ∧
      ¬ spareGeometry.Valid 3 := by
  refine ⟨.unjournaled rfl rfl rfl rfl rfl rfl, ?_, ?_⟩
  · rintro ⟨cluster, ⟨low, high⟩, zero⟩
    obtain rfl : cluster = 2 := UInt32.toNat_inj.mp (Nat.le_antisymm (Nat.le_of_lt_succ high) low)
    exact absurd zero (by decide)
  · decide

end NovaOs.Fat
