import Mathlib.Data.Finset.Card
import Mathlib.Data.List.Perm.Subperm
import NovaOs.Fat32.Alloc

/-! When a transaction has room to free a chain. -/

namespace NovaOs.Fat

open List

section Room

variable {g : Geometry} {fs after : Fs} {cluster : UInt32} {start : Nat} {seen : Finset Nat}
  {chain : List UInt32}

/-- Which sector of the FAT a cluster's entry is in. -/
def fatIndex (cluster : UInt32) : Nat := cluster.toNat / 128

/-- The sectors of the FAT that the entries of a chain are in. -/
def fatSectors (chain : List UInt32) : Finset Nat := (chain.map fatIndex).toFinset

/-- A transaction has room to mark an entry and to free the chain of its file. -/
def Roomy (g : Geometry) (chain : List UInt32) : Prop :=
  g.spc + g.layout.numFats.toNat * ((fatSectors chain).card - 1) < maxTxnBlocks

instance (g : Geometry) (chain : List UInt32) : Decidable (Roomy g chain) :=
  inferInstanceAs (Decidable (_ < _))

/-- What freeing a chain comes to: all of it with room for that, and otherwise not all. -/
structure Freed (g : Geometry) (v after : Vol) (chain : List UInt32) : Prop where
  all : Roomy g chain → ∀ c ∈ chain, after.fat c = 0
  leak : ¬ Roomy g chain → ∃ c ∈ chain, after.fat c = v.fat c

/-- An entry's sector depends only on which sector of the FAT it is. -/
theorem fatSector_congr {other : UInt32} (inside : cluster.toNat < g.entries)
    (inside' : other.toNat < g.entries) (same : fatIndex cluster = fatIndex other) (copy : Nat) :
    g.layout.fatSector copy cluster = g.layout.fatSector copy other := by
  have sectors : Layout.sectorInFat cluster = Layout.sectorInFat other := by
    apply UInt32.toNat_inj.mp
    rw [Geometry.sectorInFat_toNat inside, Geometry.sectorInFat_toNat inside']
    exact same
  rw [Layout.fatSector, Layout.fatSector, sectors]

/-- How much of the transaction's table the sectors of the FAT seen so far can have taken. -/
structure Budget (g : Geometry) (fs : Fs) (start : Nat) (seen : Finset Nat) : Prop where
  first : ∀ cluster : UInt32, cluster.toNat < g.entries → fatIndex cluster ∈ seen →
    g.layout.fatSector 0 cluster ∈ fs.js.held
  all : ∀ cluster : UInt32, cluster.toNat < g.entries → fatIndex cluster ∈ seen →
    HeldEntry g fs cluster ∨ maxTxnBlocks ≤ fs.js.held.length
  count : fs.js.held.length ≤ start + g.layout.numFats.toNat * seen.card

/-- A table never holds more than it has room for. -/
theorem held_length_le (js : JournalState) : js.held.length ≤ maxTxnBlocks := by
  rw [JournalState.held, length_map]
  exact js.shadow.2

theorem held_length_mono {first second : List UInt32} (once : first.Nodup)
    (inside : first ⊆ second) : first.length ≤ second.length :=
  (once.subperm inside).length_le

/-- A step of freeing that has room for the first copy clears the link and keeps the budget. -/
theorem Budget.step (busy : Busy g fs) (budget : Budget g fs start seen) (here : g.Valid cluster)
    (room : fatIndex cluster ∉ seen →
      start + g.layout.numFats.toNat * seen.card < maxTxnBlocks) :
    ((fs.fatSetNextCluster cluster 0).2.vol g).fat cluster = 0 ∧
      Budget g (fs.fatSetNextCluster cluster 0).2 start (insert (fatIndex cluster) seen) := by
  have spec := fatSetNextCluster_any busy here.entry 0
  have holding := spec.within.holding
  have count := budget.count
  have hasRoom : g.layout.fatSector 0 cluster ∈ fs.js.held ∨
      fs.js.held.length < maxTxnBlocks := by
    by_cases known : fatIndex cluster ∈ seen
    · exact .inl (budget.first cluster here.entry known)
    · exact .inr (Nat.lt_of_le_of_lt count (room known))
  obtain ⟨cleared, heldFirst⟩ := spec.first rfl g.copies (.inr hasRoom)
  refine ⟨?_, ?_, ?_, ?_⟩
  · rw [cleared, Vol.setFat_fat, Function.update_self]
    rfl
  · intro other inside member
    rcases Finset.mem_insert.mp member with same | old
    · rw [fatSector_congr inside here.entry same]
      exact heldFirst
    · exact holding.kept (budget.first other inside old)
  · intro other inside member
    rcases Finset.mem_insert.mp member with same | old
    · -- Either every copy was written, or the table is full now.
      cases ok : (fs.fatSetNextCluster cluster 0).1 with
      | true =>
        left
        intro copy known
        rw [fatSector_congr inside here.entry same]
        simpa using spec.done ok copy known
      | false => exact .inr (spec.refused ok).2
    · rcases budget.all other inside old with held | full
      · exact .inl (held.mono spec.within)
      · exact .inr (Nat.le_trans full (held_length_mono busy.distinct holding.kept))
  · have once := holding.distinct busy.distinct
    by_cases known : fatIndex cluster ∈ seen
    · rw [Finset.insert_eq_of_mem known]
      rcases budget.all cluster here.entry known with held | full
      · -- Nothing is held now that was not.
        refine Nat.le_trans (held_length_mono once ?_) count
        intro lba member
        rcases mem_append.mp (spec.held member) with old | copied
        · exact old
        · obtain ⟨copy, inRange, rfl⟩ := mem_map.mp copied
          simpa using held copy (mem_range.mp inRange)
      · exact Nat.le_trans (held_length_le _) (Nat.le_trans full count)
    · rw [Finset.card_insert_of_notMem known, Nat.mul_add_one]
      have grown := held_length_mono once spec.held
      rw [length_append, length_map, length_range] at grown
      omega

/-- With room for the first copy of every sector, freeing a chain frees all its clusters. -/
theorem Frees.roomy (frees : Frees g fs chain after) (budget : Budget g fs start seen)
    (room : start + g.layout.numFats.toNat * ((seen ∪ fatSectors chain).card - 1) < maxTxnBlocks) :
    ∀ cluster ∈ chain, (after.vol g).fat cluster = 0 := by
  induction frees generalizing seen with
  | done => simp
  | @step _ _ first rest busy here once onward ih =>
    have sectors : seen ∪ fatSectors (first :: rest)
        = insert (fatIndex first) seen ∪ fatSectors rest := by
      simp [fatSectors, Finset.insert_union, Finset.union_insert]
    -- A sector not seen yet is one that the bound still counts.
    have roomHere : fatIndex first ∉ seen →
        start + g.layout.numFats.toNat * seen.card < maxTxnBlocks := by
      intro fresh
      have more : seen.card + 1 ≤ (seen ∪ fatSectors (first :: rest)).card := by
        rw [← Finset.card_insert_of_notMem fresh, sectors]
        exact Finset.card_le_card Finset.subset_union_left
      have bound := Nat.mul_le_mul_left g.layout.numFats.toNat (Nat.le_sub_of_add_le more)
      omega
    obtain ⟨cleared, budget1⟩ := budget.step busy here roomHere
    rw [sectors] at room
    intro node member
    rcases mem_cons.mp member with rfl | member
    · rw [onward.spec.2.2 node once, cleared]
    · exact ih budget1 room node member

/-- A full table that lacks the first copy's sector refuses to set the link at all. -/
theorem fatSetNextCluster_full (busy : Busy g fs) (inside : cluster.toNat < g.entries)
    (value : UInt32) (missing : g.layout.fatSector 0 cluster ∉ fs.js.held)
    (full : maxTxnBlocks ≤ fs.js.held.length) :
    fs.fatSetNextCluster cluster value = (false, fs) := by
  obtain ⟨left, count⟩ := Nat.exists_eq_add_of_le' g.copies
  rw [Fs.fatSetNextCluster, busy.layout, count, Fs.setCopies, busy.layout,
    readFatSector_eq busy.ready inside g.copies]
  rcases writeSector_cases busy.opened (g.layout.fatSector 0 cluster)
      (Fs.setLink (fs.view (g.layout.fatSector 0 cluster)).val (Layout.entOffset cluster) value)
    with ⟨next, _, _, _, grown⟩ | ⟨refused, _⟩
  · have more := congrArg length grown
    rw [if_neg missing, length_append, length_singleton] at more
    have bound := held_length_le next.js
    omega
  · simp only [busy.layout, refused]

/-- How much of the transaction's table the sectors of the FAT seen so far have taken. -/
structure Crowd (g : Geometry) (fs : Fs) (start : Nat) (seen : Finset Nat) : Prop where
  unseen : ∀ cluster : UInt32, cluster.toNat < g.entries → fatIndex cluster ∉ seen →
    ∀ copy < g.layout.numFats.toNat, g.layout.fatSector copy cluster ∉ fs.js.held
  count : start + g.layout.numFats.toNat * seen.card ≤ fs.js.held.length ∨
    maxTxnBlocks ≤ fs.js.held.length

/-- A step of freeing takes all copies of a sector not seen before, or fills the table. -/
theorem Crowd.step (busy : Busy g fs) (crowd : Crowd g fs start seen) (here : g.Valid cluster) :
    Crowd g (fs.fatSetNextCluster cluster 0).2 start (insert (fatIndex cluster) seen) := by
  have spec := fatSetNextCluster_any busy here.entry 0
  have grown := held_length_mono busy.distinct spec.within.holding.kept
  constructor
  · intro other inside fresh copy member held
    rw [Finset.mem_insert, not_or] at fresh
    rcases mem_append.mp (spec.held held) with old | new
    · exact crowd.unseen other inside fresh.2 copy member old
    · obtain ⟨copy', inRange, same⟩ := mem_map.mp new
      rw [Nat.zero_add] at same
      exact fresh.1
        (Geometry.fatSector_inj here.entry inside (mem_range.mp inRange) member same).2.symm
  · rcases crowd.count with count | full
    · by_cases known : fatIndex cluster ∈ seen
      · rw [Finset.insert_eq_of_mem known]
        exact .inl (Nat.le_trans count grown)
      cases ok : (fs.fatSetNextCluster cluster 0).1 with
      | false => exact .inr (spec.refused ok).2
      | true => ?_
      left
      -- What was held and the copies are all held now, and are all different.
      let copies := (range g.layout.numFats.toNat).map (g.layout.fatSector · cluster)
      have apart : (fs.js.held ++ copies).Nodup := by
        refine nodup_append.mpr ⟨busy.distinct, ?_, ?_⟩
        · refine nodup_range.map_on ?_
          intro copy member copy' member' same
          exact (Geometry.fatSector_inj here.entry here.entry (mem_range.mp member)
            (mem_range.mp member') same).1
        · rintro lba old _ new rfl
          obtain ⟨copy, inRange, rfl⟩ := mem_map.mp new
          exact crowd.unseen cluster here.entry known copy (mem_range.mp inRange) old
      have inside : fs.js.held ++ copies ⊆ (fs.fatSetNextCluster cluster 0).2.js.held := by
        refine append_subset.mpr ⟨spec.within.holding.kept, ?_⟩
        intro lba member
        obtain ⟨copy, inRange, rfl⟩ := mem_map.mp member
        simpa using spec.done ok copy (mem_range.mp inRange)
      have length := held_length_mono apart inside
      rw [length_append, length_map, length_range] at length
      rw [Finset.card_insert_of_notMem known, Nat.mul_add_one]
      omega
    · exact .inr (Nat.le_trans full grown)

/-- Without room for the first copy of every sector, some cluster keeps its link. -/
theorem Frees.crowded (frees : Frees g fs chain after) (crowd : Crowd g fs start seen)
    (fresh : ¬ fatSectors chain ⊆ seen)
    (full : maxTxnBlocks
      ≤ start + g.layout.numFats.toNat * ((seen ∪ fatSectors chain).card - 1)) :
    ∃ cluster ∈ chain, (after.vol g).fat cluster = (fs.vol g).fat cluster := by
  induction frees generalizing seen with
  | done => simp [fatSectors] at fresh
  | @step fs _ first rest busy here once onward ih =>
    have cons : fatSectors (first :: rest) = insert (fatIndex first) (fatSectors rest) := by
      simp [fatSectors]
    rw [cons, Finset.union_insert, ← Finset.insert_union] at full
    by_cases last : fatSectors rest ⊆ insert (fatIndex first) seen
    · -- This is the last sector not seen before, and the table is full already.
      have new : fatIndex first ∉ seen := by
        intro known
        rw [Finset.insert_eq_of_mem known] at last
        exact fresh (cons ▸ Finset.insert_subset known last)
      rw [Finset.union_eq_left.mpr last, Finset.card_insert_of_notMem new,
        Nat.add_sub_cancel] at full
      have held : maxTxnBlocks ≤ fs.js.held.length :=
        crowd.count.elim (Nat.le_trans full) id
      have stuck := fatSetNextCluster_full busy here.entry 0
        (crowd.unseen first here.entry new 0 g.copies) held
      refine ⟨first, by simp, ?_⟩
      rw [onward.spec.2.2 first once, stuck]
    · obtain ⟨node, member, same⟩ := ih (crowd.step busy here) last full
      refine ⟨node, by simp [member], ?_⟩
      rw [same, (freeStep busy here).others node fun equal => once (equal ▸ member)]

end Room

end NovaOs.Fat
