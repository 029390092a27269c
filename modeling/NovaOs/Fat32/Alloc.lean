import NovaOs.Fat32.Access
import NovaOs.Lib.Chain

/-! Clusters taken from the free ones and given back, as changes of the FAT. -/

namespace NovaOs.Fat

open Function List

variable {cluster : UInt32} {g : Geometry}

/-- A link that ends a chain. -/
def Ends (cluster : UInt32) : Prop := endOfChain ≤ cluster

instance (cluster : UInt32) : Decidable (Ends cluster) :=
  inferInstanceAs (Decidable (endOfChain ≤ cluster))

/-- The clusters a chain goes through, from its first on. -/
abbrev Vol.Chain (v : Vol) : UInt32 → List UInt32 → Prop := Trail v.fat Ends

theorem not_ends : ¬ Ends cluster ↔ cluster < endOfChain := by
  rw [Ends, UInt32.not_le]

theorem Geometry.Valid.not_ends (valid : g.Valid cluster) : ¬ Ends cluster :=
  Fat.not_ends.mpr valid.lt_endOfChain

/-- A link of 28 bits is stored as it stands. -/
theorem and_linkMask (small : cluster.toNat < 2 ^ 28) : cluster &&& linkMask = cluster := by
  apply UInt32.toNat_inj.mp
  have mask : linkMask.toNat = 2 ^ 28 - 1 := rfl
  rw [UInt32.toNat_and, mask, Nat.and_two_pow_sub_one_eq_mod, Nat.mod_eq_of_lt small]

theorem Geometry.Valid.and_linkMask (valid : g.Valid cluster) : cluster &&& linkMask = cluster :=
  Fat.and_linkMask (Nat.lt_trans (Nat.lt_of_lt_of_le valid.2 g.limit_small) (by decide))

theorem endOfChain_and_linkMask : endOfChain &&& linkMask = endOfChain := by decide

/-- No cluster on a chain is marked free. -/
theorem Vol.Chain.fat_ne_zero {v : Vol} {first : UInt32} {chain : List UInt32}
    (trail : v.Chain first chain) (valid : ∀ c ∈ chain, g.Valid c) (member : cluster ∈ chain) :
    v.fat cluster ≠ 0 := by
  rcases trail.next_mem member with inside | ends
  · exact (valid _ inside).ne_zero
  · intro zero
    rw [zero] at ends
    exact absurd ends (by decide)

section Search

variable {g : Geometry} {fs : Fs} {cached : Option (UInt32 × Bytes)} {cluster : UInt32}

/-- The driver with another place to start looking from. -/
def Fs.hinted (fs : Fs) (hint : UInt32) : Fs := { fs with nextFreeClusterHint := hint }

theorem Within.hinted (fs : Fs) (hint : UInt32) : Within fs (fs.hinted hint) :=
  ⟨rfl, rfl, rfl, rfl, .refl _⟩

@[simp] theorem hinted_vol {hint : UInt32} : (fs.hinted hint).vol g = fs.vol g := rfl

theorem Busy.hinted (busy : Busy g fs) (hint : UInt32) : Busy g (fs.hinted hint) :=
  { busy with }

theorem totalEntries_toNat (g : Geometry) : g.layout.totalEntries.toNat = g.entries := by
  have small := g.entries_small
  simp only [Layout.totalEntries, sectorSize, UInt32.toNat_div, UInt32.toNat_mul,
    UInt32.toNat_ofNat', UInt32.reduceToNat, Nat.reducePow, Nat.reduceMod, Geometry.entries]
  omega

/-- A remembered FAT sector is the one that would be read. -/
def CacheOk (fs : Fs) (cached : Option (UInt32 × Bytes)) : Prop :=
  ∀ lba buf, cached = some (lba, buf) → buf = (fs.view lba).val

theorem cachedSector_eq (ready : Ready g fs) (known : CacheOk fs cached)
    (inside : cluster.toNat < g.entries) :
    fs.cachedSector cached (g.layout.fatSector 0 cluster)
      = (some (fs.view (g.layout.fatSector 0 cluster)).val, fs) := by
  have fresh := readFatSector_eq ready inside g.copies
  cases cached with
  | none => exact fresh
  | some entry => ?_
  obtain ⟨lba, buf⟩ := entry
  simp only [Fs.cachedSector]
  split
  · rename_i same
    rw [known lba buf rfl, eq_of_beq same]
  · exact fresh

/-- A pass over entries changes at most the hint, what it finds is free, and when it finds nothing
nothing it went over was. -/
theorem scanFree_spec (ready : Ready g fs) (known : CacheOk fs cached) {left : Nat}
    (inside : cluster.toNat + left ≤ g.entries) :
    (fs.scanFree cached cluster left = (.none, fs) ∧
        ∀ other : UInt32, cluster.toNat ≤ other.toNat → other.toNat < cluster.toNat + left →
          (fs.vol g).fat other ≠ 0) ∨
      ∃ found, fs.scanFree cached cluster left = (.free found, fs.hinted (found + 1)) ∧
        cluster.toNat ≤ found.toNat ∧ found.toNat < g.entries ∧ (fs.vol g).fat found = 0 := by
  induction left generalizing cached cluster with
  | zero => exact .inl ⟨rfl, fun _ low high => by omega⟩
  | succ left ih =>
    have here : cluster.toNat < g.entries := by omega
    have link : getU32Le (fs.view (g.layout.fatSector 0 cluster)).val (Layout.entOffset cluster)
        &&& linkMask = (fs.vol g).fat cluster := (volOf_fat here).symm
    simp only [Fs.scanFree, ready.layout, cachedSector_eq ready known here, link]
    by_cases free : (fs.vol g).fat cluster = 0
    · right
      refine ⟨cluster, ?_, Nat.le_refl _, here, free⟩
      simp only [free, beq_self_eq_true, if_true]
      simp only [Fs.hinted, ready.layout]
    -- The sector just read is remembered for the entries after this one.
    have remembered : CacheOk fs (some (g.layout.fatSector 0 cluster,
        (fs.view (g.layout.fatSector 0 cluster)).val)) := by
      rintro lba buf ⟨⟩
      rfl
    have small := g.entries_small
    have next : (cluster + 1).toNat = cluster.toNat + 1 := by
      simp only [Geometry.entries] at here
      simp only [UInt32.toNat_add, UInt32.toNat_one]
      omega
    simp only [beq_eq_false_iff_ne.mpr free, Bool.false_eq_true, if_false]
    rcases ih remembered (by omega : (cluster + 1).toNat + left ≤ g.entries) with
      ⟨none, taken⟩ | ⟨found, run, low, high, zero⟩
    · refine .inl ⟨none, fun other low high => ?_⟩
      by_cases first : other = cluster
      · exact first ▸ free
      · have apart := mt UInt32.toNat_inj.mp first
        exact taken other (by omega) (by omega)
    · exact .inr ⟨found, run, by omega, high, zero⟩

/-- Where the search starts: at the hint if it is the number of a cluster, else at the first. -/
theorem start_bounds (hint total : UInt32) (big : 2 ≤ total.toNat) :
    2 ≤ (if hint < 2 || total ≤ hint then (2 : UInt32) else hint).toNat ∧
      (if hint < 2 || total ≤ hint then (2 : UInt32) else hint).toNat ≤ total.toNat := by
  split
  · exact ⟨Nat.le_refl _, big⟩
  · rename_i sane
    simp only [Bool.or_eq_true, decide_eq_true_eq, not_or, UInt32.not_lt, UInt32.not_le] at sane
    exact ⟨UInt32.le_iff_toNat_le.mp sane.1, Nat.le_of_lt (UInt32.lt_iff_toNat_lt.mp sane.2)⟩

/-- The search returns a free entry, or zero when there is none, and changes at most the hint. -/
theorem findFreeCluster_spec (ready : Ready g fs) :
    ∃ cluster hint, fs.findFreeCluster = (cluster, fs.hinted hint) ∧
      (cluster ≠ 0 →
        2 ≤ cluster.toNat ∧ cluster.toNat < g.entries ∧ (fs.vol g).fat cluster = 0) ∧
      (cluster = 0 → ∀ other : UInt32, 2 ≤ other.toNat → other.toNat < g.entries →
        (fs.vol g).fat other ≠ 0) := by
  have total := totalEntries_toNat g
  have some_entries : 2 ≤ g.entries := Nat.le_trans g.limit_low g.limit_entries
  have nothing : CacheOk fs none := by rintro lba buf ⟨⟩
  obtain ⟨low, high⟩ := start_bounds fs.nextFreeClusterHint g.layout.totalEntries (by omega)
  simp only [Fs.findFreeCluster, ready.layout]
  generalize (if fs.nextFreeClusterHint < 2 || g.layout.totalEntries ≤ fs.nextFreeClusterHint
    then (2 : UInt32) else fs.nextFreeClusterHint) = start at low high
  -- The first pass goes from the start to the end, the second from the first cluster to the start.
  rcases scanFree_spec ready nothing
      (by omega : start.toNat + (g.layout.totalEntries.toNat - start.toNat) ≤ g.entries) with
    ⟨none, upper⟩ | ⟨found, run, above, below, zero⟩
  · have two : (2 : UInt32).toNat = 2 := rfl
    rcases scanFree_spec ready nothing
        (by omega : (2 : UInt32).toNat + (start.toNat - 2) ≤ g.entries) with
      ⟨none', lower⟩ | ⟨found, run, above, below, zero⟩
    · refine ⟨0, fs.nextFreeClusterHint, by simp only [none, none']; rfl, by simp, ?_⟩
      intro _ other first last
      by_cases early : other.toNat < start.toNat
      · exact lower other first (by omega)
      · exact upper other (by omega) (by omega)
    · exact ⟨found, found + 1, by simp only [none, run], fun _ => ⟨above, below, zero⟩,
        fun gone => absurd above (by rw [gone]; decide)⟩
  · exact ⟨found, found + 1, by simp only [run], fun _ => ⟨by omega, below, zero⟩,
      fun gone => absurd (Nat.le_trans low above) (by rw [gone]; decide)⟩

end Search

section Allocation

variable {g : Geometry} {fs after : Fs} {cluster first result : UInt32} {base : Vol}
  {earlier : List UInt32} {prev : UInt32} {left : Nat}

/-- Every free entry stands for a cluster of the volume. -/
def Reserved (g : Geometry) (v : Vol) : Prop :=
  ∀ cluster : UInt32, 2 ≤ cluster.toNat → cluster.toNat < g.entries → v.fat cluster = 0 →
    g.Valid cluster

/-- A chain made of clusters that were free, and nothing else touched. -/
structure Allocated (g : Geometry) (base v : Vol) (first : UInt32) (chain : List UInt32) :
    Prop where
  data : ∀ cluster, cluster ∉ chain → v.data cluster = base.data cluster
  others : ∀ cluster, cluster ∉ chain → v.fat cluster = base.fat cluster
  free : ∀ cluster ∈ chain, g.Valid cluster ∧ base.fat cluster = 0
  trail : v.Chain first chain

namespace Allocated

variable {base v : Vol} {first : UInt32} {chain : List UInt32}

variable (taken : Allocated g base v first chain)

include taken

theorem valid : ∀ c ∈ chain, g.Valid c :=
  fun c member => (taken.free c member).1

/-- A cluster that was in use was not taken. -/
theorem apart {c : UInt32} (used : base.fat c ≠ 0) : c ∉ chain :=
  fun member => used (taken.free c member).2

theorem reserved (reserved : Reserved g base) : Reserved g v := by
  intro cluster low high zero
  by_cases member : cluster ∈ chain
  · exact taken.valid cluster member
  · exact reserved cluster low high (taken.others cluster member ▸ zero)

/-- Other chains are still there. -/
theorem other_trail {start : UInt32} {nodes : List UInt32} (trail : base.Chain start nodes)
    (valid : ∀ c ∈ nodes, g.Valid c) : v.Chain start nodes :=
  trail.congr fun c member => taken.others c (taken.apart (trail.fat_ne_zero valid member))

/-- So they are, and so is the new one, once its clusters have been written to. -/
theorem filled {after : Vol} (links : after.fat = v.fat)
    (data : ∀ c, c ∉ chain → after.data c = v.data c) : Allocated g base after first chain where
  data c apart := (data c apart).trans (taken.data c apart)
  others c apart := links ▸ taken.others c apart
  free := taken.free
  trail := by
    rw [Vol.Chain, links]
    exact taken.trail

end Allocated

/-- Taking one more free cluster and ending a chain there. -/
theorem takeCluster (busy : Busy g fs) (reserved : Reserved g (fs.vol g)) {found : Fs}
    (search : fs.findFreeCluster = (cluster, found)) (some_cluster : cluster ≠ 0)
    (set : found.fatSetNextCluster cluster endOfChain = (true, after)) :
    Within fs after ∧ after.vol g = (fs.vol g).setFat cluster endOfChain ∧
      g.Valid cluster ∧ (fs.vol g).fat cluster = 0 ∧ HeldEntry g after cluster := by
  obtain ⟨cluster', hint, run, free, _⟩ := findFreeCluster_spec busy.ready
  obtain ⟨rfl, rfl⟩ : cluster' = cluster ∧ fs.hinted hint = found := by
    simpa [run] using search
  obtain ⟨low, high, zero⟩ := free some_cluster
  obtain ⟨within, changed, held⟩ := fatSetNextCluster_true (busy.hinted hint) high set
  rw [endOfChain_and_linkMask, hinted_vol] at changed
  exact ⟨(Within.hinted fs hint).trans within, changed, reserved cluster' low high zero, zero, held⟩

/-- A cluster just taken, alone, is a chain. -/
theorem Allocated.one {v : Vol} (valid : g.Valid cluster) (zero : v.fat cluster = 0) :
    Allocated g v (v.setFat cluster endOfChain) cluster [cluster] where
  data _ _ := rfl
  others := by
    intro other apart
    exact update_of_ne (by simpa using apart) _ _
  free := by
    intro other member
    cases mem_singleton.mp member
    exact ⟨valid, zero⟩
  trail := by
    refine ⟨rfl, valid.not_ends, ?_⟩
    rw [Vol.setFat_fat, update_self]
    exact UInt32.le_refl _

/-- A cluster just taken and linked to the last one makes the chain one longer. -/
theorem Allocated.snoc {v : Vol} {last : UInt32}
    (allocated : Allocated g base v first (earlier ++ [last])) (valid : g.Valid cluster)
    (zero : v.fat cluster = 0) :
    Allocated g base ((v.setFat cluster endOfChain).setFat last cluster) first
      (earlier ++ [last, cluster]) := by
  have trail := allocated.trail
  -- A cluster that is free is on no chain.
  have fresh : cluster ∉ earlier ++ [last] := fun member =>
    trail.fat_ne_zero (fun c inside => (allocated.free c inside).1) member zero
  simp only [mem_append, mem_singleton, not_or] at fresh
  have single := trail.nodup
  have once : last ∉ earlier := by
    simp only [nodup_append, mem_singleton] at single
    exact fun member => single.2.2 last member last rfl rfl
  refine ⟨fun other apart => ?_, ?_, ?_, ?_⟩
  · exact allocated.data other fun inside => apart (by simp_all)
  · intro other apart
    simp only [mem_append, mem_cons, not_mem_nil, or_false, not_or] at apart
    simp only [Vol.setFat_fat]
    rw [update_of_ne apart.2.1, update_of_ne apart.2.2]
    exact allocated.others other (by simp [apart.1, apart.2.1])
  · intro other member
    by_cases new : other = cluster
    · subst new
      have same := allocated.others other (by simp [fresh.1, fresh.2])
      exact ⟨valid, same ▸ zero⟩
    · refine allocated.free other ?_
      simpa [new] using member
  · apply Trail.extend trail
    · intro node member
      have notLast : node ≠ last := fun same => once (same ▸ member)
      have notNew : node ≠ cluster := fun same => fresh.1 (same ▸ member)
      simp only [Vol.setFat_fat]
      rw [update_of_ne notLast, update_of_ne notNew]
    · simp only [Vol.setFat_fat, update_self]
      refine ⟨rfl, valid.not_ends, ?_⟩
      rw [update_of_ne fresh.2, update_self]
      exact UInt32.le_refl _

/-- A step of the loop that does not give up has found a cluster and marked it. -/
theorem allocClusters_succ (run : fs.allocClusters first prev (left + 1) = (result, after))
    (some_result : result ≠ 0) :
    ∃ cluster found marked, fs.findFreeCluster = (cluster, found) ∧ cluster ≠ 0 ∧
      found.fatSetNextCluster cluster endOfChain = (true, marked) ∧
      (if first = 0 then marked.allocClusters cluster cluster left
        else (marked.fatSetNextCluster prev cluster).2.allocClusters first cluster left)
          = (result, after) := by
  rw [Fs.allocClusters] at run
  rcases search : fs.findFreeCluster with ⟨cluster, found⟩
  simp only [search] at run
  by_cases none : cluster = 0
  · simp only [none, beq_self_eq_true, if_true, Prod.mk.injEq] at run
    exact absurd run.1.symm some_result
  simp only [beq_eq_false_iff_ne.mpr none, Bool.false_eq_true, if_false] at run
  rcases set : found.fatSetNextCluster cluster endOfChain with ⟨ok, marked⟩
  cases ok with
  | false =>
    simp only [set, Prod.mk.injEq] at run
    exact absurd run.1.symm some_result
  | true =>
    refine ⟨cluster, found, marked, rfl, none, set, ?_⟩
    simpa only [set, beq_iff_eq] using run

/-- The loop that takes clusters makes the chain longer by as many as it was asked for. -/
theorem allocClusters_spec (busy : Busy g fs) (reserved : Reserved g base)
    (so_far : Allocated g base (fs.vol g) first (earlier ++ [prev]))
    (held : ∀ c ∈ earlier ++ [prev], HeldEntry g fs c) (some_first : first ≠ 0)
    (run : fs.allocClusters first prev left = (result, after)) (some_result : result ≠ 0) :
    ∃ chain, chain.length = earlier.length + 1 + left ∧ Within fs after ∧
      Allocated g base (after.vol g) result chain ∧ ∀ c ∈ chain, HeldEntry g after c := by
  induction left generalizing fs prev earlier with
  | zero =>
    cases run
    exact ⟨earlier ++ [prev], by simp, .refl _, so_far, held⟩
  | succ left ih =>
    obtain ⟨cluster, found, marked, search, some_cluster, set, rest⟩ :=
      allocClusters_succ run some_result
    rw [if_neg some_first] at rest
    obtain ⟨within, changed, valid, zero, heldNew⟩ :=
      takeCluster busy (so_far.reserved reserved) search some_cluster set
    -- The last cluster's entry was written in this transaction, so linking it cannot fail.
    have validPrev := (so_far.free prev (by simp)).1
    have busyMarked := within.busy busy
    have linked := fatSetNextCluster_of_held busyMarked validPrev.entry cluster
      ((held prev (by simp)).mono within)
    obtain ⟨withinLink, changedLink, _⟩ :=
      fatSetNextCluster_true busyMarked validPrev.entry
        (Prod.ext linked rfl : marked.fatSetNextCluster prev cluster = (true, _))
    rw [valid.and_linkMask, changed] at changedLink
    have longer : Allocated g base ((marked.fatSetNextCluster prev cluster).2.vol g) first
        ((earlier ++ [prev]) ++ [cluster]) := by
      rw [changedLink, append_assoc]
      exact so_far.snoc valid zero
    have heldAll : ∀ c ∈ (earlier ++ [prev]) ++ [cluster],
        HeldEntry g (marked.fatSetNextCluster prev cluster).2 c := by
      intro c member
      rcases mem_append.mp member with old | new
      · exact (held c old).mono (within.trans withinLink)
      · exact mem_singleton.mp new ▸ heldNew.mono withinLink
    obtain ⟨chain, length, withinRest, allocated⟩ :=
      ih (withinLink.busy busyMarked) longer heldAll rest
    refine ⟨chain, ?_, within.trans (withinLink.trans withinRest), allocated⟩
    simp only [length_append, length_singleton] at length
    omega

/-- A chain asked for and returned is that long, and made of clusters that were free; the sectors
with its links are all held. -/
theorem allocClusterChain_spec (busy : Busy g fs) (reserved : Reserved g (fs.vol g)) {count : Nat}
    (run : fs.allocClusterChain count = (result, after)) (some_result : result ≠ 0) :
    ∃ chain, chain.length = count ∧ 0 < count ∧ Within fs after ∧
      Allocated g (fs.vol g) (after.vol g) result chain ∧ ∀ c ∈ chain, HeldEntry g after c := by
  cases count with
  | zero =>
    cases run
    exact absurd rfl some_result
  | succ count => ?_
  have start : fs.allocClusters 0 0 (count + 1) = (result, after) := run
  obtain ⟨cluster, found, marked, search, some_cluster, set, rest⟩ :=
    allocClusters_succ start some_result
  rw [if_pos rfl] at rest
  obtain ⟨within, changed, valid, zero, held⟩ :=
    takeCluster busy reserved search some_cluster set
  have one : Allocated g (fs.vol g) (marked.vol g) cluster ([] ++ [cluster]) := by
    rw [changed]
    exact .one valid zero
  obtain ⟨chain, length, withinRest, allocated⟩ :=
    allocClusters_spec (within.busy busy) reserved one
      (fun c member => mem_singleton.mp member ▸ held) some_cluster rest some_result
  refine ⟨chain, ?_, by omega, within.trans withinRest, allocated⟩
  simp only [length_nil] at length
  omega

end Allocation

section Freeing

variable {g : Geometry} {fs after : Fs} {first : UInt32} {chain clusters : List UInt32}

/-- One step of freeing: the link of the first cluster is cleared or not, and no other is
touched. -/
structure FreeStep (g : Geometry) (fs next : Fs) (first : UInt32) : Prop where
  within : Within fs next
  data : (next.vol g).data = (fs.vol g).data
  others : ∀ other, other ≠ first → (next.vol g).fat other = (fs.vol g).fat other

theorem freeStep (busy : Busy g fs) (here : g.Valid first) :
    FreeStep g fs (fs.fatSetNextCluster first 0).2 first := by
  have spec := fatSetNextCluster_any busy here.entry 0
  refine ⟨spec.within, ?_, fun other apart => ?_⟩
  · rcases spec.vol with same | ⟨_, changed⟩
    · rw [same]
    · rw [changed, Vol.setFat_data]
  · rcases spec.vol with same | ⟨_, changed⟩
    · rw [same]
    · rw [changed, Vol.setFat_fat, update_of_ne apart]

/-- The clusters of a chain are freed one after another. Whether a link could be cleared is not
looked at. -/
inductive Frees (g : Geometry) : Fs → List UInt32 → Fs → Prop
  | done {fs : Fs} : Frees g fs [] fs
  | step {fs after : Fs} {first : UInt32} {rest : List UInt32} (busy : Busy g fs)
      (here : g.Valid first) (once : first ∉ rest)
      (onward : Frees g (fs.fatSetNextCluster first 0).2 rest after) :
      Frees g fs (first :: rest) after

/-- The loop frees the chain that it is given the first cluster of, with fuel for all of it. -/
theorem freeClusters_frees (busy : Busy g fs) (trail : (fs.vol g).Chain first chain)
    (valid : ∀ c ∈ chain, g.Valid c) (fuel : Nat) :
    ∃ after, Frees g fs chain after ∧
      Fs.freeClusters fuel fs first = if chain.length < fuel then some after else none := by
  induction chain generalizing fs first fuel with
  | nil =>
    have last : ¬ first < endOfChain := fun going => not_ends.mpr going trail
    refine ⟨fs, .done, ?_⟩
    cases fuel with
    | zero => rfl
    | succ fuel => simp [Fs.freeClusters, last]
  | cons cluster rest ih =>
    obtain rfl := trail.1
    have here := valid first (by simp)
    have once : first ∉ rest := (nodup_cons.mp trail.nodup).1
    have step := freeStep busy here
    have remaining : ((fs.fatSetNextCluster first 0).2.vol g).Chain ((fs.vol g).fat first) rest :=
      trail.2.2.congr fun node member => step.others node fun same => once (same ▸ member)
    obtain ⟨after, frees, run⟩ := ih (step.within.busy busy) remaining
      (fun node member => valid node (by simp [member])) (fuel - 1)
    refine ⟨after, .step busy here once frees, ?_⟩
    cases fuel with
    | zero => rfl
    | succ fuel =>
      have low : 2 ≤ first := UInt32.le_iff_toNat_le.mpr here.1
      simp only [Fs.freeClusters, low, here.lt_endOfChain, decide_true, Bool.and_self, if_true,
        fatNextCluster_eq busy.ready here.entry, length_cons, Nat.add_lt_add_iff_right]
      exact run

/-- Freeing starts by perhaps moving the hint. -/
theorem freeClusterChain_frees (busy : Busy g fs)
    (trail : first = 0 ∧ clusters = [] ∨ (fs.vol g).Chain first clusters)
    (valid : ∀ c ∈ clusters, g.Valid c) (fuel : Nat) :
    ∃ hint after, Frees g (fs.hinted hint) clusters after ∧
      fs.freeClusterChain fuel first = if clusters.length < fuel then some after else none := by
  obtain ⟨hint, start⟩ : ∃ hint,
      fs.freeClusterChain fuel first = Fs.freeClusters fuel (fs.hinted hint) first := by
    rw [Fs.freeClusterChain]
    split
    · exact ⟨first, rfl⟩
    · exact ⟨fs.nextFreeClusterHint, rfl⟩
  rw [start]
  rcases trail with ⟨rfl, rfl⟩ | trail
  · -- There is no chain, and the loop ends before its first step.
    refine ⟨hint, _, .done, ?_⟩
    cases fuel <;> rfl
  · exact ⟨hint, freeClusters_frees (busy.hinted hint) trail valid fuel⟩

theorem freeClusterChain_inv (busy : Busy g fs)
    (trail : first = 0 ∧ clusters = [] ∨ (fs.vol g).Chain first clusters)
    (valid : ∀ c ∈ clusters, g.Valid c) {fuel : Nat}
    (run : fs.freeClusterChain fuel first = some after) :
    ∃ hint, Frees g (fs.hinted hint) clusters after := by
  obtain ⟨hint, _, frees, freed⟩ := freeClusterChain_frees busy trail valid fuel
  rw [freed] at run
  split at run
  · cases run
    exact ⟨hint, frees⟩
  · cases run

/-- Freeing a chain touches no link but its own. -/
theorem Frees.spec (frees : Frees g fs chain after) :
    Within fs after ∧ (after.vol g).data = (fs.vol g).data ∧
      ∀ cluster, cluster ∉ chain → (after.vol g).fat cluster = (fs.vol g).fat cluster := by
  induction frees with
  | done => exact ⟨.refl _, rfl, fun _ _ => rfl⟩
  | step busy here _ _ ih =>
    have step := freeStep busy here
    refine ⟨step.within.trans ih.1, ih.2.1.trans step.data, fun other apart => ?_⟩
    simp only [mem_cons, not_or] at apart
    rw [ih.2.2 other apart.2, step.others other apart.1]

end Freeing

end NovaOs.Fat
