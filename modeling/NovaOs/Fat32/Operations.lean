import NovaOs.Fat32.Room
import NovaOs.Fat32.Transfer

/-! What a write and a delete make of the files a volume holds, up to the end of their
transaction. -/

namespace NovaOs.Fat

open Function List

variable {g : Geometry} {fs after : Fs} {root : List UInt32} {chain : Loc → List UInt32}

section Slots

/-- A place found for a new entry, the directory perhaps one cluster longer. -/
structure Slot (g : Geometry) (v later : Vol) (root root' : List UInt32)
    (chain : Loc → List UInt32) (loc : Loc) : Prop where
  chained : Chained g later root' chain
  split : ∃ before behind, locs g root' = before ++ loc :: behind ∧
    ∀ a ∈ before, ¬ later.Ended a
  free : ¬ later.Live loc
  live : ∀ other ∈ locs g root', later.Live other → other ∈ locs g root ∧ v.Live other
  keeps : root ⊆ root'
  grown : ∀ c ∈ root', c ∈ root ∨ v.fat c = 0
  fat : ∀ c, c ∉ root' → later.fat c = v.fat c
  data : ∀ c, v.fat c ≠ 0 → later.data c = v.data c

theorem entriesPerCluster_pos (g : Geometry) : 0 < g.layout.entriesPerCluster := by
  have positive := g.cluster_size.1
  simp only [Layout.entriesPerCluster, Layout.clusterBytes, sectorSize, direntSize]
  omega

/-- The places of a cluster start with its first entry. -/
theorem locsIn_first (g : Geometry) (cluster : UInt32) :
    ∃ behind, locs g [cluster] = (cluster, 0) :: behind := by
  have positive := entriesPerCluster_pos g
  obtain ⟨count, same⟩ := Nat.exists_eq_add_of_lt positive
  rw [Nat.zero_add] at same
  refine ⟨(range' 1 count).map fun i => (cluster, i), ?_⟩
  simp [locs, locsIn, same, range_eq_range', range'_succ]

theorem extendDirectory_some (busy : Busy g fs)
    (chained : Chained g (fs.vol g) root chain) {earlier : List UInt32} {last : UInt32}
    (split : root = earlier ++ [last]) (full : ∀ loc ∈ locs g root, ¬ (fs.vol g).Ended loc)
    {loc : Loc} (run : extendDirectory fs last = (some loc, after)) :
    Within fs after ∧
      ∃ new, Slot g (fs.vol g) (after.vol g) root (root ++ [new]) chain loc := by
  have lastIn : last ∈ root := by simp [split]
  have validLast := chained.root_valid last lastIn
  rw [extendDirectory] at run
  rcases alloc : fs.allocClusterChain 1 with ⟨new, allocated⟩
  simp only [alloc] at run
  by_cases none : new = 0
  · simp only [none, beq_self_eq_true, if_true] at run
    cases run
  simp only [beq_eq_false_iff_ne.mpr none, Bool.false_eq_true, if_false] at run
  obtain ⟨chosen, length, _, within, taken, _⟩ :=
    allocClusterChain_spec busy chained.reserved alloc none
  -- A chain of one cluster is that cluster.
  obtain ⟨single, rfl⟩ := length_eq_one_iff.mp length
  obtain ⟨rfl, _, ends⟩ := taken.trail
  obtain ⟨valid, zero⟩ := taken.free new (by simp)
  have busy1 := within.busy busy
  cases wrote : allocated.writeCluster new
      (replicate allocated.layout.clusterBytes 0) with
  | mk ok blanked =>
    simp only [wrote] at run
    cases ok with
    | false => cases run
    | true => ?_
    rw [busy1.layout] at wrote
    obtain ⟨within2, changed, _⟩ := writeCluster_true busy1 valid
      (by simp [Layout.clusterBytes, Geometry.spc]) wrote
    have busy2 := within2.busy busy1
    rcases linked : blanked.fatSetNextCluster last new with ⟨ok, linkedFs⟩
    simp only [linked] at run
    cases ok with
    | false => cases run
    | true => ?_
    cases run
    obtain ⟨within3, link, _⟩ := fatSetNextCluster_true busy2 validLast.entry linked
    rw [valid.and_linkMask] at link
    have apart : new ≠ last := by
      rintro rfl
      exact chained.root_used lastIn zero
    have fatNew : (after.vol g).fat new = (allocated.vol g).fat new := by
      rw [link, Vol.setFat_fat, update_of_ne apart, changed, Vol.setData_fat]
    have fatLast : (after.vol g).fat last = new := by
      rw [link, Vol.setFat_fat, update_self]
    have fatOther : ∀ c, c ≠ last → c ≠ new →
        (after.vol g).fat c = (fs.vol g).fat c := by
      intro c notLast notNew
      rw [link, Vol.setFat_fat, update_of_ne notLast, changed, Vol.setData_fat]
      exact taken.others c (by simpa using notNew)
    have dataNew : (after.vol g).data new
        = replicate g.layout.clusterBytes 0 := by
      rw [link, Vol.setFat_data, changed, Vol.setData_data, update_self]
    have dataOther : ∀ c, c ≠ new → (after.vol g).data c = (fs.vol g).data c := by
      intro c notNew
      rw [link, Vol.setFat_data, changed, Vol.setData_data, update_of_ne notNew]
      exact taken.data c (by simpa using notNew)
    have notNew : ∀ c, (fs.vol g).fat c ≠ 0 → c ≠ new := by
      rintro c used rfl
      exact used zero
    have reserved : Reserved g (after.vol g) := by
      intro c low high free
      by_cases isNew : c = new
      · exact isNew ▸ valid
      · by_cases isLast : c = last
        · exact isLast ▸ validLast
        · exact chained.reserved c low high (fatOther c isLast isNew ▸ free)
    have blank : ∀ i, (after.vol g).Ended (new, i) := ended_of_blank dataNew
    have grown := chained.grow split full valid zero
      (fun c notLast used => fatOther c notLast (notNew c used)) fatLast
      (by rw [fatNew]; exact ends) (fun c used => dataOther c (notNew c used))
      (fun i _ => blank i) reserved
    obtain ⟨behind, first⟩ := locsIn_first g new
    have entry : ∀ a ∈ locs g root, (after.vol g).entry a = (fs.vol g).entry a :=
      fun a member => Chained.entry_congr
        (dataOther _ (notNew _ (chained.root_used (mem_locs.mp member).1)))
    refine ⟨within.trans (within2.trans within3), new, grown, ?_, ?_, ?_, ?_, ?_, ?_, ?_⟩
    · refine ⟨locs g root, behind, by rw [locs_append, first], ?_⟩
      intro a member
      rw [Vol.Ended, entry a member]
      exact full a member
    · exact fun live => live.1 (blank 0)
    · rintro ⟨cluster, i⟩ member live
      rw [locs_append] at member
      rcases mem_append.mp member with old | fresh
      · rw [Vol.Live, entry _ old] at live
        exact ⟨old, live⟩
      · obtain rfl : cluster = new := mem_singleton.mp (mem_locs.mp fresh).1
        exact absurd (blank i) live.1
    · exact subset_append_left _ _
    · intro c member
      rcases mem_append.mp member with old | fresh
      · exact .inl old
      · exact .inr (mem_singleton.mp fresh ▸ zero)
    · intro c outside
      simp only [mem_append, mem_singleton, not_or] at outside
      exact fatOther c (fun same => outside.1 (same ▸ lastIn)) outside.2
    · exact fun c used => dataOther c (notNew c used)

/-- What a search for a free place comes to: one that is found, none behind an unreadable cluster,
or an attempt to grow the directory behind its last cluster. -/
theorem findFreeSlot_cases (ready : Ready g fs) (trail : (fs.vol g).Chain g.layout.rootCluster root)
    (some_root : root ≠ []) (valid : ∀ c ∈ root, g.Valid c) {fuel : Nat} {slot : Option Loc}
    (run : findFreeSlot fuel fs = some (slot, after)) :
    (∃ loc, firstHit visitFree (fs.vol g) (locs g root) = .found loc ∧ slot = some loc ∧
      after = fs) ∨
    slot = none ∧ after = fs ∨
    firstHit visitFree (fs.vol g) (locs g root) = .skip ∧
      ∃ earlier last, root = earlier ++ [last] ∧ extendDirectory fs last = (slot, after) := by
  rw [findFreeSlot, ready.layout] at run
  rcases walkChain_cases visitFree ready trail valid fuel g.layout.rootCluster with walk | ⟨_, walk⟩
  · rw [walk] at run
    cases hit : firstHit visitFree (fs.vol g) (locs g root) with
    | found loc =>
      rw [hit] at run
      cases run
      exact .inl ⟨loc, rfl, rfl, rfl⟩
    | stop =>
      rw [hit] at run
      cases run
      exact .inr (.inl ⟨rfl, rfl⟩)
    | skip => ?_
    -- The walk names the last cluster of the directory.
    obtain ⟨earlier, last, split⟩ := (eq_nil_or_concat' root).resolve_left some_root
    have named : root.getLastD g.layout.rootCluster = last := by rw [split]; simp
    simp only [hit, walkEnd, named, Option.some.injEq] at run
    exact .inr (.inr ⟨rfl, earlier, last, split, run⟩)
  · rw [walk] at run
    cases run

/-- A place found by the driver is one where a new entry may go. -/
theorem findFreeSlot_some (busy : Busy g fs)
    (chained : Chained g (fs.vol g) root chain) {fuel : Nat} {loc : Loc}
    (run : findFreeSlot fuel fs = some (some loc, after)) :
    Within fs after ∧ ∃ root', Slot g (fs.vol g) (after.vol g) root root' chain loc := by
  rcases findFreeSlot_cases busy.ready chained.root_trail chained.root_some chained.root_valid run
    with ⟨found, hit, same, rfl⟩ | ⟨none, _⟩ | ⟨hit, earlier, last, split, grown⟩
  · obtain rfl := Option.some.inj same
    obtain ⟨before, behind, split, free, earlier⟩ := freeSlot_found hit
    exact ⟨.refl after, root, chained, ⟨before, behind, split, earlier⟩, free,
      fun _ placed live => ⟨placed, live⟩, Subset.refl _, fun c member => .inl member,
      fun _ _ => rfl, fun _ _ => rfl⟩
  · cases none
  · obtain ⟨within, new, slot⟩ := extendDirectory_some busy chained split (freeSlot_full hit) grown
    exact ⟨within, _, slot⟩

end Slots

section Entering

theorem locs_fits {loc : Loc} (place : loc ∈ locs g root) :
    loc.2 * direntSize + direntSize ≤ g.layout.clusterBytes := by
  have inside := (mem_locs.mp place).2
  simp only [Layout.entriesPerCluster, direntSize] at inside ⊢
  omega

/-- An entry put in a place is found there, and nowhere else anything changes. -/
theorem entry_setData {v : Vol} {loc : Loc} (place : loc ∈ locs g root) {entry : Bytes}
    (size : entry.length = direntSize) (width : (v.data loc.1).length = g.layout.clusterBytes) :
    (v.setData loc.1 (overwrite (v.data loc.1) (loc.2 * direntSize) entry)).entry loc = entry ∧
      ∀ other : Loc, other ≠ loc →
        (v.setData loc.1 (overwrite (v.data loc.1) (loc.2 * direntSize) entry)).entry other
          = v.entry other := by
  have fits := locs_fits place
  constructor
  · rw [Vol.entry, Vol.setData_data, update_self]
    exact direntAt_overwrite size (by omega)
  intro other apart
  by_cases same : other.1 = loc.1
  · have index : other.2 ≠ loc.2 := fun h => apart (Prod.ext same h)
    rw [Vol.entry, Vol.entry, Vol.setData_data, same, update_self]
    exact direntAt_overwrite_other size (by omega) index
  · exact Chained.entry_congr (update_of_ne same _ _)

/-- Claiming an entry for a chain no file has adds a file with that chain. -/
theorem enterFile_true (busy : Busy g fs)
    (chained : Chained g (fs.vol g) root chain) {rawName : Bytes} (length : rawName.length = 11)
    (named : rawName.getD 0 0 ≠ 0 ∧ rawName.getD 0 0 ≠ 0xE5)
    {first size : UInt32} {clusters : List UInt32} (trail : (fs.vol g).Chain first clusters)
    (valid : ∀ c ∈ clusters, g.Valid c) (fresh_root : ∀ c ∈ clusters, c ∉ root)
    (fresh : ∀ loc ∈ locs g root, (fs.vol g).Live loc → ∀ c ∈ clusters, c ∉ chain loc)
    {fuel : Nat} (run : enterFile fuel fs rawName first size = some (true, after)) :
    ∃ root' loc, Within fs after ∧
      Chained g (after.vol g) root' (update chain loc clusters) ∧
      Added g (fs.vol g) (after.vol g) root root' chain (update chain loc clusters) loc ∧
      (after.vol g).entry loc = newDirent rawName first size ∧
      (∀ c, c ∉ root' → (after.vol g).fat c = (fs.vol g).fat c) ∧
      ∀ c ∈ clusters, (after.vol g).data c = (fs.vol g).data c := by
  rw [enterFile] at run
  cases search : findFreeSlot fuel fs with
  | none =>
    rw [search] at run
    cases run
  | some result => ?_
  obtain ⟨found, slotted⟩ := result
  cases found with
  | none =>
    rw [search] at run
    cases run
  | some loc => ?_
  obtain ⟨within, root', slot⟩ := findFreeSlot_some busy chained search
  have busy1 := within.busy busy
  obtain ⟨before, behind, split, earlier⟩ := slot.split
  have place : loc ∈ locs g root' := by simp [split]
  have inRoot := (mem_locs.mp place).1
  have validDir := slot.chained.root_valid loc.1 inRoot
  simp only [search, readCluster_eq busy1.ready validDir, Option.some.injEq] at run
  have width : ((slotted.vol g).data loc.1).length = g.layout.clusterBytes :=
    vol_data_length validDir
  have size' : (newDirent rawName first size).length = direntSize := newDirent_length length
  have fits := locs_fits place
  obtain ⟨within2, changed, _⟩ := writeCluster_true busy1 validDir
    (by rw [overwrite_length (by omega), width]; rfl) run
  obtain ⟨here, others⟩ := entry_setData place size' width
  rw [← changed] at here others
  -- The clusters of the new file are taken, and so none of the directory's.
  have used : ∀ c ∈ clusters, (fs.vol g).fat c ≠ 0 := fun c member =>
    trail.fat_ne_zero valid member
  have outside : ∀ c ∈ clusters, c ∉ root' := fun c member inRoot =>
    (slot.grown c inRoot).elim (fresh_root c member) (used c member)
  have alive : (after.vol g).Live loc := by
    rw [Vol.Live, here, newDirent_first length]
    exact ⟨named.1, newDirent_inUse length named.2⟩
  have owned : Owned g (slotted.vol g) (newDirent rawName first size) clusters := by
    refine ⟨.inr ?_, valid⟩
    rw [newDirent_cluster length]
    exact trail.congr fun c member => slot.fat c (outside c member)
  have data : ∀ c, c ∉ root' → (fs.vol g).fat c ≠ 0 →
      (after.vol g).data c = (fs.vol g).data c := by
    intro c notRoot inUse
    have apart : c ≠ loc.1 := fun same => notRoot (same ▸ inRoot)
    rw [changed, Vol.setData_data, update_of_ne apart, slot.data c inUse]
  have fat : ∀ c, c ∉ root' → (after.vol g).fat c = (fs.vol g).fat c := by
    intro c notRoot
    rw [changed, Vol.setData_fat, slot.fat c notRoot]
  have entry : ∀ other ∈ locs g root, (slotted.vol g).entry other = (fs.vol g).entry other :=
    fun other placed => Chained.entry_congr
      (slot.data _ (chained.root_used (mem_locs.mp placed).1))
  have apart : ∀ other ∈ locs g root, (fs.vol g).Live other → other ≠ loc := by
    rintro other placed live rfl
    apply slot.free
    rw [Vol.Live, entry other placed]
    exact live
  have placed := slot.chained.place split earlier here alive
    (fun other _ apart => others other apart) (by rw [changed, Vol.setData_fat]) owned outside
    (fun other placed live => fresh other (slot.live other placed live).1
      (slot.live other placed live).2)
  refine ⟨root', loc, within.trans within2, placed, ?_, here, fat,
    fun c member => data c (outside c member) (used c member)⟩
  refine ⟨place, alive, slot.keeps, ?_, ?_, ?_, fun c notRoot _ => fat c notRoot⟩
  · intro other placed' differs live
    rw [Vol.Live, others other differs] at live
    exact slot.live other placed' live
  · intro other placed' live
    have differs := apart other placed' live
    refine ⟨differs, ?_, update_of_ne differs _ _⟩
    rw [others other differs, entry other placed']
  · intro other placed' live c member
    have inUse := chained.chain_used placed' live member
    have notRoot : c ∉ root' := fun inNew => (slot.grown c inNew).elim
      (chained.apart_root other placed' live c member) inUse
    exact data c notRoot inUse

end Entering

section Bodies

variable {fuel : Nat} {loc : Loc} {first : UInt32} {clusters : List UInt32}

/-- The clusters asked for, when there are any, are enough for the data. -/
theorem clustersNeeded_enough {size : Nat} (small : size < 2 ^ 32)
    (some_clusters : 0 < clustersNeeded g.layout (UInt32.ofNat size)) :
    size ≤ clustersNeeded g.layout (UInt32.ofNat size) * g.layout.clusterBytes := by
  have positive := clusterBytes_pos g
  have limit : g.layout.clusterBytes ≤ 32768 := by
    have bound := g.cluster_size.2
    simp only [Layout.clusterBytes, sectorSize, maxClusterSectors] at bound ⊢
    omega
  have count : (UInt32.ofNat size).toNat = size := by
    rw [UInt32.toNat_ofNat']
    omega
  have width : (UInt32.ofNat g.layout.clusterBytes).toNat = g.layout.clusterBytes := by
    rw [UInt32.toNat_ofNat']
    omega
  rw [clustersNeeded] at some_clusters ⊢
  split
  · rename_i zero
    have empty : size = 0 := by rw [← count, eq_of_beq zero]; rfl
    omega
  rename_i some_size
  rw [if_neg some_size] at some_clusters
  have nonzero : 0 < size := by
    rcases Nat.eq_zero_or_pos size with rfl | positive
    · exact absurd rfl some_size
    · exact positive
  have sum : (UInt32.ofNat size + UInt32.ofNat g.layout.clusterBytes - 1).toNat
      = (size + g.layout.clusterBytes - 1) % 2 ^ 32 := by
    have one : (1 : UInt32).toNat = 1 := rfl
    rw [UInt32.toNat_sub, UInt32.toNat_add, count, width, one]
    omega
  rw [UInt32.toNat_div, sum, width] at some_clusters ⊢
  -- A sum that wraps round comes out below one cluster, and no cluster would be asked for.
  have fits : size + g.layout.clusterBytes - 1 < 2 ^ 32 := by
    have whole := (Nat.div_pos_iff.mp some_clusters).2
    omega
  rw [Nat.mod_eq_of_lt fits]
  -- Rounding up covers the last, partly filled cluster.
  have division := Nat.div_add_mod (size + g.layout.clusterBytes - 1) g.layout.clusterBytes
  have rest := Nat.mod_lt (size + g.layout.clusterBytes - 1) positive
  rw [Nat.mul_comm]
  omega

/-- A write that gets through adds a file with its name and all its bytes. -/
theorem writeBody_true (busy : Busy g fs) (chained : Chained g (fs.vol g) root chain)
    {rawName : Bytes} (length : rawName.length = 11)
    (named : rawName.getD 0 0 ≠ 0 ∧ rawName.getD 0 0 ≠ 0xE5) {data : Bytes}
    (small : data.length < 2 ^ 32) (run : writeBody fuel fs rawName data = some (true, after)) :
    ∃ root' chain' loc, Within fs after ∧ Chained g (after.vol g) root' chain' ∧
      Added g (fs.vol g) (after.vol g) root root' chain chain' loc ∧
      direntName ((after.vol g).entry loc) = rawName ∧
      (direntSizeField ((after.vol g).entry loc)).toNat
        ≤ (chain' loc).length * g.layout.clusterBytes ∧
      (after.vol g).content ((after.vol g).entry loc) (chain' loc) = data := by
  rw [writeBody] at run
  cases alloc : fs.allocClusterChain
      (clustersNeeded fs.layout (UInt32.ofNat data.length)) with
  | mk first allocated =>
    simp only [alloc] at run
    by_cases none : first = 0
    · simp only [none, beq_self_eq_true, if_true] at run
      cases run
    simp only [beq_eq_false_iff_ne.mpr none, Bool.false_eq_true, if_false] at run
    obtain ⟨clusters, count, asked, within, taken, _⟩ :=
      allocClusterChain_spec busy chained.reserved alloc none
    have busy1 := within.busy busy
    have fits : data.length ≤ clusters.length * g.layout.clusterBytes := by
      rw [busy.layout] at count asked
      rw [count]
      exact clustersNeeded_enough small asked
    cases copied : writeChain fuel allocated first data with
    | none =>
      simp only [copied] at run
      cases run
    | some result => ?_
    obtain ⟨ok, written⟩ := result
    cases ok with
    | false =>
      simp only [copied, Option.map_eq_some_iff] at run
      obtain ⟨_, _, impossible⟩ := run
      cases impossible
    | true => ?_
    have copies := (writeChain_copies busy1 taken.trail taken.valid fuel data).1 _ _ copied
    obtain ⟨within2, links, others⟩ := copies.keeps
    have bytes := copies.bytes fits
    have busy2 := within2.busy busy1
    -- Only clusters that were free have been touched so far.
    have filled := taken.filled links others
    have framed : Chained g (written.vol g) root chain :=
      chained.frame (fun c used => filled.others c (filled.apart used))
        (fun c used => filled.data c (filled.apart used)) (filled.reserved chained.reserved)
    have entry : ∀ loc ∈ locs g root, (written.vol g).entry loc = (fs.vol g).entry loc :=
      fun loc place => Chained.entry_congr
        (filled.data _ (filled.apart (chained.root_used (mem_locs.mp place).1)))
    have alive : ∀ loc ∈ locs g root, (written.vol g).Live loc ↔ (fs.vol g).Live loc := by
      intro loc place
      rw [Vol.Live, Vol.Live, entry loc place]
    simp only [copied] at run
    cases entered : enterFile fuel written rawName first (UInt32.ofNat data.length) with
    | none =>
      simp only [entered] at run
      cases run
    | some result => ?_
    obtain ⟨ok, final⟩ := result
    cases ok with
    | false =>
      simp only [entered, Option.map_eq_some_iff] at run
      obtain ⟨_, _, impossible⟩ := run
      cases impossible
    | true => ?_
    simp only [entered, Option.some.injEq, Prod.mk.injEq, true_and] at run
    subst run
    have size : (UInt32.ofNat data.length).toNat = data.length := by
      rw [UInt32.toNat_ofNat']
      omega
    obtain ⟨root', loc, within3, held, added, here, rest, kept⟩ :=
      enterFile_true busy2 framed length named filled.trail filled.valid
        (fun c member inRoot => filled.apart (chained.root_used inRoot) member)
        (fun loc place live c member inChain => filled.apart
          (chained.chain_used place ((alive loc place).mp live) inChain) member) entered
    refine ⟨root', _, loc, within.trans (within2.trans within3), held, ?_, ?_, ?_, ?_⟩
    · refine ⟨added.place, added.live, added.grown, ?_, ?_, ?_, ?_⟩
      · intro other place apart live
        obtain ⟨placed, was⟩ := added.old other place apart live
        exact ⟨placed, (alive other placed).mp was⟩
      · intro other placed was
        rw [← entry other placed]
        exact added.keeps other placed ((alive other placed).mpr was)
      · intro other placed was c member
        rw [added.data other placed ((alive other placed).mpr was) c member]
        exact filled.data c (filled.apart (chained.chain_used placed was member))
      · intro c notRoot noChain
        have apart : c ∉ clusters := by
          have mine := noChain loc added.place added.live
          rwa [update_self] at mine
        rw [rest c notRoot, filled.others c apart]
    · rw [here, newDirent_name length]
    · rw [here, newDirent_size length, size, update_self]
      exact fits
    · rw [update_self, Holds.content_congr kept, here, Vol.content,
        newDirent_size length, size, bytes]

/-- A delete marks the entry and then frees the chain. -/
theorem deleteBody_inv (busy : Busy g fs) (valid : g.Valid loc.1)
    (run : deleteBody fuel fs loc.1 loc.2 = some (true, after)) :
    ∃ marked, Within fs marked ∧
      marked.vol g = (fs.vol g).setData loc.1
        (((fs.vol g).data loc.1).set (loc.2 * direntSize) 0xE5) ∧
      (∀ i < g.spc, g.layout.clusterToLba loc.1 + UInt32.ofNat i ∈ marked.js.held) ∧
      marked.js.held.length ≤ fs.js.held.length + g.spc ∧
      marked.freeClusterChain fuel (direntCluster ((fs.vol g).entry loc)) = some after := by
  simp only [deleteBody, readCluster_eq busy.ready valid] at run
  cases wrote : fs.writeCluster loc.1
      (((fs.vol g).data loc.1).set (loc.2 * direntSize) 0xE5) with
  | mk ok marked =>
    cases ok with
    | false =>
      simp only [wrote] at run
      cases run
    | true => ?_
    simp only [wrote, Option.map_eq_some_iff] at run
    obtain ⟨freed, free, same⟩ := run
    cases same
    obtain ⟨within, changed, held, count⟩ := writeCluster_true busy valid
      (by rw [length_set, vol_data_length valid]; rfl) wrote
    exact ⟨marked, within, changed, held, count, free⟩

/-- A table with nothing in it but one cluster has that many sectors, and none of the FAT. -/
theorem held_cluster {js : JournalState} {cluster : UInt32} (valid : g.Valid cluster)
    (held : ∀ i < g.spc, g.layout.clusterToLba cluster + UInt32.ofNat i ∈ js.held)
    (count : js.held.length ≤ g.spc) :
    js.held.length = g.spc ∧ ∀ other : UInt32, other.toNat < g.entries →
      ∀ copy < g.layout.numFats.toNat, g.layout.fatSector copy other ∉ js.held := by
  let sectors := (range g.spc).map fun i => g.layout.clusterToLba cluster + UInt32.ofNat i
  have once : sectors.Nodup := Geometry.sectors_nodup valid
  have inside : sectors ⊆ js.held := by
    intro lba member
    obtain ⟨i, small, rfl⟩ := mem_map.mp member
    exact held i (mem_range.mp small)
  have length : sectors.length = g.spc := by simp [sectors]
  -- There is room for nothing else, so these are all.
  have all : sectors.Perm js.held :=
    (once.subperm inside).perm_of_length_le (by rw [length]; exact count)
  refine ⟨all.length_eq ▸ length, ?_⟩
  intro other entry copy copies member
  obtain ⟨i, small, same⟩ := mem_map.mp (all.mem_iff.mpr member)
  have address := congrArg UInt32.toNat same
  rw [Geometry.clusterToLba_add valid (mem_range.mp small)] at address
  have below := Geometry.fatSector_lt entry copies
  omega

section Freeing

variable (busy : Busy g fs) (trail : first = 0 ∧ clusters = [] ∨ (fs.vol g).Chain first clusters)
  (valid : ∀ c ∈ clusters, g.Valid c)

include busy trail valid

/-- Freeing a chain touches no link but its own. -/
theorem freeClusterChain_spec (run : fs.freeClusterChain fuel first = some after) :
    Within fs after ∧ (after.vol g).data = (fs.vol g).data ∧
      ∀ c, c ∉ clusters → (after.vol g).fat c = (fs.vol g).fat c := by
  obtain ⟨hint, frees⟩ := freeClusterChain_inv busy trail valid run
  exact ⟨(Within.hinted fs hint).trans frees.spec.1, frees.spec.2⟩

theorem freeClusterChain_returns (enough : clusters.length < fuel) :
    ∃ after, fs.freeClusterChain fuel first = some after := by
  obtain ⟨_, after, _, freed⟩ := freeClusterChain_frees busy trail valid fuel
  exact ⟨after, freed.trans (if_pos enough)⟩

/-- Behind a marked entry a chain is freed as a whole exactly if there is room for that. -/
theorem freeClusterChain_freed (marked : fs.js.held.length = g.spc)
    (unseen : ∀ cluster : UInt32, cluster.toNat < g.entries →
      ∀ copy < g.layout.numFats.toNat, g.layout.fatSector copy cluster ∉ fs.js.held)
    (run : fs.freeClusterChain fuel first = some after) :
    Freed g (fs.vol g) (after.vol g) clusters := by
  obtain ⟨hint, frees⟩ := freeClusterChain_inv busy trail valid run
  -- Marking an entry leaves room, so a chain without room goes through some FAT sector.
  have some_sector : ¬ Roomy g clusters → ¬ fatSectors clusters ⊆ ∅ := by
    intro cramped none
    have size := g.cluster_size.2
    rw [Roomy, Finset.subset_empty.mp none] at cramped
    simp only [Geometry.spc, maxTxnBlocks, maxClusterSectors, Finset.card_empty] at size cramped
    omega
  constructor
  · intro room
    have budget : Budget g (fs.hinted hint) g.spc ∅ := ⟨by simp, by simp, by
      rw [Finset.card_empty, Nat.mul_zero, Nat.add_zero]
      exact Nat.le_of_eq marked⟩
    exact frees.roomy budget (by rw [Finset.empty_union]; exact room)
  · intro cramped
    have crowd : Crowd g (fs.hinted hint) g.spc ∅ := ⟨fun c inside _ => unseen c inside, .inl (by
      rw [Finset.card_empty, Nat.mul_zero, Nat.add_zero]
      exact Nat.le_of_eq marked.symm)⟩
    exact frees.crowded crowd (some_sector cramped)
      (by rw [Finset.empty_union]; exact Nat.not_lt.mp cramped)

end Freeing

/-- Marking an entry deleted changes that entry's first byte. -/
theorem entry_deleted {v : Vol} (place : loc ∈ locs g root)
    (width : (v.data loc.1).length = g.layout.clusterBytes) :
    ((v.setData loc.1 ((v.data loc.1).set (loc.2 * direntSize) 0xE5)).entry loc).getD 0 0 = 0xE5 ∧
      ∀ other : Loc, other ≠ loc →
        (v.setData loc.1 ((v.data loc.1).set (loc.2 * direntSize) 0xE5)).entry other
          = v.entry other := by
  have fits := locs_fits place
  constructor
  · have size : 0 < (direntAt (v.data loc.1) loc.2).length := by
      simp only [direntAt, length_take, length_drop, direntSize] at fits ⊢
      omega
    rw [Vol.entry, Vol.setData_data, update_self, direntAt_set,
      getD_eq_getElem?_getD, getElem?_set_self size]
    rfl
  · intro other apart
    by_cases same : other.1 = loc.1
    · have index : other.2 ≠ loc.2 := fun h => apart (Prod.ext same h)
      rw [Vol.entry, Vol.entry, Vol.setData_data, same, update_self]
      exact direntAt_set_other index
    · exact Chained.entry_congr (update_of_ne same _ _)

/-- A delete that gets through takes its file's chain away and no other. -/
theorem deleteBody_true (busy : Busy g fs) (chained : Chained g (fs.vol g) root chain)
    (place : loc ∈ locs g root) (live : (fs.vol g).Live loc)
    (run : deleteBody fuel fs loc.1 loc.2 = some (true, after)) :
    Within fs after ∧ Chained g (after.vol g) root chain ∧
      Removed g (fs.vol g) (after.vol g) root chain loc ∧
      (fs.js.held = [] → Freed g (fs.vol g) (after.vol g) (chain loc)) := by
  have inRoot := (mem_locs.mp place).1
  have validDir := chained.root_valid loc.1 inRoot
  have owned := chained.owned loc place live
  obtain ⟨marked, within, changed, held, count, free⟩ := deleteBody_inv busy validDir run
  have links : (marked.vol g).fat = (fs.vol g).fat := by rw [changed, Vol.setData_fat]
  have trail := owned.trail
  rw [Vol.Chain, ← links] at trail
  have busy1 := within.busy busy
  obtain ⟨within2, data, fat⟩ := freeClusterChain_spec busy1 trail owned.valid free
  obtain ⟨deleted, others⟩ := entry_deleted (v := fs.vol g) place (vol_data_length validDir)
  -- Freeing leaves all data alone, so the directory is as the mark left it.
  have entries : ∀ other, (after.vol g).entry other = (marked.vol g).entry other := fun other =>
    Chained.entry_congr (by rw [data])
  rw [← changed] at deleted others
  have gone : ¬ (after.vol g).Live loc := by
    rintro ⟨_, used⟩
    rw [entries, inUse, deleted] at used
    exact absurd used (by simp)
  have same : ∀ other, other ≠ loc → (after.vol g).entry other = (fs.vol g).entry other :=
    fun other apart => (entries other).trans (others other apart)
  have fatSame : ∀ c, c ∉ chain loc → (after.vol g).fat c = (fs.vol g).fat c := by
    intro c apart
    rw [fat c apart, links]
  have dataSame : ∀ c, c ∉ root → (after.vol g).data c = (fs.vol g).data c := by
    intro c notRoot
    rw [data, changed, Vol.setData_data, update_of_ne]
    rintro rfl
    exact notRoot inRoot
  refine ⟨within.trans within2, ?_, ⟨place, live, ?_, same, dataSame, fatSame⟩, ?_⟩
  · refine chained.remove place live gone ?_ (fun other _ apart => same other apart) fatSame ?_
    · intro ended
      rw [Vol.Ended, entries, deleted] at ended
      exact absurd ended (by decide)
    · intro c low high zero
      by_cases member : c ∈ chain loc
      · exact owned.valid c member
      · exact chained.reserved c low high (fatSame c member ▸ zero)
  · intro other _
    constructor
    · intro alive
      have apart : other ≠ loc := by
        rintro rfl
        exact gone alive
      rw [Vol.Live, same other apart] at alive
      exact ⟨apart, alive⟩
    · rintro ⟨apart, alive⟩
      rw [Vol.Live, same other apart]
      exact alive
  · intro nothing
    rw [nothing, length_nil, Nat.zero_add] at count
    obtain ⟨size, unseen⟩ := held_cluster validDir held count
    have freed := freeClusterChain_freed busy1 trail owned.valid size unseen free
    exact ⟨freed.all, fun cramped => by rw [← links]; exact freed.leak cramped⟩

/-- Deleting a file gets through, since there is always room to mark its entry. -/
theorem deleteBody_returns (busy : Busy g fs) (nothing : fs.js.held = [])
    (chained : Chained g (fs.vol g) root chain) (place : loc ∈ locs g root)
    (live : (fs.vol g).Live loc) (enough : (chain loc).length < fuel) :
    ∃ after, deleteBody fuel fs loc.1 loc.2 = some (true, after) := by
  have validDir := chained.root_valid loc.1 (mem_locs.mp place).1
  have owned := chained.owned loc place live
  have size := g.cluster_size.2
  obtain ⟨marked, wrote⟩ := writeCluster_room busy loc.1
    (((fs.vol g).data loc.1).set (loc.2 * direntSize) 0xE5)
    (by simp only [nothing, length_nil, Geometry.spc, maxTxnBlocks, maxClusterSectors] at *
        omega)
  obtain ⟨within, changed, _⟩ := writeCluster_true busy validDir
    (by rw [length_set, vol_data_length validDir]; rfl) wrote
  have links : (marked.vol g).fat = (fs.vol g).fat := by rw [changed, Vol.setData_fat]
  have trail := owned.trail
  rw [Vol.Chain, ← links] at trail
  obtain ⟨after, freed⟩ := freeClusterChain_returns (within.busy busy) trail owned.valid enough
  refine ⟨after, ?_⟩
  simp only [deleteBody, readCluster_eq busy.ready validDir, wrote]
  exact congrArg (Option.map _) freed

end Bodies

end NovaOs.Fat
