import Mathlib.Logic.Relation
import NovaOs.Fat32.Success

/-! Everything a write or a delete does between the opening and the closing of its transaction, as
single edits of the volume. -/

namespace NovaOs.Fat

section Filling

variable {g : Geometry} {fs after : Fs}

/-- A run of sectors that is cut short has filled the table. -/
theorem shadowSectors_full {js : JournalState} {lba : UInt32} {src : List Sector}
    (refused : (shadowSectors js lba src).1 = false) :
    (shadowSectors js lba src).2.held.length = maxTxnBlocks := by
  induction src generalizing js lba with
  | nil => cases refused
  | cons sector rest ih =>
    rw [shadowSectors] at refused ⊢
    cases took : shadowSector js lba sector with
    | none => exact Nat.le_antisymm (held_length_le js) (shadowSector_none took).2
    | some next =>
      simp only [took] at refused ⊢
      exact ih refused

/-- What a write to a cluster does to the table. -/
structure Fills (g : Geometry) (fs after : Fs) (cluster : UInt32) (ok : Bool) : Prop where
  others : ∀ lba, (∀ i < g.spc, lba ≠ g.layout.clusterToLba cluster + UInt32.ofNat i) →
    after.view lba = fs.view lba ∧ (lba ∈ after.js.held ↔ lba ∈ fs.js.held)
  taken : ok = true → ∀ i < g.spc, g.layout.clusterToLba cluster + UInt32.ofNat i ∈ after.js.held
  full : ok = false → after.js.held.length = maxTxnBlocks

theorem writeCluster_fills (busy : Busy g fs) (cluster : UInt32)
    (buf : Bytes) :
    Fills g fs (fs.writeCluster cluster buf).2 cluster (fs.writeCluster cluster buf).1 := by
  have count := sectorsOf_length buf g.spc
  rw [writeCluster_shadowed busy]
  refine ⟨?_, ?_, shadowSectors_full⟩
  · intro lba outside
    have others := (shadowSectors_grows fs.js (g.layout.clusterToLba cluster)
      (sectorsOf buf g.spc)).2 lba (by rw [count]; exact outside)
    refine ⟨by simp only [Fs.view, viewOf, others], ?_⟩
    rw [← heldAt_isSome, ← heldAt_isSome, others]
  · intro took i small
    obtain ⟨_, _, members, _⟩ := shadowSectors_true fs.dev (Prod.ext took rfl)
    exact members i (by rw [count]; exact small)

/-- A run of sectors that is cut short is one of fewer sectors. -/
theorem shadowSectors_cut (js : JournalState) (lba : UInt32) (src : List Sector) :
    ∃ count, shadowSectors js lba (src.take count) = (true, (shadowSectors js lba src).2) := by
  induction src generalizing js lba with
  | nil => exact ⟨0, rfl⟩
  | cons sector rest ih =>
    cases took : shadowSector js lba sector with
    | none => exact ⟨0, by simp [shadowSectors, took]⟩
    | some next =>
      obtain ⟨count, cut⟩ := ih next (lba + 1)
      exact ⟨count + 1, by simp [shadowSectors, took, cut]⟩

/-- Each of its sectors is as it was, or as it was to be. -/
theorem shadowSectors_each (js : JournalState) (dev : Device) {lba : UInt32} {src : List Sector}
    (short : src.length ≤ 2 ^ 32) {i : Nat} (inside : i < src.length) :
    viewOf (shadowSectors js lba src).2 dev (lba + .ofNat i) = viewOf js dev (lba + .ofNat i) ∨
      src[i]? = some (viewOf (shadowSectors js lba src).2 dev (lba + .ofNat i)) := by
  obtain ⟨count, cut⟩ := shadowSectors_cut js lba src
  rw [(shadowSectors_true dev cut).2.1]
  have size : (src.take count).length ≤ src.length := List.length_take_le' count src
  by_cases taken : i < (src.take count).length
  · right
    have whole : viewRun (overlay (viewOf js dev) lba (src.take count)) lba _ = src.take count :=
      viewRun_overlay (Nat.le_trans size short)
    have run := congrArg (·[i]?) whole
    simp only [viewRun, List.getElem?_map, List.getElem?_range taken, Option.map_some] at run
    rw [run, List.getElem?_take_of_lt (by simp at taken; omega)]
  · refine .inl (overlay_other fun j small same => ?_)
    have digits := congrArg UInt32.toNat same
    simp only [UInt32.toNat_add, UInt32.toNat_ofNat'] at digits
    omega

/-- An entry lies in one sector of its cluster. -/
theorem direntAt_bytesOf {sectors : List Sector} {i : Nat} {sector : Sector}
    (here : sectors[i / 16]? = some sector) :
    direntAt (bytesOf sectors) i = direntAt sector.val (i % 16) := by
  induction sectors generalizing i with
  | nil => simp at here
  | cons first rest ih =>
    have size : first.val.length = 512 := first.2
    rw [show bytesOf (first :: rest) = first.val ++ bytesOf rest from rfl]
    by_cases low : i < 16
    · rw [Nat.div_eq_of_lt low, List.getElem?_cons_zero] at here
      obtain rfl := Option.some.inj here
      rw [Nat.mod_eq_of_lt low, direntAt, direntAt, direntSize,
        List.drop_append_of_le_length (by omega), List.take_append_of_le_length (by simp; omega)]
    · obtain ⟨j, rfl⟩ := Nat.exists_eq_add_of_le' (Nat.le_of_not_lt low)
      rw [Nat.add_div_right _ (by decide), List.getElem?_cons_succ] at here
      rw [Nat.add_mod_right, ← ih here, direntAt, direntAt, direntSize,
        show (j + 16) * 32 = first.val.length + j * 32 by omega, List.drop_length_add_append]

/-- A write to a cluster, cut short or not, leaves the entries that it does not change. -/
theorem writeCluster_entry (busy : Busy g fs) {cluster : UInt32} (valid : g.Valid cluster)
    {buf : Bytes} (size : buf.length = g.layout.clusterBytes) {i : Nat}
    (inside : i < g.layout.entriesPerCluster)
    (same : direntAt buf i = direntAt ((fs.vol g).data cluster) i) :
    direntAt (((fs.writeCluster cluster buf).2.vol g).data cluster) i
      = direntAt ((fs.vol g).data cluster) i := by
  have sector : i / 16 < g.spc := by
    simp only [Layout.entriesPerCluster, Layout.clusterBytes, sectorSize, direntSize] at inside
    rw [Geometry.spc]
    omega
  have count := sectorsOf_length buf g.spc
  have seen (view : UInt32 → Sector) : direntAt ((volOf g view).data cluster) i
      = direntAt (view (g.layout.clusterToLba cluster + .ofNat (i / 16))).val (i % 16) := by
    rw [volOf_data valid, direntAt_bytesOf]
    simp [viewRun, sector]
  rw [writeCluster_shadowed busy, Fs.vol, seen]
  have short : (sectorsOf buf g.spc).length ≤ 2 ^ 32 := by
    have small := g.cluster_size.2
    simp only [maxClusterSectors] at small
    rw [count, Geometry.spc]
    omega
  rcases shadowSectors_each fs.js fs.dev short (count ▸ sector) with old | new
  · rw [Fs.vol, seen]
    exact congrArg (direntAt ·.val _) old
  · rw [← same]
    exact (direntAt_bytesOf new).symm.trans (congrArg (direntAt · i) (bytesOf_sectorsOf _ _ size))

end Filling

/-- One edit inside a transaction, whether or not the table has room for it. -/
inductive Edit (g : Geometry) : Fs → Fs → Prop
  | hint (fs : Fs) (hint : UInt32) : Edit g fs (fs.hinted hint)
  | data (fs : Fs) {cluster : UInt32} (valid : g.Valid cluster) (buf : Bytes) :
      Edit g fs (fs.writeCluster cluster buf).2
  | link (fs : Fs) {cluster : UInt32} (inside : cluster.toNat < g.entries) (value : UInt32) :
      Edit g fs (fs.fatSetNextCluster cluster value).2

/-- Edits one after another. -/
abbrev Edits (g : Geometry) : Fs → Fs → Prop := Relation.ReflTransGen (Edit g)

/-- One edit of a write to a volume that was `base` when it began: what it touches was free, or it
is the link of the directory's last cluster, or a place of the directory that no file had. -/
inductive Addition (g : Geometry) (base : Vol) (root : List UInt32) : Fs → Fs → Prop
  | hint (fs : Fs) (hint : UInt32) : Addition g base root fs (fs.hinted hint)
  | data (fs : Fs) {cluster : UInt32} (valid : g.Valid cluster) (free : base.fat cluster = 0)
      (buf : Bytes) : Addition g base root fs (fs.writeCluster cluster buf).2
  | link (fs : Fs) {cluster : UInt32} (inside : cluster.toNat < g.entries)
      (free : base.fat cluster = 0) (value : UInt32) :
      Addition g base root fs (fs.fatSetNextCluster cluster value).2
  | grow (fs : Fs) {last value : UInt32} (member : last ∈ root) (valid : g.Valid last)
      (marks : value &&& linkMask ≠ 0) : Addition g base root fs (fs.fatSetNextCluster last value).2
  | entry (fs : Fs) {loc : Loc} (place : loc ∈ locs g root) (valid : g.Valid loc.1)
      (dead : ¬base.Live loc) {entry : Bytes} (size : entry.length = direntSize) :
      Addition g base root fs (fs.writeCluster loc.1
        (overwrite ((fs.vol g).data loc.1) (loc.2 * direntSize) entry)).2

abbrev Additions (g : Geometry) (base : Vol) (root : List UInt32) : Fs → Fs → Prop :=
  Relation.ReflTransGen (Addition g base root)

/-- A volume on which all that was in use on `base` is as it was, but for the link of the
directory's last cluster and the places in the directory that no file had. -/
structure Spares (g : Geometry) (base : Vol) (root : List UInt32) (v : Vol) : Prop where
  fat : ∀ c, base.fat c ≠ 0 → c ∉ root → v.fat c = base.fat c
  data : ∀ c, base.fat c ≠ 0 → c ∉ root → v.data c = base.data c
  used : ∀ c, base.fat c ≠ 0 → v.fat c ≠ 0
  live : ∀ loc ∈ locs g root, base.Live loc → v.entry loc = base.entry loc

section Closure

variable {g : Geometry} {fs after : Fs} {base : Vol} {root : List UInt32}

theorem Addition.edit (addition : Addition g base root fs after) : Edit g fs after := by
  cases addition with
  | hint hint => exact .hint fs hint
  | data valid _ buf => exact .data fs valid buf
  | link inside _ value => exact .link fs inside value
  | grow _ valid _ => exact .link fs valid.entry _
  | entry _ valid _ _ => exact .data fs valid _

theorem Additions.edits (additions : Additions g base root fs after) : Edits g fs after :=
  Relation.ReflTransGen.mono (fun _ _ => Addition.edit) _ _ additions

theorem Edit.within (edit : Edit g fs after) (busy : Busy g fs) :
    Within fs after := by
  cases edit with
  | hint hint => exact .hinted fs hint
  | data valid buf => exact (writeCluster_any busy valid buf).1
  | link inside value => exact (fatSetNextCluster_any busy inside value).within

/-- What every edit keeps, a run of edits keeps. -/
theorem Edits.keeps {P : Fs → Prop} (edits : Edits g fs after) (busy : Busy g fs) (start : P fs)
    (step : ∀ {fs after : Fs}, Busy g fs → P fs → Edit g fs after → P after) :
    Within fs after ∧ P after := by
  induction edits with
  | refl => exact ⟨.refl fs, start⟩
  | tail _ edit ih =>
    obtain ⟨within, kept⟩ := ih
    have busyMid := within.busy busy
    exact ⟨within.trans (edit.within busyMid), step busyMid kept edit⟩

theorem Edits.within (edits : Edits g fs after) (busy : Busy g fs) :
    Within fs after :=
  (edits.keeps (P := fun _ => True) busy trivial fun _ _ _ => trivial).1

namespace Spares

variable {v next : Vol}

theorem refl (base : Vol) : Spares g base root base :=
  ⟨fun _ _ _ => rfl, fun _ _ _ => rfl, fun _ => id, fun _ _ _ => rfl⟩

/-- What is free now was free before. -/
theorem free (spares : Spares g base root v) {c : UInt32} (zero : v.fat c = 0) :
    base.fat c = 0 := by
  by_contra used
  exact spares.used c used zero

/-- A change elsewhere. -/
theorem congr (spares : Spares g base root v) (rooted : ∀ c ∈ root, base.fat c ≠ 0)
    (fat : ∀ c, base.fat c ≠ 0 → next.fat c = v.fat c)
    (data : ∀ c, base.fat c ≠ 0 → next.data c = v.data c) : Spares g base root next where
  fat c used outside := (fat c used).trans (spares.fat c used outside)
  data c used outside := (data c used).trans (spares.data c used outside)
  used c used := fat c used ▸ spares.used c used
  live loc place live :=
    (Chained.entry_congr (data _ (rooted _ (mem_locs.mp place).1))).trans
      (spares.live loc place live)

/-- An edit of a write spares what was in use. -/
theorem addition (spares : Spares g base root (fs.vol g)) (rooted : ∀ c ∈ root, base.fat c ≠ 0)
    (busy : Busy g fs) (addition : Addition g base root fs after) :
    Spares g base root (after.vol g) := by
  cases addition with
  | hint hint => exact spares
  | data valid free buf =>
    obtain ⟨-, links, others⟩ := writeCluster_any busy valid buf
    exact spares.congr rooted (fun c _ => congrFun links c)
      fun c used => others c fun same => used (same ▸ free)
  | @link cluster inside free value =>
    rcases (fatSetNextCluster_any busy inside value).vol with same | ⟨-, changed⟩
    · rwa [same]
    rw [changed]
    refine spares.congr rooted (fun c used => ?_) fun _ _ => rfl
    have apart : c ≠ cluster := fun same => used (same ▸ free)
    rw [Vol.setFat_fat, Function.update_of_ne apart]
  | @grow last value member valid marks =>
    rcases (fatSetNextCluster_any busy valid.entry value).vol with same | ⟨-, changed⟩
    · rwa [same]
    rw [changed]
    refine { spares with fat := fun c used outside => ?_, used := fun c used => ?_ }
    · have apart : c ≠ last := fun same => outside (same ▸ member)
      rw [Vol.setFat_fat, Function.update_of_ne apart, spares.fat c used outside]
    · by_cases same : c = last
      · rwa [Vol.setFat_fat, same, Function.update_self]
      · rw [Vol.setFat_fat, Function.update_of_ne same]
        exact spares.used c used
  | @entry loc place valid dead entry size =>
    obtain ⟨-, links, others⟩ := writeCluster_any busy valid
      (overwrite ((fs.vol g).data loc.1) (loc.2 * direntSize) entry)
    refine ⟨fun c used outside => ?_, fun c used outside => ?_, fun c used => ?_,
      fun other there live => ?_⟩
    · rw [links, spares.fat c used outside]
    · rw [others c fun same => outside (same ▸ (mem_locs.mp place).1), spares.data c used outside]
    · rw [links]
      exact spares.used c used
    rw [← spares.live other there live]
    by_cases here : other.1 = loc.1
    · -- Another entry of the same cluster: the write may be cut short, but not within an entry.
      have width : ((fs.vol g).data loc.1).length = g.layout.clusterBytes := vol_data_length valid
      have fits := locs_fits place
      have apart : other.2 ≠ loc.2 := fun same => dead (Prod.ext here same ▸ live)
      rw [Vol.entry, Vol.entry, here]
      exact writeCluster_entry busy valid ((overwrite_length (by omega)).trans width)
        (here ▸ mem_locs.mp there).2 (direntAt_overwrite_other size (by omega) apart)
    · exact Chained.entry_congr (others _ here)

/-- So does a run of them. -/
theorem additions (spares : Spares g base root (fs.vol g)) (rooted : ∀ c ∈ root, base.fat c ≠ 0)
    (busy : Busy g fs) (additions : Additions g base root fs after) :
    Spares g base root (after.vol g) := by
  induction additions with
  | refl => exact spares
  | tail before addition ih =>
    exact ih.addition rooted (((Additions.edits before).within busy).busy busy) addition

end Spares

end Closure

section Taking

variable {g : Geometry} {fs after : Fs} {base : Vol} {root : List UInt32}

/-- An entry's number is a link that does not read as free. -/
theorem and_linkMask_ne_zero {cluster : UInt32} (low : 2 ≤ cluster.toNat)
    (inside : cluster.toNat < g.entries) : cluster &&& linkMask ≠ 0 := by
  rw [and_linkMask (Nat.lt_of_lt_of_le inside g.entries_small)]
  rintro rfl
  exact absurd low (by decide)

/-- The loop that takes clusters sets links of such as were free, whether or not it gets as many as
it wants. -/
theorem allocClusters_additions (busy : Busy g fs) (spares : Spares g base root (fs.vol g))
    (rooted : ∀ c ∈ root, base.fat c ≠ 0) {first prev : UInt32}
    (known : first = 0 ∨ prev.toNat < g.entries ∧ base.fat prev = 0) (left : Nat) :
    Additions g base root fs (fs.allocClusters first prev left).2 := by
  induction left generalizing fs first prev with
  | zero => exact .refl
  | succ left ih =>
    obtain ⟨cluster, hint, search, free, _⟩ := findFreeCluster_spec busy.ready
    have looked : Additions g base root fs (fs.hinted hint) := .single (.hint fs hint)
    simp only [Fs.allocClusters, search]
    by_cases none : cluster = 0
    · simp only [none, beq_self_eq_true, if_true]
      exact looked
    simp only [beq_eq_false_iff_ne.mpr none, Bool.false_eq_true, if_false]
    obtain ⟨low, high, zero⟩ := free none
    have found := And.intro high (spares.free zero)
    have marks : Additions g base root fs
        ((fs.hinted hint).fatSetNextCluster cluster endOfChain).2 :=
      looked.tail (.link _ high found.2 _)
    rcases set : (fs.hinted hint).fatSetNextCluster cluster endOfChain with ⟨ok, marked⟩
    rw [set] at marks
    cases ok with
    | false => exact marks
    | true => ?_
    have busyMarked := (marks.edits.within busy).busy busy
    have sparesMarked := spares.additions rooted busy marks
    by_cases start : first = 0
    · simp only [start, beq_self_eq_true, if_true]
      exact marks.trans (@ih _ busyMarked sparesMarked cluster _ (.inr found))
    -- From the second cluster on, the one before is linked to it.
    simp only [beq_eq_false_iff_ne.mpr start, Bool.false_eq_true, if_false]
    have behind := known.resolve_left start
    have link : Addition g base root marked (marked.fatSetNextCluster prev cluster).2 :=
      .link marked behind.1 behind.2 _
    exact (marks.tail link).trans (ih ((link.edit.within busyMarked).busy busyMarked)
      (sparesMarked.addition rooted busyMarked link) (.inr found))

theorem allocClusterChain_additions (busy : Busy g fs) (spares : Spares g base root (fs.vol g))
    (rooted : ∀ c ∈ root, base.fat c ≠ 0) (count : Nat) :
    Additions g base root fs (fs.allocClusterChain count).2 := by
  cases count with
  | zero => exact .refl
  | succ count => exact allocClusters_additions busy spares rooted (.inl rfl) (count + 1)

end Taking

section Following

variable {g : Geometry} {fs after : Fs} {base : Vol} {root chain : List UInt32} {ok : Bool}
  {first : UInt32} {fuel : Nat} {src : Bytes} {slot : Option Loc}

/-- Copying along a chain writes to its clusters and touches nothing else, however far it gets. -/
theorem Copies.additions (copies : Copies g fs chain src ok after)
    (free : ∀ c ∈ chain, base.fat c = 0) : Additions g base root fs after := by
  induction copies with
  | done => exact .refl
  | refused _ here => exact .single (.data _ here (free _ (by simp)) _)
  | step _ here _ _ _ ih =>
    exact .head (.data _ here (free _ (by simp)) _) (ih fun c member => free c (by simp [member]))

/-- A file being copied into clusters just taken, however far it gets. -/
theorem Allocated.written (busy : Busy g fs) (taken : Allocated g base (fs.vol g) first chain)
    (run : writeChain fuel fs first src = some (ok, after)) :
    Additions g base root fs after ∧ Allocated g base (after.vol g) first chain := by
  have copies := (writeChain_copies busy taken.trail taken.valid fuel src).1 _ _ run
  obtain ⟨-, links, others⟩ := copies.keeps
  exact ⟨copies.additions fun c member => (taken.free c member).2, taken.filled links others⟩

/-- Freeing a chain clears its links. -/
theorem Frees.additions (frees : Frees g fs chain after) (free : ∀ c ∈ chain, base.fat c = 0) :
    Additions g base root fs after := by
  induction frees with
  | done => exact .refl
  | step _ here _ _ ih =>
    exact .head (.link _ here.entry (free _ (by simp)) 0)
      (ih fun c member => free c (by simp [member]))

theorem freeClusterChain_additions (busy : Busy g fs) {clusters : List UInt32}
    (trail : first = 0 ∧ clusters = [] ∨ (fs.vol g).Chain first clusters)
    (valid : ∀ c ∈ clusters, g.Valid c) (free : ∀ c ∈ clusters, base.fat c = 0)
    (run : fs.freeClusterChain fuel first = some after) : Additions g base root fs after := by
  obtain ⟨hint, frees⟩ := freeClusterChain_inv busy trail valid run
  exact .head (.hint fs hint) (frees.additions free)

/-- Growing the directory, as far as it gets, touches one new cluster and the last one's link. -/
theorem extendDirectory_additions (busy : Busy g fs) (spares : Spares g base root (fs.vol g))
    (rooted : ∀ c ∈ root, base.fat c ≠ 0) (reserved : Reserved g (fs.vol g)) {last : UInt32}
    (lastIn : last ∈ root) (validLast : g.Valid last)
    (run : extendDirectory fs last = (slot, after)) :
    Additions g base root fs after ∧
      ∀ loc, slot = some loc → g.Valid loc.1 ∧ base.fat loc.1 = 0 := by
  have marks := allocClusterChain_additions busy spares rooted 1
  rw [extendDirectory] at run
  rcases alloc : fs.allocClusterChain 1 with ⟨new, allocated⟩
  rw [alloc] at marks
  simp only [alloc] at run
  by_cases none : new = 0
  · simp only [none, beq_self_eq_true, if_true, Prod.mk.injEq] at run
    obtain ⟨rfl, rfl⟩ := run
    exact ⟨marks, fun _ found => by cases found⟩
  simp only [beq_eq_false_iff_ne.mpr none, Bool.false_eq_true, if_false] at run
  obtain ⟨chosen, length, _, _, taken, _⟩ := allocClusterChain_spec busy reserved alloc none
  obtain ⟨single, rfl⟩ := List.length_eq_one_iff.mp length
  obtain ⟨rfl, _, _⟩ := taken.trail
  obtain ⟨valid, zero⟩ := taken.free new (by simp)
  have free := spares.free zero
  have blank := marks.tail
    (.data allocated valid free (List.replicate allocated.layout.clusterBytes 0))
  cases wrote : allocated.writeCluster new
      (List.replicate allocated.layout.clusterBytes 0) with
  | mk ok blanked =>
    rw [wrote] at blank
    simp only [wrote] at run
    cases ok with
    | false =>
      simp only [Prod.mk.injEq] at run
      obtain ⟨rfl, rfl⟩ := run
      exact ⟨blank, fun _ found => by cases found⟩
    | true => ?_
    have link := blank.tail
      (.grow blanked lastIn validLast (and_linkMask_ne_zero valid.1 valid.entry))
    rcases linked : blanked.fatSetNextCluster last new with ⟨ok, linkedFs⟩
    rw [linked] at link
    simp only [linked] at run
    cases ok with
    | false =>
      simp only [Prod.mk.injEq] at run
      obtain ⟨rfl, rfl⟩ := run
      exact ⟨link, fun _ found => by cases found⟩
    | true => ?_
    simp only [Prod.mk.injEq] at run
    obtain ⟨rfl, rfl⟩ := run
    refine ⟨link, fun loc found => ?_⟩
    cases found
    exact ⟨valid, free⟩

/-- Looking for a place, whether one is found or not, edits the directory's end at most. A place
that is found is in a new cluster, or no file had it. -/
theorem findFreeSlot_additions (busy : Busy g fs) (spares : Spares g base root (fs.vol g))
    (rooted : ∀ c ∈ root, base.fat c ≠ 0) (reserved : Reserved g (fs.vol g))
    (trail : (fs.vol g).Chain g.layout.rootCluster root) (some_root : root ≠ [])
    (valid : ∀ c ∈ root, g.Valid c) (run : findFreeSlot fuel fs = some (slot, after)) :
    Additions g base root fs after ∧ ∀ loc, slot = some loc → g.Valid loc.1 ∧
      (base.fat loc.1 = 0 ∨ loc ∈ locs g root ∧ ¬base.Live loc) := by
  rcases findFreeSlot_cases busy.ready trail some_root valid run with
    ⟨found, hit, rfl, rfl⟩ | ⟨rfl, rfl⟩ | ⟨_, earlier, last, split, grown⟩
  · refine ⟨.refl, ?_⟩
    rintro loc same
    cases same
    obtain ⟨before, behind, split, dead, _⟩ := freeSlot_found hit
    have place : found ∈ locs g root := by simp [split]
    refine ⟨valid found.1 (mem_locs.mp place).1, .inr ⟨place, fun live => dead ?_⟩⟩
    rwa [Vol.Live, spares.live found place live]
  · exact ⟨.refl, fun _ found => by cases found⟩
  · have lastIn : last ∈ root := by simp [split]
    obtain ⟨additions, place⟩ :=
      extendDirectory_additions busy spares rooted reserved lastIn (valid last lastIn) grown
    exact ⟨additions, fun loc found => ⟨(place loc found).1, .inl (place loc found).2⟩⟩

/-- Entering a file, whether it works or not, edits the directory only. -/
theorem enterFile_additions (busy : Busy g fs) (spares : Spares g base root (fs.vol g))
    (rooted : ∀ c ∈ root, base.fat c ≠ 0) (reserved : Reserved g (fs.vol g))
    (trail : (fs.vol g).Chain g.layout.rootCluster root) (some_root : root ≠ [])
    (valid : ∀ c ∈ root, g.Valid c) {rawName : Bytes} (length : rawName.length = 11)
    {size : UInt32} (run : enterFile fuel fs rawName first size = some (ok, after)) :
    Additions g base root fs after := by
  rw [enterFile] at run
  cases search : findFreeSlot fuel fs with
  | none =>
    rw [search] at run
    cases run
  | some result => ?_
  obtain ⟨slot, slotted⟩ := result
  obtain ⟨additions, place⟩ :=
    findFreeSlot_additions busy spares rooted reserved trail some_root valid search
  rw [search] at run
  cases slot with
  | none =>
    simp only [Option.some.injEq, Prod.mk.injEq] at run
    obtain ⟨_, rfl⟩ := run
    exact additions
  | some loc => ?_
  obtain ⟨validDir, there⟩ := place loc rfl
  have busy1 := (additions.edits.within busy).busy busy
  simp only [readCluster_eq busy1.ready validDir, Option.some.injEq] at run
  have last : Addition g base root slotted (slotted.writeCluster loc.1 (overwrite
      ((slotted.vol g).data loc.1) (loc.2 * direntSize) (newDirent rawName first size))).2 := by
    rcases there with free | ⟨inRoot, dead⟩
    · exact .data slotted validDir free _
    · exact .entry slotted inRoot validDir dead (newDirent_length length)
  rw [run] at last
  exact additions.tail last

end Following

section Bodies

variable {g : Geometry} {fs after : Fs} {root : List UInt32} {chain : Loc → List UInt32}
  {fuel : Nat} {ok : Bool}

/-- The body of a write is a run of such edits, at whichever exit it ends. -/
theorem writeBody_additions (busy : Busy g fs) (chained : Chained g (fs.vol g) root chain)
    {rawName data : Bytes} (length : rawName.length = 11)
    (run : writeBody fuel fs rawName data = some (ok, after)) :
    Additions g (fs.vol g) root fs after := by
  have rooted : ∀ c ∈ root, (fs.vol g).fat c ≠ 0 := fun c => chained.root_used
  have marks := allocClusterChain_additions busy (.refl _) rooted
    (clustersNeeded fs.layout (UInt32.ofNat data.length))
  rw [writeBody] at run
  cases alloc : fs.allocClusterChain
      (clustersNeeded fs.layout (UInt32.ofNat data.length)) with
  | mk first allocated =>
    rw [alloc] at marks
    simp only [alloc] at run
    by_cases none : first = 0
    · simp only [none, beq_self_eq_true, if_true, Option.some.injEq, Prod.mk.injEq] at run
      obtain ⟨_, rfl⟩ := run
      exact marks
    simp only [beq_eq_false_iff_ne.mpr none, Bool.false_eq_true, if_false] at run
    obtain ⟨clusters, _, _, within, taken, _⟩ :=
      allocClusterChain_spec busy chained.reserved alloc none
    have free : ∀ c ∈ clusters, (fs.vol g).fat c = 0 := fun c member => (taken.free c member).2
    have busy1 := within.busy busy
    cases copied : writeChain fuel allocated first data with
    | none =>
      simp only [copied] at run
      cases run
    | some result => ?_
    obtain ⟨done, written⟩ := result
    obtain ⟨copies, filled⟩ : Additions g _ root _ _ ∧ _ := taken.written busy1 copied
    have busy2 := (copies.edits.within busy1).busy busy1
    have soFar := marks.trans copies
    simp only [copied] at run
    cases done with
    | false =>
      simp only [Option.map_eq_some_iff] at run
      obtain ⟨freed, given, final⟩ := run
      cases final
      exact soFar.trans
        (freeClusterChain_additions busy2 (.inr filled.trail) filled.valid free given)
    | true => ?_
    -- The directory's clusters were in use, so none of them was taken for the file.
    have rootTrail := filled.other_trail chained.root_trail chained.root_valid
    have spares := (Spares.refl _).additions rooted busy soFar
    cases entered : enterFile fuel written rawName first (UInt32.ofNat data.length) with
    | none =>
      simp only [entered] at run
      cases run
    | some result => ?_
    obtain ⟨done, final⟩ := result
    have enters {base : Vol} (spares : Spares g base root (written.vol g))
        (rooted : ∀ c ∈ root, base.fat c ≠ 0) : Additions g base root written final :=
      enterFile_additions busy2 spares rooted (filled.reserved chained.reserved) rootTrail
        chained.root_some chained.root_valid length entered
    have additions := enters spares rooted
    simp only [entered] at run
    cases done with
    | false =>
      simp only [Option.map_eq_some_iff] at run
      obtain ⟨freed, given, last⟩ := run
      cases last
      -- The file's own chain is in use by now, and entering the file leaves it alone.
      have rootedNow : ∀ c ∈ root, (written.vol g).fat c ≠ 0 :=
        fun c member => spares.used c (rooted c member)
      have kept := (Spares.refl _).additions rootedNow busy2 (enters (.refl _) rootedNow)
      have trailFinal : (final.vol g).Chain first clusters :=
        filled.trail.congr fun c member => kept.fat c (filled.trail.fat_ne_zero filled.valid member)
          fun inRoot => filled.apart (rooted c inRoot) member
      exact (soFar.trans additions).trans (freeClusterChain_additions
        ((additions.edits.within busy2).busy busy2) (.inr trailFinal) filled.valid free given)
    | true =>
      simp only [Option.some.injEq, Prod.mk.injEq] at run
      obtain ⟨_, rfl⟩ := run
      exact soFar.trans additions

/-- The body of a delete is a run of edits too. -/
theorem deleteBody_edits (busy : Busy g fs) (chained : Chained g (fs.vol g) root chain)
    {loc : Loc} (place : loc ∈ locs g root) (live : (fs.vol g).Live loc)
    (run : deleteBody fuel fs loc.1 loc.2 = some (ok, after)) : Edits g fs after := by
  have valid := chained.root_valid loc.1 (mem_locs.mp place).1
  simp only [deleteBody, readCluster_eq busy.ready valid] at run
  have wrote := writeCluster_any busy valid
    (((fs.vol g).data loc.1).set (loc.2 * direntSize) 0xE5)
  have edit := Edit.data fs valid (((fs.vol g).data loc.1).set (loc.2 * direntSize) 0xE5)
  cases marked : fs.writeCluster loc.1
      (((fs.vol g).data loc.1).set (loc.2 * direntSize) 0xE5) with
  | mk done next =>
    rw [marked] at wrote edit
    simp only [marked] at run
    cases done with
    | false =>
      simp only [Option.some.injEq, Prod.mk.injEq] at run
      obtain ⟨_, rfl⟩ := run
      exact .single edit
    | true => ?_
    simp only [Option.map_eq_some_iff] at run
    obtain ⟨freed, free, final⟩ := run
    cases final
    obtain ⟨within, links, _⟩ := wrote
    have owned := chained.owned loc place live
    -- Seen from a volume with nothing in use, all edits are of what was free.
    have cleared : Additions g ⟨fun _ => 0, fun _ => []⟩ [] next after := by
      refine freeClusterChain_additions (within.busy busy) ?_ owned.valid (fun _ _ => rfl) free
      rcases owned.trail with empty | trail
      · exact .inl empty
      · refine .inr ?_
        rw [Vol.Chain, links]
        exact trail
    exact .head edit cleared.edits

end Bodies

/-- A write or a delete that returns, whatever it reports. -/
inductive Call : Fs → Fs → Prop
  | write {fs after : Fs} {fuel : Nat} {name data : Bytes} {ok : Bool}
      (run : fat32WriteFile fuel fs name data = some (ok, after)) : Call fs after
  | delete {fs after : Fs} {fuel : Nat} {name : Bytes} {ok : Bool}
      (run : fat32DeleteFile fuel fs name = some (ok, after)) : Call fs after

/-- Chains on the volume are well formed. -/
def Tidied (g : Geometry) (fs : Fs) : Prop := ∃ root chain, Chained g (fs.vol g) root chain

/-- Calls one after another, each finding well-formed chains. -/
inductive Calls (g : Geometry) : Fs → Fs → Prop
  | refl (fs : Fs) : Calls g fs fs
  | tail {fs mid after : Fs} (calls : Calls g fs mid) (tidied : Tidied g mid.entered)
      (call : Call mid after) : Calls g fs after

section Transactions

variable {g : Geometry} {fs after : Fs} {root : List UInt32} {chain : Loc → List UInt32}

/-- A call changes nothing, or it closes a transaction with nothing but edits in it. -/
theorem Call.edits (ready : Ready g fs.entered) (idle : fs.js.depth = 0)
    (tidied : Tidied g fs.entered) (call : Call fs after) :
    after = fs.entered ∨ ∃ done result, Edits g fs.entered.journalBegin done ∧
      (done.journalCommit result).2 = after := by
  obtain ⟨root, chain, chained⟩ := tidied
  obtain ⟨busy, opened, same⟩ := journalBegin_spec ready idle
  have chainedOpen := chained
  rw [← same] at chainedOpen
  cases call with
  | write run =>
    -- Selecting the partition twice is selecting it once.
    rcases fat32WriteFile_cases ready chained run with
      ⟨_, _, same⟩ | ⟨_, _, result, done, body, commit⟩
    · exact .inl same
    · exact .inr ⟨done, result, (writeBody_additions busy chainedOpen toFat83_length body).edits,
      by rw [commit]⟩
  | delete run => ?_
  rcases fat32DeleteFile_cases ready chained run with
    ⟨_, same⟩ | ⟨loc, place, live, _, result, done, body, commit⟩
  · exact .inl same
  · rw [← same] at live
    exact .inr ⟨done, result, deleteBody_edits busy chainedOpen place live body, by rw [commit]⟩

/-- Calls leave the driver ready for the next. -/
theorem Call.ready (ready : Ready g fs.entered) (idle : fs.js.depth = 0)
    (tidied : Tidied g fs.entered) (call : Call fs after) :
    Ready g after ∧ after.js.depth = 0 := by
  rcases call.edits ready idle tidied with rfl | ⟨done, result, edits, rfl⟩
  · exact ⟨ready, idle⟩
  obtain ⟨busy, _⟩ := journalBegin_spec ready idle
  obtain ⟨_, readyAfter, shut, _⟩ :=
    (edits.within busy).commit ready idle (rfl : done.journalCommit result = (_, _))
  exact ⟨readyAfter, shut⟩

/-- What every call keeps, a run of calls keeps. -/
theorem Calls.keeps {P : Fs → Prop} (calls : Calls g fs after) (ready : Ready g fs.entered)
    (idle : fs.js.depth = 0) (start : P fs.entered)
    (step : ∀ {fs after : Fs}, Ready g fs.entered → fs.js.depth = 0 → Tidied g fs.entered →
      P fs.entered → Call fs after → P after) :
    Ready g after.entered ∧ after.js.depth = 0 ∧ P after.entered := by
  induction calls with
  | refl => exact ⟨ready, idle, start⟩
  | tail _ tidied call ih =>
    obtain ⟨readyMid, idleMid, kept⟩ := ih
    obtain ⟨readyAfter, idleAfter⟩ := call.ready readyMid idleMid tidied
    have next := step readyMid idleMid tidied kept call
    rw [readyAfter.entered]
    exact ⟨readyAfter, idleAfter, next⟩

end Transactions

end NovaOs.Fat
