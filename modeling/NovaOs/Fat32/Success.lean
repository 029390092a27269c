import NovaOs.Fat32.Operations

/-! What operations that report success leave on the disk. -/

namespace NovaOs.Fat

open List

section Transactions

variable {g : Geometry} {fs after : Fs}

/-- The driver after it selected its partition, as every operation starts by doing. -/
def Fs.entered (fs : Fs) : Fs :=
  { fs with dev := fs.dev.blockdevSetPartitionOffset fs.partitionOffset }

theorem Ready.entered (ready : Ready g fs) : fs.entered = fs := by
  have same : fs.dev.blockdevSetPartitionOffset fs.partitionOffset = fs.dev := by
    rw [Device.blockdevSetPartitionOffset, ready.offset, ← ready.dev_offset]
  rw [Fs.entered, same]

/-- Views that agree inside the volume show the same volume. -/
theorem volOf_congr {view view' : UInt32 → Sector}
    (same : ∀ lba : UInt32, lba.toNat < g.sectors → view' lba = view lba) :
    volOf g view' = volOf g view := by
  apply Vol.ext
  · funext cluster
    by_cases inside : cluster.toNat < g.entries
    · have below := Geometry.fatSector_lt inside g.copies
      rw [volOf_fat inside, volOf_fat inside, same _ (by simp only [Geometry.sectors]; omega)]
    · simp only [volOf, if_neg inside]
  · funext cluster
    by_cases valid : g.Valid cluster
    · rw [volOf_data valid, volOf_data valid, viewRun, viewRun]
      congr 1
      apply map_congr_left
      intro i small
      exact same _ (Geometry.sector_lt valid (mem_range.mp small))
    · simp only [volOf, if_neg valid]

/-- Opening a transaction changes nothing that is seen. -/
theorem journalBegin_spec (ready : Ready g fs) (idle : fs.js.depth = 0) :
    Busy g fs.journalBegin ∧ fs.journalBegin.js.depth = 1 ∧
      fs.journalBegin.vol g = fs.vol g := by
  have depth : fs.journalBegin.js.depth = 1 := by
    simp [Fs.journalBegin, rustJournalBegin, idle]
  have opened : fs.journalBegin.js.depth ≠ 0 := by omega
  exact ⟨⟨{ ready with closed := fun shut => absurd shut opened }, opened⟩, depth, rfl⟩

/-- Closing it succeeds and leaves every sector of the volume as it was seen; what is written lies
in the journal's region, or is a sector that was held back. -/
theorem journalCommit_writes (ready : Ready g fs) (opened : fs.js.depth = 1) (result : Bool) :
    ∃ writes after, fs.journalCommit result = (result, after) ∧ Ready g after ∧
      (∃ seq, after.js = { fs.js with
        depth := 0, seq := seq, shadow := Shadow.ofList [], targetsAbsolute := false }) ∧
      after.dev = fs.dev.wrote writes ∧
      (∀ lba : UInt32, lba.toNat < g.sectors → after.view lba = fs.view lba) ∧
      ∀ write ∈ writes, fs.js.journalRegionUsable fs.dev = true ∧
          (regionOf fs.js fs.dev).InJournal write.1 ∨
        ∃ lba ∈ fs.js.held, write.1 = fs.dev.targetLba lba := by
  obtain ⟨seq, writes, commit, home, addresses⟩ :=
    rustJournalCommit_view ready.sound opened ready.relative ready.distinct
  simp only [Fs.journalCommit, commit, Bool.true_and]
  refine ⟨writes, _, rfl, ?_, ⟨seq, rfl⟩, rfl, ?_, addresses⟩
  · exact { ready with distinct := nodup_nil, closed := fun _ => rfl, relative := rfl }
  · intro lba inside
    exact (viewOf_of_empty rfl lba).trans (home lba (ready.clear lba inside))

/-- Closing it succeeds, and what was seen is what is there. -/
theorem Within.commit {done : Fs} {result ok : Bool} (ready : Ready g fs) (idle : fs.js.depth = 0)
    (within : Within fs.journalBegin done) (commit : done.journalCommit result = (ok, after)) :
    ok = result ∧ Ready g after ∧ after.js.depth = 0 ∧ after.vol g = done.vol g := by
  obtain ⟨busy, opened, _⟩ := journalBegin_spec ready idle
  obtain ⟨_, closed, ran, readyAfter, ⟨seq, shut⟩, _, seen, _⟩ :=
    journalCommit_writes (within.busy busy).ready (within.depth.trans opened) result
  obtain ⟨rfl, rfl⟩ := Prod.mk.inj (ran.symm.trans commit)
  exact ⟨rfl, readyAfter, by rw [shut], volOf_congr seen⟩

theorem journalCommit_view (ready : Ready g fs) (opened : fs.js.depth = 1) (result : Bool)
    (lba : UInt32) (inside : lba.toNat < g.sectors) :
    (fs.journalCommit result).2.view lba = fs.view lba := by
  obtain ⟨_, after, commit, _, _, _, seen, _⟩ := journalCommit_writes ready opened result
  rw [commit]
  exact seen lba inside

end Transactions

section Lookup

variable {g : Geometry} {fs after : Fs} {root : List UInt32} {chain : Loc → List UInt32}

/-- Clusters are fewer than the numbers there are for them. -/
theorem length_lt_limit {clusters : List UInt32} (once : clusters.Nodup)
    (valid : ∀ c ∈ clusters, g.Valid c) : clusters.length < g.limit := by
  have numbers : (clusters.map UInt32.toNat).Nodup :=
    once.map fun _ _ same => UInt32.toNat_inj.mp same
  have inside : clusters.map UInt32.toNat ⊆ List.range' 2 (g.limit - 2) := by
    intro n member
    obtain ⟨c, inClusters, rfl⟩ := mem_map.mp member
    have bounds := valid c inClusters
    rw [mem_range'_1]
    exact ⟨bounds.1, by have := bounds.2; omega⟩
  have count := (numbers.subperm inside).length_le
  have low := g.limit_low
  simp only [length_map, length_range'] at count
  omega

/-- A search for a name finds a file's entry, or no file has that name. -/
theorem walkName_cases {α : Type} (result : UInt32 → Nat → Bytes → α) (ready : Ready g fs)
    (chained : Chained g (fs.vol g) root chain) (fuel : Nat) (name : Bytes) :
    (∃ loc ∈ locs g root, (fs.vol g).Live loc ∧ direntName ((fs.vol g).entry loc) = name ∧
      walkChain (visitName name result) fuel fs g.layout.rootCluster g.layout.rootCluster
        = some (.found (result loc.1 loc.2 ((fs.vol g).entry loc)), fs)) ∨
    ((∀ loc ∈ locs g root, (fs.vol g).Live loc → direntName ((fs.vol g).entry loc) ≠ name) ∧
      ∃ ending, (∀ outcome, ending ≠ .found outcome) ∧
        walkChain (visitName name result) fuel fs g.layout.rootCluster g.layout.rootCluster
          = some (ending, fs)) ∨
    fuel ≤ root.length ∧
      walkChain (visitName name result) fuel fs g.layout.rootCluster g.layout.rootCluster
        = none := by
  rcases walkChain_cases (visitName name result) ready chained.root_trail chained.root_valid fuel
      g.layout.rootCluster with walk | short
  · rw [walk]
    by_cases missing : ∀ outcome,
        firstHit (visitName name result) (fs.vol g) (locs g root) ≠ .found outcome
    · right; left
      refine ⟨search_missed chained.tidy missing, _, ?_, rfl⟩
      intro outcome
      cases hit : firstHit (visitName name result) (fs.vol g) (locs g root) with
      | found found => exact absurd hit (missing found)
      | stop | skip => simp [walkEnd]
    left
    simp only [not_forall, not_not] at missing
    obtain ⟨outcome, hit⟩ := missing
    obtain ⟨loc, place, live, called, rfl⟩ := search_found hit
    exact ⟨loc, place, live, called, by rw [hit]; rfl⟩
  · exact .inr (.inr short)

/-- What the driver's search for an entry comes to. -/
theorem findExistingEntryLocation_cases (ready : Ready g fs)
    (chained : Chained g (fs.vol g) root chain) (fuel : Nat) (name : Bytes) :
    (∃ loc ∈ locs g root, (fs.vol g).Live loc ∧ direntName ((fs.vol g).entry loc) = name ∧
      findExistingEntryLocation fuel fs name = some (some loc, fs)) ∨
    ((∀ loc ∈ locs g root, (fs.vol g).Live loc → direntName ((fs.vol g).entry loc) ≠ name) ∧
      findExistingEntryLocation fuel fs name = some (none, fs)) ∨
    fuel ≤ root.length ∧ findExistingEntryLocation fuel fs name = none := by
  rw [findExistingEntryLocation, ready.layout]
  rcases walkName_cases (fun cluster i _ => (cluster, i)) ready chained fuel name with
    ⟨loc, place, live, called, walk⟩ | ⟨absent, ending, missing, walk⟩ | ⟨short, walk⟩
  · rw [walk]
    exact .inl ⟨loc, place, live, called, rfl⟩
  · rw [walk]
    cases ending with
    | found outcome => exact absurd rfl (missing outcome)
    | ended | full | unreadable => exact .inr (.inl ⟨absent, rfl⟩)
  · rw [walk]
    exact .inr (.inr ⟨short, rfl⟩)

end Lookup

section Steps

variable {g : Geometry} {fs after : Fs} {root : List UInt32} {chain : Loc → List UInt32}
  {fuel : Nat}

/-- What a write comes to once its partition is selected. -/
theorem fat32WriteFile_ready (ready : Ready g fs) {name data : Bytes} :
    fat32WriteFile fuel fs name data
      = match findExistingEntryLocation fuel fs (toFat83 name) with
        | none => none
        | some (some _, fs) => some (false, fs)
        | some (none, fs) =>
          match writeBody fuel fs.journalBegin (toFat83 name) data with
          | none => none
          | some (result, fs) => some (fs.journalCommit result) := by
  have entered : { fs with dev := fs.dev.blockdevSetPartitionOffset fs.partitionOffset } = fs :=
    ready.entered
  simp only [fat32WriteFile, entered]
  exact if_neg (by simp [ready.mounted])

theorem fat32DeleteFile_ready (ready : Ready g fs) {name : Bytes} :
    fat32DeleteFile fuel fs name
      = match findExistingEntryLocation fuel fs (toFat83 name) with
        | none => none
        | some (none, fs) => some (false, fs)
        | some (some (dirCluster, i), fs) =>
          match deleteBody fuel fs.journalBegin dirCluster i with
          | none => none
          | some (result, fs) => some (fs.journalCommit result) := by
  have entered : { fs with dev := fs.dev.blockdevSetPartitionOffset fs.partitionOffset } = fs :=
    ready.entered
  simp only [fat32DeleteFile, entered]
  exact if_neg (by simp [ready.mounted])

/-- A transaction that ends in success was one that got through. -/
theorem journalCommit_true {result : Bool} (commit : fs.journalCommit result = (true, after)) :
    result = true := by
  have done := congrArg Prod.fst commit
  simp only [Fs.journalCommit, Bool.and_eq_true] at done
  exact done.2

/-- A write finds a file of that name, or it commits what its body has done. -/
theorem fat32WriteFile_cases (ready : Ready g fs) (chained : Chained g (fs.vol g) root chain)
    {name data : Bytes} {ok : Bool} (run : fat32WriteFile fuel fs name data = some (ok, after)) :
    ((∃ loc, findExistingEntryLocation fuel fs (toFat83 name) = some (some loc, fs)) ∧
      ok = false ∧ after = fs) ∨
    (∀ loc ∈ locs g root, (fs.vol g).Live loc →
        direntName ((fs.vol g).entry loc) ≠ toFat83 name) ∧
      findExistingEntryLocation fuel fs (toFat83 name) = some (none, fs) ∧
      ∃ result done, writeBody fuel fs.journalBegin (toFat83 name) data = some (result, done) ∧
        done.journalCommit result = (ok, after) := by
  rw [fat32WriteFile_ready ready] at run
  rcases findExistingEntryLocation_cases ready chained fuel (toFat83 name) with
    ⟨loc, _, _, _, looked⟩ | ⟨absent, looked⟩ | ⟨_, looked⟩
  · rw [looked] at run
    cases run
    exact .inl ⟨⟨loc, looked⟩, rfl, rfl⟩
  · rw [looked] at run
    dsimp only at run
    cases body : writeBody fuel fs.journalBegin (toFat83 name) data with
    | none => simp [body] at run
    | some outcome =>
      rw [body] at run
      exact .inr ⟨absent, looked, _, _, rfl, Option.some.inj run⟩
  · simp [looked] at run

/-- A delete finds no file of that name, or it commits what its body has done. -/
theorem fat32DeleteFile_cases (ready : Ready g fs) (chained : Chained g (fs.vol g) root chain)
    {name : Bytes} {ok : Bool} (run : fat32DeleteFile fuel fs name = some (ok, after)) :
    ok = false ∧ after = fs ∨
    ∃ loc ∈ locs g root, (fs.vol g).Live loc ∧
      direntName ((fs.vol g).entry loc) = toFat83 name ∧
      ∃ result done, deleteBody fuel fs.journalBegin loc.1 loc.2 = some (result, done) ∧
        done.journalCommit result = (ok, after) := by
  rw [fat32DeleteFile_ready ready] at run
  rcases findExistingEntryLocation_cases ready chained fuel (toFat83 name) with
    ⟨loc, place, live, called, looked⟩ | ⟨_, looked⟩ | ⟨_, looked⟩
  · rw [looked] at run
    dsimp only at run
    cases body : deleteBody fuel fs.journalBegin loc.1 loc.2 with
    | none => simp [body] at run
    | some outcome =>
      rw [body] at run
      exact .inr ⟨loc, place, live, called, _, _, body, Option.some.inj run⟩
  · rw [looked] at run
    cases run
    exact .inl ⟨rfl, rfl⟩
  · simp [looked] at run

/-- A successful write leaves the volume with one more file, of its name and its bytes. -/
theorem fat32WriteFile_true (ready : Ready g fs) (idle : fs.js.depth = 0)
    (chained : Chained g (fs.vol g) root chain) {name data : Bytes}
    (listed : (toFat83 name).getD 0 0 ≠ 0 ∧ (toFat83 name).getD 0 0 ≠ 0xE5)
    (small : data.length < 2 ^ 32) (run : fat32WriteFile fuel fs name data = some (true, after)) :
    Ready g after ∧ after.js.depth = 0 ∧
      (∀ loc ∈ locs g root, (fs.vol g).Live loc →
        direntName ((fs.vol g).entry loc) ≠ toFat83 name) ∧
      ∃ root' chain' loc, Chained g (after.vol g) root' chain' ∧
        Added g (fs.vol g) (after.vol g) root root' chain chain' loc ∧
        direntName ((after.vol g).entry loc) = toFat83 name ∧
        (direntSizeField ((after.vol g).entry loc)).toNat
          ≤ (chain' loc).length * g.layout.clusterBytes ∧
        (after.vol g).content ((after.vol g).entry loc) (chain' loc) = data := by
  obtain ⟨busy, _, same⟩ := journalBegin_spec ready idle
  obtain ⟨_, failed, _⟩ | ⟨new, _, _, written, body, commit⟩ :=
    fat32WriteFile_cases ready chained run
  · cases failed
  obtain rfl := journalCommit_true commit
  rw [← same] at chained
  obtain ⟨root', chain', loc, within, changed⟩ := writeBody_true busy chained
    (toFat83_length) listed small body
  obtain ⟨_, readyAfter, closedDepth, seen⟩ := within.commit ready idle commit
  rw [same, ← seen] at changed
  exact ⟨readyAfter, closedDepth, new, root', chain', loc, changed⟩

/-- A successful delete leaves one file less, its clusters freed exactly if there is room. -/
theorem fat32DeleteFile_true (ready : Ready g fs) (idle : fs.js.depth = 0)
    (chained : Chained g (fs.vol g) root chain) {name : Bytes}
    (run : fat32DeleteFile fuel fs name = some (true, after)) :
    Ready g after ∧ after.js.depth = 0 ∧
      ∃ loc, direntName ((fs.vol g).entry loc) = toFat83 name ∧
        Chained g (after.vol g) root chain ∧
        Removed g (fs.vol g) (after.vol g) root chain loc ∧
        Freed g (fs.vol g) (after.vol g) (chain loc) := by
  obtain ⟨busy, _, same⟩ := journalBegin_spec ready idle
  obtain ⟨failed, _⟩ | ⟨loc, place, live, called, _, deleted, body, commit⟩ :=
    fat32DeleteFile_cases ready chained run
  · cases failed
  obtain rfl := journalCommit_true commit
  rw [← same] at chained live
  obtain ⟨within, kept, removed, freed⟩ :=
    deleteBody_true busy chained place live body
  obtain ⟨_, readyAfter, closedDepth, seen⟩ := within.commit ready idle commit
  -- The transaction starts with nothing held.
  have nothing : fs.journalBegin.js.held = [] := congrArg (List.map _) (ready.closed idle)
  rw [same] at removed freed
  rw [← seen] at kept removed freed
  exact ⟨readyAfter, closedDepth, loc, called, kept, removed, freed nothing⟩

/-- Deleting a file there is succeeds, whatever becomes of its clusters. -/
theorem fat32DeleteFile_returns (ready : Ready g fs) (idle : fs.js.depth = 0)
    (chained : Chained g (fs.vol g) root chain) (enough : g.limit ≤ fuel) {name : Bytes}
    (present : ∃ loc ∈ locs g root, (fs.vol g).Live loc ∧
      direntName ((fs.vol g).entry loc) = toFat83 name) :
    ∃ after, fat32DeleteFile fuel fs name = some (true, after) := by
  have rootShort := length_lt_limit chained.root_trail.nodup chained.root_valid
  rw [fat32DeleteFile_ready ready]
  rcases findExistingEntryLocation_cases ready chained fuel (toFat83 name) with
    ⟨loc, place, live, _, looked⟩ | ⟨absent, _⟩ | ⟨short, _⟩
  · obtain ⟨busy, _, same⟩ := journalBegin_spec ready idle
    have nothing : fs.journalBegin.js.held = [] := congrArg (List.map _) (ready.closed idle)
    have owned := chained.owned loc place live
    have short : (chain loc).length < fuel := by
      rcases owned.trail with ⟨_, empty⟩ | trail
      · have low := g.limit_low
        rw [empty, length_nil]
        omega
      · exact Nat.lt_of_lt_of_le (length_lt_limit trail.nodup owned.valid) enough
    rw [← same] at chained live
    obtain ⟨deleted, body⟩ := deleteBody_returns busy nothing chained place live short
    obtain ⟨within, _⟩ := deleteBody_true busy chained place live body
    refine ⟨(deleted.journalCommit true).2, ?_⟩
    simp only [looked, body]
    exact congrArg some (Prod.ext (within.commit ready idle rfl).1 rfl)
  · obtain ⟨loc, place, live, called⟩ := present
    exact absurd called (absent loc place live)
  · omega

end Steps

/-- An operation on the volume. -/
inductive Op where
  | write (name data : Bytes)
  | delete (name : Bytes)
  | read (name : Bytes) (bufSize : UInt32)
  deriving DecidableEq

namespace Op

/-- The name an operation is given. -/
def name : Op → Bytes
  | write name _ => name
  | delete name => name
  | read name _ => name

/-- Names of printable characters, and data short enough for a signed length. -/
def Admissible : Op → Prop
  | write name data => Printable name ∧ data.length < 2 ^ 31
  | delete name => Printable name
  | read name _ => Printable name

/-- What an operation makes of a map from 8.3 names to contents. -/
def apply (files : Bytes → Option Bytes) : Op → Bytes → Option Bytes
  | write name data => Function.update files (toFat83 name) (some data)
  | delete name => Function.update files (toFat83 name) none
  | read _ _ => files

end Op

/-- An operation that returns and reports success; a read may also report that there is no file. -/
inductive Succeeds : Fs → Op → Fs → Prop
  | write {fs after : Fs} {fuel : Nat} {name data : Bytes}
      (run : fat32WriteFile fuel fs name data = some (true, after)) :
      Succeeds fs (.write name data) after
  | delete {fs after : Fs} {fuel : Nat} {name : Bytes}
      (run : fat32DeleteFile fuel fs name = some (true, after)) : Succeeds fs (.delete name) after
  | read {fs after : Fs} {fuel : Nat} {name : Bytes} {bufSize : UInt32} {rc : Int} {out : Bytes}
      (run : fat32ReadFile fuel fs name bufSize = some (rc, out, after)) :
      Succeeds fs (.read name bufSize) after

/-- Operations that succeed one after another. -/
inductive Succession : Fs → List Op → Fs → Prop
  | nil {fs : Fs} : Succession fs [] fs
  | cons {fs next after : Fs} {op : Op} {ops : List Op} (first : Succeeds fs op next)
      (rest : Succession next ops after) : Succession fs (op :: ops) after

/-- Operations select their partition first, so it does not matter which one is selected. -/
theorem succeeds_entered {fs after : Fs} {op : Op} :
    Succeeds fs op after ↔ Succeeds fs.entered op after := by
  constructor
  · intro done
    cases done with
    | write run => exact .write run
    | delete run => exact .delete run
    | read run => exact .read run
  · intro done
    cases done with
    | write run => exact .write run
    | delete run => exact .delete run
    | read run => exact .read run

end NovaOs.Fat
