import NovaOs.Config.Text
import NovaOs.Fat32.Success

/-! The driver refines a map from names to file contents. -/

namespace NovaOs.Fat

open List

section Reading

variable {g : Geometry} {fs after : Fs} {root : List UInt32} {chain : Loc → List UInt32}
  {files : Bytes → Option Bytes} {name : Bytes}

/-- A name no entry has is a name the map has nothing under. -/
theorem Holds.absent {v : Vol} (holds : Holds g v root chain files)
    (missing : ∀ loc ∈ locs g root, v.Live loc → direntName (v.entry loc) ≠ name) :
    files name = none := by
  cases present : files name with
  | none => rfl
  | some content =>
    obtain ⟨loc, place, live, called⟩ := holds.named name content present
    exact absurd called (missing loc place live)

/-- What a read of a name returns when the volume holds a file under it, or none. -/
def readOutcome (bufSize : UInt32) : Option Bytes → Int × Bytes
  | none => (-1, [])
  | some content =>
    (asInt (UInt32.ofNat (content.take bufSize.toNat).length), content.take bufSize.toNat)

/-- Reading along an entry's chain copies its content, as far as the buffer goes. -/
theorem readChain_owned (ready : Ready g fs) {entry : Bytes} {clusters : List UInt32}
    (owned : Owned g (fs.vol g) entry clusters)
    (size : (direntSizeField entry).toNat ≤ clusters.length * g.layout.clusterBytes) (fuel : Nat)
    (bufSize : UInt32) :
    readChain fuel fs (direntCluster entry) (min (direntSizeField entry).toNat bufSize.toNat) []
        = some (((fs.vol g).content entry clusters).take bufSize.toNat, fs) ∨
      fuel < g.limit ∧
        readChain fuel fs (direntCluster entry)
          (min (direntSizeField entry).toNat bufSize.toNat) [] = none := by
  have low := g.limit_low
  have cut : ((fs.vol g).content entry clusters).take bufSize.toNat
      = (clusters.flatMap (fs.vol g).data).take
        (min (direntSizeField entry).toNat bufSize.toNat) := by
    rw [Vol.content, take_take, Nat.min_comm]
  rw [cut]
  rcases owned.trail with ⟨_, empty⟩ | trail
  · -- A file without a chain is empty, and nothing is read.
    rw [empty, length_nil, Nat.zero_mul, Nat.le_zero] at size
    cases fuel with
    | zero => exact .inr ⟨by omega, rfl⟩
    | succ fuel => exact .inl (by simp [readChain, size, empty])
  have short := length_lt_limit trail.nodup owned.valid
  rcases readChain_cases ready trail owned.valid fuel
      (min (direntSizeField entry).toNat bufSize.toNat) [] with run | ⟨few, run⟩
  · exact .inl (by rw [run, nil_append])
  · exact .inr ⟨by omega, run⟩

/-- Reading returns the file held under the name's 8.3 form, unless it runs out of fuel. -/
theorem fat32ReadFile_cases (ready : Ready g fs) (holds : Holds g (fs.vol g) root chain files)
    (fuel : Nat) (name : Bytes) (bufSize : UInt32) :
    fat32ReadFile fuel fs name bufSize
        = some ((readOutcome bufSize (files (toFat83 name))).1,
            (readOutcome bufSize (files (toFat83 name))).2, fs) ∨
      fuel < g.limit ∧ fat32ReadFile fuel fs name bufSize = none := by
  have rootShort := length_lt_limit holds.root_trail.nodup holds.root_valid
  have entered : { fs with dev := fs.dev.blockdevSetPartitionOffset fs.partitionOffset } = fs :=
    ready.entered
  simp only [fat32ReadFile, entered]
  rw [if_neg (by simp [ready.mounted]), walkRoot, ready.layout]
  rcases walkName_cases (fun _ _ entry => entry) ready holds.toChained fuel (toFat83 name) with
    ⟨loc, place, live, called, walk⟩ | ⟨absent, ending, missing, walk⟩ | ⟨low, walk⟩
  · have found := holds.stored loc place live
    rw [called] at found
    rw [walk, found]
    rcases readChain_owned ready (holds.owned loc place live) (holds.sized loc place live)
        fuel bufSize with run | ⟨few, run⟩
    · exact .inl (by simp only [run, readOutcome])
    · exact .inr ⟨few, by simp only [run]⟩
  · left
    rw [walk, holds.absent absent]
    cases ending with
    | found outcome => exact absurd rfl (missing outcome)
    | ended | full last | unreadable => rfl
  · right
    rw [walk]
    exact ⟨by omega, rfl⟩

end Reading

/-- The driver between operations, its volume well formed and holding some files. -/
structure Serves (g : Geometry) (fs : Fs) (files : Bytes → Option Bytes) : Prop where
  ready : Ready g fs
  idle : fs.js.depth = 0
  holds : ∃ root chain, Holds g (fs.vol g) root chain files

section Refinement

variable {g : Geometry} {fs after : Fs} {files : Bytes → Option Bytes} {op : Op} {ops : List Op}
  {fuel : Nat} {name : Bytes}

/-- One successful operation does to the files held what it does to the map. -/
theorem Serves.step (serves : Serves g fs files) (admissible : op.Admissible)
    (done : Succeeds fs op after) : Serves g after (op.apply files) := by
  obtain ⟨ready, idle, root, chain, holds⟩ := serves
  cases done with
  | write run =>
    obtain ⟨readyAfter, idleAfter, new, root', chain', loc, chained, added, called, size, bytes⟩ :=
      fat32WriteFile_true ready idle holds.toChained (toFat83_first admissible.1)
        (Nat.lt_trans admissible.2 (by decide)) run
    have absent := holds.absent new
    have held := holds.added chained added (by rw [called]; exact absent) size
    rw [called, bytes] at held
    exact ⟨readyAfter, idleAfter, root', chain', held⟩
  | delete run =>
    obtain ⟨readyAfter, idleAfter, loc, called, chained, removed, _⟩ :=
      fat32DeleteFile_true ready idle holds.toChained run
    have held := holds.removed chained removed
    rw [called] at held
    exact ⟨readyAfter, idleAfter, root, chain, held⟩
  | read run => ?_
  rename_i fuel name bufSize rc out
  rcases fat32ReadFile_cases ready holds fuel name bufSize with returned | ⟨_, stuck⟩
  · rw [run] at returned
    cases returned
    exact ⟨ready, idle, root, chain, holds⟩
  · rw [run] at stuck
    cases stuck

theorem Serves.run (serves : Serves g fs files) (admissible : ∀ op ∈ ops, op.Admissible)
    (run : Succession fs ops after) : Serves g after (ops.foldl Op.apply files) := by
  induction run generalizing files with
  | nil => exact serves
  | cons first rest ih =>
    exact ih (serves.step (admissible _ (by simp)) first)
      fun op member => admissible op (by simp [member])

/-- The first operation selects the partition for all. -/
theorem Serves.run_entered (serves : Serves g fs.entered files)
    (admissible : ∀ op ∈ ops, op.Admissible) (run : Succession fs ops after) :
    Serves g after.entered (ops.foldl Op.apply files) := by
  cases run with
  | nil => exact serves
  | cons first rest =>
    have next := serves.step (admissible _ (by simp)) (succeeds_entered.mp first)
    have last := next.run (fun op member => admissible op (by simp [member])) rest
    rw [last.ready.entered]
    exact last

theorem fat32ReadFile_entered {bufSize : UInt32} :
    fat32ReadFile fuel fs.entered name bufSize = fat32ReadFile fuel fs name bufSize := rfl

theorem Op.apply_other (other : toFat83 op.name ≠ name) : op.apply files name = files name := by
  cases op with
  | write given data | delete given => exact Function.update_of_ne other.symm _ _
  | read given bufSize => rfl

/-- With a well-formed volume, a read returns what the map has under the name's 8.3 form. -/
theorem Serves.read (serves : Serves g fs.entered files) (enough : g.limit ≤ fuel) (name : Bytes)
    (bufSize : UInt32) :
    fat32ReadFile fuel fs name bufSize
      = some ((readOutcome bufSize (files (toFat83 name))).1,
          (readOutcome bufSize (files (toFat83 name))).2, fs.entered) := by
  obtain ⟨ready, _, root, chain, holds⟩ := serves
  rw [← fat32ReadFile_entered]
  rcases fat32ReadFile_cases ready holds fuel name bufSize with returned | ⟨few, _⟩
  · exact returned
  · omega

/--
After any successful operations a read returns the bytes last written under the same 8.3 form.

A further operation under another 8.3 form does not change what the read returns.
-/
theorem fat32_refines_map {ops : List Op} (start : Serves g fs.entered files)
    (admissible : ∀ op ∈ ops, op.Admissible) (run : Succession fs ops after) (name : Bytes)
    (bufSize : UInt32) {fuel : Nat} (enough : g.limit ≤ fuel) :
    (∃ later, fat32ReadFile fuel after name bufSize
      = some ((readOutcome bufSize (ops.foldl Op.apply files (toFat83 name))).1,
          (readOutcome bufSize (ops.foldl Op.apply files (toFat83 name))).2, later)) ∧
    ∀ (op : Op) (further : Fs), op.Admissible → Succeeds after op further →
      toFat83 op.name ≠ toFat83 name →
      (fat32ReadFile fuel further name bufSize).map (fun result => (result.1, result.2.1))
        = (fat32ReadFile fuel after name bufSize).map (fun result => (result.1, result.2.1)) := by
  have serves := start.run_entered admissible run
  refine ⟨⟨_, serves.read enough name bufSize⟩, ?_⟩
  intro op further fits done other
  have next := serves.step fits (succeeds_entered.mp done)
  have again : Serves g further.entered (op.apply (ops.foldl Op.apply files)) := by
    rw [next.ready.entered]
    exact next
  rw [serves.read enough, again.read enough, Op.apply_other other]
  rfl

end Refinement

section Sample

/-- A volume of single-sector clusters with one FAT sector. -/
def sampleGeometry : Geometry where
  layout :=
    { sectorsPerCluster := 1
      fatStartLba := 1
      dataStartLba := 2
      rootCluster := 2
      numFats := 1
      fatSize32 := 1 }
  partitionOffset := 0
  limit := 128
  limit_low := by decide
  cluster_size := by decide
  copies := by decide
  data_start := by decide
  entries_small := by decide
  limit_entries := by decide
  limit_small := by decide
  addressable := by decide

/-- That volume with nothing on it but an empty root directory, without a journal. -/
def sampleFs : Fs where
  mounted := true
  partitionOffset := 0
  layout := sampleGeometry.layout
  nextFreeClusterHint := 2
  js := .new
  dev :=
    { disk := fun addr =>
        if addr = 1 then Sector.ofBytes (putU32Le (List.replicate 512 0) 8 endOfChain)
        else zeroSector
      activeDevice := 0
      partitionOffset := 0
      faults := noFaults
      issued := [] }

/-- Its clusters are all blank. -/
theorem sampleFs_data {cluster : UInt32} (valid : sampleGeometry.Valid cluster) :
    (sampleFs.vol sampleGeometry).data cluster = List.replicate 512 0 := by
  have address := Geometry.clusterToLba_toNat valid
  have low := valid.1
  have sector : sampleFs.view (sampleGeometry.layout.clusterToLba cluster) = zeroSector := by
    have home : sampleFs.dev.targetLba (sampleGeometry.layout.clusterToLba cluster)
        = cluster.toNat := by
      rw [Device.targetLba, show sampleFs.dev.partitionOffset = 0 from rfl, UInt32.add_zero,
        address]
      simp only [sampleGeometry, Geometry.spc, UInt8.reduceToNat, UInt32.reduceToNat]
      omega
    rw [Fs.view, viewOf_of_empty rfl, home]
    exact if_neg (by omega)
  rw [Fs.vol, volOf_data valid]
  have one : sampleGeometry.spc = 1 := rfl
  simp only [one, viewRun, range_one, map_cons, map_nil]
  rw [show sampleGeometry.layout.clusterToLba cluster + UInt32.ofNat 0
    = sampleGeometry.layout.clusterToLba cluster from UInt32.add_zero _, sector]
  rw [bytesOf, flatMap_cons, flatMap_nil, append_nil]
  rfl

theorem sampleFs_serves : Serves sampleGeometry sampleFs.entered fun _ => none := by
  have root : sampleGeometry.Valid 2 := by decide
  have last : Ends ((sampleFs.entered.vol sampleGeometry).fat 2) := by decide
  exact ⟨.unjournaled rfl rfl rfl rfl rfl rfl, rfl, _, _, Holds.blank root last (sampleFs_data root)
    fun c low high _ => ⟨low, high⟩⟩

/-- A file written to that volume under one spelling of its name is read under another. -/
theorem fat32_refines_map_hi :
    ∃ after, Succession sampleFs [.write (ascii "hi.txt") [104, 105]] after ∧
      ∃ later, fat32ReadFile 128 after (ascii "HI.TXT") 512 = some (2, [104, 105], later) := by
  have ran : (fat32WriteFile 128 sampleFs (ascii "hi.txt") [104, 105]).map Prod.fst
      = some true := by decide
  obtain ⟨⟨ok, after⟩, run, rfl⟩ := Option.map_eq_some_iff.mp ran
  have succession : Succession sampleFs [.write (ascii "hi.txt") [104, 105]] after :=
    .cons (.write run) .nil
  refine ⟨after, succession, ?_⟩
  have admissible : ∀ op ∈ [Op.write (ascii "hi.txt") [104, 105]], op.Admissible := by
    intro op member
    rw [mem_singleton.mp member]
    exact ⟨by decide, by simp⟩
  exact (fat32_refines_map sampleFs_serves admissible succession (ascii "HI.TXT") 512
    (Nat.le_refl 128)).1

/-- A transfer that fails while the second write looks for its name hides the file that has it: the
write succeeds, and it is still the first file that is read. -/
theorem failed_lookup_hides_file :
    let fs : Fs := { sampleFs with dev := { sampleFs.dev with faults := (· == 8) } }
    ∃ after, Succession fs [.write (ascii "hi") [104], .write (ascii "hi") [105]] after ∧
      (fat32ReadFile 128 after (ascii "hi") 512).map (fun read => (read.1, read.2.1))
        = some (1, [104]) := by
  intro fs
  have ran : ((fat32WriteFile 128 fs (ascii "hi") [104]).bind fun first =>
      (fat32WriteFile 128 first.2 (ascii "hi") [105]).map fun second => (first.1, second.1,
        (fat32ReadFile 128 second.2 (ascii "hi") 512).map fun read => (read.1, read.2.1)))
      = some (true, true, some (1, [104])) := by decide
  obtain ⟨⟨ok, mid⟩, one, rest⟩ := Option.bind_eq_some_iff.mp ran
  obtain ⟨⟨ok', after⟩, two, same⟩ := Option.map_eq_some_iff.mp rest
  simp only [Prod.mk.injEq] at same
  obtain ⟨rfl, rfl, read⟩ := same
  exact ⟨after, .cons (.write one) (.cons (.write two) .nil), read⟩

end Sample

end NovaOs.Fat
