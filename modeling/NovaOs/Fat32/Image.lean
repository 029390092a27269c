import NovaOs.Config.Text
import NovaOs.Fat32.Transfer

/-! Reads of an arbitrary disk: whatever is on it, every cluster has data and every link leads
somewhere. -/

namespace NovaOs.Fat

open List

/-- The data a read of a cluster returns. -/
def Fs.clusterData (fs : Fs) (cluster : UInt32) : Bytes := (fs.readCluster cluster).1.getD []

/-- The link the FAT has for a cluster. -/
def Fs.nextOf (fs : Fs) (cluster : UInt32) : UInt32 := (fs.fatNextCluster cluster).1

/-- At most `count` clusters of the chain from a cluster on, cyclic or not. -/
def Fs.clustersFrom (fs : Fs) : Nat → UInt32 → List UInt32
  | 0, _ => []
  | count + 1, cluster =>
    if cluster < endOfChain then cluster :: fs.clustersFrom count (fs.nextOf cluster) else []

/-- The bytes of those clusters. -/
def Fs.stream (fs : Fs) (count : Nat) (cluster : UInt32) : Bytes :=
  (fs.clustersFrom count cluster).flatMap fs.clusterData

section Reads

variable {fs : Fs}

/-- A disk without faults returns as many sectors as asked for, and is unchanged. -/
theorem readSectors_total (sound : fs.dev.faults = noFaults) (lba : UInt32) (count : Nat) :
    ∃ buf, fs.readSectors lba count = (some buf, fs) ∧ buf.length = count * sectorSize := by
  have sectors : ∃ run, rustJournalReadSectors fs.js fs.dev lba count = (some run, fs.dev) ∧
      run.length = count := by
    rw [rustJournalReadSectors, readSectorsInternal]
    split
    · rw [Device.blockdevReadSectors, Device.dispatchRead_of_noFaults sound]
      exact ⟨_, rfl, by simp⟩
    · rw [readShadowed_eq sound]
      exact ⟨_, rfl, viewRun_length⟩
  obtain ⟨run, read, length⟩ := sectors
  refine ⟨bytesOf run, ?_, by rw [bytesOf_length, length]⟩
  rw [Fs.readSectors, read]
  rfl

theorem readCluster_total (sound : fs.dev.faults = noFaults) (cluster : UInt32) :
    fs.readCluster cluster = (some (fs.clusterData cluster), fs) ∧
      (fs.clusterData cluster).length = fs.layout.clusterBytes := by
  obtain ⟨buf, read, length⟩ := readSectors_total sound (fs.layout.clusterToLba cluster)
    fs.layout.sectorsPerCluster.toNat
  have same : fs.readCluster cluster = (some buf, fs) := read
  have data : fs.clusterData cluster = buf := by rw [Fs.clusterData, same]; rfl
  rw [data]
  exact ⟨same, length⟩

theorem fatNextCluster_total (sound : fs.dev.faults = noFaults) {cluster : UInt32} :
    fs.fatNextCluster cluster = (fs.nextOf cluster, fs) := by
  obtain ⟨buf, read, _⟩ := readSectors_total sound (fs.layout.fatSector 0 cluster) 1
  have state : (fs.fatNextCluster cluster).2 = fs := by
    rw [Fs.fatNextCluster, read]
  exact Prod.ext rfl state

end Reads

section Streams

variable {fs : Fs} {cluster : UInt32} {skip : Nat}

/-- Where a walk of `count` steps along the links comes to, at most to an end. -/
def Fs.advance (fs : Fs) : Nat → UInt32 → UInt32
  | 0, cluster => cluster
  | count + 1, cluster =>
    if cluster < endOfChain then fs.advance count (fs.nextOf cluster) else cluster

theorem skipChain_eq (sound : fs.dev.faults = noFaults) :
    skipChain fs cluster skip = (fs.advance skip cluster, fs) := by
  induction skip generalizing cluster with
  | zero => rfl
  | succ skip ih =>
    simp only [skipChain, Fs.advance, fatNextCluster_total sound, ih]
    split <;> rfl

/-- A stream is full as far as its clusters go. -/
theorem stream_length (sound : fs.dev.faults = noFaults) (count : Nat) (cluster : UInt32) :
    (fs.stream count cluster).length
      = (fs.clustersFrom count cluster).length * fs.layout.clusterBytes := by
  rw [Fs.stream]
  induction fs.clustersFrom count cluster with
  | nil => simp
  | cons first rest ih =>
    rw [flatMap_cons, length_append, ih, (readCluster_total sound first).2,
      length_cons, Nat.add_one_mul, Nat.add_comm]

theorem clustersFrom_add {count : Nat} :
    fs.clustersFrom (skip + count) cluster
      = fs.clustersFrom skip cluster ++ fs.clustersFrom count (fs.advance skip cluster) := by
  induction skip generalizing cluster with
  | zero => simp [Fs.clustersFrom, Fs.advance]
  | succ skip ih =>
    rw [Nat.succ_add, Fs.clustersFrom, Fs.clustersFrom, Fs.advance]
    by_cases going : cluster < endOfChain
    · rw [if_pos going, if_pos going, if_pos going, ih, cons_append]
    -- The chain ends here, and so there is nothing after it.
    rw [if_neg going, if_neg going, if_neg going, nil_append]
    cases count with
    | zero => rfl
    | succ count => rw [Fs.clustersFrom, if_neg going]

theorem clustersFrom_length_le (count : Nat) (cluster : UInt32) :
    (fs.clustersFrom count cluster).length ≤ count := by
  induction count generalizing cluster with
  | zero => simp [Fs.clustersFrom]
  | succ count ih =>
    rw [Fs.clustersFrom]
    split
    · rw [length_cons]
      exact Nat.succ_le_succ (ih _)
    · exact Nat.zero_le _

/-- A chain that does not end on the way has as many clusters as steps were taken. -/
theorem clustersFrom_length (skip : Nat) (cluster : UInt32)
    (going : fs.advance skip cluster < endOfChain) :
    (fs.clustersFrom skip cluster).length = skip := by
  induction skip generalizing cluster with
  | zero => rfl
  | succ skip ih =>
    rw [Fs.advance] at going
    by_cases here : cluster < endOfChain
    · rw [if_pos here] at going
      rw [Fs.clustersFrom, if_pos here, length_cons, ih _ going]
    · rw [if_neg here] at going
      exact absurd going here

/-- Past the end of a chain there are no clusters. -/
theorem clustersFrom_ended (count : Nat) (ended : ¬ cluster < endOfChain) :
    fs.clustersFrom count cluster = [] := by
  cases count with
  | zero => rfl
  | succ count => rw [Fs.clustersFrom, if_neg ended]

/-- Dropping whole clusters of a stream is starting it further along the chain. -/
theorem stream_drop (sound : fs.dev.faults = noFaults) {count rest : Nat} :
    (fs.stream (skip + count) cluster).drop (skip * fs.layout.clusterBytes + rest)
      = (fs.stream count (fs.advance skip cluster)).drop rest := by
  have split : fs.stream (skip + count) cluster
      = fs.stream skip cluster ++ fs.stream count (fs.advance skip cluster) := by
    rw [Fs.stream, clustersFrom_add, flatMap_append]
    rfl
  have length := stream_length sound skip cluster
  rw [split]
  by_cases going : fs.advance skip cluster < endOfChain
  · rw [clustersFrom_length skip cluster going] at length
    rw [← length, drop_append, drop_of_length_le (Nat.le_add_right _ _),
      nil_append, Nat.add_sub_cancel_left]
  have none : fs.stream count (fs.advance skip cluster) = [] := by
    rw [Fs.stream, clustersFrom_ended count going]
    rfl
  have short := Nat.mul_le_mul_right fs.layout.clusterBytes
    (@clustersFrom_length_le fs skip cluster)
  rw [none, append_nil, drop_nil]
  exact drop_of_length_le (by omega)

end Streams

section Copying

variable {fs after : Fs} {fuel remaining : Nat} {cluster : UInt32} {out : Bytes}

/-- The loop of a ranged read copies the stream from inside its first cluster on. -/
theorem rangeChain_eq (sound : fs.dev.faults = noFaults) {inCluster : Nat} {result : Bytes}
    (inside : inCluster < fs.layout.clusterBytes)
    (run : rangeChain fuel fs cluster inCluster remaining out = some (result, after))
    {count : Nat} (enough : remaining ≤ count * fs.layout.clusterBytes - inCluster) :
    after = fs ∧ result = out ++ ((fs.stream count cluster).drop inCluster).take remaining := by
  induction fuel generalizing cluster inCluster remaining out count with
  | zero => cases run
  | succ fuel ih =>
    obtain ⟨read, length⟩ := readCluster_total sound cluster
    by_cases more : 0 < remaining
    · by_cases going : cluster < endOfChain
      · simp only [rangeChain, more, going, decide_true, Bool.and_self, if_true, read,
          fatNextCluster_total sound] at run
        obtain ⟨count, rfl⟩ : ∃ rest, count = rest + 1 := by
          cases count with
          | zero => omega
          | succ rest => exact ⟨rest, rfl⟩
        have stream : fs.stream (count + 1) cluster
            = fs.clusterData cluster ++ fs.stream count (fs.nextOf cluster) := by
          rw [Fs.stream, Fs.clustersFrom, if_pos going, flatMap_cons]
          rfl
        rw [Nat.add_one_mul] at enough
        obtain ⟨same, rfl⟩ := ih (by omega : 0 < fs.layout.clusterBytes) run
          (by omega : remaining - min remaining (fs.layout.clusterBytes - inCluster)
            ≤ count * fs.layout.clusterBytes - 0)
        refine ⟨same, ?_⟩
        -- This cluster's share comes first, and the rest of the chain gives what is left.
        have share : ((fs.clusterData cluster).drop inCluster).length
            = fs.layout.clusterBytes - inCluster := by rw [length_drop, length]
        have none : inCluster - (fs.clusterData cluster).length = 0 := by omega
        rw [stream, drop_append, none, drop_zero, take_append, share, append_assoc]
        congr 2
        · exact take_eq_take_iff.mpr (by omega)
        · congr 1
          omega
      · simp only [rangeChain, going, decide_false, Bool.and_false, Bool.false_eq_true, if_false,
          Option.some.injEq, Prod.mk.injEq] at run
        obtain ⟨rfl, rfl⟩ := run
        rw [Fs.stream, clustersFrom_ended count going]
        simp
    · have none : remaining = 0 := by omega
      subst none
      simp only [rangeChain, Nat.lt_irrefl, decide_false, Bool.false_and, Bool.false_eq_true,
        if_false, Option.some.injEq, Prod.mk.injEq] at run
      obtain ⟨rfl, rfl⟩ := run
      simp

/-- The loop of a whole read is that of a ranged one that starts at a cluster's first byte. -/
theorem readChain_eq_rangeChain (sound : fs.dev.faults = noFaults) :
    readChain fuel fs cluster remaining out = rangeChain fuel fs cluster 0 remaining out := by
  induction fuel generalizing cluster remaining out with
  | zero => rfl
  | succ fuel ih =>
    simp only [readChain, rangeChain, (readCluster_total sound cluster).1,
      fatNextCluster_total sound, ih, Nat.sub_zero, drop_zero]

end Copying

section Walking

variable {α : Type} {fs after : Fs} {visit : UInt32 → Nat → Bytes → Visit α} {fuel fuel' : Nat}
  {cluster last : UInt32} {name : Bytes}

/-- A walk that ends ends the same way with more fuel. -/
theorem walkChain_mono {result : Walk α × Fs}
    (run : walkChain visit fuel fs cluster last = some result) (more : fuel ≤ fuel') :
    walkChain visit fuel' fs cluster last = some result := by
  induction fuel generalizing fs cluster last fuel' with
  | zero => cases run
  | succ fuel ih =>
    obtain ⟨fuel', rfl⟩ : ∃ rest, fuel' = rest + 1 := ⟨fuel' - 1, by omega⟩
    rw [walkChain] at run ⊢
    split
    · rename_i going
      rw [if_pos going] at run
      rcases read : fs.readCluster cluster with ⟨buf, fs⟩
      cases buf with
      | none => simpa only [read] using run
      | some buf => ?_
      simp only [read] at run ⊢
      cases seen : visitDirents (visit cluster) buf 0 fs.layout.entriesPerCluster with
      | found result | stop => simpa only [seen] using run
      | skip =>
        simp only [seen] at run ⊢
        exact ih run (by omega)
    · rename_i ended
      rwa [if_neg ended] at run

/-- Two walks that both end, end the same way. -/
theorem walkChain_unique {first second : Walk α × Fs}
    (one : walkChain visit fuel fs cluster last = some first)
    (two : walkChain visit fuel' fs cluster last = some second) : first = second := by
  have high := walkChain_mono one (Nat.le_max_left fuel fuel')
  have other := walkChain_mono two (Nat.le_max_right fuel fuel')
  rw [high] at other
  exact Option.some.inj other

/-- A walk of a disk without faults leaves the driver as it was. -/
theorem walkChain_same (sound : fs.dev.faults = noFaults) {ending : Walk α}
    (run : walkChain visit fuel fs cluster last = some (ending, after)) : after = fs := by
  induction fuel generalizing cluster last with
  | zero => cases run
  | succ fuel ih =>
    simp only [walkChain, (readCluster_total sound cluster).1, fatNextCluster_total sound] at run
    split at run
    · cases seen : visitDirents (visit cluster) (fs.clusterData cluster) 0
          fs.layout.entriesPerCluster with
      | found result | stop =>
        simp only [seen, Option.some.injEq, Prod.mk.injEq] at run
        exact run.2.symm
      | skip =>
        simp only [seen] at run
        exact ih run
    · simp only [Option.some.injEq, Prod.mk.injEq] at run
      exact run.2.symm

theorem walkRoot_same (sound : fs.dev.faults = noFaults) {found : Option Bytes}
    (run : walkRoot fuel fs name = some (found, after)) : after = fs := by
  rw [walkRoot] at run
  cases walk : walkChain (visitName name fun _ _ entry => entry) fuel fs fs.layout.rootCluster
      fs.layout.rootCluster with
  | none =>
    rw [walk] at run
    cases run
  | some outcome =>
    obtain ⟨ending, later⟩ := outcome
    obtain rfl := walkChain_same sound walk
    rw [walk] at run
    cases ending with
    | found entry | ended | full _ | unreadable =>
      simp only [Option.some.injEq, Prod.mk.injEq] at run
      exact run.2.symm

theorem walkRoot_unique {first second : Option Bytes × Fs}
    (one : walkRoot fuel fs name = some first) (two : walkRoot fuel' fs name = some second) :
    first = second := by
  rw [walkRoot] at one two
  cases walk : walkChain (visitName name fun _ _ entry => entry) fuel fs fs.layout.rootCluster
      fs.layout.rootCluster with
  | none =>
    rw [walk] at one
    cases one
  | some outcome =>
    cases walk' : walkChain (visitName name fun _ _ entry => entry) fuel' fs
        fs.layout.rootCluster fs.layout.rootCluster with
    | none =>
      rw [walk'] at two
      cases two
    | some outcome' =>
      rw [walk] at one
      rw [walk', ← walkChain_unique walk walk'] at two
      rw [one] at two
      exact Option.some.inj two

end Walking

section Ranges

variable {fs after after' : Fs} {fuel offset : Nat} {out : Bytes} {remaining : Nat}
  {cluster : UInt32}

/-- Clusters have sectors, as a mounted volume's do. -/
def Sized (fs : Fs) : Prop := fs.mounted = true → 0 < fs.layout.clusterBytes

/-- A count that is not negative as a C `int` is the count. -/
theorem asInt_of_nonneg {count : Nat} (small : count < 2 ^ 32)
    (nonneg : 0 ≤ asInt (UInt32.ofNat count)) : asInt (UInt32.ofNat count) = count := by
  have value : (UInt32.ofNat count).toNat = count := by
    rw [UInt32.toNat_ofNat']
    omega
  rw [asInt, value] at nonneg ⊢
  split at nonneg
  · rename_i low
    rw [if_pos low]
  · omega

/-- A whole read copies the stream, up to the file's size and the buffer's. -/
theorem readChain_stream (sound : fs.dev.faults = noFaults) (sized : 0 < fs.layout.clusterBytes)
    (small : remaining < 2 ^ 32)
    (run : readChain fuel fs cluster remaining [] = some (out, after)) :
    out = (fs.stream (2 ^ 32) cluster).take remaining := by
  rw [readChain_eq_rangeChain sound] at run
  have enough : remaining ≤ 2 ^ 32 * fs.layout.clusterBytes - 0 := by
    omega
  simpa using (rangeChain_eq sound sized run enough).2

/-- The chain of a ranged read's first cluster has the bytes the whole chain has from there on. -/
theorem stream_offset (sound : fs.dev.faults = noFaults) (cluster : UInt32)
    (small : offset < 2 ^ 32) :
    (fs.stream (2 ^ 32) cluster).drop offset
      = (fs.stream (2 ^ 32 - offset / fs.layout.clusterBytes)
          (fs.advance (offset / fs.layout.clusterBytes) cluster)).drop
            (offset % fs.layout.clusterBytes) := by
  have few : offset / fs.layout.clusterBytes ≤ offset := Nat.div_le_self _ _
  have parts := Nat.div_add_mod' offset fs.layout.clusterBytes
  have count : 2 ^ 32 = offset / fs.layout.clusterBytes
      + (2 ^ 32 - offset / fs.layout.clusterBytes) := by omega
  rw [← stream_drop sound, parts, ← count]

/-- A ranged read copies the stream from its offset on, up to the file's size and its length. -/
theorem rangeChain_stream (sound : fs.dev.faults = noFaults) (sized : 0 < fs.layout.clusterBytes)
    (small : offset + remaining < 2 ^ 32)
    (run : rangeChain fuel fs (fs.advance (offset / fs.layout.clusterBytes) cluster)
      (offset % fs.layout.clusterBytes) remaining [] = some (out, after)) :
    out = ((fs.stream (2 ^ 32) cluster).drop offset).take remaining := by
  have parts := Nat.div_add_mod' offset fs.layout.clusterBytes
  have enough : remaining ≤ (2 ^ 32 - offset / fs.layout.clusterBytes) * fs.layout.clusterBytes
      - offset % fs.layout.clusterBytes := by
    rw [Nat.sub_mul]
    omega
  have bytes := (rangeChain_eq sound (Nat.mod_lt _ sized) run enough).2
  rw [stream_offset sound cluster (by omega)]
  simpa using bytes

/-- A part of a part, as far as the first one reaches. -/
theorem take_drop_take {S out' : Bytes} {size buf len : Nat} (whole : out = S.take (min size buf))
    (range : out' = (S.drop offset).take (min (size - offset) len)) :
    out'.take (buf - offset) = (out.drop offset).take len ∧
      (out.length < buf → out' = (out.drop offset).take len) := by
  have length : (S.drop offset).length = S.length - offset := length_drop
  subst whole range
  rw [drop_take, take_take, take_take, length_take]
  constructor
  · congr 1
    omega
  · intro short
    apply take_eq_take_iff.mpr
    omega

/-- What a ranged read returns once its entry is found. -/
theorem rangeFound (sound : fs.dev.faults = noFaults) (sized : 0 < fs.layout.clusterBytes)
    {entry : Bytes} {offset len : UInt32} {rc : Int}
    (run : (if direntSizeField entry ≤ offset || len == 0 then some (0, [], fs)
      else
        match skipChain fs (direntCluster entry) (offset.toNat / fs.layout.clusterBytes) with
        | (cluster, fs) =>
          if endOfChain ≤ cluster then some (0, [], fs)
          else
            match rangeChain fuel fs cluster (offset.toNat % fs.layout.clusterBytes)
                (min (direntSizeField entry - offset).toNat len.toNat) [] with
            | none => none
            | some (out, fs) => some (asInt (UInt32.ofNat out.length), out, fs))
      = some (rc, out, after)) :
    out = ((fs.stream (2 ^ 32) (direntCluster entry)).drop offset.toNat).take
        (min ((direntSizeField entry).toNat - offset.toNat) len.toNat) ∧
      (0 ≤ rc → rc = out.length) := by
  split at run
  · rename_i nothing
    cases run
    refine ⟨?_, fun _ => rfl⟩
    simp only [Bool.or_eq_true, decide_eq_true_eq, beq_iff_eq, UInt32.le_iff_toNat_le] at nothing
    have none : min ((direntSizeField entry).toNat - offset.toNat) len.toNat = 0 := by
      rcases nothing with past | rfl
      · omega
      · exact Nat.min_zero _
    rw [none, take_zero]
  · rename_i some_bytes
    simp only [Bool.or_eq_true, decide_eq_true_eq, beq_iff_eq, not_or, UInt32.not_le,
      UInt32.lt_iff_toNat_lt] at some_bytes
    have size : (direntSizeField entry - offset).toNat
        = (direntSizeField entry).toNat - offset.toNat :=
      UInt32.toNat_sub_of_le _ _ (UInt32.le_iff_toNat_le.mpr (Nat.le_of_lt some_bytes.1))
    have bound := (direntSizeField entry).toNat_lt
    rw [skipChain_eq sound, size] at run
    dsimp only at run
    split at run
    · -- The chain ends before the offset.
      rename_i ended
      cases run
      refine ⟨?_, fun _ => rfl⟩
      rw [stream_offset sound _ offset.toNat_lt, Fs.stream,
        clustersFrom_ended _ (UInt32.not_lt.mpr ended)]
      simp
    cases copied : rangeChain fuel fs (fs.advance (offset.toNat / fs.layout.clusterBytes)
        (direntCluster entry)) (offset.toNat % fs.layout.clusterBytes)
        (min ((direntSizeField entry).toNat - offset.toNat) len.toNat) [] with
    | none =>
      rw [copied] at run
      cases run
    | some result =>
      obtain ⟨bytes, later⟩ := result
      rw [copied] at run
      simp only [Option.some.injEq, Prod.mk.injEq] at run
      obtain ⟨rfl, rfl, _⟩ := run
      have stream := rangeChain_stream sound sized (by omega) copied
      refine ⟨stream, asInt_of_nonneg ?_⟩
      have length := congrArg length stream
      rw [length_take] at length
      omega

/--
A ranged read returns what a whole read has from the offset on, as far as the whole read's buffer
reached; all of it, if that read did not fill its buffer.
-/
theorem fat32_range_agrees (sound : fs.dev.faults = noFaults) (sized : Sized fs)
    {fuel fuel' : Nat} {name : Bytes} {bufSize offset len : UInt32} {rc rc' : Int}
    {out out' : Bytes} (whole : fat32ReadFile fuel fs name bufSize = some (rc, out, after))
    (range : fat32ReadFileRange fuel' fs name offset len = some (rc', out', after')) :
    out'.take (bufSize.toNat - offset.toNat) = (out.drop offset.toNat).take len.toNat ∧
      (out.length < bufSize.toNat → out' = (out.drop offset.toNat).take len.toNat) ∧
      (0 ≤ rc' → rc' = out'.length) := by
  simp only [fat32ReadFile] at whole
  simp only [fat32ReadFileRange] at range
  -- Both calls select the partition first; from there on they start from the same state.
  generalize entered : ({ fs with
    dev := fs.dev.blockdevSetPartitionOffset fs.partitionOffset } : Fs) = start at whole range
  have sound' : start.dev.faults = noFaults := by rw [← entered]; exact sound
  have layout : start.layout = fs.layout := by rw [← entered]
  by_cases mounted : fs.mounted = true
  · have sized' : 0 < start.layout.clusterBytes := by rw [layout]; exact sized mounted
    simp only [mounted, Bool.not_true, Bool.false_eq_true, if_false] at whole range
    cases looked : walkRoot fuel start (toFat83 name) with
    | none =>
      rw [looked] at whole
      cases whole
    | some outcome => ?_
    cases looked' : walkRoot fuel' start (toFat83 name) with
    | none =>
      rw [looked'] at range
      cases range
    | some outcome' => ?_
    obtain rfl := walkRoot_unique looked looked'
    obtain ⟨found, later⟩ := outcome
    obtain rfl := walkRoot_same sound' looked
    rw [looked] at whole
    rw [looked'] at range
    cases found with
    | none =>
      cases whole
      cases range
      exact ⟨by simp, fun _ => by simp, fun impossible => absurd impossible (by decide)⟩
    | some entry => ?_
    obtain ⟨bytes', count⟩ := rangeFound sound' sized' range
    dsimp only at whole
    cases copied : readChain fuel later (direntCluster entry)
        (min (direntSizeField entry).toNat bufSize.toNat) [] with
    | none =>
      rw [copied] at whole
      cases whole
    | some result =>
      obtain ⟨bytes, last⟩ := result
      rw [copied] at whole
      simp only [Option.some.injEq, Prod.mk.injEq] at whole
      obtain ⟨_, rfl, _⟩ := whole
      have bound := (direntSizeField entry).toNat_lt
      have stream := readChain_stream sound' sized' (by omega) copied
      obtain ⟨part, all⟩ := take_drop_take stream bytes'
      exact ⟨part, all, count⟩
  · simp only [Bool.not_eq_true] at mounted
    simp only [mounted, Bool.not_false, if_true, Option.some.injEq, Prod.mk.injEq] at whole range
    obtain ⟨_, rfl, _⟩ := whole
    obtain ⟨rfl, rfl, _⟩ := range
    exact ⟨by simp, fun _ => by simp, fun impossible => absurd impossible (by decide)⟩

end Ranges

section Hello

/-- A mounted volume of single-sector clusters with one file of two bytes. -/
def helloFs : Fs where
  mounted := true
  partitionOffset := 0
  layout :=
    { sectorsPerCluster := 1
      fatStartLba := 1
      dataStartLba := 2
      rootCluster := 2
      numFats := 1
      fatSize32 := 1 }
  nextFreeClusterHint := 4
  js := .new
  dev :=
    { disk := fun addr =>
        if addr = 1 then
          Sector.ofBytes (putU32Le (putU32Le (List.replicate 512 0) 8 endOfChain) 12 endOfChain)
        else if addr = 2 then Sector.ofBytes (newDirent (toFat83 (ascii "hi")) 3 2)
        else if addr = 3 then Sector.ofBytes [104, 105]
        else zeroSector
      activeDevice := 0
      partitionOffset := 0
      faults := noFaults
      issued := [] }

/-- Its second byte read as a range, with more asked for than there is. -/
theorem fat32_range_agrees_hello :
    ∃ out out' after after', fat32ReadFile 8 helloFs (ascii "hi") 512 = some (2, out, after) ∧
      fat32ReadFileRange 8 helloFs (ascii "HI") 1 5 = some (1, out', after') ∧
      out' = (out.drop 1).take 5 := by
  have read : (fat32ReadFile 8 helloFs (ascii "hi") 512).map (fun r => (r.1, r.2.1))
      = some (2, [104, 105]) := by decide
  have ranged : (fat32ReadFileRange 8 helloFs (ascii "HI") 1 5).map (fun r => (r.1, r.2.1))
      = some (1, [105]) := by decide
  obtain ⟨⟨rc, out, after⟩, whole, same⟩ := Option.map_eq_some_iff.mp read
  obtain ⟨⟨rc', out', after'⟩, range, same'⟩ := Option.map_eq_some_iff.mp ranged
  cases same
  cases same'
  have spelled : fat32ReadFileRange 8 helloFs (ascii "hi") 1 5 = some (1, [105], after') := range
  exact ⟨_, _, after, after', whole, range,
    (fat32_range_agrees rfl (fun _ => by decide) whole spelled).2.1 (by decide)⟩

/-- A transfer that fails in a ranged read makes it report the end of the file at its start, where
the read before it had two bytes. -/
theorem failed_read_ends_file :
    let fs : Fs := { helloFs with dev := { helloFs.dev with faults := (· == 4) } }
    ((fat32ReadFile 8 fs (ascii "hi") 512).bind fun (rc, out, after) =>
      (fat32ReadFileRange 8 after (ascii "hi") 0 512).map fun (rc', out', _) =>
        (rc, out, rc', out'))
        = some (2, [104, 105], 0, []) := by
  decide

end Hello

end NovaOs.Fat
