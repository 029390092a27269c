import Mathlib.Data.List.Forall2
import NovaOs.Partition.Bounds

/-! How the partitions that are reported compare with the entries they come from. -/

namespace NovaOs.Partition

open List

/-- A partition at the full width of its entry: where it starts, and its number of sectors, which
an entry may make negative. -/
structure Extent where
  start : Nat
  count : Int
  deriving DecidableEq

/-- What is reported is what the entry says, and it is a range of addresses. -/
structure Real (reported : PartitionEntry) (stored : Extent) : Prop where
  start : reported.startLba.toNat = stored.start
  count : (reported.sectorCount.toNat : Int) = stored.count
  start_pos : 1 ≤ reported.startLba.toNat
  count_pos : reported.sectorCount ≠ 0
  addressable : reported.startLba.toNat + reported.sectorCount.toNat ≤ 2 ^ 32

/-- An entry that can be reported as it is. -/
def Sane (stored : Extent) : Prop :=
  1 ≤ stored.start ∧ 1 ≤ stored.count ∧ stored.start + stored.count ≤ 2 ^ 32

section Mbr

variable {sector0 : Bytes}

/-- What an entry of the boot sector says. -/
def mbrExtent (sector0 : Bytes) (entry : Nat) : Extent :=
  ⟨(getU32Le sector0 (entry + 8)).toNat, (getU32Le sector0 (entry + 12)).toNat⟩

/-- The places of `left` entries of the boot sector from entry `i` on. -/
def mbrPlaces (i left : Nat) : List Nat :=
  (List.range' i left).map fun i => mbrPartitionTableOffset + i * mbrEntrySize

/-- What the entries that are taken for partitions say, in their order. -/
def mbrSources (sector0 : Bytes) : List Extent :=
  ((mbrPlaces 0 4).filter fun entry => (mbrEntryAt sector0 entry).isSome).map (mbrExtent sector0)

/-- An entry of the boot sector is taken only if it is what it says. -/
theorem mbrEntryAt_real {entry : Nat} {reported : PartitionEntry}
    (taken : mbrEntryAt sector0 entry = some reported) :
    Real reported (mbrExtent sector0 entry) := by
  simp only [mbrEntryAt] at taken
  split at taken
  · cases taken
  rename_i sane
  simp only [Bool.or_eq_true, beq_iff_eq, decide_eq_true_eq, not_or, UInt32.not_lt] at sane
  obtain ⟨⟨⟨_, some_count⟩, some_start⟩, fits⟩ := sane
  cases taken
  -- The comparison is made on the side that cannot wrap.
  have sum : (getU32Le sector0 (entry + 8)).toNat + (getU32Le sector0 (entry + 12)).toNat
      ≤ 2 ^ 32 - 1 := by
    have small := (getU32Le sector0 (entry + 12)).toNat_lt
    have value : (0xFFFFFFFF - getU32Le sector0 (entry + 12)).toNat
        = 2 ^ 32 - 1 - (getU32Le sector0 (entry + 12)).toNat :=
      UInt32.toNat_sub_of_le _ _ (UInt32.le_iff_toNat_le.mpr (by
        show (getU32Le sector0 (entry + 12)).toNat ≤ 2 ^ 32 - 1
        omega))
    have below := UInt32.le_iff_toNat_le.mp fits
    rw [value] at below
    omega
  have positive : (getU32Le sector0 (entry + 8)).toNat ≠ 0 :=
    fun zero => some_start (UInt32.toNat_inj.mp zero)
  exact ⟨rfl, rfl, Nat.pos_of_ne_zero positive, some_count, by
    show (getU32Le sector0 (entry + 8)).toNat + (getU32Le sector0 (entry + 12)).toNat ≤ 2 ^ 32
    omega⟩

/-- The loop over the boot sector reports the entries it takes, in their order. -/
theorem mbrEntries_reports (length : sector0.length = 512) {out table : PartitionTable}
    {i left : Nat} (few : i + left ≤ 4) (room : out.partitions.length ≤ i)
    (run : mbrEntries sector0 out i left = .ok table) :
    table.partitions = out.partitions ++ (mbrPlaces i left).filterMap (mbrEntryAt sector0) := by
  induction left generalizing out i with
  | zero =>
    cases run
    simp [mbrPlaces]
  | succ left ih =>
    have inside : mbrPartitionTableOffset + i * mbrEntrySize + 16 ≤ sector0.length := by
      simp only [mbrPartitionTableOffset, mbrEntrySize]
      omega
    have places : mbrPlaces i (left + 1)
        = (mbrPartitionTableOffset + i * mbrEntrySize) :: mbrPlaces (i + 1) left := rfl
    simp only [mbrEntries, mbrEntryPlausible_ok inside, ok_bind] at run
    rw [places]
    cases here : mbrEntryAt sector0 (mbrPartitionTableOffset + i * mbrEntrySize) with
    | none =>
      simp only [here] at run
      rw [ih (by omega) (by omega) run, filterMap_cons_none here]
    | some entry => ?_
    -- At most one partition was added for each entry before, so there is room.
    have free : out.partitions.length < maxPartitions := by
      simp only [maxPartitions]
      omega
    simp only [here, dif_pos free] at run
    have added := ih (by omega)
      (by rw [PartitionTable.add, length_append, length_singleton]; omega) run
    rw [added, filterMap_cons_some here, PartitionTable.add, append_assoc, singleton_append]

/-- Whatever a list of entries makes of each, the ones taken match what is on the disk. -/
theorem taken_real (entries : List Nat) :
    Forall₂ Real (entries.filterMap (mbrEntryAt sector0))
      ((entries.filter fun entry => (mbrEntryAt sector0 entry).isSome).map
        (mbrExtent sector0)) := by
  induction entries with
  | nil => exact .nil
  | cons entry rest ih =>
    cases here : mbrEntryAt sector0 entry with
    | none =>
      rw [filterMap_cons_none here, filter_cons_of_neg (by simp [here])]
      exact ih
    | some reported =>
      rw [filterMap_cons_some here, filter_cons_of_pos (by simp [here]), map_cons]
      exact .cons (mbrEntryAt_real here) ih

end Mbr

/-- The two addresses of a GPT entry. -/
structure GptEntry where
  startLba : UInt64
  endLba : UInt64

namespace GptEntry

/-- What the entry says: its last sector is its own. -/
def extent (entry : GptEntry) : Extent :=
  ⟨entry.startLba.toNat, entry.endLba.toNat - entry.startLba.toNat + 1⟩

/-- What is reported of it. -/
def reported (entry : GptEntry) : PartitionEntry :=
  ⟨entry.startLba.toUInt32, (entry.endLba - entry.startLba + 1).toUInt32, 0⟩

/-- The lower halves are the whole of it exactly if the entry is a range of 32-bit addresses. -/
theorem real_iff {entry : GptEntry} : Real entry.reported entry.extent ↔ Sane entry.extent := by
  have start32 : entry.reported.startLba.toNat = entry.startLba.toNat % 2 ^ 32 :=
    UInt64.toNat_toUInt32 _
  have bound := entry.endLba.toNat_lt
  constructor
  · rintro ⟨start, count, startPos, countPos, addressable⟩
    have positive : entry.reported.sectorCount.toNat ≠ 0 :=
      fun zero => countPos (UInt32.toNat_inj.mp zero)
    rw [Sane, ← start, ← count]
    omega
  · rintro ⟨startPos, countPos, addressable⟩
    simp only [extent] at startPos countPos addressable
    -- An end that is not before the start is subtracted without wrapping.
    have ordered : entry.startLba.toNat ≤ entry.endLba.toNat := by omega
    have count32 : entry.reported.sectorCount.toNat
        = entry.endLba.toNat - entry.startLba.toNat + 1 := by
      have difference : (entry.endLba - entry.startLba).toNat
          = entry.endLba.toNat - entry.startLba.toNat :=
        UInt64.toNat_sub_of_le _ _ (UInt64.le_iff_toNat_le.mpr ordered)
      have value : entry.reported.sectorCount.toNat
          = (entry.endLba - entry.startLba + 1).toNat % 2 ^ 32 := UInt64.toNat_toUInt32 _
      rw [value, UInt64.toNat_add, difference]
      show (entry.endLba.toNat - entry.startLba.toNat + 1) % 2 ^ 64 % 2 ^ 32 = _
      omega
    refine ⟨?_, ?_, ?_, ?_, ?_⟩
    · rw [start32]
      show _ = entry.startLba.toNat
      omega
    · rw [count32]
      show _ = (entry.endLba.toNat : Int) - entry.startLba.toNat + 1
      omega
    · omega
    · intro zero
      rw [zero] at count32
      exact absurd count32 (by simp)
    · omega

end GptEntry

section Gpt

variable {dev after : Device} {hdr : GptHeader} {i : Nat} {out : PartitionTable}
  {loaded : Option (UInt32 × Bytes)} {left : Nat}

/-- A used entry of the array, as it is on the disk. -/
def gptEntryAt (dev : Device) (hdr : GptHeader) (i : Nat) : Option GptEntry :=
  let buf := entrySector dev hdr (hdr.sectorIdx (UInt32.ofNat i))
  let off := (hdr.offsetInSector (UInt32.ofNat i)).toNat
  if ∀ k < 16, buf.getD (off + k) 0 = 0 then none
  else some ⟨getU64Le buf (off + 32), getU64Le buf (off + 40)⟩

/-- The first used entries, as many as a table has room for. -/
def gptUsed (dev : Device) (hdr : GptHeader) : List GptEntry :=
  ((List.range hdr.numPartitionEntries.toNat).filterMap (gptEntryAt dev hdr)).take maxPartitions

theorem gptEntryAt_unused (unused : unusedAt dev hdr (UInt32.ofNat i) = .ok true) :
    gptEntryAt dev hdr i = none :=
  if_pos ((typeIsZero_value unused).mp rfl)

/-- A read that comes to an answer gives the bytes at its place. -/
theorem readU64_value {buf : Bytes} {off : Nat} {value : UInt64}
    (read : readU64 buf off = .ok value) : value = getU64Le buf off := by
  rw [readU64] at read
  split at read
  · cases read
    rfl
  · cases read

/-- A used entry is added, if its addresses are read at all. -/
theorem gptEntries_used (sound : dev.faults = noFaults) (current : Current dev hdr loaded)
    (room : out.partitions.length < maxPartitions)
    (used : unusedAt dev hdr (UInt32.ofNat i) = .ok false) {result : PartitionTable × Device}
    (run : gptEntries dev hdr out loaded (UInt32.ofNat i) (left + 1) = .ok result) :
    ∃ entry, gptEntryAt dev hdr i = some entry ∧
      gptEntries dev hdr (out.add entry.reported room)
        (some (hdr.sectorIdx (UInt32.ofNat i),
          entrySector dev hdr (hdr.sectorIdx (UInt32.ofNat i))))
        (UInt32.ofNat (i + 1)) left = .ok result := by
  refine ⟨_, if_neg fun zeros => ?_, ?_⟩
  · cases (typeIsZero_value used).mpr zeros
  have next : UInt32.ofNat (i + 1) = UInt32.ofNat i + 1 := by simp
  rw [unusedAt] at used
  rw [gptEntries, dif_pos room, loadSector_current sound current] at run
  simp only [used, ok_bind, Bool.false_eq_true, if_false] at run
  cases first : readU64 (entrySector dev hdr (hdr.sectorIdx (UInt32.ofNat i)))
      ((hdr.offsetInSector (UInt32.ofNat i)).toNat + 32) with
  | error fault =>
    rw [first, error_bind] at run
    cases run
  | ok start =>
    cases second : readU64 (entrySector dev hdr (hdr.sectorIdx (UInt32.ofNat i)))
        ((hdr.offsetInSector (UInt32.ofNat i)).toNat + 40) with
    | error fault =>
      rw [first, ok_bind, second, error_bind] at run
      cases run
    | ok last =>
      rw [first, ok_bind, second, ok_bind] at run
      rw [next, ← readU64_value first, ← readU64_value second]
      exact run

/-- The loop reports the used entries in their order, as far as there is room. -/
theorem gptEntries_reports (sound : dev.faults = noFaults) (current : Current dev hdr loaded)
    {table : PartitionTable}
    (run : gptEntries dev hdr out loaded (UInt32.ofNat i) left = .ok (table, after)) :
    after = dev ∧ table.partitions = out.partitions
      ++ (((range' i left).filterMap (gptEntryAt dev hdr)).take
        (maxPartitions - out.partitions.length)).map GptEntry.reported := by
  induction left generalizing out loaded i with
  | zero =>
    cases run
    simp
  | succ left ih =>
    by_cases room : out.partitions.length < maxPartitions
    · have next : UInt32.ofNat i + 1 = UInt32.ofNat (i + 1) := by simp
      rw [range'_succ]
      cases type : unusedAt dev hdr (UInt32.ofNat i) with
      | error fault =>
        rw [unusedAt] at type
        rw [gptEntries, dif_pos room, loadSector_current sound current] at run
        simp only [type, error_bind] at run
        cases run
      | ok zero => ?_
      cases zero with
      | true =>
        rw [gptEntries_unused sound current room type, next] at run
        rw [filterMap_cons_none (gptEntryAt_unused type)]
        exact ih (.some _) run
      | false => ?_
      obtain ⟨entry, here, rest⟩ := gptEntries_used sound current room type run
      obtain ⟨same, added⟩ := ih (.some _) rest
      refine ⟨same, ?_⟩
      -- One place of the table goes to this entry.
      have places : maxPartitions - out.partitions.length
          = (maxPartitions - (out.partitions.length + 1)) + 1 := by omega
      rw [added, filterMap_cons_some here, places, take_succ_cons, map_cons, PartitionTable.add,
        length_append, length_singleton, append_assoc, singleton_append]
    · -- A full table ends the loop, and has no place left.
      have full : maxPartitions - out.partitions.length = 0 := by omega
      rw [gptEntries, dif_neg room] at run
      cases run
      rw [full]
      simp

/-- A GPT that is taken for the table of its disk: one of entries of a size that divides a sector,
of which one is used. -/
def TakenGpt (dev : Device) : Prop :=
  (headerOf dev).signature = ascii "EFI PART" ∧ declaredEntrySize dev ≠ 0 ∧
    512 % declaredEntrySize dev = 0 ∧ gptUsed dev (headerOf dev) ≠ []

/-- What a GPT is reported to hold is what its used entries are reported as. -/
theorem tryParseGpt_reports (sound : dev.faults = noFaults) {found : Bool}
    (run : tryParseGpt dev .empty = .ok (found, out, after)) :
    after = dev ∧ (found = true ↔ TakenGpt dev) ∧ (found = false → out.partitions = []) ∧
      (found = true → out.scheme = .gpt ∧
        out.partitions = (gptUsed dev (headerOf dev)).map GptEntry.reported) := by
  have header : readHeader (dev.disk (dev.targetLba 1)).val = .ok (headerOf dev) :=
    if_pos (by rw [(dev.disk _).property]; decide)
  rw [tryParseGpt, readOne_sound sound] at run
  simp only [header, ok_bind] at run
  rw [TakenGpt, declaredEntrySize]
  split at run
  · rename_i unsigned
    cases run
    exact ⟨rfl, ⟨Bool.noConfusion, fun taken => absurd taken.1 (by simpa using unsigned)⟩,
      fun _ => rfl, Bool.noConfusion⟩
  rename_i signed
  split at run
  · rename_i uneven
    cases run
    exact ⟨rfl, ⟨Bool.noConfusion, fun taken => absurd uneven (by simp [taken])⟩, fun _ => rfl,
      Bool.noConfusion⟩
  rename_i accepted
  simp only [Bool.or_eq_true, beq_iff_eq, bne_iff_ne, not_or, not_not] at signed accepted
  cases entries : gptEntries dev (headerOf dev) .empty none 0
      (headerOf dev).numPartitionEntries.toNat with
  | error fault =>
    rw [entries, error_bind] at run
    cases run
  | ok result =>
    obtain ⟨table, last⟩ := result
    have start : (0 : UInt32) = UInt32.ofNat 0 := rfl
    rw [entries, ok_bind] at run
    rw [start] at entries
    obtain ⟨same, reported⟩ := gptEntries_reports sound .none entries
    simp only [pure, Except.pure, Except.ok.injEq, Prod.mk.injEq] at run
    obtain ⟨rfl, rfl, rfl⟩ := run
    have used : table.partitions = (gptUsed dev (headerOf dev)).map GptEntry.reported := by
      have nothing : PartitionTable.empty.partitions = [] := rfl
      rw [reported, nothing, nil_append, length_nil, Nat.sub_zero, gptUsed, range_eq_range']
    refine ⟨same, ?_, fun none => by simpa using none, fun _ => ⟨rfl, used⟩⟩
    rw [decide_eq_true_eq, length_pos_iff, used, ne_eq, map_eq_nil_iff]
    exact ⟨fun some_used => ⟨signed, accepted.1, accepted.2, some_used⟩, (·.2.2.2)⟩

end Gpt

/-- What is on the disk of the partitions that a table of this scheme holds. -/
def sources (dev : Device) : PartitionScheme → List Extent
  | .none => []
  | .mbr => mbrSources (dev.disk (dev.targetLba 0)).val
  | .gpt => (gptUsed dev (headerOf dev)).map GptEntry.extent

section Tables

variable {dev after : Device} {table : PartitionTable} {found : Bool}

/-- A table of a GPT is real exactly if the entries it was made of are. -/
theorem gpt_real_iff {used : List GptEntry} :
    Forall₂ Real (used.map GptEntry.reported) (used.map GptEntry.extent) ↔
      ∀ stored ∈ used.map GptEntry.extent, Sane stored := by
  rw [forall₂_map_left_iff, forall₂_map_right_iff, forall₂_same]
  simp only [GptEntry.real_iff, forall_mem_map]

/-- A table of the boot sector is real. -/
theorem mbrTable_reports {sector0 : Bytes} (length : sector0.length = 512)
    {out : PartitionTable} (nothing : out.partitions = [])
    (run : mbrTable sector0 out dev = .ok (found, table, after)) :
    (found = false → table.partitions = []) ∧
      (found = true → table.scheme = .mbr ∧
        Forall₂ Real table.partitions (mbrSources sector0)) := by
  rw [mbrTable] at run
  cases entries : mbrEntries sector0 out 0 4 with
  | error fault =>
    rw [entries, error_bind] at run
    cases run
  | ok parsed => ?_
  have reported := mbrEntries_reports length (by omega) (by rw [nothing]; exact Nat.le_refl 0)
    entries
  rw [nothing, nil_append] at reported
  rw [entries, ok_bind] at run
  split at run
  · cases run
    refine ⟨Bool.noConfusion, fun _ => ⟨rfl, ?_⟩⟩
    rw [reported]
    exact taken_real (mbrPlaces 0 4)
  · rename_i none
    cases run
    refine ⟨fun _ => ?_, Bool.noConfusion⟩
    exact eq_nil_of_length_eq_zero (by omega)

/--
The table is the GPT's exactly if the boot sector stands for a GPT and that is taken. What is
reported of the boot sector's entries is real. What is reported of a GPT is real exactly if every
entry used is a range of 32-bit addresses that does not start at zero; nothing checks that. A table
that is not reported is empty.
-/
theorem partition_table_real (sound : dev.faults = noFaults)
    (run : partitionReadTable dev = .ok (found, table, after)) :
    (found = false → table.partitions = []) ∧
      (found = true → (table.scheme = .gpt ↔ Protective dev ∧ TakenGpt dev) ∧
        (List.Forall₂ Real table.partitions (sources dev table.scheme) ↔
          (Protective dev ∧ TakenGpt dev → ∀ stored ∈ sources dev .gpt, Sane stored))) := by
  have length : (dev.disk (dev.targetLba 0)).val.length = 512 := (dev.disk _).property
  have fallback {out : PartitionTable} (nothing : out.partitions = [])
      (other : ¬(Protective dev ∧ TakenGpt dev))
      (run : mbrTable (dev.disk (dev.targetLba 0)).val out dev = .ok (found, table, after)) :
      (found = false → table.partitions = []) ∧
        (found = true → (table.scheme = .gpt ↔ Protective dev ∧ TakenGpt dev) ∧
          (Forall₂ Real table.partitions (sources dev table.scheme) ↔
            (Protective dev ∧ TakenGpt dev → ∀ stored ∈ sources dev .gpt, Sane stored))) := by
    obtain ⟨empty, real⟩ := mbrTable_reports length nothing run
    refine ⟨empty, fun reported => ?_⟩
    obtain ⟨scheme, all⟩ := real reported
    rw [scheme]
    exact ⟨iff_of_false (by decide) other, iff_of_true all fun taken => absurd taken other⟩
  rw [partitionReadTable, readOne_sound sound] at run
  simp only [byteAt_boot length, ok_bind] at run
  split at run
  · cases run
    exact ⟨fun _ => rfl, Bool.noConfusion⟩
  rename_i signed
  simp only [Bool.or_eq_true, bne_iff_ne, not_or, not_not] at signed
  split at run
  · rename_i type
    have boot : Protective dev := ⟨signed.1, signed.2, eq_of_beq type⟩
    cases parsed : tryParseGpt dev .empty with
    | error fault =>
      rw [parsed, error_bind] at run
      cases run
    | ok result => ?_
    obtain ⟨gpt, out, last⟩ := result
    obtain ⟨rfl, taken, none, used⟩ := tryParseGpt_reports sound parsed
    rw [parsed, ok_bind] at run
    cases gpt with
    | true =>
      obtain ⟨scheme, reported⟩ := used rfl
      cases run
      have both := And.intro boot (taken.mp rfl)
      refine ⟨Bool.noConfusion, fun _ => ⟨iff_of_true scheme both, ?_⟩⟩
      rw [scheme, reported, sources, gpt_real_iff]
      exact ⟨fun all _ => all, fun all => all both⟩
    | false => exact fallback (none rfl) (fun both => Bool.false_ne_true (taken.mpr both.2)) run
  · rename_i other
    exact fallback rfl (fun both => other (beq_iff_eq.mpr both.1.2.2)) run

end Tables

section Beyond

/-- A disk of one GPT entry of 128 bytes, with the given words for its two addresses. -/
def singleDev (startLow startHigh endLow endHigh : UInt32) : Device where
  disk := fun addr =>
    if addr = 0 then Sector.ofBytes protectiveMbr
    else if addr = 1 then Sector.ofBytes (gptHeader 1 128)
    else Sector.ofBytes (putU32Le (putU32Le (putU32Le (putU32Le
      (List.replicate 32 1 ++ List.replicate 16 0) 32 startLow) 36 startHigh) 40 endLow) 44 endHigh)
  activeDevice := 0
  partitionOffset := 0
  faults := noFaults
  issued := []

/-- The one partition that is reported of such a disk. -/
theorem singleDev_reports {startLow startHigh endLow endHigh : UInt32} {entry : PartitionEntry}
    (run : (partitionReadTable (singleDev startLow startHigh endLow endHigh)).toOption.map
      (fun result => (result.1, result.2.1.scheme, result.2.1.partitions))
        = some (true, .gpt, [entry])) :
    ∃ table after,
      partitionReadTable (singleDev startLow startHigh endLow endHigh) = .ok (true, table, after) ∧
        table.scheme = .gpt ∧ table.partitions = [entry] := by
  cases read : partitionReadTable (singleDev startLow startHigh endLow endHigh) with
  | error fault =>
    rw [read] at run
    cases run
  | ok result =>
    obtain ⟨found, table, after⟩ := result
    simp only [read, Except.toOption, Option.map_some, Option.some.injEq, Prod.mk.injEq] at run
    obtain ⟨rfl, scheme, partitions⟩ := run
    exact ⟨table, after, rfl, scheme, partitions⟩

set_option maxRecDepth 4000

/-- Of an entry above the 32-bit addresses the lower halves are reported, and one that starts at
zero is reported as it is. -/
theorem partition_table_unreal :
    (∃ table after, partitionReadTable (singleDev 5 1 9 1) = .ok (true, table, after) ∧
      table.partitions = [⟨5, 5, 0⟩] ∧
      sources (singleDev 5 1 9 1) table.scheme = [⟨2 ^ 32 + 5, 5⟩]) ∧
    ∃ table after, partitionReadTable (singleDev 0 0 9 0) = .ok (true, table, after) ∧
      table.partitions = [⟨0, 10, 0⟩] := by
  have high : (partitionReadTable (singleDev 5 1 9 1)).toOption.map
      (fun result => (result.1, result.2.1.scheme, result.2.1.partitions))
        = some (true, .gpt, [⟨5, 5, 0⟩]) := by decide
  have stored : sources (singleDev 5 1 9 1) .gpt = [⟨2 ^ 32 + 5, 5⟩] := by decide
  have zero : (partitionReadTable (singleDev 0 0 9 0)).toOption.map
      (fun result => (result.1, result.2.1.scheme, result.2.1.partitions))
        = some (true, .gpt, [⟨0, 10, 0⟩]) := by decide
  obtain ⟨table, after, run, scheme, partitions⟩ := singleDev_reports high
  obtain ⟨table', after', run', _, partitions'⟩ := singleDev_reports zero
  exact ⟨⟨table, after, run, partitions, by rw [scheme, stored]⟩, table', after', run', partitions'⟩

/-- A partition of sectors 34 to 99 is reported as what it is. -/
theorem partition_table_real_single :
    ∃ table after, partitionReadTable (singleDev 34 0 99 0) = .ok (true, table, after) ∧
      List.Forall₂ Real table.partitions (sources (singleDev 34 0 99 0) table.scheme) := by
  have read : (partitionReadTable (singleDev 34 0 99 0)).toOption.map
      (fun result => (result.1, result.2.1.scheme, result.2.1.partitions))
        = some (true, .gpt, [⟨34, 66, 0⟩]) := by decide
  have stored : sources (singleDev 34 0 99 0) .gpt = [⟨34, 66⟩] := by decide
  obtain ⟨table, after, run, scheme, _⟩ := singleDev_reports read
  refine ⟨table, after, run, ((partition_table_real rfl run).2 rfl).2.mpr fun _ => ?_⟩
  rw [stored]
  intro extent member
  rw [mem_singleton] at member
  subst member
  exact ⟨by decide, by decide, by decide⟩

end Beyond

end NovaOs.Partition
