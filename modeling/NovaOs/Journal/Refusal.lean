import NovaOs.Journal.View

/-! What a write that the table has no room for leaves behind. -/

namespace NovaOs

variable {js : JournalState} {lba : UInt32}

/-- Whether or not all sectors are taken, entries are only replaced or added at the end, and only
for the addresses written to. -/
theorem shadowSectors_grows (js : JournalState) (lba : UInt32) (src : List Sector) :
    js.held.length ≤ (shadowSectors js lba src).2.held.length
      ∧ ∀ other, (∀ i < src.length, other ≠ lba + UInt32.ofNat i) →
        (shadowSectors js lba src).2.heldAt other = js.heldAt other := by
  induction src generalizing js lba with
  | nil => exact ⟨Nat.le_refl _, fun _ _ => rfl⟩
  | cons sector rest ih =>
    rw [shadowSectors]
    cases took : shadowSector js lba sector with
    | none => exact ⟨Nat.le_refl _, fun _ _ => rfl⟩
    | some next => ?_
    obtain ⟨longer, others⟩ := ih next (lba + 1)
    have grown : js.held.length ≤ next.held.length := by
      rw [held_shadowSector took]
      split <;> simp
    refine ⟨Nat.le_trans grown longer, fun other away => ?_⟩
    have first : other ≠ lba := by simpa using away 0 (by simp)
    rw [others other, heldAt_shadowSector took, if_neg first]
    intro i small
    rw [← ofNat_succ]
    exact away (i + 1) (by simpa using small)

/-- Holding back what is held already changes nothing. -/
theorem shadowSector_same {sector : Sector} (held : js.heldAt lba = some sector) :
    shadowSector js lba sector = some js := by
  have member : lba ∈ js.held := heldAt_isSome.mp (by rw [held]; rfl)
  unfold shadowSector
  cases slot : js.findShadow lba with
  | none =>
    -- The address is held, so that a slot is found for it.
    obtain ⟨entry, inside, same⟩ := List.mem_map.mp member
    have miss := List.findIdx?_eq_none_iff.mp slot entry inside
    simp [same] at miss
  | some idx => ?_
  obtain ⟨within, same, earlier⟩ := List.findIdx?_eq_some_iff_getElem.mp slot
  have found : js.shadow.val.find? (fun entry => entry.1 == lba) = some js.shadow.val[idx] :=
    List.find?_eq_some_iff_getElem.mpr ⟨same, idx, within, rfl, by simpa using earlier⟩
  have data : js.shadow.val[idx].2 = sector := by
    simpa [JournalState.heldAt, found] using held
  have entry : (lba, sector) = js.shadow.val[idx] := by
    rw [← data, ← beq_iff_eq.mp same]
  simp only [entry, List.set_getElem_self]

/-- A refused run of sectors leaves the table as it was exactly if the table was full, and every
sector in front of the one refused was held with the same data. -/
theorem shadowSectors_refused_iff {src : List Sector} (short : src.length ≤ 2 ^ 32)
    (refused : (shadowSectors js lba src).1 = false) :
    (shadowSectors js lba src).2 = js ↔ js.held.length = maxTxnBlocks
      ∧ ∀ i (within : i < src.length), (∀ j ≤ i, lba + UInt32.ofNat j ∈ js.held) →
        js.heldAt (lba + UInt32.ofNat i) = some src[i] := by
  induction src generalizing js lba with
  | nil => cases refused
  | cons sector rest ih =>
    rw [List.length_cons] at short
    rw [shadowSectors] at refused ⊢
    have most : js.held.length ≤ maxTxnBlocks := by simpa [JournalState.held] using js.shadow.2
    cases took : shadowSector js lba sector with
    | none =>
      -- The first sector is the one refused.
      obtain ⟨missing, full⟩ := shadowSector_none took
      refine ⟨fun _ => ⟨Nat.le_antisymm most full, fun i within all => ?_⟩, fun _ => rfl⟩
      exact absurd (by simpa using all 0 (Nat.zero_le i)) missing
    | some next => ?_
    simp only [took] at refused ⊢
    have grown := held_shadowSector took
    obtain ⟨longer, others⟩ := shadowSectors_grows next (lba + 1) rest
    by_cases member : lba ∈ js.held
    · have zero : lba + UInt32.ofNat 0 = lba := by simp
      by_cases data : js.heldAt lba = some sector
      · -- The first sector was held with this very data: it is left out of account.
        cases (shadowSector_same data).symm.trans took
        rw [ih (by omega) refused]
        refine and_congr_right fun _ => ⟨fun same i within all => ?_, fun same i within all => ?_⟩
        · cases i with
          | zero => rw [zero]; exact data
          | succ i =>
            rw [ofNat_succ]
            refine same i (by simpa using within) fun j before => ?_
            rw [← ofNat_succ]
            exact all (j + 1) (by omega)
        · rw [← ofNat_succ]
          refine same (i + 1) (by simpa using within) fun j before => ?_
          cases j with
          | zero => rw [zero]; exact member
          | succ j =>
            rw [ofNat_succ]
            exact all j (by omega)
      · -- The first sector has replaced other data, and none of the rest brings that back.
        constructor
        · intro same
          have kept := others lba fun i small here => by
            rw [← ofNat_succ] at here
            exact offset_ne_self (by omega) (by omega) here.symm
          rw [same, heldAt_shadowSector took, if_pos rfl] at kept
          exact absurd kept data
        · rintro ⟨-, same⟩
          have first := same 0 (by simp) fun j before => by
            rw [Nat.le_zero.mp before, zero]
            exact member
          rw [zero] at first
          exact absurd first data
    · -- The first sector was added, so that the table was not full and has grown.
      rw [if_neg member] at grown
      have size : next.held.length = js.held.length + 1 := by simp [grown]
      constructor
      · intro same
        rw [same] at longer
        omega
      · rintro ⟨full, -⟩
        have room : next.held.length ≤ maxTxnBlocks := by
          simpa [JournalState.held] using next.shadow.2
        omega

/-- A write that is refused inside a transaction leaves the transaction as it was exactly if the
table was full before, and every sector in front of the one refused was held with the same data. -/
theorem refused_write_unchanged_iff {js after : JournalState} {dev dev' : Device} {lba : UInt32}
    {src : List Sector} (inside : js.depth ≠ 0) (short : src.length ≤ 255)
    (refused : rustJournalWriteSectors js dev lba src = (false, after, dev')) :
    (after = js ∧ dev' = dev) ↔ js.held.length = maxTxnBlocks
      ∧ ∀ i (within : i < src.length), (∀ j ≤ i, lba + UInt32.ofNat j ∈ js.held) →
        js.heldAt (lba + UInt32.ofNat i) = some src[i] := by
  rw [rustJournalWriteSectors, writeSectorsInternal, if_neg (by simpa using inside)] at refused
  simp only [Prod.mk.injEq] at refused
  obtain ⟨no, rfl, rfl⟩ := refused
  rw [and_iff_left rfl]
  exact shadowSectors_refused_iff (by omega) no

/-- A transaction without a region of its own that holds so many sectors of zeros back. -/
def holding (count : Nat) : JournalState :=
  { JournalState.new with
    depth := 1
    shadow := Shadow.ofList ((List.range count).map fun i => (UInt32.ofNat i, zeroSector)) }

/-- A sector of ones. -/
def onesSector : Sector := ⟨List.replicate sectorSize 1, by simp⟩

/-- A disk of zeros on which no transfer fails. -/
def blankDevice : Device where
  disk := fun _ => zeroSector
  activeDevice := 0
  partitionOffset := 0
  faults := noFaults
  issued := []

set_option maxRecDepth 2000

/-- With room for one sector, a write of two is refused, and the next commit applies its first. -/
theorem refused_write_applied :
    (rustJournalWriteSectors (holding 127) blankDevice 1000 [onesSector, onesSector]).1 = false
    ∧ (holding 127).heldAt 1000 = none
    ∧ (rustJournalCommit
        (rustJournalWriteSectors (holding 127) blankDevice 1000 [onesSector, onesSector]).2.1
        blankDevice).2.2.disk 1000 = onesSector
    ∧ (rustJournalCommit (holding 127) blankDevice).2.2.disk 1000 = zeroSector := by
  decide

/-- With the table full, a write whose first sector is new is refused without a trace. -/
theorem refused_write_unchanged_full :
    ∃ after dev, rustJournalWriteSectors (holding 128) blankDevice 1000 [onesSector, onesSector]
        = (false, after, dev)
      ∧ after = holding 128 ∧ dev = blankDevice := by
  have refused : (rustJournalWriteSectors (holding 128) blankDevice 1000
      [onesSector, onesSector]).1 = false := by decide
  have first : (1000 : UInt32) ∉ (holding 128).held := by decide
  have full : (holding 128).held.length = maxTxnBlocks := by decide
  generalize result : rustJournalWriteSectors (holding 128) blankDevice 1000
    [onesSector, onesSector] = outcome at refused
  obtain ⟨ok, after, dev⟩ := outcome
  cases refused
  refine ⟨after, dev, rfl, (refused_write_unchanged_iff (show (holding 128).depth ≠ 0 by decide)
    (show [onesSector, onesSector].length ≤ 255 by decide) result).mpr ⟨full, ?_⟩⟩
  intro i _ all
  exact absurd (all 0 (Nat.zero_le i)) (by simpa using first)

end NovaOs
